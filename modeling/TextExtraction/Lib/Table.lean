import Mathlib.Algebra.Ring.Int.Defs
import Mathlib.Data.List.Sort
import Mathlib.Data.List.Nodup
import Mathlib.Data.List.Forall2

/-!
# Keyed tables

A relational table is a list of rows with pairwise distinct primary keys; the key condition is a
field, so no statement can build a table that breaks it. `select`, `updateWhere` and `deleteWhere`
are the `WHERE` forms of `SELECT`, `UPDATE` and `DELETE`, `insert?` is `INSERT` with its primary
key conflict, `orderBy` is `ORDER BY`. Every operation is described by what it does to `lookup` of
one key and to `select` by a predicate it keeps; nothing else about a table is needed later.
-/

namespace Relational

variable {κ ρ β : Type}

/-- An integer that a 64-bit column can hold, and a statement bind. -/
def Bindable (n : ℤ) : Prop := -2 ^ 63 ≤ n ∧ n < 2 ^ 63

instance (n : ℤ) : Decidable (Bindable n) :=
  inferInstanceAs (Decidable (_ ∧ _))

/-! ### `ORDER BY` -/

section OrderBy
variable [LinearOrder β]

/-- `ORDER BY f`. -/
def orderBy (f : ρ → β) (l : List ρ) : List ρ :=
  l.insertionSort fun a b => f a ≤ f b

@[simp] theorem mem_orderBy {f : ρ → β} {l : List ρ} {a : ρ} : a ∈ orderBy f l ↔ a ∈ l :=
  List.mem_insertionSort _

theorem orderBy_perm (f : ρ → β) (l : List ρ) : (orderBy f l).Perm l :=
  List.perm_insertionSort _ l

theorem orderBy_pairwise (f : ρ → β) (l : List ρ) :
    (orderBy f l).Pairwise fun a b => f a ≤ f b :=
  haveI : Std.Total fun a b : ρ => f a ≤ f b := ⟨fun a b => le_total (f a) (f b)⟩
  haveI : IsTrans ρ fun a b => f a ≤ f b := ⟨fun _ _ _ h₁ h₂ => le_trans h₁ h₂⟩
  List.pairwise_insertionSort _ l

theorem orderBy_of_pairwise {f : ρ → β} {l : List ρ} (h : l.Pairwise fun a b => f a ≤ f b) :
    orderBy f l = l :=
  h.insertionSort_eq

theorem orderBy_orderBy (f : ρ → β) (l : List ρ) : orderBy f (orderBy f l) = orderBy f l :=
  orderBy_of_pairwise (orderBy_pairwise f l)

/-- A map that keeps the order of the keys keeps the order of the rows. -/
theorem orderBy_map_of_le_iff {σ γ : Type} [LinearOrder γ] {f : ρ → β} {f' : σ → γ} {g : ρ → σ}
    (hg : ∀ a b, f' (g a) ≤ f' (g b) ↔ f a ≤ f b) (l : List ρ) :
    orderBy f' (l.map g) = (orderBy f l).map g :=
  (List.map_insertionSort _ _ g l fun a _ b _ => (hg a b).symm).symm

theorem orderBy_map {σ : Type} {f : ρ → β} {f' : σ → β} {g : ρ → σ} (hg : ∀ a, f' (g a) = f a)
    (l : List ρ) : orderBy f' (l.map g) = (orderBy f l).map g :=
  orderBy_map_of_le_iff (fun a b => by rw [hg, hg]) l

theorem filter_orderedInsert {f : ρ → β} (p : ρ → Bool) (a : ρ) {l : List ρ}
    (h : l.Pairwise fun a b => f a ≤ f b) :
    (l.orderedInsert (fun a b => f a ≤ f b) a).filter p =
      if p a then (l.filter p).orderedInsert (fun a b => f a ≤ f b) a else l.filter p := by
  induction l with
  | nil => cases hp : p a <;> simp [hp]
  | cons b l ih =>
    obtain ⟨hb, hl⟩ := List.pairwise_cons.1 h
    by_cases hab : f a ≤ f b
    · rw [List.orderedInsert_cons_of_le (r := fun a b => f a ≤ f b) _ hab]
      cases hp : p a with
      | false => simp [List.filter_cons, hp]
      | true =>
        have hle : ∀ c ∈ (b :: l).filter p, f a ≤ f c := fun c hc => by
          rcases List.mem_cons.1 (List.mem_of_mem_filter hc) with rfl | hc
          · exact hab
          · exact le_trans hab (hb c hc)
        rw [List.filter_cons_of_pos hp]
        cases hf : (b :: l).filter p with
        | nil => simp
        | cons c m =>
          have hc : f a ≤ f c := hle c (by rw [hf]; exact List.mem_cons_self)
          simp [List.orderedInsert_cons, hc]
    · rw [List.orderedInsert_cons, if_neg hab]
      cases hpb : p b with
      | false => simp only [List.filter_cons, hpb, Bool.false_eq_true, ↓reduceIte, ih hl]
      | true =>
        simp only [List.filter_cons, hpb, ↓reduceIte, ih hl]
        cases hp : p a <;> simp [List.orderedInsert_cons, hab]

theorem forall₂_orderedInsert {σ : Type} {R : ρ → σ → Prop} {f : ρ → β} {g : σ → β}
    (hkey : ∀ a b, R a b → f a = g b) {a : ρ} {b : σ} (hab : R a b) {l : List ρ} {m : List σ}
    (h : List.Forall₂ R l m) :
    List.Forall₂ R (l.orderedInsert (fun a b => f a ≤ f b) a)
      (m.orderedInsert (fun a b => g a ≤ g b) b) := by
  induction h with
  | nil => exact .cons hab .nil
  | @cons c d l m hcd h ih =>
    have hle : f a ≤ f c ↔ g b ≤ g d := by rw [hkey a b hab, hkey c d hcd]
    rw [List.orderedInsert_cons, List.orderedInsert_cons]
    by_cases hac : f a ≤ f c
    · rw [if_pos hac, if_pos (hle.1 hac)]
      exact .cons hab (.cons hcd h)
    · rw [if_neg hac, if_neg (mt hle.2 hac)]
      exact .cons hcd ih

/-- Lists that agree row by row, keys included, agree row by row once sorted. -/
theorem forall₂_orderBy {σ : Type} {R : ρ → σ → Prop} {f : ρ → β} {g : σ → β}
    (hkey : ∀ a b, R a b → f a = g b) {l : List ρ} {m : List σ} (h : List.Forall₂ R l m) :
    List.Forall₂ R (orderBy f l) (orderBy g m) := by
  induction h with
  | nil => exact .nil
  | cons hab _ ih => exact forall₂_orderedInsert hkey hab ih

/-- A `WHERE` clause may be applied before or after sorting. -/
theorem orderBy_filter (f : ρ → β) (p : ρ → Bool) (l : List ρ) :
    orderBy f (l.filter p) = (orderBy f l).filter p := by
  induction l with
  | nil => rfl
  | cons a l ih =>
    have hins := filter_orderedInsert (f := f) p a (orderBy_pairwise f l)
    show orderBy f ((a :: l).filter p) = ((orderBy f l).orderedInsert _ a).filter p
    rw [hins, ← ih]
    cases hp : p a
    · simp [hp]
    · rw [List.filter_cons_of_pos hp, if_pos rfl]; rfl

end OrderBy

theorem map_filter_eq_filterMap {α β : Type} (p : α → Bool) (f : α → β) (l : List α) :
    (l.filter p).map f = l.filterMap fun a => if p a then some (f a) else none := by
  induction l with
  | nil => rfl
  | cons a l ih => by_cases h : p a = true <;> simp [h, ih]

theorem exists_right_of_forall₂ {α β : Type} {R : α → β → Prop} {l : List α} {l' : List β}
    (h : List.Forall₂ R l l') {a : α} (ha : a ∈ l) : ∃ b ∈ l', R a b := by
  induction h with
  | nil => cases ha
  | cons hab _ ih =>
    rcases List.mem_cons.1 ha with rfl | ha
    · exact ⟨_, by simp, hab⟩
    · obtain ⟨b, hb, hr⟩ := ih ha
      exact ⟨b, List.mem_cons_of_mem _ hb, hr⟩

/-- There are rows for the right when there is one for every row on the left. -/
theorem exists_forall₂_iff {α β : Type} {R : α → β → Prop} {l : List α} :
    (∃ l', List.Forall₂ R l l') ↔ ∀ a ∈ l, ∃ b, R a b := by
  constructor
  · rintro ⟨l', h⟩ a ha
    obtain ⟨b, -, hb⟩ := exists_right_of_forall₂ h ha
    exact ⟨b, hb⟩
  · intro h
    induction l with
    | nil => exact ⟨[], .nil⟩
    | cons a l ih =>
      obtain ⟨b, hb⟩ := h a (by simp)
      obtain ⟨bs, hbs⟩ := ih fun a' ha' => h a' (by simp [ha'])
      exact ⟨b :: bs, .cons hb hbs⟩

theorem map_eq_map_of_forall₂ {α β γ : Type} {f : α → γ} {g : β → γ} {l : List α} {l' : List β}
    (h : List.Forall₂ (fun a b => f a = g b) l l') : l.map f = l'.map g := by
  rw [← List.forall₂_eq_eq_eq, List.forall₂_map_left_iff, List.forall₂_map_right_iff]
  exact h

/-- What agrees under `f` on the left of two correspondences agrees under `g` on the right. -/
theorem map_congr_of_forall₂ {α β γ δ : Type} {R R' : α → β → Prop} {f : α → γ} {g : β → δ} {l m : List α}
    {l' m' : List β} (h : List.Forall₂ R l l') (h' : List.Forall₂ R' m m')
    (hg : ∀ a b a' b', a' ∈ m → R a b → R' a' b' → f a = f a' → g b = g b') (heq : l.map f = m.map f) :
    l'.map g = m'.map g := by
  induction h generalizing m m' with
  | nil =>
    cases h' with
    | nil => rfl
    | cons => cases heq
  | cons hab _ ih =>
    cases h' with
    | nil => cases heq
    | cons hab' hrest =>
      obtain ⟨hhead, htail⟩ := List.cons.inj heq
      rw [List.map_cons, List.map_cons, hg _ _ _ _ (by simp) hab hab' hhead,
        ih hrest (fun a b a' b' ha' => hg a b a' b' (List.mem_cons_of_mem _ ha')) htail]

theorem forall₂_map_right {α β γ : Type} {R : α → β → Prop} {R' : α → γ → Prop} {g : β → γ} {l : List α}
    {l' : List β} (h : List.Forall₂ R l l') (hg : ∀ a ∈ l, ∀ b ∈ l', R a b → R' a (g b)) :
    List.Forall₂ R' l (l'.map g) := by
  induction h with
  | nil => exact .nil
  | cons hab _ ih =>
    refine .cons (hg _ (by simp) _ (by simp) hab) (ih fun a ha b hb => ?_)
    exact hg a (List.mem_cons_of_mem _ ha) b (List.mem_cons_of_mem _ hb)

theorem forall₂_trans {α β γ : Type} {R : α → β → Prop} {S : β → γ → Prop} {T : α → γ → Prop}
    (h : ∀ a b c, R a b → S b c → T a c) {l : List α} {m : List β} {n : List γ} (hlm : List.Forall₂ R l m)
    (hmn : List.Forall₂ S m n) : List.Forall₂ T l n := by
  induction hlm generalizing n with
  | nil =>
    cases hmn
    exact .nil
  | cons hab _ ih =>
    cases hmn with
    | cons hbc hrest => exact .cons (h _ _ _ hab hbc) (ih hrest)

theorem getElem?_of_forall₂ {α β : Type} {R : α → β → Prop} {l : List α} {l' : List β}
    (h : List.Forall₂ R l l') (n : ℕ) :
    (l[n]? = none ∧ l'[n]? = none) ∨ ∃ a b, l[n]? = some a ∧ l'[n]? = some b ∧ R a b := by
  induction h generalizing n with
  | nil => exact .inl ⟨rfl, rfl⟩
  | @cons a b l l' hab _ ih =>
    cases n with
    | zero => exact .inr ⟨a, b, rfl, rfl, hab⟩
    | succ n => simpa using ih n

/-! ### Updating the one row of a key -/

section Key
variable {key : ρ → κ}

theorem eq_of_key_eq {l : List ρ} (h : (l.map key).Nodup) {a b : ρ} (ha : a ∈ l) (hb : b ∈ l)
    (hk : key a = key b) : a = b :=
  List.inj_on_of_nodup_map h ha hb hk

/-- Updating the row of one key moves a count by what happens to that row. -/
theorem countP_update_one [DecidableEq κ] {l : List ρ} (h : (l.map key).Nodup) {a : ρ} (ha : a ∈ l) (f : ρ → ρ)
    (p : ρ → Bool) :
    (l.map fun x => if key x = key a then f x else x).countP p + (if p a then 1 else 0) =
      l.countP p + (if p (f a) then 1 else 0) := by
  obtain ⟨l₁, l₂, rfl⟩ := List.append_of_mem ha
  have hnd : ((l₁ ++ a :: l₂).map key).Nodup := h
  simp only [List.map_append, List.map_cons] at hnd
  have hne : ∀ x, x ∈ l₁ ∨ x ∈ l₂ → key x ≠ key a := by
    intro x hx hk
    have hcons := (List.nodup_cons.1 (List.nodup_middle.1 hnd)).1
    apply hcons
    rw [← hk]
    rcases hx with hx | hx <;> simp [List.mem_append, List.mem_map_of_mem (f := key) hx]
  have keep : ∀ m : List ρ, (∀ x ∈ m, key x ≠ key a) →
      m.map (fun x => if key x = key a then f x else x) = m := fun m hm =>
    (List.map_congr_left fun x hx => if_neg (hm x hx)).trans (List.map_id m)
  rw [List.map_append, List.map_cons, if_pos rfl, keep l₁ fun x hx => hne x (.inl hx),
    keep l₂ fun x hx => hne x (.inr hx)]
  simp only [List.countP_append, List.countP_cons]
  omega

end Key

/-! ### Tables -/

/-- Rows with pairwise distinct primary keys. -/
structure Table (key : ρ → κ) where
  rows : List ρ
  nodup : (rows.map key).Nodup

namespace Table

variable {key : ρ → κ}

instance : EmptyCollection (Table key) := ⟨⟨[], List.nodup_nil⟩⟩

/-- `SELECT * … WHERE p`. -/
def select (t : Table key) (p : ρ → Bool) : List ρ := t.rows.filter p

/-- `UPDATE … SET f WHERE p`, for an assignment that leaves the primary key alone. -/
def updateWhere (t : Table key) (p : ρ → Bool) (f : ρ → ρ) (hf : ∀ r, key (f r) = key r) :
    Table key where
  rows := t.rows.map fun r => if p r then f r else r
  nodup := by
    have : (t.rows.map fun r => if p r then f r else r).map key = t.rows.map key := by
      rw [List.map_map]
      refine List.map_congr_left fun r _ => ?_
      simp only [Function.comp_apply]
      split
      · exact hf r
      · rfl
    rw [this]; exact t.nodup

/-- `DELETE … WHERE p`. -/
def deleteWhere (t : Table key) (p : ρ → Bool) : Table key where
  rows := t.rows.filter fun r => !p r
  nodup := t.nodup.sublist (List.filter_sublist.map key)

/-- The table of the rows written another way, under the same keys. -/
def map {σ : Type} {key' : σ → κ} (t : Table key) (g : ρ → σ) (hg : ∀ r, key' (g r) = key r) :
    Table key' where
  rows := t.rows.map g
  nodup := by
    rw [List.map_map, show key' ∘ g = key from funext hg]
    exact t.nodup

variable {t t' : Table key} {k : κ} {r : ρ}

@[simp] theorem rows_updateWhere (p : ρ → Bool) (f : ρ → ρ) (hf : ∀ r, key (f r) = key r) :
    (t.updateWhere p f hf).rows = t.rows.map fun r => if p r then f r else r := rfl

@[simp] theorem rows_deleteWhere (p : ρ → Bool) :
    (t.deleteWhere p).rows = t.rows.filter fun r => !p r := rfl

theorem of_mem_updateWhere {p : ρ → Bool} {f : ρ → ρ} (hf : ∀ r, key (f r) = key r)
    (h : r ∈ (t.updateWhere p f hf).rows) : ∃ r₀ ∈ t.rows, r = r₀ ∨ r = f r₀ := by
  obtain ⟨r₀, hr₀, rfl⟩ := List.mem_map.1 h
  refine ⟨r₀, hr₀, ?_⟩
  split
  · exact .inr rfl
  · exact .inl rfl

theorem ext (h : t.rows = t'.rows) : t = t' := by
  cases t; cases t'; cases h; rfl

theorem updateWhere_of_forall {p : ρ → Bool} {f : ρ → ρ} {hf : ∀ r, key (f r) = key r}
    (h : ∀ r ∈ t.rows, p r = false) : t.updateWhere p f hf = t :=
  ext ((List.map_congr_left fun r hr => by simp [h r hr]).trans (List.map_id _))

theorem select_eq_nil {p : ρ → Bool} (h : ∀ r ∈ t.rows, p r = false) : t.select p = [] :=
  List.filter_eq_nil_iff.2 fun r hr => by simp [h r hr]

theorem select_updateWhere {p : ρ → Bool} {f : ρ → ρ} (hf : ∀ r, key (f r) = key r)
    {q : ρ → Bool} (hq : ∀ r, q (f r) = q r) :
    (t.updateWhere p f hf).select q = (t.select q).map fun r => if p r then f r else r := by
  have : (q ∘ fun r => if p r then f r else r) = q := by
    funext r
    simp only [Function.comp_apply]
    split <;> simp [hq]
  rw [select, rows_updateWhere, List.filter_map, this]; rfl

theorem select_deleteWhere (p q : ρ → Bool) :
    (t.deleteWhere p).select q = (t.select q).filter fun r => !p r := by
  simp [select, List.filter_filter, Bool.and_comm]

section Map
variable {σ : Type} {key' : σ → κ} {g : ρ → σ} (hg : ∀ r, key' (g r) = key r)

@[simp] theorem rows_map : (t.map g hg).rows = t.rows.map g := rfl

theorem select_map {p : ρ → Bool} {p' : σ → Bool} (hp : ∀ r, p' (g r) = p r) :
    (t.map g hg).select p' = (t.select p).map g := by
  rw [select, rows_map, List.filter_map, show p' ∘ g = p from funext hp]; rfl

theorem updateWhere_map {p : ρ → Bool} {p' : σ → Bool} {f : ρ → ρ} {f' : σ → σ}
    {hf : ∀ r, key (f r) = key r} {hf' : ∀ r, key' (f' r) = key' r} (hp : ∀ r, p' (g r) = p r)
    (hfg : ∀ r, f' (g r) = g (f r)) :
    (t.map g hg).updateWhere p' f' hf' = (t.updateWhere p f hf).map g hg := by
  apply ext
  simp only [rows_updateWhere, rows_map, List.map_map]
  refine List.map_congr_left fun r _ => ?_
  simp only [Function.comp_apply, hp, hfg]
  split <;> rfl

theorem deleteWhere_map {p : ρ → Bool} {p' : σ → Bool} (hp : ∀ r, p' (g r) = p r) :
    (t.map g hg).deleteWhere p' = (t.deleteWhere p).map g hg := by
  apply ext
  simp only [rows_deleteWhere, rows_map, List.filter_map]
  congr 1
  refine List.filter_congr fun r _ => ?_
  simp only [Function.comp_apply, hp]

end Map

variable [DecidableEq κ]

/-- `SELECT * … WHERE primary key = k`, fetched once. -/
def lookup (t : Table key) (k : κ) : Option ρ := t.rows.find? fun r => key r = k

/-- `INSERT`: `none` is the primary key conflict. -/
def insert? (t : Table key) (r : ρ) : Option (Table key) :=
  if h : key r ∈ t.rows.map key then none
  else some ⟨t.rows ++ [r], by
    rw [List.map_append, List.nodup_append]
    exact ⟨t.nodup, List.nodup_singleton _, fun a ha b hb hab => by
      rw [List.map_singleton, List.mem_singleton] at hb
      exact h (hb ▸ hab ▸ ha)⟩⟩

theorem key_of_lookup (h : t.lookup k = some r) : key r = k := by
  simpa using List.find?_some h

theorem mem_of_lookup (h : t.lookup k = some r) : r ∈ t.rows :=
  List.mem_of_find?_eq_some h

theorem lookup_of_mem (h : r ∈ t.rows) : t.lookup (key r) = some r := by
  cases hl : t.lookup (key r) with
  | none =>
    have := List.find?_eq_none.1 hl r h
    simp at this
  | some s => rw [eq_of_key_eq t.nodup (mem_of_lookup hl) h (key_of_lookup hl)]

theorem lookup_eq_some_iff : t.lookup k = some r ↔ r ∈ t.rows ∧ key r = k :=
  ⟨fun h => ⟨mem_of_lookup h, key_of_lookup h⟩, fun ⟨h, hk⟩ => hk ▸ lookup_of_mem h⟩

theorem lookup_eq_none_iff : t.lookup k = none ↔ ∀ r ∈ t.rows, key r ≠ k := by
  simp [lookup, List.find?_eq_none]

theorem mem_select_map_key {p : ρ → Bool} :
    k ∈ (t.select p).map key ↔ ∃ r, t.lookup k = some r ∧ p r = true := by
  simp only [select, List.mem_map, List.mem_filter, lookup_eq_some_iff]
  exact ⟨fun ⟨r, ⟨hr, hp⟩, hk⟩ => ⟨r, ⟨hr, hk⟩, hp⟩, fun ⟨r, ⟨hr, hk⟩, hp⟩ => ⟨r, ⟨hr, hp⟩, hk⟩⟩

theorem select_head?_eq_lookup {p : ρ → Bool} (h : ∀ r, p r = true → key r = k) :
    (t.select p).head? = (t.lookup k).filter p := by
  rw [select, List.head?_filter]
  cases hl : t.lookup k with
  | none =>
    rw [Option.filter_none, List.find?_eq_none]
    exact fun r hr hp => lookup_eq_none_iff.1 hl r hr (h r hp)
  | some r =>
    obtain ⟨hr, hk⟩ := lookup_eq_some_iff.1 hl
    cases hp : p r with
    | true =>
      rw [Option.filter_some, if_pos hp]
      cases hf : t.rows.find? p with
      | none => exact absurd hp (List.find?_eq_none.1 hf r hr)
      | some s =>
        rw [eq_of_key_eq t.nodup (List.mem_of_find?_eq_some hf) hr
          ((h s (List.find?_some hf)).trans hk.symm)]
    | false =>
      rw [Option.filter_some, if_neg (by simp [hp]), List.find?_eq_none]
      intro s hs hps
      rw [eq_of_key_eq t.nodup hs hr ((h s hps).trans hk.symm)] at hps
      simp [hp] at hps

/-- A `WHERE` clause that fixes the primary key selects at most the row of that key. -/
theorem select_eq_lookup {p : ρ → Bool} (h : ∀ r, p r = true → key r = k) :
    t.select p = ((t.lookup k).filter p).toList := by
  rw [← select_head?_eq_lookup h]
  cases hs : t.select p with
  | nil => rfl
  | cons a l =>
    cases l with
    | nil => rfl
    | cons b l =>
      have hnd : ((t.select p).map key).Nodup := t.nodup.sublist (List.filter_sublist.map key)
      have hmem : ∀ x ∈ t.select p, key x = k := fun x hx => h x (List.of_mem_filter hx)
      rw [hs] at hnd hmem
      have hab : key a = key b := (hmem a (by simp)).trans (hmem b (by simp)).symm
      simp [hab] at hnd

theorem lookup_updateWhere (p : ρ → Bool) (f : ρ → ρ) (hf : ∀ r, key (f r) = key r) (k : κ) :
    (t.updateWhere p f hf).lookup k = (t.lookup k).map fun r => if p r then f r else r := by
  have hk : ∀ r, key (if p r then f r else r) = key r := fun r => by split <;> simp [hf]
  simp only [lookup, rows_updateWhere, List.find?_map, Function.comp_def, hk]

theorem lookup_deleteWhere (p : ρ → Bool) (k : κ) :
    (t.deleteWhere p).lookup k = (t.lookup k).filter fun r => !p r := by
  have := (t.deleteWhere p).nodup
  cases hl : t.lookup k with
  | none =>
    rw [Option.filter_none, lookup_eq_none_iff]
    exact fun r hr => lookup_eq_none_iff.1 hl r (List.mem_of_mem_filter hr)
  | some r =>
    obtain ⟨hr, hk⟩ := lookup_eq_some_iff.1 hl
    cases hp : p r with
    | false =>
      simp only [Option.filter_some, hp, Bool.not_false, ↓reduceIte]
      exact lookup_eq_some_iff.2 ⟨by simp [hr, hp], hk⟩
    | true =>
      simp only [Option.filter_some, hp, Bool.not_true, Bool.false_eq_true, ↓reduceIte]
      refine lookup_eq_none_iff.2 fun s hs hks => ?_
      rw [rows_deleteWhere, List.mem_filter] at hs
      rw [eq_of_key_eq t.nodup hs.1 hr (hks.trans hk.symm), hp] at hs
      simp at hs

theorem insert?_eq_none_iff : t.insert? r = none ↔ (t.lookup (key r)).isSome := by
  rw [insert?]
  split
  · rename_i h
    obtain ⟨s, hs, hk⟩ := List.mem_map.1 h
    simp [← hk, lookup_of_mem hs]
  · rename_i h
    have : t.lookup (key r) = none :=
      lookup_eq_none_iff.2 fun s hs hk => h (List.mem_map.2 ⟨s, hs, hk⟩)
    simp [this]

theorem rows_of_insert? (h : t.insert? r = some t') : t'.rows = t.rows ++ [r] := by
  rw [insert?] at h
  split at h
  · simp at h
  · cases h; rfl

theorem lookup_of_insert?_self (h : t.insert? r = some t') : t.lookup (key r) = none := by
  cases hl : t.lookup (key r) with
  | none => rfl
  | some s => rw [insert?_eq_none_iff.2 (by simp [hl])] at h; simp at h

theorem lookup_of_insert? (h : t.insert? r = some t') (k : κ) :
    t'.lookup k = if key r = k then some r else t.lookup k := by
  have hnone := lookup_of_insert?_self h
  rw [lookup, rows_of_insert? h, List.find?_append]
  split
  · rename_i hk
    subst hk
    rw [show t.rows.find? (fun s => decide (key s = key r)) = none from hnone]
    simp
  · rename_i hk
    simp [lookup, hk]

theorem lookup_map {σ : Type} {key' : σ → κ} {g : ρ → σ} (hg : ∀ r, key' (g r) = key r) (k : κ) :
    (t.map g hg).lookup k = (t.lookup k).map g := by
  rw [lookup, rows_map, List.find?_map]
  simp only [lookup, Function.comp_def, hg]

theorem insert?_map {σ : Type} {key' : σ → κ} {g : ρ → σ} (hg : ∀ r, key' (g r) = key r) (r : ρ) :
    (t.map g hg).insert? (g r) = (t.insert? r).map fun t => t.map g hg := by
  cases h : t.insert? r with
  | none =>
    rw [Option.map_none, insert?_eq_none_iff, hg, lookup_map, Option.isSome_map]
    exact insert?_eq_none_iff.1 h
  | some t' =>
    cases h' : (t.map g hg).insert? (g r) with
    | none =>
      rw [insert?_eq_none_iff, hg, lookup_map, Option.isSome_map, lookup_of_insert?_self h] at h'
      cases h'
    | some t'' =>
      rw [Option.map_some]
      congr 1
      apply ext
      rw [rows_of_insert? h', rows_map, rows_map, rows_of_insert? h, List.map_append, List.map_singleton]

/-- `INSERT OR IGNORE`: the row of a taken key stays. -/
theorem lookup_insert?_getD (t : Table key) (r : ρ) (k : κ) :
    ((t.insert? r).getD t).lookup k = (t.lookup k).or (if key r = k then some r else none) := by
  rcases hins : t.insert? r with - | t'
  · obtain ⟨s, hs⟩ := Option.isSome_iff_exists.1 (insert?_eq_none_iff.1 hins)
    show t.lookup k = _
    by_cases hk : key r = k
    · rw [← hk, hs, Option.some_or]
    · rw [if_neg hk, Option.or_none]
  · rw [Option.getD_some, lookup_of_insert? hins]
    by_cases hk : key r = k
    · rw [if_pos hk, if_pos hk, ← hk, lookup_of_insert?_self hins, Option.none_or]
    · rw [if_neg hk, if_neg hk, Option.or_none]

end Table

end Relational
