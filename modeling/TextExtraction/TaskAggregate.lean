import TextExtraction.TaskRepository

/-!
# Tasks as aggregates

`Db.view db id` is the task `id` with its items in submission order. A repository transaction acts
on one aggregate and leaves every other row alone (`Db.Replaces`); `maintain_retention` acts on each
aggregate by itself (`Aggregate.maintain`). `Aggregate.Step` lists what a transaction can do to an
aggregate, guards included; every later proof about the two tables goes through it.
-/

namespace TextExtraction

open Python Relational

variable {τ : Type}

/-- A task and its items by position. -/
structure Aggregate (τ : Type) where
  row : TaskRow τ
  items : List (ItemRow τ)

def Db.view (db : Db τ) (id : String) : Option (Aggregate τ) :=
  (db.tasks.lookup id).map fun row => ⟨row, db.itemRows id⟩

/-- `FOREIGN KEY (task_id)`: no item without its task. -/
def Db.Closed (db : Db τ) : Prop := ∀ id, db.tasks.lookup id = none → db.itemRows id = []

theorem Db.closed_empty : (Db.empty : Db τ).Closed := fun _ _ => rfl

section Rows
variable {db : Db τ} {id : String} {a : Aggregate τ}

theorem Db.view_eq_some : db.view id = some a ↔
    db.tasks.lookup id = some a.row ∧ db.itemRows id = a.items := by
  rw [Db.view, Option.map_eq_some_iff]
  constructor
  · rintro ⟨row, hrow, rfl⟩; exact ⟨hrow, rfl⟩
  · rintro ⟨hrow, hitems⟩; exact ⟨a.row, hrow, by rw [hitems]⟩

theorem Db.view_eq_none : db.view id = none ↔ db.tasks.lookup id = none := by
  rw [Db.view, Option.map_eq_none_iff]

theorem Db.view_taskId (h : db.view id = some a) : a.row.taskId = id :=
  Table.key_of_lookup (Db.view_eq_some.1 h).1

theorem Db.mem_itemRows {i : ItemRow τ} :
    i ∈ db.itemRows id ↔ i ∈ db.items.rows ∧ i.taskId = id := by
  simp [Db.itemRows, Table.select]

theorem Db.Closed.not_mem_items (hc : db.Closed) (hnone : db.view id = none) {i : ItemRow τ}
    (hi : i ∈ db.items.rows) : i.taskId ≠ id := by
  rintro rfl
  have hmem : i ∈ db.itemRows i.taskId := Db.mem_itemRows.2 ⟨hi, rfl⟩
  rw [hc _ (Db.view_eq_none.1 hnone)] at hmem
  simp at hmem

theorem Db.view_item_taskId (h : db.view id = some a) {i : ItemRow τ} (hi : i ∈ a.items) :
    i.taskId = id := by
  rw [← (Db.view_eq_some.1 h).2] at hi
  exact (Db.mem_itemRows.1 hi).2

theorem Db.lookup_item {p : ℤ} {i : ItemRow τ} :
    db.items.lookup (id, p) = some i ↔ i ∈ db.itemRows id ∧ i.position = p := by
  rw [Table.lookup_eq_some_iff, Db.mem_itemRows, ItemRow.key, Prod.mk.injEq, and_assoc]

theorem Db.itemRows_updateItems (tasks) (items : Table (ItemRow.key (τ := τ))) (p : ItemRow τ → Bool)
    (f : ItemRow τ → ItemRow τ) (hf : ∀ r, ItemRow.key (f r) = ItemRow.key r) (id : String) :
    (⟨tasks, items.updateWhere p f hf⟩ : Db τ).itemRows id =
      ((⟨tasks, items⟩ : Db τ).itemRows id).map fun i => if p i then f i else i := by
  have hkey : ∀ i, (f i).taskId = i.taskId ∧ (f i).position = i.position := fun i => by
    simpa [ItemRow.key] using hf i
  rw [Db.itemRows, Db.itemRows, Table.select_updateWhere hf fun i => by rw [(hkey i).1]]
  exact orderBy_map (fun i => by split <;> simp [(hkey i).2]) _

theorem Db.itemRows_deleteItems (tasks) (items : Table (ItemRow.key (τ := τ))) (p : ItemRow τ → Bool)
    (id : String) :
    (⟨tasks, items.deleteWhere p⟩ : Db τ).itemRows id =
      ((⟨tasks, items⟩ : Db τ).itemRows id).filter fun i => !p i := by
  rw [Db.itemRows, Db.itemRows, Table.select_deleteWhere, orderBy_filter]

/-- The first pending item, as `claim_next_item` selects it. -/
theorem Db.firstPending (db : Db τ) (id : String) :
    (orderBy ItemRow.position
      (db.items.select fun i => i.taskId = id ∧ i.status.isPending)).head? =
      (db.itemRows id).find? (·.status.isPending) := by
  have : (db.items.select fun i => i.taskId = id ∧ i.status.isPending) =
      (db.items.select fun i => i.taskId = id).filter (·.status.isPending) := by
    simp only [Table.select, List.filter_filter]
    congr 1; funext i
    rw [Bool.decide_and, Bool.decide_coe, Bool.and_comm]
  rw [this, orderBy_filter, List.head?_filter]; rfl

end Rows

/-! ### What a transaction does to one aggregate -/

namespace Aggregate

def claim (workerId : String) (leaseExpiry now : τ) (a : Aggregate τ) : Aggregate τ :=
  { a with row := a.row.claim workerId leaseExpiry now }

def renew (leaseExpiry now : τ) (a : Aggregate τ) : Aggregate τ :=
  { a with row := a.row.renew leaseExpiry now }

def take (position : ℤ) (now : τ) (a : Aggregate τ) : Aggregate τ :=
  { a with items := a.items.map fun i => if i.position = position then i.take now else i }

def finalize (workerId : String) (position : ℤ) (outcomeJson errorJson : Option Json) (now : τ)
    (a : Aggregate τ) : Aggregate τ where
  row := TaskRow.advance a.row errorJson.isNone workerId now a.row
  items := a.items.map fun i =>
    if i.position = position then
      i.finalize (if errorJson.isNone then .completed else .failed) outcomeJson errorJson now
    else i

def abort (errorJson : Json) (now : τ) (a : Aggregate τ) : Aggregate τ where
  row := a.row.abort (a.row.acceptedCount - a.row.processedCount) errorJson now
  items := a.items.map fun i => if i.status.isPending then i.abort errorJson now else i

def purge (now : τ) (a : Aggregate τ) : Aggregate τ where
  row := a.row.purge now
  items := a.items.map ItemRow.purge

variable [LinearOrder τ]

/-- `maintain_retention` on one task: `none` is deletion. -/
def maintain (now cutoff : τ) (a : Aggregate τ) : Option (Aggregate τ) :=
  let a := if a.row.expired now then a.purge now else a
  if a.row.elapsed cutoff then none else some a

end Aggregate

/-- The transactions on one task. -/
inductive Action (τ : Type)
  | claim (workerId : String) (now leaseExpiry : τ)
  | renew (workerId : String) (now leaseExpiry : τ)
  | take (workerId : String) (now : τ) (position : ℤ)
  | finalize (workerId : String) (now : τ) (position : ℤ) (outcomeJson errorJson : Option Json)
  | abort (workerId : String) (now : τ) (errorJson : Json)
  | purge (now : τ)

section Step
variable [LinearOrder τ]

/-- What a committed transaction can do to the task it acts on. -/
inductive Aggregate.Step (a : Aggregate τ) : Action τ → Aggregate τ → Prop
  | claim {w now expiry} (hclaim : a.row.claimable now) :
      Step a (.claim w now expiry) (a.claim w expiry now)
  | renew {w now expiry} (howner : a.row.leaseOwner = some w)
      (hrun : a.row.status.isTerminal = false) :
      Step a (.renew w now expiry) (a.renew expiry now)
  | take {w now i} (howner : a.row.leaseOwner = some w) (hlease : a.row.leaseExpiresAt.any (now < ·))
      (hstatus : a.row.status = .processing) (hpurged : a.row.purgedAt = none)
      (hfirst : a.items.find? (·.status.isPending) = some i) :
      Step a (.take w now i.position) (a.take i.position now)
  | finalize {w now i outcomeJson errorJson} (howner : a.row.leaseOwner = some w)
      (hrun : a.row.status.isTerminal = false) (hi : i ∈ a.items)
      (hpending : i.status.isTerminal = false) (hone : outcomeJson.isSome = errorJson.isNone) :
      Step a (.finalize w now i.position outcomeJson errorJson)
        (a.finalize w i.position outcomeJson errorJson now)
  | abort {w now errorJson} (howner : a.row.leaseOwner = some w)
      (hrun : a.row.status.isTerminal = false) :
      Step a (.abort w now errorJson) (a.abort errorJson now)
  | purge {now} (hexp : a.row.expired now) : Step a (.purge now) (a.purge now)

theorem Aggregate.Step.of_finalize {a a' : Aggregate τ} {w : String} {now : τ} {p : ℤ} {oj ej : Option Json}
    (h : a.Step (.finalize w now p oj ej) a') : a.row.leaseOwner = some w ∧ a.row.status.isTerminal = false := by
  cases h with
  | finalize how hrun => exact ⟨how, hrun⟩

end Step

/-! ### Replacing one aggregate -/

/-- `db'` is `db` with the task `id` become `a'`; no row of another task differs. -/
structure Db.Replaces (db db' : Db τ) (id : String) (a' : Aggregate τ) : Prop where
  view_self : db'.view id = some a'
  tasks : ∀ id', id' ≠ id → db'.tasks.lookup id' = db.tasks.lookup id'
  items : ∀ id', id' ≠ id → db'.itemRows id' = db.itemRows id'

namespace Db.Replaces

variable {db db' : Db τ} {id id' : String} {a' : Aggregate τ}

theorem view_ne (h : db.Replaces db' id a') (hne : id' ≠ id) : db'.view id' = db.view id' := by
  rw [Db.view, Db.view, h.tasks id' hne, h.items id' hne]

theorem view (h : db.Replaces db' id a') (id' : String) :
    db'.view id' = if id' = id then some a' else db.view id' := by
  split
  · rename_i he; rw [he, h.view_self]
  · rename_i hne; exact h.view_ne hne

theorem closed (h : db.Replaces db' id a') (hc : db.Closed) : db'.Closed := by
  intro id' hnone
  by_cases hid : id' = id
  · rw [hid, (Db.view_eq_some.1 h.view_self).1] at hnone; simp at hnone
  · rw [h.items id' hid]
    rw [h.tasks id' hid] at hnone
    exact hc id' hnone

end Db.Replaces

section Update
variable {db : Db τ} {id : String} {a : Aggregate τ}

/-- Updating rows of one task by predicates that only select rows of that task. -/
theorem Db.replaces_update (h : db.view id = some a) (p : TaskRow τ → Bool)
    (f : TaskRow τ → TaskRow τ) (hf : ∀ r, (f r).taskId = r.taskId) (q : ItemRow τ → Bool)
    (g : ItemRow τ → ItemRow τ) (hg : ∀ r, ItemRow.key (g r) = ItemRow.key r)
    (hp : ∀ r, p r = true → r.taskId = id) (hq : ∀ i, q i = true → i.taskId = id) :
    db.Replaces ⟨db.tasks.updateWhere p f hf, db.items.updateWhere q g hg⟩ id
      ⟨if p a.row then f a.row else a.row, a.items.map fun i => if q i then g i else i⟩ := by
  obtain ⟨hrow, hitems⟩ := Db.view_eq_some.1 h
  refine ⟨Db.view_eq_some.2 ⟨?_, ?_⟩, fun id' hne => ?_, fun id' hne => ?_⟩
  · rw [Table.lookup_updateWhere, hrow]; rfl
  · rw [Db.itemRows_updateItems, ← hitems]; rfl
  · rw [Table.lookup_updateWhere]
    cases hl : db.tasks.lookup id' with
    | none => rfl
    | some r =>
      have : p r = false := by
        rw [Bool.eq_false_iff]
        exact fun hpr => hne ((Table.key_of_lookup hl).symm.trans (hp r hpr))
      simp [this]
  · rw [Db.itemRows_updateItems]
    refine (List.map_congr_left fun i hi => ?_).trans (List.map_id _)
    have : q i = false := by
      rw [Bool.eq_false_iff]
      exact fun hqi => hne ((Db.mem_itemRows.1 hi).2.symm.trans (hq i hqi))
    simp [this]

theorem Db.replaces_updateTask (h : db.view id = some a) (p : TaskRow τ → Bool)
    (f : TaskRow τ → TaskRow τ) (hf : ∀ r, (f r).taskId = r.taskId)
    (hp : ∀ r, p r = true → r.taskId = id) :
    db.Replaces { db with tasks := db.tasks.updateWhere p f hf } id
      { a with row := if p a.row then f a.row else a.row } := by
  obtain ⟨hrow, hitems⟩ := Db.view_eq_some.1 h
  have hu := Db.replaces_update h p f hf (fun _ => false) (fun i => i) (fun _ => rfl) hp (by simp)
  refine ⟨Db.view_eq_some.2 ⟨(Db.view_eq_some.1 hu.view_self).1, hitems⟩, hu.tasks, fun _ _ => rfl⟩

theorem Db.replaces_updateItems (h : db.view id = some a) (q : ItemRow τ → Bool)
    (g : ItemRow τ → ItemRow τ) (hg : ∀ r, ItemRow.key (g r) = ItemRow.key r)
    (hq : ∀ i, q i = true → i.taskId = id) :
    db.Replaces { db with items := db.items.updateWhere q g hg } id
      { a with items := a.items.map fun i => if q i then g i else i } := by
  obtain ⟨hrow, hitems⟩ := Db.view_eq_some.1 h
  have hu := Db.replaces_update h (fun _ => false) (fun t => t) (fun _ => rfl) q g hg (by simp) hq
  exact ⟨Db.view_eq_some.2 ⟨hrow, (Db.view_eq_some.1 hu.view_self).2⟩, fun _ _ => rfl, hu.items⟩

end Update

end TextExtraction
