import TextExtraction.TaskSteady
import TextExtraction.TaskLifecycle
import TextExtraction.Stubs

/-!
# The frontier of a task

`finalize_item` takes any pending position, so nothing in the store keeps the items in order. The
workers do: whoever works on an item under the lease found it first in line and has it in processing
(`WorkerState.AtFrontier`), so the finished items of a task are always a prefix, and at most the next
one is in processing (`Aggregate.Frontier`).
-/

namespace TextExtraction

open Python Relational Transition

variable {τ : Type}

/-- The items before `n` are finished, and only the one at `n` may be in processing. -/
structure Aggregate.Frontier (a : Aggregate τ) (n : ℕ) : Prop where
  le : n ≤ a.row.acceptedCount
  terminal : ∀ i ∈ a.items, i.status.isTerminal = true ↔ i.position < n
  inFlight : ∀ i ∈ a.items, i.status = .processing → i.position = n

/-- An item comes to be finished only from processing, or with its whole task. -/
def Aggregate.Passes (a a' : Aggregate τ) : Prop :=
  ∀ i ∈ a.items, ∀ i' ∈ a'.items, i'.position = i.position → i'.status.isTerminal = true →
    i'.status = i.status ∨ i.status = .processing ∨
      (i'.status = .failed ∧ i'.errorJson = a'.row.taskErrorJson ∧ a'.row.taskErrorJson.isSome = true)

/-- What a transaction has to find for the items to be finished in order. -/
def Action.InOrder (a : Aggregate τ) : Action τ → Prop
  | .finalize _ _ p _ _ => ∃ i ∈ a.items, i.position = p ∧ i.status = .processing
  | _ => True

namespace Aggregate

variable {a a' : Aggregate τ} {n : ℕ}

/-- Behind the frontier everything waits. -/
theorem Frontier.queued (h : a.Frontier n) {i : ItemRow τ} (hi : i ∈ a.items) (hn : n < i.position) :
    i.status = .queued := by
  have hterm := h.terminal i hi
  have hflight := h.inFlight i hi
  rcases hs : i.status with - | - | - | -
  · rfl
  · have := hflight hs
    omega
  · have := hterm.1 (by rw [hs]; rfl)
    omega
  · have := hterm.1 (by rw [hs]; rfl)
    omega

/-- The first pending item is the one at the frontier. -/
theorem Frontier.position_of_first (h : a.Frontier n) (hinv : a.Inv) {i : ItemRow τ}
    (hi : a.items.find? (·.status.isPending) = some i) : i.position = n := by
  have hmem := List.mem_of_find?_eq_some hi
  have hpending := List.find?_some hi
  rw [ExtractionTaskItemStatus.isPending_eq_not, Bool.not_eq_true'] at hpending
  obtain ⟨-, k, hk, hget, hbefore⟩ := List.find?_eq_some_iff_getElem.1 hi
  have hposition : i.position = k := hinv.position_getElem? (by rw [List.getElem?_eq_getElem hk, hget])
  have hge : ¬ i.position < n := by
    intro hlt
    rw [(h.terminal i hmem).2 hlt] at hpending
    simp at hpending
  -- an item before `i` is finished, so `n` is not before `i`
  by_contra hne
  have hlt : n < k := by omega
  have hn := hbefore n hlt
  rw [ExtractionTaskItemStatus.isPending_eq_not, Bool.not_not] at hn
  have hmem' : a.items[n] ∈ a.items := List.getElem_mem _
  have hposition' : (a.items[n]).position = n :=
    hinv.position_getElem? (List.getElem?_eq_getElem _)
  have := (h.terminal _ hmem').1 hn
  omega

theorem frontier_newAggregate (id owner : String) (cj mj : Json) (items : List (String × String))
    (created expires : τ) : (newAggregate id owner cj mj items created expires).Frontier 0 := by
  have hqueued : ∀ i ∈ (newAggregate id owner cj mj items created expires).items,
      i.status = .queued ∧ 0 ≤ i.position := by
    intro i hi
    obtain ⟨x, hx, rfl⟩ := List.mem_map.1 hi
    exact ⟨rfl, Int.natCast_nonneg _⟩
  refine ⟨Nat.zero_le _, fun i hi => ?_, fun i hi hs => ?_⟩
  · obtain ⟨hs, hpos⟩ := hqueued i hi
    rw [hs]
    simp only [ExtractionTaskItemStatus.isTerminal_queued, Bool.false_eq_true, false_iff]
    omega
  · rw [(hqueued i hi).1] at hs
    simp at hs

theorem frontier_map {g : ItemRow τ → ItemRow τ} {row : TaskRow τ} {m : ℕ} (hm : m ≤ row.acceptedCount)
    (hposition : ∀ i, (g i).position = i.position)
    (hterminal : ∀ i ∈ a.items, (g i).status.isTerminal = true ↔ i.position < m)
    (hflight : ∀ i ∈ a.items, (g i).status = .processing → i.position = m) :
    Frontier ⟨row, a.items.map g⟩ m := by
  refine ⟨hm, fun i hi => ?_, fun i hi hs => ?_⟩ <;> obtain ⟨j, hj, rfl⟩ := List.mem_map.1 hi <;>
    rw [hposition j]
  · exact hterminal j hj
  · exact hflight j hj hs

theorem passes_map {g : ItemRow τ → ItemRow τ} {row : TaskRow τ} (hinv : a.Inv)
    (hposition : ∀ i, (g i).position = i.position)
    (h : ∀ i ∈ a.items, (g i).status.isTerminal = true →
      (g i).status = i.status ∨ i.status = .processing ∨
        ((g i).status = .failed ∧ (g i).errorJson = row.taskErrorJson ∧ row.taskErrorJson.isSome = true)) :
    a.Passes ⟨row, a.items.map g⟩ := by
  intro i hi i' hi' hp hs
  obtain ⟨j, hj, rfl⟩ := List.mem_map.1 hi'
  rw [hposition j] at hp
  rw [hinv.eq_of_position hi hj hp.symm]
  exact h j hj hs

theorem Frontier.take (h : a.Frontier n) {i : ItemRow τ} (hposition : i.position = n) (now : τ) :
    (a.take i.position now).Frontier n := by
  refine frontier_map h.le (fun j => by split <;> rfl) (fun j hj => ?_) fun j hj hs => ?_
  · split
    · rename_i hp
      show false = true ↔ j.position < n
      rw [hp, hposition]
      simp
    · exact h.terminal j hj
  · split at hs
    · omega
    · exact h.inFlight j hj hs

theorem Frontier.finalize (h : a.Frontier n) (hinv : a.Inv) {i : ItemRow τ} (hi : i ∈ a.items)
    (hs : i.status = .processing) (w : String) (oj ej : Option Json) (now : τ) :
    (a.finalize w i.position oj ej now).Frontier (n + 1) := by
  have hposition := h.inFlight i hi hs
  have hlt := (hinv.position_lt hi).2
  refine frontier_map (by show n + 1 ≤ a.row.acceptedCount; omega) (fun j => by split <;> rfl)
    (fun j hj => ?_) fun j hj hs => ?_
  · split
    · have hfinished : (if ej.isNone then ExtractionTaskItemStatus.completed
          else .failed).isTerminal = true := by split <;> rfl
      refine iff_of_true hfinished ?_
      omega
    · rw [h.terminal j hj]
      omega
  · split at hs
    · change (if ej.isNone then ExtractionTaskItemStatus.completed else .failed) = _ at hs
      split at hs <;> cases hs
    · have := h.inFlight j hj hs
      omega

theorem Frontier.abort (hinv : a.Inv) (ej : Json) (now : τ) :
    (a.abort ej now).Frontier a.row.acceptedCount := by
  have hterminal : ∀ i : ItemRow τ,
      (if i.status.isPending then i.abort ej now else i).status.isTerminal = true := by
    intro i
    split
    · rfl
    · rename_i hp
      rw [ExtractionTaskItemStatus.isPending_eq_not, Bool.not_eq_true', Bool.not_eq_false] at hp
      exact hp
  refine frontier_map le_rfl (fun j => by split <;> rfl) (fun j hj => ?_) fun j hj hs => ?_
  · exact iff_of_true (hterminal j) (hinv.position_lt hj).2
  · have := hterminal j
    rw [hs] at this
    cases this

section Step
variable [LinearOrder τ]

/-- Every transaction that finishes items in order keeps the frontier or moves it on. -/
theorem Frontier.step (h : a.Frontier n) (hinv : a.Inv) {act : Action τ} (hstep : a.Step act a')
    (horder : act.InOrder a) : ∃ m, n ≤ m ∧ a'.Frontier m := by
  cases hstep with
  | claim => exact ⟨n, le_rfl, h.le, h.terminal, h.inFlight⟩
  | renew => exact ⟨n, le_rfl, h.le, h.terminal, h.inFlight⟩
  | take _ _ _ _ hfirst => exact ⟨n, le_rfl, h.take (h.position_of_first hinv hfirst) _⟩
  | @finalize w now i oj ej _ _ hi =>
    obtain ⟨j, hj, hp, hs⟩ := horder
    rw [hinv.eq_of_position hj hi hp] at hs
    exact ⟨n + 1, Nat.le_succ n, h.finalize hinv hi hs w oj ej now⟩
  | @abort w now ej => exact ⟨_, h.le, Frontier.abort hinv ej now⟩
  | purge =>
    exact ⟨n, le_rfl, frontier_map h.le (fun _ => rfl) h.terminal h.inFlight⟩

theorem Step.passes (hinv : a.Inv) {act : Action τ} (hstep : a.Step act a') (horder : act.InOrder a) :
    a.Passes a' := by
  cases hstep with
  | claim | renew =>
    intro i hi i' hi' hp hs
    rw [hinv.eq_of_position hi hi' hp.symm]
    exact .inl rfl
  | @take w now i =>
    refine passes_map hinv (fun j => by split <;> rfl) fun j _ hs => ?_
    split at hs
    · cases hs
    · rename_i hne
      exact .inl (by rw [if_neg hne])
  | @finalize w now i oj ej _ _ hi =>
    obtain ⟨k, hk, hpk, hsk⟩ := horder
    refine passes_map hinv (fun j => by split <;> rfl) fun j hj hs => ?_
    split at hs
    · rename_i hp
      rw [hinv.eq_of_position hj hk (by omega)]
      exact .inr (.inl hsk)
    · rename_i hne
      exact .inl (by rw [if_neg hne])
  | abort =>
    refine passes_map hinv (fun j => by split <;> rfl) fun j _ _ => ?_
    split
    · exact .inr (.inr ⟨rfl, rfl, rfl⟩)
    · exact .inl rfl
  | purge => exact passes_map hinv (fun _ => rfl) fun _ _ _ => .inl rfl

end Step

end Aggregate

/-! ### Workers -/

/-- If `w` has the lease of the task, its item at `p` is in processing. -/
def InFlight (db : Db τ) (id w : String) (p : ℤ) : Prop :=
  ∀ a, db.view id = some a → a.row.leaseOwner = some w →
    ∃ i ∈ a.items, i.position = p ∧ i.status = .processing

/-- A worker with the lease works on the item it took. -/
def WorkerState.AtFrontier (db : Db τ) (w : String) : WorkerState τ → Prop
  | .inferring context item => InFlight db context.taskId w item.position
  | .finalizing context p _ _ => InFlight db context.taskId w p
  | _ => True

section Worker
variable [LinearOrder τ] [VAdd ℤ τ] {service : ExtractionTaskService} {db db' : Db τ} {w : String}
  {now : τ} {state state' : WorkerState τ}

omit [LinearOrder τ] [VAdd ℤ τ] in
theorem atFrontier_handleFailure (db : Db τ) (w id : String) (e : Exc) :
    (handleFailure id e : WorkerState τ).AtFrontier db w := by
  rw [handleFailure]
  split <;> trivial

theorem WorkerMove.inOrder (h : WorkerMove service w now db state state' db')
    (hstate : state.AtFrontier db w) :
    db' = db ∨ ∃ id a act a', db.view id = some a ∧ a.Step act a' ∧ act.InOrder a ∧
      db.Replaces db' id a' := by
  cases h with
  | claim _ hv hclaim hrep => exact .inr ⟨_, _, _, _, hv, .claim hclaim, trivial, hrep⟩
  | @renew _ _ _ hv how hrun hrep =>
    exact .inr ⟨_, _, .renew w now (service.lease +ᵥ now), _, hv, .renew how hrun, trivial, hrep⟩
  | take hv _ hstep hrep => exact .inr ⟨_, _, _, _, hv, hstep, trivial, hrep⟩
  | finalize hv _ _ _ hstep hrep =>
    exact .inr ⟨_, _, _, _, hv, hstep, hstate _ hv hstep.of_finalize.1, hrep⟩
  | abort hv _ hstep hrep => exact .inr ⟨_, _, _, _, hv, hstep, trivial, hrep⟩
  | _ => exact .inl rfl

theorem WorkerMove.atFrontier (h : WorkerMove service w now db state state' db')
    (hstate : state.AtFrontier db w) : state'.AtFrontier db' w := by
  cases h with
  | @claim a =>
    show (claimedState (a.row.claim w (service.lease +ᵥ now) now)).AtFrontier db' w
    unfold claimedState
    split
    · trivial
    · exact atFrontier_handleFailure _ _ _ _
  | @take context t a i _ hv hi _ hrep =>
    intro b hb _
    rw [hrep.view_self] at hb
    cases hb
    exact ⟨i.take t, List.mem_map.2 ⟨i, hi, if_pos rfl⟩, rfl, rfl⟩
  | infer => exact hstate
  | finalize => split <;> trivial
  | inferError | refuse => exact atFrontier_handleFailure _ _ _ _
  | _ => trivial

end Worker

namespace System
variable [LinearOrder τ] [VAdd ℤ τ] {service : ExtractionTaskService} {s s' : System τ} {l : Label τ}

/-- Every task has a frontier, and whoever works under a lease works there. -/
structure InOrder (s : System τ) : Prop where
  tasks : ∀ id a, s.db.view id = some a → ∃ n, a.Frontier n
  workers : ∀ w, (s.workers w).AtFrontier s.db w

/-- Where a task comes from: it was as it is, or is new, or took a step in order. -/
theorem Step.ordered (h : Step service s l s') (hinv : s.Inv service) (horder : s.InOrder) {id : String}
    {a' : Aggregate τ} (hv : s'.db.view id = some a') :
    s.db.view id = some a' ∨
    (s.db.view id = none ∧
      ∃ owner cj mj items created expires, a' = newAggregate id owner cj mj items created expires) ∨
    ∃ a act, s.db.view id = some a ∧ a.Step act a' ∧ act.InOrder a := by
  by_cases hl : ∃ w now, l = .work w now
  · obtain ⟨w, now, rfl⟩ := hl
    cases h with
    | work =>
      rcases (Step.move hinv w now).inOrder (horder.workers w) with
        hsame | ⟨id₀, b, act, b', hb, hstep, hact, hrep⟩
      · rw [hsame] at hv
        exact .inl hv
      · rw [hrep.view id] at hv
        split at hv
        · rename_i hid
          subst hid
          cases hv
          exact .inr (.inr ⟨b, act, hb, hstep, hact⟩)
        · exact .inl hv
  · rcases h.affects hinv id with he | ⟨c, hmakes, haff⟩
    · exact .inl (he ▸ hv)
    · rw [hv] at haff
      generalize hv₀ : s.db.view id = v at haff
      cases haff with
      | same => exact .inl rfl
      | created => exact .inr (.inl ⟨rfl, _, _, _, _, _, _, rfl⟩)
      | stepped hstep hdoes =>
        cases hmakes with
        | submit => cases hdoes
        | maintain => cases hdoes
        | _ => exact absurd ⟨_, _, rfl⟩ hl
      | purged _ hstep => exact .inr (.inr ⟨_, _, rfl, hstep, trivial⟩)

theorem Step.atFrontier_other (h : Step service s l s') (hinv : s.Inv service) {w : String}
    (hl : ∀ now, l ≠ .work w now) {state : WorkerState τ} (hs : state.AtFrontier s.db w) :
    state.AtFrontier s'.db w := by
  have hflight : ∀ {id p}, InFlight s.db id w p → InFlight s'.db id w p :=
    fun hp a hv how => hp a (h.held hinv hl hv how) how
  cases state with
  | inferring context item => exact hflight hs
  | finalizing context p outcome error => exact hflight hs
  | _ => trivial

theorem Step.inOrder (h : Step service s l s') (hinv : s.Inv service) (horder : s.InOrder) :
    s'.InOrder := by
  constructor
  · intro id a' hv
    rcases h.ordered hinv horder hv with hold | ⟨-, _, _, _, _, _, _, rfl⟩ | ⟨a, act, hold, hstep, hact⟩
    · exact horder.tasks id a' hold
    · exact ⟨0, Aggregate.frontier_newAggregate _ _ _ _ _ _ _⟩
    · obtain ⟨n, hn⟩ := horder.tasks id a hold
      obtain ⟨m, -, hm⟩ := hn.step (hinv.aggregate hold) hstep hact
      exact ⟨m, hm⟩
  · intro w
    by_cases hl : ∃ now, l = .work w now
    · obtain ⟨now, rfl⟩ := hl
      cases h with
      | work => exact (Step.move hinv w now).atFrontier (horder.workers w)
    · have hne : ∀ now, l ≠ .work w now := fun now he => hl ⟨now, he⟩
      rcases h.worker hne with he | he
      · rw [he]
        exact h.atFrontier_other hinv hne (horder.workers w)
      · rw [he]
        trivial

omit [LinearOrder τ] [VAdd ℤ τ] in
theorem inOrder_init : (init : System τ).InOrder where
  tasks _ _ h := by cases h
  workers _ := trivial

theorem Reachable.inOrder (h : Reachable service s) : s.InOrder := by
  obtain ⟨labels, hrun⟩ := h
  have hstep : ∀ (t : System τ) (l : Label τ) (u : System τ),
      (t.Inv service ∧ t.InOrder) → Step service t l u → u.Inv service ∧ u.InOrder := by
    rintro t l u ⟨hinv, horder⟩ hst
    exact ⟨hst.inv hinv, hst.inOrder hinv horder⟩
  exact (hrun.invariant hstep ⟨inv_init, inOrder_init⟩).2

/-- The frontier of a task never moves back. -/
theorem Run.frontier {labels : List (Label τ)} (h : Run (Step service) s labels s')
    (hinv : s.Inv service) (horder : s.InOrder) {id : String} {sub : Submission τ}
    (hsub : s.accepted id = some sub) {n : ℕ} (hn : ∀ a, s.db.view id = some a → ∃ m, n ≤ m ∧ a.Frontier m) :
    s'.Inv service ∧ ∀ a, s'.db.view id = some a → ∃ m, n ≤ m ∧ a.Frontier m := by
  have hstep : ∀ (t : System τ) (l : Label τ) (u : System τ),
      (t.Inv service ∧ t.InOrder ∧ t.accepted id = some sub ∧
        ∀ a, t.db.view id = some a → ∃ m, n ≤ m ∧ a.Frontier m) → Step service t l u →
      u.Inv service ∧ u.InOrder ∧ u.accepted id = some sub ∧
        ∀ a, u.db.view id = some a → ∃ m, n ≤ m ∧ a.Frontier m := by
    rintro t l u ⟨hinv, horder, hsub, hn⟩ hst
    refine ⟨hst.inv hinv, hst.inOrder hinv horder, hst.accepted hsub, fun a' hv => ?_⟩
    rcases hst.ordered hinv horder hv with hold | ⟨hnone, -⟩ | ⟨a, act, hold, hs, hact⟩
    · exact hn a' hold
    · rw [hst.absent hinv hsub hnone] at hv
      simp at hv
    · obtain ⟨m, hle, hm⟩ := hn a hold
      obtain ⟨k, hmk, hk⟩ := hm.step (hinv.aggregate hold) hs hact
      exact ⟨k, by omega, hk⟩
  obtain ⟨hinv', -, -, hfrontier⟩ := h.invariant hstep ⟨hinv, horder, hsub, hn⟩
  exact ⟨hinv', hfrontier⟩

omit [VAdd ℤ τ] in
/-- `claim_next_item` hands the item at the frontier to whoever has the lease. -/
theorem claimNextItem_position {db : Db τ} {id : String} {a : Aggregate τ} {n : ℕ} (hinv : a.Inv)
    (hv : db.view id = some a) (hn : a.Frontier n) (w : String) (now : τ) :
    (claimNextItem id w now db).1.map (·.position) =
      if a.row.leasedTo id w now then some (n : ℤ) else none := by
  rcases claimNextItem_cases id w now db with ⟨hno, he⟩ | ⟨b, i, hb, hi, hstep, he, -⟩
  · rw [he]
    split
    · rename_i hleased
      obtain ⟨-, how, hlease, hstatus, hpurged⟩ := TaskRow.leasedTo_iff.1 hleased
      obtain ⟨i, hfirst⟩ := hinv.exists_pending (by rw [hstatus]; rfl)
      exact absurd (.take how hlease hstatus hpurged hfirst) (hno a i.position hv)
    · rfl
  · rw [hv] at hb
    cases hb
    obtain ⟨how, hlease, hstatus, hpurged, j, hfirst, hj⟩ := hstep.of_take
    rw [he, if_pos (TaskRow.leasedTo_iff.2 ⟨Db.view_taskId hv, how, hlease, hstatus, hpurged⟩)]
    show some i.position = some (n : ℤ)
    rw [← hj, hn.position_of_first hinv hfirst]

omit [VAdd ℤ τ] in
/-- What `claim_next_item` hands out belongs to a task under a lease. -/
theorem claimNextItem_view {db : Db τ} {id w : String} {now : τ} {item : ExtractionTaskItemRecord τ}
    (h : (claimNextItem id w now db).1 = some item) : ∃ a, db.view id = some a := by
  rcases claimNextItem_cases id w now db with ⟨-, he⟩ | ⟨a, -, hv, -⟩
  · rw [he] at h
    simp at h
  · exact ⟨a, hv⟩

/-- What a task system in the state `s` guarantees about the order of the items. -/
structure FrontierLaw (service : ExtractionTaskService) (s : System τ) : Prop where
  /-- the finished items are a prefix, and only the next one may be in processing -/
  frontier : ∀ id a, s.db.view id = some a → ∃ n, a.Frontier n ∧
    (∀ i ∈ a.items, (n : ℤ) < i.position → i.status = .queued) ∧
    ∀ i ∈ a.items, ∀ j ∈ a.items, i.status = .processing → j.status = .processing → i = j
  /-- whoever has the lease is handed the first unfinished item -/
  start : ∀ id a n w now, s.db.view id = some a → a.Frontier n →
    (claimNextItem id w now s.db).1.map (·.position) =
      if a.row.leasedTo id w now then some (n : ℤ) else none
  /-- and works on it as long as it has the lease -/
  working : ∀ w context item a n, s.workers w = .inferring context item →
    s.db.view context.taskId = some a → a.row.leaseOwner = some w → a.Frontier n → item.position = n
  /-- an item gets finished from processing, or with its whole task -/
  passes : ∀ l s' id a', Step service s l s' → s'.db.view id = some a' →
    (∃ a, s.db.view id = some a ∧ a.Passes a') ∨ ∀ i ∈ a'.items, i.status = .queued
  /-- a finished item is never handed out again -/
  again : ∀ labels s' id a i, Run (Step service) s labels s' → s.db.view id = some a → i ∈ a.items →
    i.status.isTerminal = true → ∀ w now item,
    (claimNextItem id w now s'.db).1 = some item → item.position ≠ i.position

/-- The items of every task are finished in order, one at a time. -/
theorem frontier_law (service : ExtractionTaskService) (s : System τ) (h : Reachable service s) :
    FrontierLaw service s where
  frontier id a hv := by
    obtain ⟨n, hn⟩ := h.inOrder.tasks id a hv
    refine ⟨n, hn, fun i hi hlt => hn.queued hi hlt, fun i hi j hj hsi hsj => ?_⟩
    refine (h.inv.aggregate hv).eq_of_position hi hj ?_
    rw [hn.inFlight i hi hsi, hn.inFlight j hj hsj]
  start id a n w now hv hn := claimNextItem_position (h.inv.aggregate hv) hv hn w now
  working w context item a n hw hv how hn := by
    have hflight := h.inOrder.workers w
    rw [hw] at hflight
    obtain ⟨i, hi, hp, hs⟩ := hflight a hv how
    rw [← hp, hn.inFlight i hi hs]
  passes l s' id a' hst hv := by
    rcases hst.ordered h.inv h.inOrder hv with hold | ⟨-, _, _, _, _, _, _, rfl⟩ |
      ⟨a, act, hold, hstep, hact⟩
    · refine .inl ⟨a', hold, fun i hi i' hi' hp _ => .inl ?_⟩
      rw [(h.inv.aggregate hold).eq_of_position hi' hi hp]
    · exact .inr fun i hi => (Aggregate.newItems_status _ _ 0 i hi).2.1
    · exact .inl ⟨a, hold, hstep.passes (h.inv.aggregate hold) hact⟩
  again labels s' id a i hrun hv hi hterm w now item hitem := by
    obtain ⟨n, hn⟩ := h.inOrder.tasks id a hv
    obtain ⟨sub, hsub, -⟩ := h.inv.tasks id a hv
    have hlt := (hn.terminal i hi).1 hterm
    have hstart : ∀ b, s.db.view id = some b → ∃ m, n ≤ m ∧ b.Frontier m := by
      intro b hb
      rw [hv] at hb
      cases hb
      exact ⟨n, le_rfl, hn⟩
    obtain ⟨hinv', hfrontier⟩ := Run.frontier hrun h.inv h.inOrder hsub hstart
    obtain ⟨b, hb⟩ := claimNextItem_view hitem
    obtain ⟨m, hle, hm⟩ := hfrontier b hb
    have hposition := claimNextItem_position (hinv'.aggregate hb) hb hm w now
    rw [hitem] at hposition
    split at hposition
    · have : item.position = m := Option.some.inj hposition
      omega
    · simp at hposition

/-- A worker finishes the first source, takes the second and dies; another takes the task over. -/
def takeover (service : ExtractionTaskService) : System ℤ :=
  let w := work service "w" 1
  let v := work service "v" 6
  ((init (τ := ℤ)).submit service "t" "o" sampleRequest 0 |> w |> w |> w |> w |> w |> w |> w).crash "w"
    |> v |> v |> v

theorem frontier_law_takeover : FrontierLaw (stubService []) (takeover (stubService [])) :=
  frontier_law (stubService []) _
    ⟨_, .cons (.submit rfl) (.cons .work (.cons .work (.cons .work (.cons .work (.cons .work (.cons .work
      (.cons .work (.cons .crash (.cons .work (.cons .work (.cons .work (.nil _))))))))))))⟩

end System

end TextExtraction
