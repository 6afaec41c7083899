import Mathlib.Algebra.BigOperators.Group.List.Basic
import TextExtraction.TaskSummary

/-!
# Reads of one owner

`Db.owned` is what belongs to an owner in a store: her tasks with their items, and nothing of the
others. Every read of hers is a function of it, so two stores that agree on it answer alike
(`owner_noninterference`), and the id of a foreign task reads as one that never was.
-/

namespace TextExtraction

open Python Relational

variable {τ : Type}

/-- The task `id`, if it is the owner's. -/
def Db.owned (db : Db τ) (ownerId id : String) : Option (Aggregate τ) :=
  (db.view id).filter fun a => a.row.ownerId = ownerId

/-- The two stores have the same tasks and items of the owner. -/
def Db.SameFor (ownerId : String) (db db' : Db τ) : Prop :=
  ∀ id, db.owned ownerId id = db'.owned ownerId id

section Owned
variable {db db' : Db τ} {ownerId id : String} {a : Aggregate τ}

theorem Db.owned_of_none (hv : db.view id = none) : db.owned ownerId id = none := by
  rw [Db.owned, hv]
  rfl

theorem Db.owned_of_view (hv : db.view id = some a) :
    db.owned ownerId id = if a.row.ownerId = ownerId then some a else none := by
  rw [Db.owned, hv, Option.filter_some]
  simp only [decide_eq_true_eq]

theorem Db.owned_eq_some :
    db.owned ownerId id = some a ↔ db.view id = some a ∧ a.row.ownerId = ownerId := by
  rw [Db.owned, Option.filter_eq_some_iff, decide_eq_true_eq]

theorem Db.owned_eq_none :
    db.owned ownerId id = none ↔ ∀ a, db.view id = some a → a.row.ownerId ≠ ownerId := by
  rw [Db.owned, Option.filter_eq_none_iff]
  simp

theorem Db.SameFor.mem_rows (h : db.SameFor ownerId db') {row : TaskRow τ}
    (hrow : row ∈ db.tasks.rows) (how : row.ownerId = ownerId) : row ∈ db'.tasks.rows := by
  have hv : db.view row.taskId = some ⟨row, db.itemRows row.taskId⟩ :=
    Db.view_eq_some.2 ⟨Table.lookup_of_mem hrow, rfl⟩
  have howned : db.owned ownerId row.taskId = some ⟨row, db.itemRows row.taskId⟩ :=
    Db.owned_eq_some.2 ⟨hv, how⟩
  rw [h row.taskId] at howned
  exact Table.mem_of_lookup (Db.view_eq_some.1 (Db.owned_eq_some.1 howned).1).1

theorem Db.SameFor.symm (h : db.SameFor ownerId db') : db'.SameFor ownerId db := fun id => (h id).symm

theorem Db.SameFor.select_perm (h : db.SameFor ownerId db') {p : TaskRow τ → Bool}
    (hp : ∀ row, p row = true → row.ownerId = ownerId) :
    (db.tasks.select p).Perm (db'.tasks.select p) := by
  have hnodup : ∀ db : Db τ, (db.tasks.select p).Nodup := fun db =>
    (List.Nodup.of_map _ db.tasks.nodup).filter _
  rw [List.perm_ext_iff_of_nodup (hnodup db) (hnodup db')]
  intro row
  rw [Table.select, Table.select, List.mem_filter, List.mem_filter]
  constructor
  · rintro ⟨hrow, hpass⟩
    exact ⟨h.mem_rows hrow (hp row hpass), hpass⟩
  · rintro ⟨hrow, hpass⟩
    exact ⟨h.symm.mem_rows hrow (hp row hpass), hpass⟩

theorem getRunningSummary_congr (h : db.SameFor ownerId db') :
    getRunningSummary ownerId db = getRunningSummary ownerId db' := by
  have hperm := h.select_perm (p := fun t => t.ownerId = ownerId ∧ t.status.isRunning) fun row hrow => by
    rw [decide_eq_true_eq] at hrow
    exact hrow.1
  unfold getRunningSummary
  simp only [hperm.length_eq, hperm.countP_eq, (hperm.map _).sum_eq]

end Owned

/-! ### The service reads -/

section Service
variable [LinearOrder τ] [VAdd ℤ τ] {service : ExtractionTaskService} {db db' : Db τ}
  {ownerId id : String} {now : τ}

omit [VAdd ℤ τ] in
theorem Aggregate.maintain_ownerId {a a' : Aggregate τ} {cutoff : τ}
    (h : a.maintain now cutoff = some a') : a'.row.ownerId = a.row.ownerId := by
  rcases (Aggregate.maintain_eq_some.1 h).1 with ⟨-, rfl⟩ | ⟨-, rfl⟩ <;> rfl

/-- Maintenance treats the tasks of an owner by themselves. -/
theorem owned_maintainRetention (now : τ) (db : Db τ) (ownerId id : String) :
    (service.maintainRetention now db).owned ownerId id =
      (db.owned ownerId id).bind (Aggregate.maintain now (-service.tombstone +ᵥ now)) := by
  have hview := view_maintainRetention service now db id
  cases hv : db.view id with
  | none =>
    rw [hv] at hview
    rw [Db.owned_of_none hv, Db.owned_of_none hview]
    rfl
  | some a =>
    rw [hv, Option.bind_some] at hview
    rw [Db.owned_of_view hv]
    cases hm : a.maintain now (-service.tombstone +ᵥ now) with
    | none =>
      rw [hm] at hview
      rw [Db.owned_of_none hview]
      split
      · rw [Option.bind_some, hm]
      · rfl
    | some a' =>
      rw [hm] at hview
      rw [Db.owned_of_view hview, Aggregate.maintain_ownerId hm]
      split
      · rw [Option.bind_some, hm]
      · rfl

theorem Db.SameFor.maintainRetention (h : db.SameFor ownerId db') (service : ExtractionTaskService)
    (now : τ) :
    (service.maintainRetention now db).SameFor ownerId (service.maintainRetention now db') := by
  intro id
  rw [owned_maintainRetention, owned_maintainRetention, h id]

/-- What a status read answers of the owner's part. -/
def statusAnswer : Option (Aggregate τ) → Except TaskServiceError (ExtractionTaskRecord τ)
  | none => .error .taskNotFound
  | some a =>
    if a.row.purgedAt.isSome then .error .taskExpired else .ok (a.row.statusProjection.record false)

/-- What a results read answers of the owner's part. -/
def resultsAnswer : Option (Aggregate τ) → Except TaskServiceError (TaskResultsRecord τ)
  | none => .error .taskNotFound
  | some a =>
    if a.row.purgedAt.isSome then .error .taskExpired
    else if ¬ a.row.status.isTerminal then .error (.resultsPending a.row.status.value)
    else if (a.row.record true).model.isNone then .error .taskExpired
    else
      match taskResults (a.row.record true) (a.items.map itemFromRow) with
      | .error e => .error (.raised e)
      | .ok results => .ok results

theorem maintained_inv (calls : List (Call τ)) {a : Aggregate τ}
    (hv : (service.maintainRetention now (Db.run calls)).view id = some a) : a.Inv := by
  rw [maintainRetention_run] at hv
  exact Db.run_inv hv

theorem getStatus_owned (calls : List (Call τ)) (ownerId id : String) (now : τ) :
    (service.getStatus ownerId id now (Db.run calls)).1 =
      statusAnswer ((service.maintainRetention now (Db.run calls)).owned ownerId id) := by
  cases hv : (service.maintainRetention now (Db.run calls)).view id with
  | none =>
    rw [service_getStatus_of_none hv, Db.owned_of_none hv]
    rfl
  | some a =>
    rw [service_getStatus_of_view (maintained_inv calls hv) hv, Db.owned_of_view hv]
    split <;> rfl

theorem getResults_owned (calls : List (Call τ)) (ownerId id : String) (now : τ) :
    (service.getResults ownerId id now (Db.run calls)).1 =
      resultsAnswer ((service.maintainRetention now (Db.run calls)).owned ownerId id) := by
  show ExtractionTaskService.readResults ownerId id (service.maintainRetention now (Db.run calls))
    (service.maintainRetention now (Db.run calls)) = _
  cases hv : (service.maintainRetention now (Db.run calls)).view id with
  | none =>
    rw [readResults_of_none hv, Db.owned_of_none hv]
    rfl
  | some a =>
    rw [readResults_of_view (maintained_inv calls hv) hv, Db.owned_of_view hv,
      (Db.view_eq_some.1 hv).2]
    split <;> rfl

/-- The three reads of an owner at `now`, on two stores. -/
structure ReadsAlike (service : ExtractionTaskService) (ownerId id : String) (now : τ) (db db' : Db τ) :
    Prop where
  status : (service.getStatus ownerId id now db).1 = (service.getStatus ownerId id now db').1
  results : (service.getResults ownerId id now db).1 = (service.getResults ownerId id now db').1
  summary : (service.getRunningSummary ownerId now db).1 = (service.getRunningSummary ownerId now db').1
  afterStatus : (service.getStatus ownerId id now db).2.SameFor ownerId
    (service.getStatus ownerId id now db').2
  afterResults : (service.getResults ownerId id now db).2.SameFor ownerId
    (service.getResults ownerId id now db').2
  afterSummary : (service.getRunningSummary ownerId now db).2.SameFor ownerId
    (service.getRunningSummary ownerId now db').2

theorem snd_getStatus (ownerId id : String) (now : τ) (db : Db τ) :
    (service.getStatus ownerId id now db).2 = service.maintainRetention now db := by
  rw [ExtractionTaskService.getStatus]
  split <;> rfl

/-- Two stores that agree on what is the owner's answer her alike and agree again afterwards; and a
task that is not hers reads as one that is not there. -/
theorem owner_noninterference (service : ExtractionTaskService) (calls calls' : List (Call τ))
    (ownerId id : String) (now : τ) (h : (Db.run calls).SameFor ownerId (Db.run calls')) :
    ReadsAlike service ownerId id now (Db.run calls) (Db.run calls') ∧
      ((∀ a, (Db.run calls).view id = some a → a.row.ownerId ≠ ownerId) →
        (service.getStatus ownerId id now (Db.run calls)).1 = .error .taskNotFound ∧
        (service.getResults ownerId id now (Db.run calls)).1 = .error .taskNotFound) := by
  have hafter := h.maintainRetention service now
  refine ⟨⟨?_, ?_, getRunningSummary_congr hafter, ?_, hafter, hafter⟩, fun hforeign => ?_⟩
  · rw [getStatus_owned, getStatus_owned, hafter id]
  · rw [getResults_owned, getResults_owned, hafter id]
  · rw [snd_getStatus, snd_getStatus]
    exact hafter
  · rw [getStatus_owned, getResults_owned, owned_maintainRetention, Db.owned_eq_none.2 hforeign]
    exact ⟨rfl, rfl⟩

end Service

/-- A task of the owner `A`. -/
def ownTask : Call ℤ := .createTask "mine" "A" [] [] [("a", "x")] 1 10

/-- A task of another owner, under a lease. -/
def foreignTask : List (Call ℤ) := [.createTask "theirs" "B" [] [] [("b", "y")] 0 20, .claimTask "w" 1 5]

theorem sameFor_sample : (Db.run [ownTask]).SameFor "A" (Db.run (ownTask :: foreignTask)) := by
  have hids : (Db.run [ownTask]).tasks.rows.map TaskRow.taskId = ["mine"] := rfl
  have hids' : (Db.run (ownTask :: foreignTask)).tasks.rows.map TaskRow.taskId = ["mine", "theirs"] := rfl
  have habsent : ∀ (db : Db ℤ) id, id ∉ db.tasks.rows.map TaskRow.taskId → db.owned "A" id = none := by
    intro db id hid
    refine Db.owned_of_none (Db.view_eq_none.2 (Table.lookup_eq_none_iff.2 fun row hrow he => hid ?_))
    exact List.mem_map.2 ⟨row, hrow, he⟩
  intro id
  by_cases hmine : id = "mine"
  · subst hmine
    rfl
  · by_cases htheirs : id = "theirs"
    · subst htheirs
      rfl
    · rw [habsent _ id (by simp [hids, hmine]), habsent _ id (by simp [hids', hmine, htheirs])]

theorem owner_noninterference_example :
    ReadsAlike (stubService []) "A" "theirs" 2 (Db.run [ownTask]) (Db.run (ownTask :: foreignTask)) ∧
      (stubService []).getStatus "A" "theirs" 2 (Db.run (ownTask :: foreignTask)) =
        (.error .taskNotFound, Db.run (ownTask :: foreignTask)) :=
  ⟨(owner_noninterference (stubService []) [ownTask] (ownTask :: foreignTask) "A" "theirs" 2
    sameFor_sample).1, rfl⟩

end TextExtraction
