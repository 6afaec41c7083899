import TextExtraction.TaskReads

/-!
# The answer of `create_task`

`create_task` reads its answer back over a second connection, after its transaction. The methods that a
worker calls read theirs before they commit. So `create_task` answers with what other connections have
left of the new task: it is the task as accepted exactly when none of them has claimed it, purged it or
deleted it in between (`createTaskAcross_eq_iff`).
-/

namespace TextExtraction

open Python Relational

variable {τ : Type}

/-- The end of `create_task`, in the database it finds then. -/
def reloadTask (taskId ownerId : String) (db : Db τ) : Except Exc (ExtractionTaskRecord τ) :=
  match getStatus taskId ownerId db with
  | .error e => .error e
  | .ok none => .error (.raised .runtimeError "Accepted task could not be reloaded")
  | .ok (some task) => .ok task

/-- The record of a task as `create_task` commits it. -/
def acceptedRecord (taskId ownerId : String) (accepted : ℕ) (createdAt expiresAt : τ) :
    ExtractionTaskRecord τ where
  taskId := taskId
  ownerId := ownerId
  status := .queued
  acceptedCount := accepted
  processedCount := 0
  successfulCount := 0
  failedCount := 0
  createdAt := createdAt
  updatedAt := createdAt
  expiresAt := expiresAt
  startedAt := none
  completedAt := none
  criteria := .none
  model := .none
  error := .none
  leaseOwner := none
  leaseExpiresAt := none
  purgedAt := none

section Across
variable [LinearOrder τ] [VAdd ℤ τ]

/-- The transactions of a list of calls, in their order. -/
def Call.execAll (calls : List (Call τ)) (db : Db τ) : Db τ := calls.foldl (fun db c => c.exec db) db

/-- `create_task`, with the transactions `gap` of other connections between its commit and its reload. -/
def createTaskAcross (taskId ownerId : String) (criteria model : List (Key × Value))
    (items : List (String × String)) (createdAt expiresAt : τ) (gap : List (Call τ)) (db : Db τ) :
    Except Exc (ExtractionTaskRecord τ) :=
  match insertTask taskId ownerId criteria model items createdAt expiresAt db with
  | (.error e, _) => .error e
  | (.ok _, db) => reloadTask taskId ownerId (Call.execAll gap db)

theorem createTaskAcross_nil (taskId ownerId : String) (criteria model : List (Key × Value))
    (items : List (String × String)) (createdAt expiresAt : τ) (db : Db τ) :
    createTaskAcross taskId ownerId criteria model items createdAt expiresAt [] db =
      (createTask taskId ownerId criteria model items createdAt expiresAt db).1 := by
  rw [createTaskAcross, createTask]
  rcases insertTask taskId ownerId criteria model items createdAt expiresAt db with ⟨error | -, db'⟩
  · rfl
  · show reloadTask taskId ownerId db' = _
    rw [reloadTask]
    rcases hstatus : getStatus taskId ownerId db' with error | - | task <;> simp only [hstatus]

/-- The call claims the task, or purges or deletes it: it expires at `expiresAt`. -/
def Call.Disturbs (taskId : String) (expiresAt : τ) (db : Db τ) : Call τ → Prop
  | .claimTask _ now _ => (oldestClaimable now db).map TaskRow.taskId = some taskId
  | .maintainRetention now _ => expiresAt ≤ now
  | _ => False

/-- None of the calls does. -/
def Undisturbed (taskId : String) (expiresAt : τ) : List (Call τ) → Db τ → Prop
  | [], _ => True
  | c :: gap, db => ¬c.Disturbs taskId expiresAt db ∧ Undisturbed taskId expiresAt gap (c.exec db)

/-- The id of the task that a call creates. -/
def Call.created : Call τ → Option String
  | .createTask taskId .. => some taskId
  | _ => none

end Across

/-! ### A task that nobody has touched, and one that somebody has -/

/-- What can still be claimed first: no lease, nothing done. -/
structure Aggregate.Untouched (a : Aggregate τ) : Prop where
  status : a.row.status = .queued
  leaseOwner : a.row.leaseOwner = none
  purgedAt : a.row.purgedAt = none

/-- The task is gone, or has been claimed or purged. -/
def Touched (view : Option (Aggregate τ)) : Prop :=
  ∀ a, view = some a → a.row.status ≠ .queued ∨ a.row.purgedAt ≠ none

section Calls
variable [LinearOrder τ] [VAdd ℤ τ] {db : Db τ} {id : String} {a : Aggregate τ} {c : Call τ}

omit [VAdd ℤ τ] in
theorem Aggregate.Step.touched {a' : Aggregate τ} {act : Action τ} (h : a.Step act a')
    (ht : a.row.status ≠ .queued ∨ a.row.purgedAt ≠ none) :
    a'.row.status ≠ .queued ∨ a'.row.purgedAt ≠ none := by
  cases h with
  | claim => exact .inl (by rintro ⟨⟩)
  | renew => exact ht
  | take => exact ht
  | finalize =>
    refine .inl ?_
    show (TaskRow.advance ..).status ≠ _
    unfold TaskRow.advance
    simp only
    split_ifs <;> simp
  | abort => exact .inl (by rintro ⟨⟩)
  | purge => exact .inr (by rintro ⟨⟩)

theorem Call.touched (hc : db.Closed) (ht : Touched (db.view id)) (hid : c.created ≠ some id) :
    Touched ((c.exec db).view id) := by
  have haff := (c.change hc).affects id
  generalize (c.exec db).view id = after at haff
  generalize db.view id = before at haff ht
  cases haff with
  | same => exact ht
  | created hc' =>
    subst hc'
    exact absurd rfl hid
  | stepped hstep _ =>
    intro b hb
    cases hb
    exact hstep.touched (ht _ rfl)
  | purged _ hstep =>
    intro b hb
    cases hb
    exact hstep.touched (ht _ rfl)
  | deleted => rintro b ⟨⟩

/-- Only a call that disturbs it reaches a task without a lease. -/
theorem Call.untouched (hc : db.Closed) (hv : db.view id = some a) (ha : a.Untouched)
    (hnot : ¬c.Disturbs id a.row.expiresAt db) : (c.exec db).view id = some a := by
  have hchange := c.change hc
  generalize c.exec db = db' at hchange ⊢
  cases hchange with
  | idle => exact hv
  | created _ _ _ _ hfresh _ hrep =>
    rw [hrep.view_ne, hv]
    rintro rfl
    rw [hv] at hfresh
    simp at hfresh
  | @stepped id' a₁ act a' _ hv' hstep hdoes htarget hrep =>
    rcases eq_or_ne id id' with rfl | hne
    · obtain rfl : a = a₁ := Option.some.inj (hv.symm.trans hv')
      cases hstep with
      | claim =>
        cases hdoes
        exact absurd htarget hnot
      | renew howner => simp [ha.leaseOwner] at howner
      | take howner => simp [ha.leaseOwner] at howner
      | finalize howner => simp [ha.leaseOwner] at howner
      | abort howner => simp [ha.leaseOwner] at howner
      | purge => cases hdoes
    · rw [hrep.view_ne hne, hv]
  | @maintained now tombstone _ hc' hview hclosed =>
    rw [hc'] at hnot
    rw [hview, hv, Option.bind_some]
    refine Aggregate.maintain_eq_some.2 ⟨.inl ⟨?_, rfl⟩, ?_⟩
    · rw [Bool.eq_false_iff, ne_eq, TaskRow.expired_iff]
      rintro ⟨hle, -⟩
      exact hnot hle
    · simp [TaskRow.elapsed, ha.purgedAt]

theorem Call.touches (hv : db.view id = some a) (ha : a.Untouched)
    (hd : c.Disturbs id a.row.expiresAt db) : Touched ((c.exec db).view id) := by
  cases c with
  | claimTask w now lease =>
    rcases claimTask_cases w now lease db with ⟨hnone, -⟩ | ⟨b, hsome, -, -, -, hrep⟩
    · rw [Disturbs, hnone] at hd
      simp at hd
    · rw [Disturbs, hsome] at hd
      obtain rfl : b.row.taskId = id := Option.some.inj hd
      intro b' hb'
      rw [exec, hrep.view_self] at hb'
      cases hb'
      exact .inl (by rintro ⟨⟩)
  | maintainRetention now tombstone =>
    intro b hb
    rw [exec, TextExtraction.maintainRetention, view_purgeAndDelete, hv, Option.bind_some,
      Aggregate.maintain_eq_some] at hb
    have hexpired : a.row.expired now = true := TaskRow.expired_iff.2 ⟨hd, ha.purgedAt⟩
    rcases hb.1 with ⟨hnot, -⟩ | ⟨-, rfl⟩
    · rw [hexpired] at hnot
      simp at hnot
    · exact .inr (by rintro ⟨⟩)
  | _ => exact hd.elim

theorem touched_execAll (gap : List (Call τ)) (hc : db.Closed) (ht : Touched (db.view id))
    (hids : ∀ c ∈ gap, c.created ≠ some id) : Touched ((Call.execAll gap db).view id) := by
  induction gap generalizing db with
  | nil => exact ht
  | cons c gap ih =>
    exact ih ((c.change hc).closed hc) (c.touched hc ht (hids c (by simp)))
      fun c' hc' => hids c' (by simp [hc'])

/-- A list of calls leaves the task as it was exactly when none of them disturbs it. -/
theorem execAll_cases {gap : List (Call τ)} (hc : db.Closed) (hv : db.view id = some a) (ha : a.Untouched)
    (hids : ∀ c ∈ gap, c.created ≠ some id) :
    (Undisturbed id a.row.expiresAt gap db ∧ (Call.execAll gap db).view id = some a) ∨
      (¬Undisturbed id a.row.expiresAt gap db ∧ Touched ((Call.execAll gap db).view id)) := by
  induction gap generalizing db with
  | nil => exact .inl ⟨trivial, hv⟩
  | cons c gap ih =>
    have hids' : ∀ c ∈ gap, c.created ≠ some id := fun c' hc' => hids c' (by simp [hc'])
    have hclosed : (c.exec db).Closed := (c.change hc).closed hc
    by_cases hd : c.Disturbs id a.row.expiresAt db
    · exact .inr ⟨fun h => h.1 hd, touched_execAll gap hclosed (Call.touches hv ha hd) hids'⟩
    · rcases ih hclosed (Call.untouched hc hv ha hd) hids' with ⟨hun, hview⟩ | ⟨hun, htouched⟩
      · exact .inl ⟨⟨hd, hun⟩, hview⟩
      · exact .inr ⟨fun h => hun h.2, htouched⟩

/-! ### The answer -/

/-- The answer of a `create_task` that has committed is the task it has committed exactly when no call
has disturbed it in between. -/
theorem createTaskAcross_eq_iff (before gap : List (Call τ)) (taskId ownerId : String)
    (criteria model : List (Key × Value)) (items : List (String × String)) (createdAt expiresAt : τ)
    (hcommit : (insertTask taskId ownerId criteria model items createdAt expiresAt (Db.run before)).1 = .ok ())
    (hids : ∀ c ∈ gap, c.created ≠ some taskId) :
    createTaskAcross taskId ownerId criteria model items createdAt expiresAt gap (Db.run before) =
        .ok (acceptedRecord taskId ownerId items.length createdAt expiresAt) ↔
      Undisturbed taskId expiresAt gap
        (insertTask taskId ownerId criteria model items createdAt expiresAt (Db.run before)).2 := by
  have hafter : ∃ calls, Db.run calls = Call.execAll gap
      (insertTask taskId ownerId criteria model items createdAt expiresAt (Db.run before)).2 := by
    refine ⟨before ++ [.createTask taskId ownerId criteria model items createdAt expiresAt] ++ gap, ?_⟩
    rw [Db.run, List.foldl_append, List.foldl_append]
    show Call.execAll gap (createTask taskId ownerId criteria model items createdAt expiresAt _).2 = _
    rw [Call.snd_createTask]
    rfl
  have hclosed := Db.closed_run before
  rcases insertTask_cases hclosed taskId ownerId criteria model items createdAt expiresAt with
    ⟨error, herror⟩ | ⟨cj, mj, -, -, hne, -, -, hrep⟩
  · rw [herror] at hcommit
    simp at hcommit
  obtain ⟨calls, hcalls⟩ := hafter
  unfold createTaskAcross
  generalize insertTask taskId ownerId criteria model items createdAt expiresAt (Db.run before) = inserted
    at hcommit hrep hcalls ⊢
  rcases inserted with ⟨answer, db⟩
  obtain rfl : answer = .ok () := hcommit
  show reloadTask taskId ownerId (Call.execAll gap db) = _ ↔ Undisturbed taskId expiresAt gap db
  rcases execAll_cases (hrep.closed hclosed) hrep.view_self ⟨rfl, rfl, rfl⟩ hids with
    ⟨hun, hview⟩ | ⟨hun, htouched⟩
  · refine iff_of_true ?_ hun
    have hinv := Aggregate.inv_newAggregate taskId ownerId cj mj hne createdAt expiresAt
    have howner : (newAggregate taskId ownerId cj mj items createdAt expiresAt).row.ownerId = ownerId := rfl
    rw [reloadTask, getStatus_of_view hinv hview, if_pos howner]
    rfl
  · refine iff_of_false ?_ hun
    rcases hview : (Call.execAll gap db).view taskId with - | a
    · rw [reloadTask, getStatus_of_none hview]
      rintro ⟨⟩
    · have hinv : a.Inv := Db.run_inv (hcalls.symm ▸ hview)
      rw [reloadTask, getStatus_of_view hinv hview]
      split_ifs with howner
      · intro heq
        have hrecord := Except.ok.inj heq
        rcases htouched a hview with hstatus | hpurged
        · exact hstatus (congrArg ExtractionTaskRecord.status hrecord)
        · exact hpurged (congrArg ExtractionTaskRecord.purgedAt hrecord)
      · rintro ⟨⟩

end Calls

end TextExtraction
