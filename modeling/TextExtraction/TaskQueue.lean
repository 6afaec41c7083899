import TextExtraction.TaskWorkerStep

/-!
# Worker steps and the queue

What `run_worker_step` does with nobody else writing. It makes calls about one task only, the oldest one it
may claim, and finishes it; every other task is left as maintenance leaves it (`Turn.Serves`,
`turn_step`). `Db.queue` lists the unfinished tasks in the order of `(created_at, task_id)`.
-/

namespace TextExtraction

open Python Relational Transition

variable {τ : Type}

/-! ### The calls of one worker step -/

/-- A call a worker makes about the task it has claimed. -/
def Call.Works (id : String) : Call τ → Prop
  | .renewLease taskId .. | .claimNextItem taskId .. | .finalizeItem taskId .. | .failTask taskId .. => taskId = id
  | _ => False

/-- `a'` is the task `a` after some work: what was submitted, for whom and until when is as it was. -/
structure Aggregate.SameTask (a a' : Aggregate τ) : Prop where
  taskId : a'.row.taskId = a.row.taskId
  ownerId : a'.row.ownerId = a.row.ownerId
  criteria : a'.row.criteriaJson = a.row.criteriaJson
  model : a'.row.modelJson = a.row.modelJson
  accepted : a'.row.acceptedCount = a.row.acceptedCount
  createdAt : a'.row.createdAt = a.row.createdAt
  expiresAt : a'.row.expiresAt = a.row.expiresAt
  purgedAt : a'.row.purgedAt = a.row.purgedAt

namespace Aggregate.SameTask

variable {a a' a'' : Aggregate τ}

theorem refl (a : Aggregate τ) : a.SameTask a := ⟨rfl, rfl, rfl, rfl, rfl, rfl, rfl, rfl⟩

theorem trans (h : a.SameTask a') (h' : a'.SameTask a'') : a.SameTask a'' where
  taskId := h'.taskId.trans h.taskId
  ownerId := h'.ownerId.trans h.ownerId
  criteria := h'.criteria.trans h.criteria
  model := h'.model.trans h.model
  accepted := h'.accepted.trans h.accepted
  createdAt := h'.createdAt.trans h.createdAt
  expiresAt := h'.expiresAt.trans h.expiresAt
  purgedAt := h'.purgedAt.trans h.purgedAt

end Aggregate.SameTask

/-- Only a purge touches these columns. -/
theorem Aggregate.Step.sameTask [LinearOrder τ] {a a' : Aggregate τ} {act : Action τ} (h : a.Step act a')
    (hact : ∀ now, act ≠ .purge now) : a.SameTask a' := by
  cases h with
  | @purge now => exact absurd rfl (hact now)
  | _ => exact ⟨rfl, rfl, rfl, rfl, rfl, rfl, rfl, rfl⟩

section Calls
variable [LinearOrder τ] [VAdd ℤ τ]

/-- The store after more calls. -/
def Db.after (db : Db τ) (calls : List (Call τ)) : Db τ := calls.foldl (fun db c => c.exec db) db

theorem Db.after_run (calls more : List (Call τ)) : (Db.run calls).after more = Db.run (calls ++ more) := by
  rw [Db.run, Db.run, List.foldl_append]
  rfl

/-- `db'` is `db` after calls about the task `id` alone. -/
def Db.Worked (id : String) (db db' : Db τ) : Prop := ∃ more, (∀ c ∈ more, Call.Works id c) ∧ db' = db.after more

namespace Db.Worked

variable {id : String} {db db' db'' : Db τ}

theorem refl (db : Db τ) : Db.Worked id db db := ⟨[], by simp, rfl⟩

theorem cons {c : Call τ} (hc : c.Works id) (h : Db.Worked id (c.exec db) db') : Db.Worked id db db' := by
  obtain ⟨more, hmore, rfl⟩ := h
  exact ⟨c :: more, by simpa using ⟨hc, hmore⟩, rfl⟩

theorem trans (h : Db.Worked id db db') (h' : Db.Worked id db' db'') : Db.Worked id db db'' := by
  obtain ⟨more, hmore, rfl⟩ := h
  obtain ⟨more', hmore', rfl⟩ := h'
  refine ⟨more ++ more', fun c hc => ?_, by rw [Db.after, Db.after, Db.after, List.foldl_append]⟩
  rcases List.mem_append.1 hc with hc | hc
  · exact hmore c hc
  · exact hmore' c hc

end Db.Worked

omit [LinearOrder τ] [VAdd ℤ τ] in
theorem Call.Works.target {c : Call τ} {id : String} [LinearOrder τ] (h : c.Works id) (db : Db τ) :
    c.target db = some id ∧ ∀ now tombstone, c ≠ .maintainRetention now tombstone := by
  cases c with
  | createTask => exact h.elim
  | claimTask => exact h.elim
  | maintainRetention => exact h.elim
  | _ =>
    refine ⟨congrArg some h, fun now tombstone hc => ?_⟩
    cases hc

/-- What is worked on a task leaves every other task alone. -/
theorem view_after_works (calls more : List (Call τ)) {id : String} (hmore : ∀ c ∈ more, Call.Works id c)
    {id' : String} (hne : id' ≠ id) : ((Db.run calls).after more).view id' = (Db.run calls).view id' := by
  induction more generalizing calls with
  | nil => rfl
  | cons c more ih =>
    obtain ⟨htarget, hmaintain⟩ := (hmore c (by simp)).target (Db.run calls)
    have hframe := (Db.change_run calls c).frame hmaintain (by rw [htarget]; simpa using hne.symm)
    have hview : (Db.run (calls ++ [c])).view id' = (Db.run calls).view id' := by
      rw [Db.view, Db.view, hframe.1, hframe.2]
    have hrest := ih (calls ++ [c]) fun c' hc' => hmore c' (by simp [hc'])
    rw [hview, Db.run_snoc] at hrest
    exact hrest

/-- What is worked on a task leaves it the task it was. -/
theorem sameTask_after_works (calls more : List (Call τ)) {id : String} (hmore : ∀ c ∈ more, Call.Works id c)
    {a : Aggregate τ} (hv : (Db.run calls).view id = some a) :
    ∃ a', ((Db.run calls).after more).view id = some a' ∧ a.SameTask a' := by
  induction more generalizing calls a with
  | nil => exact ⟨a, hv, .refl a⟩
  | cons c more ih =>
    have hmaintain := ((hmore c (by simp)).target (Db.run calls)).2
    have haff := (Db.change_run calls c).affects id
    rw [hv] at haff
    have hstep : ∃ b, (Db.run (calls ++ [c])).view id = some b ∧ a.SameTask b := by
      generalize hb : (Db.run (calls ++ [c])).view id = v at haff
      cases haff with
      | same => exact ⟨a, rfl, .refl a⟩
      | stepped hstep hdoes =>
        refine ⟨_, rfl, hstep.sameTask fun now hact => ?_⟩
        subst hact
        cases hdoes
      | purged hc => exact absurd hc (hmaintain _ _)
      | deleted hc => exact absurd hc (hmaintain _ _)
    obtain ⟨b, hb, hsame⟩ := hstep
    obtain ⟨a', ha', hsame'⟩ := ih (calls ++ [c]) (fun c' hc' => hmore c' (by simp [hc'])) hb
    rw [Db.run_snoc] at ha'
    exact ⟨a', ha', hsame.trans hsame'⟩

namespace ExtractionTaskService

variable {service : ExtractionTaskService} {inRange : τ → Bool} {w : String} {clock : ℕ → τ}

/-- The loop makes calls about its own task. -/
theorem processLoop_works {context : WorkerContext} (fuel n : ℕ) {db after : Db τ} {result : Except Exc Unit}
    {m : ℕ} (h : service.processLoop inRange w clock context fuel n db = some (result, m, after)) :
    Db.Worked context.taskId db after := by
  induction fuel generalizing n db with
  | zero => cases h
  | succ fuel ih =>
    unfold processLoop at h
    cases hadd : addTimedelta inRange (clock n) service.lease with
    | error e =>
      simp only [hadd] at h
      cases h
      exact .refl _
    | ok expiry =>
    simp only [hadd] at h
    refine .cons (c := .renewLease context.taskId w (clock n) service.lease) rfl ?_
    simp only [Call.exec]
    cases hr : TextExtraction.renewLease context.taskId w (clock n) service.lease db with
    | mk renewed db₁ =>
    simp only [hr] at h
    cases renewed with
    | false =>
      cases h
      exact .refl _
    | true =>
    refine .cons (c := .claimNextItem context.taskId w (clock n)) rfl ?_
    simp only [Call.exec]
    cases ht : TextExtraction.claimNextItem context.taskId w (clock n) db₁ with
    | mk taken db₂ =>
    simp only [ht] at h
    cases taken with
    | none =>
      cases h
      exact .refl _
    | some item =>
    cases hp : service.processItem context item with
    | error e =>
      simp only [hp] at h
      cases h
      exact .refl _
    | ok arguments =>
    obtain ⟨outcome, error⟩ := arguments
    simp only [hp] at h
    refine .cons (c := .finalizeItem context.taskId w item.position outcome error (clock (n + 1))) rfl ?_
    simp only [Call.exec]
    cases hf : TextExtraction.finalizeItem context.taskId w item.position outcome error (clock (n + 1)) db₂ with
    | mk answer db₃ =>
    simp only [hf] at h
    cases answer with
    | error e =>
      cases h
      exact .refl _
    | ok updated =>
    dsimp only at h
    split at h
    · cases h
      exact .refl _
    · exact ih (n + 2) h

theorem recover_works {taskId : String} {error : Exc} {n : ℕ} {db : Db τ} :
    Db.Worked taskId db (recover w clock taskId error n db).2 := by
  unfold recover
  cases error.str with
  | error raised => exact .refl _
  | ok message =>
    refine .cons (c := .failTask taskId w (taskFailure (orElse message "Task processing failed")) (clock n)) rfl ?_
    simp only [Call.exec]
    cases hf : TextExtraction.failTask taskId w (taskFailure (orElse message "Task processing failed"))
        (clock n) db with
    | mk answer db' =>
      cases answer with
      | error e => exact .refl _
      | ok task => exact .refl _

theorem processClaimedTask_works {fuel n : ℕ} {task : ExtractionTaskRecord τ} {db after : Db τ}
    {result : Except Exc Unit}
    (h : service.processClaimedTask inRange w clock fuel task n db = some (result, after)) :
    Db.Worked task.taskId db after := by
  unfold processClaimedTask at h
  cases hb : beginProcessing task with
  | error e =>
    rw [hb] at h
    rw [show after = (recover w clock task.taskId e n db).2 by rw [Option.some.inj h]]
    exact recover_works
  | ok context =>
    rw [hb] at h
    have hid := taskId_of_beginProcessing hb
    simp only at h
    cases hl : service.processLoop inRange w clock context fuel n db with
    | none => rw [hl] at h; cases h
    | some ending =>
      obtain ⟨ended, m, db'⟩ := ending
      have hloop := processLoop_works fuel n hl
      rw [hid] at hloop
      rw [hl] at h
      cases ended with
      | error e =>
        refine hloop.trans ?_
        rw [show after = (recover w clock task.taskId e m db').2 by rw [Option.some.inj h]]
        exact recover_works
      | ok u =>
        cases h
        exact hloop

end ExtractionTaskService

end Calls

/-! ### The unfinished tasks, by age -/

section Queue
variable [LinearOrder τ]

/-- The unfinished tasks, the oldest first. -/
def Db.queue (db : Db τ) : List (TaskRow τ) :=
  orderBy (fun t => toLex (t.createdAt, t.taskId)) (db.tasks.select fun t => !t.status.isTerminal)

theorem Db.mem_queue {db : Db τ} {row : TaskRow τ} :
    row ∈ db.queue ↔ ∃ a, db.view row.taskId = some a ∧ a.row = row ∧ row.status.isTerminal = false := by
  rw [queue, mem_orderBy, Table.select, List.mem_filter]
  constructor
  · rintro ⟨hmem, hrun⟩
    exact ⟨⟨row, db.itemRows row.taskId⟩, Db.view_eq_some.2 ⟨Table.lookup_of_mem hmem, rfl⟩, rfl, by simpa using hrun⟩
  · rintro ⟨a, hv, hrow, hrun⟩
    have hmem := Table.mem_of_lookup (Db.view_eq_some.1 hv).1
    rw [hrow] at hmem
    exact ⟨hmem, by simp [hrun]⟩

theorem Db.row_mem_queue {db : Db τ} {id : String} {a : Aggregate τ} (hv : db.view id = some a)
    (hrun : a.row.status.isTerminal = false) : a.row ∈ db.queue :=
  Db.mem_queue.2 ⟨a, by rw [Db.view_taskId hv]; exact hv, rfl, hrun⟩

theorem Db.nodup_queue (db : Db τ) : (db.queue.map TaskRow.taskId).Nodup :=
  ((orderBy_perm _ _).map _).nodup_iff.2 (db.tasks.nodup.sublist (List.filter_sublist.map _))

theorem Db.queue_pairwise (db : Db τ) :
    db.queue.Pairwise fun s t => toLex (s.createdAt, s.taskId) < toLex (t.createdAt, t.taskId) := by
  have hsorted : db.queue.Pairwise fun s t => toLex (s.createdAt, s.taskId) ≤ toLex (t.createdAt, t.taskId) :=
    orderBy_pairwise _ _
  refine hsorted.imp₂ (fun s t hle hne => lt_of_le_of_ne hle fun heq => hne ?_) (List.pairwise_map.1 db.nodup_queue)
  have hpair := congrArg ofLex heq
  exact congrArg Prod.snd hpair

/-- The queue is the one list of the unfinished rows that goes by age. -/
theorem Db.queue_eq {db : Db τ} {rows : List (TaskRow τ)}
    (hsorted : rows.Pairwise fun s t => toLex (s.createdAt, s.taskId) < toLex (t.createdAt, t.taskId))
    (hmem : ∀ row, row ∈ db.queue ↔ row ∈ rows) : db.queue = rows :=
  haveI : Std.Irrefl fun s t : TaskRow τ => toLex (s.createdAt, s.taskId) < toLex (t.createdAt, t.taskId) :=
    ⟨fun _ => lt_irrefl _⟩
  haveI : Std.Antisymm fun s t : TaskRow τ => toLex (s.createdAt, s.taskId) < toLex (t.createdAt, t.taskId) :=
    ⟨fun _ _ h h' => absurd h h'.asymm⟩
  db.queue_pairwise.eq_of_mem_iff hsorted hmem

/-- What is claimed first is at the head of the queue. -/
theorem Db.queue_cons {db after : Db τ} {row : TaskRow τ}
    (hfirst : ∀ next ∈ after.queue, toLex (row.createdAt, row.taskId) < toLex (next.createdAt, next.taskId))
    (hmem : ∀ next, next ∈ db.queue ↔ next = row ∨ next ∈ after.queue) : db.queue = row :: after.queue :=
  Db.queue_eq (List.pairwise_cons.2 ⟨hfirst, after.queue_pairwise⟩) fun next => by rw [List.mem_cons]; exact hmem next

/-- The queue is shorter once a task is off it and none is new on it. -/
theorem Db.queue_lt {db after : Db τ} {id : String} (hmem : id ∈ db.queue.map TaskRow.taskId)
    (hnot : id ∉ after.queue.map TaskRow.taskId)
    (hsub : after.queue.map TaskRow.taskId ⊆ db.queue.map TaskRow.taskId) :
    after.queue.length < db.queue.length := by
  have hall : (id :: after.queue.map TaskRow.taskId) ⊆ db.queue.map TaskRow.taskId := List.cons_subset.2 ⟨hmem, hsub⟩
  have hle := (List.subperm_of_subset (List.nodup_cons.2 ⟨hnot, after.nodup_queue⟩) hall).length_le
  rw [List.length_cons, List.length_map, List.length_map] at hle
  exact hle

/-- The claimed row is the least by age. -/
theorem oldestClaimable_le {now : τ} {db : Db τ} {row : TaskRow τ} (h : oldestClaimable now db = some row)
    {id : String} {a : Aggregate τ} (hv : db.view id = some a) (hclaim : a.row.claimable now = true) :
    toLex (row.createdAt, row.taskId) ≤ toLex (a.row.createdAt, a.row.taskId) := by
  have hmem : a.row ∈ orderBy (fun t => toLex (t.createdAt, t.taskId)) (db.tasks.select (·.claimable now)) :=
    mem_orderBy.2 (List.mem_filter.2 ⟨Table.mem_of_lookup (Db.view_eq_some.1 hv).1, hclaim⟩)
  have hsorted := orderBy_pairwise (fun t : TaskRow τ => toLex (t.createdAt, t.taskId))
    (db.tasks.select (·.claimable now))
  rw [oldestClaimable] at h
  cases horder : orderBy (fun t : TaskRow τ => toLex (t.createdAt, t.taskId))
      (db.tasks.select (·.claimable now)) with
  | nil => rw [horder] at h; cases h
  | cons first rest =>
    rw [horder] at h hmem hsorted
    obtain rfl : first = row := by simpa using h
    rcases List.mem_cons.1 hmem with heq | hrest
    · rw [heq]
    · exact (List.pairwise_cons.1 hsorted).1 _ hrest

end Queue

/-! ### One turn -/

/-- A worker step about to be made: the worker, and the readings of its clock. -/
structure Turn (τ : Type) where
  workerId : String
  clock : ℕ → τ

/-- The clock reading `claim_task` gets. -/
def Turn.time (turn : Turn τ) : τ := turn.clock 1

variable [LinearOrder τ] [VAdd ℤ τ]

/-- The store `claim_task` reads. -/
def Turn.maintained (service : ExtractionTaskService) (turn : Turn τ) (db : Db τ) : Db τ :=
  service.maintainRetention (turn.clock 0) db

/-- A worker step: what `run_worker_step` answers, and what it does. It rests when there is nothing to
claim, or it finishes the oldest task it may claim; every other task is as maintenance leaves it. -/
inductive Turn.Serves (service : ExtractionTaskService) (inRange : τ → Bool) (fuel : ℕ) :
    Db τ → Turn τ × Option (TaskRow τ) → Db τ → Prop
  | worked {db after turn a a'}
      (hrun : service.runWorkerStep inRange turn.workerId turn.clock fuel db = some (.ok true, after))
      (hold : oldestClaimable turn.time (turn.maintained service db) = some a.row)
      (hv : (turn.maintained service db).view a.row.taskId = some a)
      (hafter : after.view a.row.taskId = some a') (hsame : a.SameTask a') (hdone : Truthful service a a')
      (hframe : ∀ id, id ≠ a.row.taskId → after.view id = (turn.maintained service db).view id) :
      Turn.Serves service inRange fuel db (turn, some a.row) after
  | rested {db turn}
      (hrun : service.runWorkerStep inRange turn.workerId turn.clock fuel db =
        some (.ok false, turn.maintained service db))
      (hnone : oldestClaimable turn.time (turn.maintained service db) = none) :
      Turn.Serves service inRange fuel db (turn, none) (turn.maintained service db)

/-- No sum of the step's first two calls leaves the times a clock can show. -/
def Turn.Timely (service : ExtractionTaskService) (inRange : τ → Bool) (turn : Turn τ) : Prop :=
  inRange (-service.tombstone +ᵥ turn.clock 0) = true ∧ inRange (service.lease +ᵥ turn.clock 1) = true

section Turn
variable {service : ExtractionTaskService} {inRange : τ → Bool}

theorem Turn.maintained_run (turn : Turn τ) (calls : List (Call τ)) :
    turn.maintained service (Db.run calls) =
      Db.run (calls ++ [.maintainRetention (turn.clock 0) service.tombstone]) :=
  maintainRetention_run calls (turn.clock 0)

omit [VAdd ℤ τ] in
/-- Maintenance leaves a task as it is, or without its payloads and its lease. -/
theorem Aggregate.maintain_kept {a a' : Aggregate τ} {now cutoff : τ} (h : a.maintain now cutoff = some a') :
    a'.row.acceptedCount = a.row.acceptedCount ∧ a'.row.status = a.row.status ∧
      (a' = a ∨ a'.row.purgedAt.isSome = true ∧ a'.row.leaseExpiresAt = none) := by
  rcases (Aggregate.maintain_eq_some.1 h).1 with ⟨-, rfl⟩ | ⟨-, rfl⟩
  · exact ⟨rfl, rfl, .inl rfl⟩
  · exact ⟨rfl, rfl, .inr ⟨rfl, rfl⟩⟩

theorem Turn.view_maintained (turn : Turn τ) (db : Db τ) (id : String) :
    (turn.maintained service db).view id =
      (db.view id).bind (Aggregate.maintain (turn.clock 0) (-service.tombstone +ᵥ turn.clock 0)) :=
  view_maintainRetention service (turn.clock 0) db id

theorem Turn.of_view_maintained {turn : Turn τ} {db : Db τ} {id : String} {a : Aggregate τ}
    (h : (turn.maintained service db).view id = some a) :
    ∃ a₀, db.view id = some a₀ ∧ a.row.acceptedCount = a₀.row.acceptedCount ∧ a.row.status = a₀.row.status ∧
      (a = a₀ ∨ a.row.purgedAt.isSome = true ∧ a.row.leaseExpiresAt = none) := by
  rw [turn.view_maintained, Option.bind_eq_some_iff] at h
  obtain ⟨a₀, h₀, h⟩ := h
  exact ⟨a₀, h₀, Aggregate.maintain_kept h⟩

/-- Maintenance leaves a task it does not purge as it was. -/
theorem Turn.view_of_maintained {turn : Turn τ} {db : Db τ} {id : String} {a : Aggregate τ}
    (h : (turn.maintained service db).view id = some a) (hpurged : a.row.purgedAt = none) : db.view id = some a := by
  obtain ⟨a₀, h₀, -, -, hkept⟩ := Turn.of_view_maintained h
  rcases hkept with rfl | ⟨hgone, -⟩
  · exact h₀
  · rw [hpurged] at hgone
    cases hgone

/-- A step with nothing to claim answers `False`; any other finishes the oldest task it may claim. The
other tasks are as maintenance left them. -/
theorem turn_step (hlease : ∀ t : τ, t < service.lease +ᵥ t) (hrenders : service.extractionService.Renders)
    (calls : List (Call τ)) {turn : Turn τ} (htimely : turn.Timely service inRange) {fuel : ℕ}
    (hfuel : ∀ id a, (Db.run calls).view id = some a → a.row.acceptedCount < fuel) :
    ∃ claimed calls', Turn.Serves service inRange fuel (Db.run calls) (turn, claimed) (Db.run calls') := by
  obtain ⟨hcutoff, hexpiry⟩ := htimely
  have hmaintained : turn.maintained service (Db.run calls) = _ := turn.maintained_run calls
  rcases claimTask_cases turn.workerId turn.time service.lease (turn.maintained service (Db.run calls)) with
    ⟨hnone, hclaim⟩ | ⟨a, hold, ha, hstep, hanswer, hrep⟩
  · refine ⟨none, calls ++ [.maintainRetention (turn.clock 0) service.tombstone], ?_⟩
    rw [← turn.maintained_run]
    refine .rested ?_ hnone
    unfold ExtractionTaskService.runWorkerStep addTimedelta
    simp only [hcutoff, hexpiry, if_true]
    rw [show TextExtraction.claimTask turn.workerId (turn.clock 1) service.lease
      (service.maintainRetention (turn.clock 0) (Db.run calls)) = _ from hclaim]
  · have hinv : a.Inv := by
      rw [hmaintained] at ha
      exact Db.run_inv ha
    have hclaimable : a.row.claimable turn.time = true := (oldestClaimable_eq_some hold).2
    rw [(hinv.claim hclaimable).taskFromRow_eq true] at hanswer
    have hpending : a.items.countP (·.status.isPending) < fuel := by
      obtain ⟨a₀, h₀, haccepted, -⟩ := Turn.of_view_maintained ha
      have hle := List.countP_le_length (p := fun i : ItemRow τ => i.status.isPending) (l := a.items)
      rw [hinv.length_items, haccepted] at hle
      exact hle.trans_lt (hfuel _ _ h₀)
    have hcall : (TextExtraction.claimTask turn.workerId turn.time service.lease
        (turn.maintained service (Db.run calls))).2 =
        Db.run (calls ++ [.maintainRetention (turn.clock 0) service.tombstone] ++
          [.claimTask turn.workerId turn.time service.lease]) := by
      rw [Db.run_snoc, ← hmaintained]
      rfl
    generalize hclaimed : claimTask turn.workerId turn.time service.lease
      (turn.maintained service (Db.run calls)) = claimed at hanswer hrep hcall
    obtain ⟨r, db₁⟩ := claimed
    obtain rfl : r = .ok (some ((a.row.claim turn.workerId (service.lease +ᵥ turn.time) turn.time).record true)) :=
      hanswer
    obtain ⟨after, a', hprocess, hafter, htruthful⟩ := processClaimedTask_truthful inRange
      turn.clock hlease hrenders hinv hclaimable rfl hrep.view_self hpending 2
    obtain ⟨more, hmore, rfl⟩ := ExtractionTaskService.processClaimedTask_works hprocess
    have hrun : service.runWorkerStep inRange turn.workerId turn.clock fuel (Db.run calls) =
        some (.ok true, db₁.after more) := by
      unfold ExtractionTaskService.runWorkerStep addTimedelta
      simp only [hcutoff, hexpiry, if_true]
      rw [show TextExtraction.claimTask turn.workerId (turn.clock 1) service.lease
        (service.maintainRetention (turn.clock 0) (Db.run calls)) = _ from hclaimed]
      simp only [hprocess]
      rfl
    obtain rfl : db₁ = _ := hcall
    rw [Db.after_run] at hafter hrun
    -- the work after the claim is on the claimed task alone, which stays the task it was
    have hworks : ∀ c ∈ more, Call.Works a.row.taskId c := hmore
    obtain ⟨a₁, ha₁, hworked⟩ := sameTask_after_works _ more hworks hrep.view_self
    rw [Db.after_run] at ha₁
    obtain rfl : a₁ = a' := Option.some.inj (ha₁.symm.trans hafter)
    have hsame : a.SameTask a₁ := (hstep.sameTask (by rintro now ⟨⟩)).trans hworked
    refine ⟨some a.row, _, .worked hrun hold ha hafter hsame htruthful fun id hne => ?_⟩
    rw [← Db.after_run, view_after_works _ _ hworks hne]
    exact hrep.view_ne hne

end Turn

end TextExtraction
