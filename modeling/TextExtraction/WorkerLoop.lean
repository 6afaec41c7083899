import TextExtraction.TaskWorkerStep

/-!
# The worker loop

`worker_loop` with the three ways it treats what its repository calls raise: maintenance and the claim
stand in no `try`, the calls of `_process_claimed_task` in a catch-all, and the `fail_task` of that
handler in one for `ValueError`. A run interleaves the loop with the transactions of everybody else; a
call of the loop runs, or raises instead of running (`LoopLabel.fault`).

Only the calls of the catch-all may raise (`LoopLabel.unguarded`). While nothing else does, no
exception leaves the loop, and it comes back to `claim_task` after boundedly many calls of its own.
-/

namespace TextExtraction

open Python Relational Transition

variable {τ : Type}

/-! ### The loop -/

/-- The repository calls of the loop. -/
inductive RepositoryCall
  | maintainRetention | claimTask | renewLease | claimNextItem | finalizeItem | failTask
deriving DecidableEq, Repr

/-- Where `worker_loop` stands. -/
inductive LoopState (τ : Type)
  /-- before `while not shutdown.is_set()` and the maintenance after it -/
  | checking
  | claiming
  /-- in `asyncio.wait_for(shutdown.wait(), …)` -/
  | waiting
  /-- in `_process_claimed_task` -/
  | processing (state : WorkerState τ)
  | returned
  | raised (error : Exc)

namespace LoopState

/-- The repository call the loop makes next. -/
def nextCall (shutdown : Bool) : LoopState τ → Option RepositoryCall
  | checking => if shutdown then none else some .maintainRetention
  | claiming => some .claimTask
  | processing (.renewing _) => some .renewLease
  | processing (.selecting ..) => some .claimNextItem
  | processing (.finalizing ..) => some .finalizeItem
  | processing (.failing ..) => some .failTask
  | _ => none

/-- `except Exception as error`, up to `fail_task`. -/
def caught (taskId : String) (error : Exc) : LoopState τ :=
  match error.str with
  | .ok message => processing (.failing taskId (orElse message "Task processing failed"))
  | .error inner => raised inner

/-- `except ValueError: pass`, the end of the handler. -/
def dropped (error : Exc) : LoopState τ := if error.kind = .valueError then checking else raised error

/-- The next repository call raises `error`. -/
def fault (error : Exc) : LoopState τ → LoopState τ
  | checking | claiming => raised error
  | processing (.renewing context) => caught context.taskId error
  | processing (.selecting context _) => caught context.taskId error
  | processing (.finalizing context ..) => caught context.taskId error
  | processing (.failing ..) => dropped error
  | state => state

end LoopState

namespace ExtractionTaskService

variable [LinearOrder τ] [VAdd ℤ τ] (service : ExtractionTaskService)

/-- The next move of the loop, its repository call not disturbed. -/
def loopStep (w : String) (now : τ) (shutdown : Bool) : LoopState τ → Db τ → LoopState τ × Db τ
  | .checking, db => if shutdown then (.returned, db) else (.claiming, service.maintainRetention now db)
  | .claiming, db =>
    match claimTask w now service.lease db with
    | (.error error, db) => (.raised error, db)
    | (.ok none, db) => (.waiting, db)
    | (.ok (some task), db) =>
      match beginProcessing task with
      | .ok context => (.processing (.renewing context), db)
      | .error error => (.caught task.taskId error, db)
  | .waiting, db => (.checking, db)
  | .processing .idle, db => (.checking, db)
  | .processing (.renewing context), db =>
    match renewLease context.taskId w now service.lease db with
    | (true, db) => (.processing (.selecting context now), db)
    | (false, db) => (.caught context.taskId (.raised .runtimeError "Task lease was lost"), db)
  | .processing (.selecting context now), db =>
    match claimNextItem context.taskId w now db with
    | (some item, db) => (.processing (.inferring context item), db)
    | (none, db) => (.checking, db)
  | .processing (.inferring context item), db =>
    match service.processItem context item with
    | .ok (outcome, error) => (.processing (.finalizing context item.position outcome error), db)
    | .error error => (.caught context.taskId error, db)
  | .processing (.finalizing context position outcome error), db =>
    match finalizeItem context.taskId w position outcome error now db with
    | (.ok updated, db) =>
      (if updated.status.isTerminal then .checking else .processing (.renewing context), db)
    | (.error error, db) => (.caught context.taskId error, db)
  | .processing (.failing taskId detail), db =>
    match failTask taskId w (taskFailure detail) now db with
    | (.ok _, db) => (.checking, db)
    | (.error error, db) => (.dropped error, db)
  | .returned, db => (.returned, db)
  | .raised error, db => (.raised error, db)

end ExtractionTaskService

/-! ### Runs -/

/-- The loop, the store it shares, and the event `lifespan` sets to stop it. -/
structure LoopSystem (τ : Type) where
  db : Db τ
  loop : LoopState τ
  shutdown : Bool

inductive LoopLabel (τ : Type)
  | act (now : τ)
  /-- the next repository call of the loop raises `error` and leaves the store alone -/
  | fault (call : RepositoryCall) (error : Exc)
  /-- a transaction of somebody else -/
  | other (call : Call τ)
  | shutdown

/-- A lock timeout and its like: no `ValueError`, and it has a text. -/
def Transient (error : Exc) : Prop := ∃ message, error = .raised .other message

namespace LoopLabel

/-- The loop itself moves. -/
def own : LoopLabel τ → Bool
  | act _ | fault .. => true
  | other _ | shutdown => false

/-- A call raises that no handler of the loop covers. -/
def unguarded : LoopLabel τ → Bool
  | fault .maintainRetention _ | fault .claimTask _ | fault .failTask _ => true
  | _ => false

end LoopLabel

namespace LoopSystem

/-- `worker_loop` called on the store `db`. -/
def start (db : Db τ) : LoopSystem τ := ⟨db, .checking, false⟩

variable [LinearOrder τ] [VAdd ℤ τ] (service : ExtractionTaskService) (w : String)

def act (now : τ) (s : LoopSystem τ) : LoopSystem τ :=
  let next := service.loopStep w now s.shutdown s.loop s.db
  { s with loop := next.1, db := next.2 }

inductive Step : LoopSystem τ → LoopLabel τ → LoopSystem τ → Prop
  | act {s now} : Step s (.act now) (s.act service w now)
  | fault {s call error} (hcall : s.loop.nextCall s.shutdown = some call) :
      Step s (.fault call error) { s with loop := s.loop.fault error }
  | other {s call} : Step s (.other call) { s with db := call.exec s.db }
  | shutdown {s} : Step s .shutdown { s with shutdown := true }

end LoopSystem

/-! ### What leaves the loop -/

namespace LoopState

/-- The loop is not ended by an exception. -/
def Running (state : LoopState τ) : Prop := ∀ e, state ≠ raised e

/-- Encoding what is to be persisted next raises only what has a text. -/
def Renders : LoopState τ → Prop
  | processing (.finalizing _ _ outcome _) => ∀ e, canonicalJson? (outcome.map .dict) = .error e → Prints e
  | _ => True

/-- The loop at a state of `_process_claimed_task`, which ends at `idle`. -/
def ofWorker : WorkerState τ → LoopState τ
  | .idle => checking
  | state => processing state

theorem ofWorker_ne_returned (state : WorkerState τ) : ofWorker state ≠ returned := by
  cases state <;> rintro ⟨⟩

theorem caught_of_prints (taskId : String) {e : Exc} (h : Prints e) :
    ∃ detail, (caught taskId e : LoopState τ) = processing (.failing taskId detail) ∧
      handleFailure (τ := τ) taskId e = .failing taskId detail := by
  obtain ⟨message, hm⟩ := h
  refine ⟨orElse message "Task processing failed", ?_, ?_⟩
  · unfold caught
    rw [hm]
  · unfold handleFailure
    rw [hm]

theorem dropped_valueError (message : String) :
    (dropped (valueError message) : LoopState τ) = checking := rfl

end LoopState

theorem prints_of_transient {e : Exc} (h : Transient e) : Prints e := by
  obtain ⟨message, rfl⟩ := h
  exact prints_raised _ _

theorem prints_of_taskFromRow {row : TaskRow τ} {e : Exc} (h : taskFromRow row true = .error e) : Prints e := by
  rw [taskFromRow, ExtractionTaskRecord.postInit] at h
  split_ifs at h <;> cases h <;> exact prints_raised _ _

theorem prints_of_fetchTask {db : Db τ} {id : String} {e : Exc} (h : fetchTask db id = .error e) : Prints e := by
  unfold fetchTask at h
  split at h
  · exact prints_of_taskFromRow h
  · cases h
    exact prints_raised _ _

/-- `finalize_item` raises only what has a text, if encoding the outcome does. -/
theorem prints_of_finalizeItem {db db' : Db τ} {id w : String} {p : ℤ} {outcome : Option (List (Key × Value))}
    {error : Option (List (String × String))} {now : τ} {e : Exc}
    (hrenders : ∀ e, canonicalJson? (outcome.map .dict) = .error e → Prints e)
    (h : finalizeItem id w p outcome error now db = (.error e, db')) : Prints e := by
  unfold finalizeItem at h
  split at h
  · cases h
    exact prints_raised _ _
  split at h
  · cases h
    exact prints_raised _ _
  split at h
  · cases h
    split
    · exact prints_raised _ _
    · exact prints_raised _ _
  split at h
  · next hoj =>
    cases h
    exact hrenders _ hoj
  · next hej _ =>
    obtain ⟨j, hj⟩ := canonicalJson?_strDict error
    rw [hj] at hej
    simp at hej
  · dsimp only at h
    split at h
    · exact prints_of_fetchTask (Prod.mk.inj h).1
    · cases h
      exact prints_raised _ _

theorem running_processing (state : WorkerState τ) : (LoopState.processing state).Running := by rintro e ⟨⟩

theorem running_caught {id : String} {e : Exc} (h : Prints e) :
    (LoopState.caught id e : LoopState τ).Running ∧ (LoopState.caught id e : LoopState τ).Renders := by
  obtain ⟨detail, hc, -⟩ := LoopState.caught_of_prints (τ := τ) id h
  rw [hc]
  exact ⟨running_processing _, trivial⟩

section Reachable
variable [LinearOrder τ] [VAdd ℤ τ] {service : ExtractionTaskService} {w : String} {now : τ}
  {calls : List (Call τ)}

/-- The claim of a reachable store raises nothing by itself. -/
theorem claimTask_reachable (w : String) (now : τ) (lease : ℤ) (calls : List (Call τ)) :
    ∃ task, (claimTask w now lease (Db.run calls)).1 = .ok task := by
  rcases claimTask_cases w now lease (Db.run calls) with ⟨-, he⟩ | ⟨a, -, -, -, hanswer, hrep⟩
  · exact ⟨none, by rw [he]⟩
  · have hinv : (a.claim w (lease +ᵥ now) now).Inv := by
      have hview : (Db.run (calls ++ [.claimTask w now lease])).view a.row.taskId =
          some (a.claim w (lease +ᵥ now) now) := by
        rw [Db.run_snoc]
        exact hrep.view_self
      exact Db.run_inv hview
    exact ⟨_, by rw [hanswer, hinv.taskFromRow_eq]; rfl⟩

/-- `fail_task` on a reachable store raises nothing but `ValueError`. -/
theorem failTask_reachable (id w : String) (error : List (String × String)) (now : τ)
    (calls : List (Call τ)) :
    (∃ task, (failTask id w error now (Db.run calls)).1 = .ok task) ∨
      ∃ message, failTask id w error now (Db.run calls) = (.error (valueError message), Db.run calls) := by
  by_cases h : ∃ a, (Db.run calls).view id = some a ∧ a.row.leaseOwner = some w
  · obtain ⟨a, hv, how⟩ := h
    obtain ⟨ej, after, -, -, heq⟩ := failTask_ok (Db.run_inv hv) hv how error now
    exact .inl ⟨_, by rw [heq]⟩
  · exact .inr (failTask_refused fun a hv how => absurd ⟨a, hv, how⟩ h)

/-- Undisturbed, the loop is in `_process_claimed_task` what other modules interleave as a worker, unless
it raises. -/
theorem loopStep_processing (service : ExtractionTaskService) (w : String) (now : τ) (shutdown : Bool)
    {state : WorkerState τ} (hstate : state ≠ .idle) (db : Db τ)
    (hrun : (service.loopStep w now shutdown (.processing state) db).1.Running) :
    service.loopStep w now shutdown (.processing state) db =
      (.ofWorker (service.workerStep w now state db).1, (service.workerStep w now state db).2) := by
  have hcaught (id : String) (e : Exc) (h : (LoopState.caught id e : LoopState τ).Running) :
      LoopState.caught id e = .ofWorker (handleFailure (τ := τ) id e) := by
    cases he : e.str with
    | ok message =>
      obtain ⟨detail, hc, hf⟩ := LoopState.caught_of_prints (τ := τ) id ⟨message, he⟩
      rw [hc, hf]
      rfl
    | error inner =>
      refine absurd ?_ (h inner)
      unfold LoopState.caught
      rw [he]
  cases state with
  | idle => exact absurd rfl hstate
  | renewing context =>
    simp only [ExtractionTaskService.loopStep, ExtractionTaskService.workerStep] at hrun ⊢
    rcases hr : TextExtraction.renewLease context.taskId w now service.lease db with ⟨- | -, db'⟩
    · simp only [hr] at hrun ⊢
      rw [hcaught _ _ hrun]
    · rfl
  | selecting context t =>
    simp only [ExtractionTaskService.loopStep, ExtractionTaskService.workerStep]
    rcases TextExtraction.claimNextItem context.taskId w t db with ⟨- | item, db'⟩ <;> rfl
  | inferring context item =>
    simp only [ExtractionTaskService.loopStep, ExtractionTaskService.workerStep] at hrun ⊢
    rcases hp : service.processItem context item with e | ⟨outcome, error⟩
    · simp only [hp] at hrun ⊢
      rw [hcaught _ _ hrun]
    · rfl
  | finalizing context p outcome error =>
    simp only [ExtractionTaskService.loopStep, ExtractionTaskService.workerStep] at hrun ⊢
    rcases hf : TextExtraction.finalizeItem context.taskId w p outcome error now db with ⟨e | updated, db'⟩
    · simp only [hf] at hrun ⊢
      rw [hcaught _ _ hrun]
    · simp only
      split <;> rfl
  | failing id detail =>
    simp only [ExtractionTaskService.loopStep, ExtractionTaskService.workerStep] at hrun ⊢
    rcases hf : TextExtraction.failTask id w (taskFailure detail) now db with ⟨e | task, db'⟩
    · simp only [hf, LoopState.dropped] at hrun ⊢
      split
      · rfl
      · next hkind =>
        rw [if_neg hkind] at hrun
        exact absurd rfl (hrun e)
    · rfl

/-- Undisturbed, the loop goes on. -/
theorem loopStep_running (hrenders : service.extractionService.Renders) (w : String) (now : τ)
    (calls : List (Call τ)) (shutdown : Bool) {state : LoopState τ} (hrun : state.Running) (hstate : state.Renders) :
    (service.loopStep w now shutdown state (Db.run calls)).1.Running ∧
      (service.loopStep w now shutdown state (Db.run calls)).1.Renders := by
  cases state with
  | raised e => exact absurd rfl (hrun e)
  | checking =>
    simp only [ExtractionTaskService.loopStep]
    split <;> exact ⟨by rintro e ⟨⟩, trivial⟩
  | waiting => exact ⟨by rintro e ⟨⟩, trivial⟩
  | returned => exact ⟨by rintro e ⟨⟩, trivial⟩
  | claiming =>
    obtain ⟨task, hok⟩ := claimTask_reachable w now service.lease calls
    simp only [ExtractionTaskService.loopStep]
    generalize claimTask w now service.lease (Db.run calls) = answer at hok ⊢
    obtain ⟨result, db⟩ := answer
    obtain rfl : result = .ok task := hok
    rcases task with - | task
    · exact ⟨by rintro e ⟨⟩, trivial⟩
    · rcases beginProcessing_cases task with ⟨e, he, hprints⟩ | ⟨context, hc, -⟩
      · simp only [he]
        exact running_caught hprints
      · simp only [hc]
        exact ⟨running_processing _, trivial⟩
  | processing state =>
    cases state with
    | idle => exact ⟨by rintro e ⟨⟩, trivial⟩
    | renewing context =>
      simp only [ExtractionTaskService.loopStep]
      rcases TextExtraction.renewLease context.taskId w now service.lease (Db.run calls) with ⟨- | -, db⟩
      · exact running_caught (prints_raised .runtimeError _)
      · exact ⟨running_processing _, trivial⟩
    | selecting context t =>
      simp only [ExtractionTaskService.loopStep]
      rcases TextExtraction.claimNextItem context.taskId w t (Db.run calls) with ⟨- | item, db⟩
      · exact ⟨by rintro e ⟨⟩, trivial⟩
      · exact ⟨running_processing _, trivial⟩
    | inferring context item =>
      obtain ⟨herror, hok⟩ := processItem_renders hrenders context item
      simp only [ExtractionTaskService.loopStep]
      rcases hp : service.processItem context item with e | ⟨outcome, error⟩
      · exact running_caught (herror e hp)
      · exact ⟨running_processing _, (hok outcome error hp).2⟩
    | finalizing context p outcome error =>
      simp only [ExtractionTaskService.loopStep]
      rcases hf : TextExtraction.finalizeItem context.taskId w p outcome error now (Db.run calls) with
        ⟨e | updated, db⟩
      · exact running_caught (prints_of_finalizeItem hstate hf)
      · dsimp only
        split
        · exact ⟨by rintro e ⟨⟩, trivial⟩
        · exact ⟨running_processing _, trivial⟩
    | failing id detail =>
      simp only [ExtractionTaskService.loopStep]
      rcases failTask_reachable id w (taskFailure detail) now calls with ⟨task, hok⟩ | ⟨message, he⟩
      · generalize TextExtraction.failTask id w (taskFailure detail) now (Db.run calls) = answer at hok ⊢
        obtain ⟨result, db⟩ := answer
        obtain rfl : result = .ok task := hok
        exact ⟨by rintro e ⟨⟩, trivial⟩
      · simp only [he, LoopState.dropped_valueError]
        exact ⟨by rintro e ⟨⟩, trivial⟩

/-- A move of the loop commits nothing, or one call of its own. -/
theorem loopStep_exec (service : ExtractionTaskService) (w : String) (now : τ) (shutdown : Bool)
    (state : LoopState τ) (db : Db τ) :
    (service.loopStep w now shutdown state db).2 = db ∨
      ∃ c : Call τ, (service.loopStep w now shutdown state db).2 = c.exec db := by
  cases state with
  | checking =>
    simp only [ExtractionTaskService.loopStep]
    split
    · exact .inl rfl
    · exact .inr ⟨.maintainRetention now service.tombstone, rfl⟩
  | waiting => exact .inl rfl
  | returned => exact .inl rfl
  | raised e => exact .inl rfl
  | claiming =>
    refine .inr ⟨.claimTask w now service.lease, ?_⟩
    simp only [ExtractionTaskService.loopStep, Call.exec]
    rcases TextExtraction.claimTask w now service.lease db with ⟨e | - | task, db'⟩
    · rfl
    · rfl
    · dsimp only
      split <;> rfl
  | processing state =>
    cases state with
    | idle => exact .inl rfl
    | renewing context =>
      refine .inr ⟨.renewLease context.taskId w now service.lease, ?_⟩
      simp only [ExtractionTaskService.loopStep, Call.exec]
      rcases TextExtraction.renewLease context.taskId w now service.lease db with ⟨- | -, db'⟩ <;> rfl
    | selecting context t =>
      refine .inr ⟨.claimNextItem context.taskId w t, ?_⟩
      simp only [ExtractionTaskService.loopStep, Call.exec]
      rcases TextExtraction.claimNextItem context.taskId w t db with ⟨- | item, db'⟩ <;> rfl
    | inferring context item =>
      refine .inl ?_
      simp only [ExtractionTaskService.loopStep]
      rcases service.processItem context item with e | ⟨outcome, error⟩ <;> rfl
    | finalizing context p outcome error =>
      refine .inr ⟨.finalizeItem context.taskId w p outcome error now, ?_⟩
      simp only [ExtractionTaskService.loopStep, Call.exec]
      rcases TextExtraction.finalizeItem context.taskId w p outcome error now db with ⟨e | updated, db'⟩ <;> rfl
    | failing id detail =>
      refine .inr ⟨.failTask id w (taskFailure detail) now, ?_⟩
      simp only [ExtractionTaskService.loopStep, Call.exec]
      rcases TextExtraction.failTask id w (taskFailure detail) now db with ⟨e | task, db'⟩ <;> rfl

/-- The loop returns from its check of the event only. -/
theorem shutdown_of_returned {shutdown : Bool} {state : LoopState τ} {db : Db τ} (hstate : state ≠ .returned)
    (h : (service.loopStep w now shutdown state db).1 = .returned) : shutdown = true := by
  cases state with
  | checking =>
    simp only [ExtractionTaskService.loopStep] at h
    split at h
    · assumption
    · simp at h
  | waiting => simp [ExtractionTaskService.loopStep] at h
  | returned => exact absurd rfl hstate
  | raised e => simp [ExtractionTaskService.loopStep] at h
  | claiming =>
    simp only [ExtractionTaskService.loopStep] at h
    rcases hc : TextExtraction.claimTask w now service.lease db with ⟨e | - | task, db'⟩
    · simp [hc] at h
    · simp [hc] at h
    · simp only [hc] at h
      split at h
      · simp at h
      · unfold LoopState.caught at h
        split at h <;> simp at h
  | processing state =>
    by_cases hidle : state = .idle
    · subst hidle
      simp [ExtractionTaskService.loopStep] at h
    · have hrun : (service.loopStep w now shutdown (.processing state) db).1.Running := by
        rw [h]
        rintro e ⟨⟩
      rw [loopStep_processing service w now shutdown hidle db hrun] at h
      exact absurd h (LoopState.ofWorker_ne_returned _)

end Reachable

/-! ### How far the loop is from its next claim -/

/-- What is left of the task `id`, while `w` holds its lease. -/
def Db.unfinished (db : Db τ) (id w : String) : ℕ :=
  match db.view id with
  | some a => if a.row.leaseOwner = some w then a.remaining else 0
  | none => 0

/-- A bound on the calls of its own that the loop makes before it comes back to `claim_task`. -/
def LoopState.rank (w : String) (db : Db τ) : LoopState τ → ℕ
  | processing (.renewing context) => 4 * db.unfinished context.taskId w + 6
  | processing (.selecting context _) => 4 * db.unfinished context.taskId w + 5
  | processing (.inferring context _) => 4 * db.unfinished context.taskId w + 4
  | processing (.finalizing context ..) => 4 * db.unfinished context.taskId w + 3
  | processing (.failing ..) | processing .idle | waiting => 2
  | checking => 1
  | _ => 0

/-- The worker that takes an action. -/
def Action.worker : Action τ → Option String
  | .claim w .. | .renew w .. | .take w .. | .finalize w .. | .abort w .. => some w
  | .purge _ => none

/-- The worker under whose id a call is made. -/
def Call.worker : Call τ → Option String
  | claimTask w .. | renewLease _ w .. | claimNextItem _ w _ | finalizeItem _ w .. | failTask _ w .. => some w
  | createTask .. | maintainRetention .. => none

section Rank
variable {db db' : Db τ} {id w : String} {a a' : Aggregate τ}

theorem unfinished_of_view (hv : db.view id = some a) :
    db.unfinished id w = if a.row.leaseOwner = some w then a.remaining else 0 := by
  unfold Db.unfinished
  rw [hv]

variable [LinearOrder τ]

/-- Nobody else adds to what is left under a worker's lease. -/
theorem Aggregate.Step.unfinished_le {act : Action τ} (h : a.Step act a') (hforeign : act.worker ≠ some w) :
    (if a'.row.leaseOwner = some w then a'.remaining else 0) ≤
      if a.row.leaseOwner = some w then a.remaining else 0 := by
  have hgone (hne : a'.row.leaseOwner ≠ some w) :
      (if a'.row.leaseOwner = some w then a'.remaining else 0) ≤
        if a.row.leaseOwner = some w then a.remaining else 0 := by
    rw [if_neg hne]
    exact Nat.zero_le _
  cases h with
  | claim => exact hgone hforeign
  | renew => exact Nat.le_refl _
  | take => exact Nat.le_refl _
  | finalize how hrun hi hpending hone =>
    refine hgone ((Aggregate.Step.finalize how hrun hi hpending hone).displaced ?_ ?_)
    · rw [how]
      exact hforeign
    · rintro now expiry ⟨⟩
  | abort => exact hgone (by rintro ⟨⟩)
  | purge => exact hgone (by rintro ⟨⟩)

variable [VAdd ℤ τ] {c : Call τ}

omit [LinearOrder τ] in
theorem Call.Does.worker {act : Action τ} (h : c.Does id act) : act.worker = c.worker := by
  cases h <;> rfl

theorem Call.unfinished_le (hc : db.Closed) (hforeign : c.worker ≠ some w) (id : String) :
    (c.exec db).unfinished id w ≤ db.unfinished id w := by
  have haffects := (c.change hc).affects id
  unfold Db.unfinished
  generalize db.view id = before at haffects ⊢
  generalize (c.exec db).view id = after at haffects ⊢
  cases haffects with
  | same => exact Nat.le_refl _
  | created => exact Nat.zero_le _
  | stepped hstep hdoes => exact hstep.unfinished_le (by rwa [hdoes.worker])
  | purged _ hstep => exact hstep.unfinished_le (by rintro ⟨⟩)
  | deleted => exact Nat.zero_le _

variable {service : ExtractionTaskService} {now : τ} {state state' : WorkerState τ}

omit [LinearOrder τ] [VAdd ℤ τ] in
theorem rank_handleFailure (db : Db τ) (id : String) (e : Exc) :
    (LoopState.ofWorker (handleFailure (τ := τ) id e)).rank w db ≤ 2 := by
  unfold handleFailure
  split
  · exact Nat.le_refl 2
  · exact Nat.le_succ 1

omit [LinearOrder τ] [VAdd ℤ τ] in
theorem rank_mono (h : ∀ id, db'.unfinished id w ≤ db.unfinished id w) (state : LoopState τ) :
    state.rank w db' ≤ state.rank w db := by
  unfold LoopState.rank
  split
  · next context =>
    have hle := h context.taskId
    omega
  · next context _ =>
    have hle := h context.taskId
    omega
  · next context _ =>
    have hle := h context.taskId
    omega
  · next context _ _ _ =>
    have hle := h context.taskId
    omega
  all_goals exact Nat.le_refl _

/-- Every call of `_process_claimed_task` takes the loop closer to its next claim. -/
theorem WorkerMove.rank (h : WorkerMove service w now db state state' db') (hstate : state ≠ .idle)
    (hinv : ∀ id a, db.view id = some a → a.Inv) :
    (LoopState.ofWorker state').rank w db' + 1 ≤ (LoopState.processing state).rank w db := by
  cases h with
  | rest => exact absurd rfl hstate
  | claim => exact absurd rfl hstate
  | @renew context a _ hv how _ hrep =>
    have hsame : db'.unfinished context.taskId w = db.unfinished context.taskId w := by
      rw [unfinished_of_view hrep.view_self, unfinished_of_view hv]
      rfl
    show 4 * db'.unfinished context.taskId w + 5 + 1 ≤ 4 * db.unfinished context.taskId w + 6
    omega
  | lost =>
    show 2 + 1 ≤ 4 * _ + 6
    omega
  | @take context t a i _ hv _ _ hrep =>
    have hsame : db'.unfinished context.taskId w = db.unfinished context.taskId w := by
      rw [unfinished_of_view hrep.view_self, unfinished_of_view hv]
      rfl
    show 4 * db'.unfinished context.taskId w + 4 + 1 ≤ 4 * db.unfinished context.taskId w + 5
    omega
  | stop =>
    show 1 + 1 ≤ 4 * _ + 5
    omega
  | infer => exact Nat.le_refl _
  | @inferError context item e =>
    have hle := rank_handleFailure (w := w) db context.taskId e
    show _ ≤ 4 * _ + 4
    omega
  | @finalize context outcome error a i oj ej _ hv _ _ _ hstep hrep =>
    split
    · show 1 + 1 ≤ 4 * _ + 3
      omega
    · obtain ⟨how, hrun⟩ := hstep.of_finalize
      have hpos := (hinv _ a hv).remaining_pos hrun
      have hremaining : (a.finalize w i.position oj ej now).remaining = a.remaining - 1 := by
        unfold Aggregate.remaining
        rw [Aggregate.finalize_row, TaskRow.advance_acceptedCount, TaskRow.advance_processedCount]
        omega
      have hbefore : db.unfinished context.taskId w = a.remaining := by
        rw [unfinished_of_view hv, if_pos how]
      have hafter : db'.unfinished context.taskId w ≤ a.remaining - 1 := by
        rw [unfinished_of_view hrep.view_self, ← hremaining]
        split
        · exact Nat.le_refl _
        · exact Nat.zero_le _
      show 4 * db'.unfinished context.taskId w + 6 + 1 ≤ 4 * db.unfinished context.taskId w + 3
      omega
  | @refuse context p outcome error e =>
    have hle := rank_handleFailure (w := w) db context.taskId e
    show _ ≤ 4 * _ + 3
    omega
  | abort => exact Nat.le_refl 2
  | giveUp => exact Nat.le_refl 2

end Rank

/-! ### What every run keeps -/

namespace LoopLabel

/-- What a call raises instead of running is transient. -/
def Transient : LoopLabel τ → Prop
  | fault _ error => TextExtraction.Transient error
  | _ => True

/-- Nobody else works under the id `w`, which is a fresh `uuid4`. -/
def Foreign (w : String) : LoopLabel τ → Prop
  | other call => call.worker ≠ some w
  | _ => True

end LoopLabel

section Fault
variable {shutdown : Bool} {state : LoopState τ} {call : RepositoryCall} {e : Exc} {w : String}

/-- What the three ways of handling a raising call come to. -/
theorem fault_cases (hcall : state.nextCall shutdown = some call) (he : Transient e) :
    (LoopLabel.unguarded (.fault call e : LoopLabel τ) = true ∧ state.fault e = .raised e) ∨
    LoopLabel.unguarded (.fault call e : LoopLabel τ) = false ∧
      (∃ id detail, state.fault e = .processing (.failing id detail)) ∧ ∀ db, 2 + 1 ≤ state.rank w db := by
  have hcaught (id : String) : ∃ id' detail, (LoopState.caught id e : LoopState τ) = .processing (.failing id' detail) := by
    obtain ⟨detail, hc, -⟩ := LoopState.caught_of_prints (τ := τ) id (prints_of_transient he)
    exact ⟨id, detail, hc⟩
  cases state with
  | checking =>
    simp only [LoopState.nextCall] at hcall
    split at hcall <;> cases hcall
    exact .inl ⟨rfl, rfl⟩
  | claiming =>
    cases hcall
    exact .inl ⟨rfl, rfl⟩
  | waiting => simp [LoopState.nextCall] at hcall
  | returned => simp [LoopState.nextCall] at hcall
  | raised => simp [LoopState.nextCall] at hcall
  | processing state =>
    cases state with
    | idle => simp [LoopState.nextCall] at hcall
    | inferring => simp [LoopState.nextCall] at hcall
    | renewing context =>
      cases hcall
      refine .inr ⟨rfl, hcaught _, fun db => ?_⟩
      show 2 + 1 ≤ 4 * _ + 6
      omega
    | selecting context t =>
      cases hcall
      refine .inr ⟨rfl, hcaught _, fun db => ?_⟩
      show 2 + 1 ≤ 4 * _ + 5
      omega
    | finalizing context p outcome error =>
      cases hcall
      refine .inr ⟨rfl, hcaught _, fun db => ?_⟩
      show 2 + 1 ≤ 4 * _ + 3
      omega
    | failing id detail =>
      cases hcall
      obtain ⟨message, rfl⟩ := he
      exact .inl ⟨rfl, rfl⟩

end Fault

namespace LoopSystem
variable [LinearOrder τ] [VAdd ℤ τ] {service : ExtractionTaskService} {w : String} {s t : LoopSystem τ}
  {l : LoopLabel τ}

structure Inv (s : LoopSystem τ) : Prop where
  reachable : ∃ calls, s.db = Db.run calls
  renders : s.loop.Renders
  returned : s.loop = .returned → s.shutdown = true

theorem inv_start (calls : List (Call τ)) : (start (Db.run calls)).Inv where
  reachable := ⟨calls, rfl⟩
  renders := trivial
  returned := by rintro ⟨⟩

theorem reachable_exec {db : Db τ} (h : ∃ calls, db = Db.run calls) (c : Call τ) :
    ∃ calls, c.exec db = Db.run calls := by
  obtain ⟨calls, rfl⟩ := h
  exact ⟨calls ++ [c], (Db.run_snoc calls c).symm⟩

/-- A move of the loop itself ends it by an exception only where one already has. -/
theorem act_spec (hrenders : service.extractionService.Renders) (hinv : s.Inv) (now : τ) :
    ((s.act service w now).loop.Running ↔ s.loop.Running) ∧ (s.act service w now).Inv := by
  obtain ⟨calls, hdb⟩ := hinv.reachable
  have hreachable : ∃ calls, (s.act service w now).db = Db.run calls := by
    show ∃ calls, (service.loopStep w now s.shutdown s.loop s.db).2 = Db.run calls
    rcases loopStep_exec service w now s.shutdown s.loop s.db with hsame | ⟨c, hc⟩
    · rw [hsame]
      exact hinv.reachable
    · rw [hc]
      exact reachable_exec hinv.reachable c
  have hreturned : (s.act service w now).loop = .returned → s.shutdown = true := by
    intro hreturned
    by_cases hloop : s.loop = .returned
    · exact hinv.returned hloop
    · exact shutdown_of_returned hloop hreturned
  by_cases hrun : s.loop.Running
  · obtain ⟨hnext, hnextRenders⟩ := loopStep_running hrenders w now calls s.shutdown hrun hinv.renders
    rw [← hdb] at hnext hnextRenders
    exact ⟨iff_of_true hnext hrun, hreachable, hnextRenders, hreturned⟩
  · obtain ⟨e, he⟩ : ∃ e, s.loop = .raised e := by
      by_contra hno
      exact hrun fun e he => hno ⟨e, he⟩
    have hnext : (s.act service w now).loop = .raised e := by
      show (service.loopStep w now s.shutdown s.loop s.db).1 = .raised e
      rw [he]
      rfl
    refine ⟨iff_of_false ?_ hrun, hreachable, ?_, hreturned⟩
    · exact fun h => h e hnext
    · rw [hnext]
      trivial

/-- A step keeps the invariant, and ends the loop by an exception only where an uncovered call raises. -/
theorem Step.spec (h : Step service w s l t) (hrenders : service.extractionService.Renders) (hinv : s.Inv)
    (hl : l.Transient) : (t.loop.Running ↔ s.loop.Running ∧ l.unguarded = false) ∧ t.Inv := by
  cases h with
  | @act now =>
    obtain ⟨hrunning, hnext⟩ := act_spec (w := w) hrenders hinv now
    exact ⟨by rw [hrunning]; simp [LoopLabel.unguarded], hnext⟩
  | @other call =>
    exact ⟨by simp [LoopLabel.unguarded], reachable_exec hinv.reachable call, hinv.renders, hinv.returned⟩
  | shutdown => exact ⟨by simp [LoopLabel.unguarded], hinv.reachable, hinv.renders, fun _ => rfl⟩
  | @fault call e hcall =>
    rcases fault_cases (w := w) hcall hl with ⟨hunguarded, hraised⟩ | ⟨hguarded, ⟨id, detail, hfailing⟩, -⟩
    · refine ⟨iff_of_false ?_ (by simp [hunguarded]), hinv.reachable, ?_, ?_⟩
      · exact fun hrun => hrun e hraised
      · show (s.loop.fault e).Renders
        rw [hraised]
        trivial
      · show s.loop.fault e = .returned → _
        rw [hraised]
        rintro ⟨⟩
    · have hrun : s.loop.Running := by
        intro e' he'
        rw [he'] at hcall
        simp [LoopState.nextCall] at hcall
      refine ⟨iff_of_true ?_ ⟨hrun, hguarded⟩, hinv.reachable, ?_, ?_⟩
      · show (s.loop.fault e).Running
        rw [hfailing]
        exact running_processing _
      · show (s.loop.fault e).Renders
        rw [hfailing]
        trivial
      · show s.loop.fault e = .returned → _
        rw [hfailing]
        rintro ⟨⟩

theorem Run.spec {labels : List (LoopLabel τ)} (h : Run (Step service w) s labels t)
    (hrenders : service.extractionService.Renders) (hinv : s.Inv) (hlabels : ∀ l ∈ labels, l.Transient) :
    (t.loop.Running ↔ s.loop.Running ∧ ∀ l ∈ labels, l.unguarded = false) ∧ t.Inv := by
  induction h with
  | nil s => exact ⟨by simp, hinv⟩
  | @cons s u t l labels hstep _ ih =>
    obtain ⟨hrunning, hu⟩ := hstep.spec hrenders hinv (hlabels l (by simp))
    obtain ⟨hrest, ht⟩ := ih hu fun l hl => hlabels l (by simp [hl])
    refine ⟨?_, ht⟩
    rw [hrest, hrunning, List.forall_mem_cons, and_assoc]

/-! ### Back to the claim -/

/-- The loop is about to claim, or has been stopped. -/
def Claims (s : LoopSystem τ) : Prop := s.loop = .claiming ∨ s.loop = .returned

theorem act_rank (hrenders : service.extractionService.Renders) (hinv : s.Inv) (hrun : s.loop.Running)
    (hclaims : ¬ s.Claims) (now : τ) :
    (s.act service w now).loop.rank w (s.act service w now).db + 1 ≤ s.loop.rank w s.db := by
  have hnext := (act_spec (w := w) hrenders hinv now).1.2 hrun
  obtain ⟨calls, hdb⟩ := hinv.reachable
  obtain ⟨db, loop, shutdown⟩ := s
  cases loop with
  | claiming => exact absurd (.inl rfl) hclaims
  | returned => exact absurd (.inr rfl) hclaims
  | raised e => exact absurd rfl (hrun e)
  | waiting => exact Nat.le_refl 2
  | checking =>
    simp only [act, ExtractionTaskService.loopStep]
    split <;> exact Nat.le_refl 1
  | processing state =>
    by_cases hidle : state = .idle
    · subst hidle
      exact Nat.le_refl 2
    · have heq := loopStep_processing service w now shutdown hidle db hnext
      have hinv' : ∀ id a, db.view id = some a → a.Inv := by
        intro id a hv
        rw [show db = Db.run calls from hdb] at hv
        exact Db.run_inv hv
      have hmove : WorkerMove service w now db state (service.workerStep w now state db).1
          (service.workerStep w now state db).2 := workerStep_move hinv' state
      simp only [act]
      rw [heq]
      exact hmove.rank hidle hinv'

/-- Each step of the loop itself takes it closer to its next claim, and nobody else sets it back. -/
theorem Step.rank (h : Step service w s l t) (hrenders : service.extractionService.Renders) (hinv : s.Inv)
    (hl : l.Transient) (hforeign : l.Foreign w) (hguarded : l.unguarded = false) (hrun : s.loop.Running)
    (hclaims : ¬ s.Claims) :
    t.loop.rank w t.db + (if l.own then 1 else 0) ≤ s.loop.rank w s.db := by
  cases h with
  | @act now => exact act_rank hrenders hinv hrun hclaims now
  | @other call =>
    obtain ⟨calls, hdb⟩ := hinv.reachable
    have hclosed : s.db.Closed := hdb ▸ Db.closed_run calls
    exact rank_mono (fun id => Call.unfinished_le hclosed hforeign id) s.loop
  | shutdown => exact Nat.le_refl _
  | @fault call e hcall =>
    rcases fault_cases (w := w) hcall hl with ⟨hunguarded, -⟩ | ⟨-, ⟨id, detail, hfailing⟩, hle⟩
    · rw [hguarded] at hunguarded
      simp at hunguarded
    · show (s.loop.fault e).rank w s.db + 1 ≤ _
      rw [hfailing]
      exact hle s.db

/-- Going on, the loop comes to its next claim, or has been stopped. -/
theorem Run.claims {labels : List (LoopLabel τ)} (h : Run (Step service w) s labels t)
    (hrenders : service.extractionService.Renders) (hinv : s.Inv) (hrun : s.loop.Running)
    (hlabels : ∀ l ∈ labels, l.Transient ∧ l.unguarded = false ∧ l.Foreign w)
    (hown : s.loop.rank w s.db < labels.countP LoopLabel.own) :
    ∃ before after u, labels = before ++ after ∧ Run (Step service w) s before u ∧ Run (Step service w) u after t ∧
      before.countP LoopLabel.own ≤ s.loop.rank w s.db ∧
      (u.loop = .claiming ∨ u.loop = .returned ∧ u.shutdown = true) := by
  have hkeep : ∀ (s : LoopSystem τ) (l : LoopLabel τ) (t : LoopSystem τ),
      l.Transient ∧ l.unguarded = false ∧ l.Foreign w → s.Inv ∧ s.loop.Running → Step service w s l t →
        t.Inv ∧ t.loop.Running := by
    intro s l t hl hs hstep
    obtain ⟨hrunning, ht⟩ := hstep.spec hrenders hs.1 hl.1
    exact ⟨ht, hrunning.2 ⟨hs.2, hl.2.1⟩⟩
  have hrank : ∀ (s : LoopSystem τ) (l : LoopLabel τ) (t : LoopSystem τ),
      l.Transient ∧ l.unguarded = false ∧ l.Foreign w → s.Inv ∧ s.loop.Running → ¬ s.Claims →
        Step service w s l t → t.loop.rank w t.db + (if l.own then 1 else 0) ≤ s.loop.rank w s.db :=
    fun s l t hl hs hclaims hstep => hstep.rank hrenders hs.1 hl.1 hl.2.2 hl.2.1 hs.2 hclaims
  obtain ⟨before, after, u, heq, hbefore, ⟨hu, -⟩, hclaims, hafter, hle⟩ :=
    h.passes hkeep hrank hlabels ⟨hinv, hrun⟩ hown
  refine ⟨before, after, u, heq, hbefore, hafter, hle, hclaims.imp_right fun hreturned => ?_⟩
  exact ⟨hreturned, hu.returned hreturned⟩

end LoopSystem

/-! ### Stopping -/

section Stops
variable [LinearOrder τ] [VAdd ℤ τ]

/-- In every run whose repository calls run or raise something transient: an exception leaves the loop
if and only if `maintain_retention`, `claim_task` or `fail_task` raises, the loop returns only when it
has been told to stop, and, while none of the three raises, it comes back to `claim_task` (or has been
told to stop) after boundedly many moves of its own, whatever failed before. -/
theorem worker_loop_stops_iff (service : ExtractionTaskService)
    (hrenders : service.extractionService.Renders) (w : String) (calls : List (Call τ))
    {labels : List (LoopLabel τ)} {s : LoopSystem τ}
    (hrun : Run (LoopSystem.Step service w) (.start (Db.run calls)) labels s)
    (htransient : ∀ l ∈ labels, l.Transient) :
    ((∀ e, s.loop ≠ .raised e) ↔ ∀ l ∈ labels, l.unguarded = false) ∧
    (s.loop = .returned → s.shutdown = true) ∧
    ((∀ l ∈ labels, l.unguarded = false) → ∀ more t, Run (LoopSystem.Step service w) s more t →
      (∀ l ∈ more, l.Transient ∧ l.unguarded = false ∧ l.Foreign w) →
      s.loop.rank w s.db < more.countP LoopLabel.own →
      ∃ before after u, more = before ++ after ∧ Run (LoopSystem.Step service w) s before u ∧
        Run (LoopSystem.Step service w) u after t ∧ before.countP LoopLabel.own ≤ s.loop.rank w s.db ∧
        (u.loop = .claiming ∨ u.loop = .returned ∧ u.shutdown = true)) := by
  obtain ⟨hrunning, hinv⟩ := LoopSystem.Run.spec hrun hrenders (LoopSystem.inv_start calls) htransient
  have hstart : (LoopSystem.start (Db.run calls)).loop.Running := by rintro e ⟨⟩
  refine ⟨hrunning.trans (and_iff_right hstart), hinv.returned, fun hguarded more t hmore hlabels hown => ?_⟩
  exact LoopSystem.Run.claims hmore hrenders hinv (hrunning.2 ⟨hstart, hguarded⟩) hlabels hown

/-- `sqlite3.OperationalError("database is locked")`. -/
def databaseLocked : Exc := .raised .other "database is locked"

theorem databaseLocked_transient : Transient databaseLocked := ⟨_, rfl⟩

end Stops

/-- Maintenance, the claim of the sample task, and a lock timeout of `renew_lease`. -/
def guardedLabels : List (LoopLabel ℤ) :=
  [.act 63850000000000001, .act 63850000000000002, .fault .renewLease databaseLocked]

theorem guarded_run : ∃ s, Run (LoopSystem.Step (stubService []) "w") (.start (Db.run [sampleTask])) guardedLabels s ∧
    s.shutdown = false ∧ s.loop = .processing (.failing "t" "database is locked") :=
  ⟨_, .cons .act (.cons .act (.cons (.fault rfl) (.nil _))), rfl, rfl⟩

theorem guardedLabels_transient : ∀ l ∈ guardedLabels, l.Transient := by
  simp [guardedLabels, LoopLabel.Transient, databaseLocked_transient]

/-- The lock timeout fails the task, and two moves later the loop is back at the claim. -/
theorem worker_loop_stops_iff_example : ∃ s t, Run (LoopSystem.Step (stubService []) "w")
      (.start (Db.run [sampleTask])) guardedLabels s ∧ (∀ e, s.loop ≠ .raised e) ∧
    Run (LoopSystem.Step (stubService []) "w") s [.act 63850000000000003, .act 63850000000000004,
      .act 63850000000000005] t ∧
    ∃ before after u, [LoopLabel.act 63850000000000003, .act 63850000000000004, .act 63850000000000005] =
        before ++ after ∧ Run (LoopSystem.Step (stubService []) "w") s before u ∧
      (u.loop = .claiming ∨ u.loop = .returned ∧ u.shutdown = true) := by
  obtain ⟨s, hrun, -, hloop⟩ := guarded_run
  obtain ⟨hraises, -, hclaims⟩ :=
    worker_loop_stops_iff (stubService []) (stub_renders []) "w" [sampleTask] hrun guardedLabels_transient
  have hguarded : ∀ l ∈ guardedLabels, l.unguarded = false := by
    simp [guardedLabels, LoopLabel.unguarded]
  have hmore : Run (LoopSystem.Step (stubService []) "w") s [.act 63850000000000003, .act 63850000000000004,
      .act 63850000000000005] _ := .cons .act (.cons .act (.cons .act (.nil _)))
  obtain ⟨before, after, u, heq, hbefore, -, -, hu⟩ := hclaims hguarded _ _ hmore
    (by simp [LoopLabel.Transient, LoopLabel.unguarded, LoopLabel.Foreign])
    (by rw [hloop]; exact Nat.lt_succ_self 2)
  exact ⟨s, _, hrun, hraises.2 hguarded, hmore, before, after, u, heq, hbefore, hu⟩

/-- A lock timeout of `call` ends the loop, with the event not set. -/
def EndsOnTimeout (call : RepositoryCall) : Prop :=
  ∃ labels s, Run (LoopSystem.Step (stubService []) "w") (.start (Db.run [sampleTask])) labels s ∧
    (∀ l ∈ labels, l.Transient) ∧ .fault call databaseLocked ∈ labels ∧
    s.loop = .raised databaseLocked ∧ s.shutdown = false

/-- So it is with each of the three calls that no handler covers. -/
theorem worker_loop_raises :
    EndsOnTimeout .maintainRetention ∧ EndsOnTimeout .claimTask ∧ EndsOnTimeout .failTask := by
  refine ⟨?_, ?_, ?_⟩
  · refine ⟨[.fault .maintainRetention databaseLocked], _, .cons (.fault rfl) (.nil _), ?_, by simp, rfl, rfl⟩
    simp [LoopLabel.Transient, databaseLocked_transient]
  · refine ⟨[.act 63850000000000001, .fault .claimTask databaseLocked], _,
      .cons .act (.cons (.fault rfl) (.nil _)), ?_, by simp, rfl, rfl⟩
    simp [LoopLabel.Transient, databaseLocked_transient]
  · obtain ⟨s, hrun, hshutdown, hloop⟩ := guarded_run
    refine ⟨guardedLabels ++ [.fault .failTask databaseLocked], { s with loop := s.loop.fault databaseLocked },
      hrun.append (.cons (.fault ?_) (.nil _)), ?_, by simp, ?_, hshutdown⟩
    · rw [hloop]
      rfl
    · simp [guardedLabels, LoopLabel.Transient, databaseLocked_transient]
    · show s.loop.fault databaseLocked = _
      rw [hloop]
      rfl

end TextExtraction
