import TextExtraction.Stubs
import TextExtraction.TaskSystem

/-!
# The running summary

`get_running_summary` counts the owner's queued and processing tasks, `get_status` also refuses the
purged ones. The two agree exactly when no unfinished task of the owner is past its expiry and still
kept (`summary_agrees_iff`): such a task is purged without its status changing.
-/

namespace TextExtraction

open Python Relational

variable {τ : Type}

/-- The row `maintain_retention` leaves when it does not delete it. -/
def TaskRow.maintained [LinearOrder τ] (now : τ) (row : TaskRow τ) : TaskRow τ :=
  if row.expired now then row.purge now else row

section Maintained
variable [LinearOrder τ] {now : τ}

theorem TaskRow.maintained_ownerId (row : TaskRow τ) : (row.maintained now).ownerId = row.ownerId := by
  rw [maintained]; split <;> rfl

theorem TaskRow.maintained_status (row : TaskRow τ) : (row.maintained now).status = row.status := by
  rw [maintained]; split <;> rfl

theorem TaskRow.maintained_expiresAt (row : TaskRow τ) :
    (row.maintained now).expiresAt = row.expiresAt := by
  rw [maintained]; split <;> rfl

theorem TaskRow.maintained_purged (row : TaskRow τ) :
    (row.maintained now).purgedAt.isSome = true ↔ row.expiresAt ≤ now ∨ row.purgedAt.isSome = true := by
  rw [maintained]
  split
  · rename_i hexp
    exact iff_of_true rfl (.inl (expired_iff.1 hexp).1)
  · rename_i hexp
    rw [expired_iff, not_and] at hexp
    refine ⟨.inr, fun h => h.elim (fun hle => ?_) id⟩
    exact Option.isSome_iff_ne_none.2 (hexp hle)

end Maintained

theorem Aggregate.maintain_row [LinearOrder τ] (now cutoff : τ) (a : Aggregate τ) :
    (a.maintain now cutoff).map Aggregate.row =
      if (a.row.maintained now).elapsed cutoff then none else some (a.row.maintained now) := by
  rw [Aggregate.maintain, TaskRow.maintained]
  cases a.row.expired now
  · simp only [Bool.false_eq_true, if_false]
    split <;> rfl
  · simp only [if_true, Aggregate.purge]
    split <;> rfl

/-- The counters `get_running_summary` would report of these tasks. -/
def summaryOf (tasks : List (ExtractionTaskRecord τ)) : RunningSummary where
  total := tasks.length
  queued := tasks.countP fun t => t.status = .queued
  processing := tasks.countP fun t => t.status = .processing
  accepted := (tasks.map ExtractionTaskRecord.acceptedCount).sum
  processed := (tasks.map ExtractionTaskRecord.processedCount).sum
  successful := (tasks.map ExtractionTaskRecord.successfulCount).sum
  failed := (tasks.map ExtractionTaskRecord.failedCount).sum

theorem summaryOf_records (rows : List (TaskRow τ)) :
    summaryOf (rows.map fun t => t.statusProjection.record false) =
      { total := rows.length
        queued := rows.countP fun t => t.status = .queued
        processing := rows.countP fun t => t.status = .processing
        accepted := (rows.map TaskRow.acceptedCount).sum
        processed := (rows.map TaskRow.processedCount).sum
        successful := (rows.map TaskRow.successfulCount).sum
        failed := (rows.map TaskRow.failedCount).sum } := by
  simp only [summaryOf, List.length_map, List.countP_map, List.map_map]
  rfl

section Summary
variable [LinearOrder τ] [VAdd ℤ τ] (service : ExtractionTaskService)

/-- The stored tasks that `get_status` at `now` reports to the owner as not finished. -/
def runningReads (ownerId : String) (now : τ) (db : Db τ) : List (ExtractionTaskRecord τ) :=
  db.tasks.rows.filterMap fun row =>
    match (service.getStatus ownerId row.taskId now db).1 with
    | .ok task => if task.status.isTerminal then none else some task
    | .error _ => none

/-- The summary is the one the per-task reads give. -/
def SummaryAgrees (ownerId : String) (now : τ) (db : Db τ) : Prop :=
  (service.getRunningSummary ownerId now db).1 = summaryOf (runningReads service ownerId now db)

/-- No unfinished task of the owner is past its expiry and still kept. -/
def NoOverdue (ownerId : String) (now : τ) (db : Db τ) : Prop :=
  ∀ id a, db.view id = some a → a.row.ownerId = ownerId → a.row.status.isTerminal = false →
    (a.row.expiresAt ≤ now ∨ a.row.purgedAt.isSome = true) →
      a.row.expiresAt ≤ -service.tombstone +ᵥ now

variable {service} {ownerId id : String} {now : τ} {db : Db τ}

theorem maintainRetention_run (calls : List (Call τ)) (now : τ) :
    service.maintainRetention now (Db.run calls) =
      Db.run (calls ++ [.maintainRetention now service.tombstone]) := by
  rw [Db.run_snoc]; rfl

theorem rows_maintainRetention (now : τ) (db : Db τ) :
    (service.maintainRetention now db).tasks.rows =
      (db.tasks.rows.map (TaskRow.maintained now)).filter fun row =>
        !row.elapsed (-service.tombstone +ᵥ now) := rfl

theorem getStatus_run (calls : List (Call τ)) {row : TaskRow τ} (hrow : row ∈ (Db.run calls).tasks.rows) :
    (service.getStatus ownerId row.taskId now (Db.run calls)).1 =
      if (row.maintained now).elapsed (-service.tombstone +ᵥ now) then .error .taskNotFound
      else if row.ownerId ≠ ownerId then .error .taskNotFound
      else if (row.maintained now).purgedAt.isSome then .error .taskExpired
      else .ok ((row.maintained now).statusProjection.record false) := by
  have hview : (Db.run calls).view row.taskId = some ⟨row, (Db.run calls).itemRows row.taskId⟩ :=
    Db.view_eq_some.2 ⟨Table.lookup_of_mem hrow, rfl⟩
  have hmaintained := view_maintainRetention service now (Db.run calls) row.taskId
  rw [hview, Option.bind_some] at hmaintained
  have hmrow := Aggregate.maintain_row now (-service.tombstone +ᵥ now)
    ⟨row, (Db.run calls).itemRows row.taskId⟩
  have howner : (row.maintained now).ownerId = row.ownerId := row.maintained_ownerId
  cases hm : Aggregate.maintain now (-service.tombstone +ᵥ now)
      ⟨row, (Db.run calls).itemRows row.taskId⟩ with
  | none =>
    rw [hm] at hmaintained hmrow
    split at hmrow
    · rename_i helapsed
      rw [if_pos helapsed]
      exact service_getStatus_of_none hmaintained ownerId
    · simp at hmrow
  | some a =>
    rw [hm] at hmaintained hmrow
    split at hmrow
    · simp at hmrow
    · rename_i helapsed
      have ha : a.row = row.maintained now := Option.some.inj hmrow
      have hinv : a.Inv := by
        rw [maintainRetention_run] at hmaintained
        exact Db.run_inv hmaintained
      rw [if_neg helapsed, service_getStatus_of_view hinv hmaintained, ha, howner]
      by_cases how : row.ownerId = ownerId
      · rw [if_pos how, if_neg (not_not.2 how)]
      · rw [if_neg how, if_pos how]

/-- The unfinished rows of the owner after maintenance. -/
def runningRows (service : ExtractionTaskService) (ownerId : String) (now : τ) (db : Db τ) :
    List (TaskRow τ) :=
  (service.maintainRetention now db).tasks.select fun t => t.ownerId = ownerId ∧ t.status.isRunning

/-- The owner is told of the unpurged ones. -/
theorem runningReads_run (calls : List (Call τ)) :
    runningReads service ownerId now (Db.run calls) =
      ((runningRows service ownerId now (Db.run calls)).filter fun t => t.purgedAt = none).map
        fun t => t.statusProjection.record false := by
  rw [runningReads, runningRows, Table.select, rows_maintainRetention, List.filter_map, List.filter_map,
    List.filter_map, List.map_map, List.filter_filter, List.filter_filter, map_filter_eq_filterMap]
  refine List.filterMap_congr fun row hrow => ?_
  rw [getStatus_run calls hrow]
  simp only [Function.comp_apply, TaskRow.maintained_ownerId, TaskRow.maintained_status]
  by_cases helapsed : (row.maintained now).elapsed (-service.tombstone +ᵥ now) = true
  · simp [helapsed]
  · rw [if_neg helapsed]
    by_cases how : row.ownerId = ownerId
    · rw [if_neg (not_not.2 how)]
      cases hp : (row.maintained now).purgedAt with
      | some t => simp
      | none =>
        have hstatus : ((row.maintained now).statusProjection.record false).status = row.status :=
          row.maintained_status
        simp only [Option.isSome_none, Bool.false_eq_true, if_false, hstatus]
        cases ht : row.status.isTerminal <;> simp [how, helapsed, ht]
    · simp [how]

/-- Nothing is overdue exactly when no running row is purged. -/
theorem noOverdue_iff (calls : List (Call τ)) :
    NoOverdue service ownerId now (Db.run calls) ↔
      ∀ t ∈ runningRows service ownerId now (Db.run calls), t.purgedAt = none := by
  constructor
  · intro h t ht
    rw [runningRows, Table.select, rows_maintainRetention] at ht
    simp only [List.mem_filter, List.mem_map, decide_eq_true_eq, Bool.decide_and, Bool.and_eq_true] at ht
    obtain ⟨⟨⟨row, hrow, rfl⟩, helapsed⟩, how, hrun⟩ := ht
    rw [TaskRow.maintained_ownerId] at how
    rw [TaskRow.maintained_status] at hrun
    rw [← Option.not_isSome_iff_eq_none]
    intro hpurged
    have hle := h row.taskId ⟨row, _⟩ (Db.view_eq_some.2 ⟨Table.lookup_of_mem hrow, rfl⟩) how
      (by simpa using hrun) (row.maintained_purged.1 hpurged)
    simp only [TaskRow.elapsed, TaskRow.maintained_expiresAt, Bool.not_eq_true',
      decide_eq_false_iff_not, not_and] at helapsed
    exact helapsed (Option.isSome_iff_ne_none.1 hpurged) hle
  · intro h id a hv how hrun hpast
    by_contra hle
    have hrow := Table.mem_of_lookup (Db.view_eq_some.1 hv).1
    have hpurged := Option.isSome_iff_ne_none.1 (a.row.maintained_purged.2 hpast)
    refine hpurged (h (a.row.maintained now) ?_)
    rw [runningRows, Table.select, rows_maintainRetention]
    simp only [List.mem_filter, List.mem_map, Bool.decide_and, Bool.and_eq_true,
      decide_eq_true_eq]
    refine ⟨⟨⟨a.row, hrow, rfl⟩, ?_⟩, by rw [TaskRow.maintained_ownerId]; exact how, by
      rw [TaskRow.maintained_status]; simpa using hrun⟩
    simp [TaskRow.elapsed, TaskRow.maintained_expiresAt, hle]

/-- The summary agrees with the per-task reads exactly when nothing is overdue. -/
theorem summary_agrees_iff (service : ExtractionTaskService) (calls : List (Call τ)) (ownerId : String)
    (now : τ) :
    SummaryAgrees service ownerId now (Db.run calls) ↔
      NoOverdue service ownerId now (Db.run calls) := by
  rw [noOverdue_iff, SummaryAgrees, runningReads_run, summaryOf_records]
  constructor
  · intro h t ht
    have htotal := congrArg RunningSummary.total h
    have hall := List.length_filter_eq_length_iff.1 htotal.symm t ht
    simpa using hall
  · intro h
    have hall : (runningRows service ownerId now (Db.run calls)).filter (fun t => t.purgedAt = none) =
        runningRows service ownerId now (Db.run calls) :=
      List.filter_eq_self.2 fun t ht => by simpa using h t ht
    rw [hall]
    rfl

end Summary

/-- A task that expired in the queue: nobody can claim it and its owner is told so, but it is counted. -/
theorem summary_disagrees :
    ¬ SummaryAgrees (stubService []) "o" 11
      ((System.init (τ := ℤ)).submit (stubService []) "t" "o" sampleRequest 0).db := by
  intro h
  have htotal := congrArg RunningSummary.total h
  exact absurd htotal (by decide)

end TextExtraction
