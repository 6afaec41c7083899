import TextExtraction.Lib.DateTime
import TextExtraction.TaskRepository

/-!
# Timestamps as texts and as instants

The service computes with datetimes, the database compares the texts of them. Rewriting every
timestamp of a row along an order embedding changes no predicate of the repository, so whatever its
methods select among stored texts is what they would select among instants.
-/

namespace TextExtraction

open Python Relational

variable {τ σ : Type}

/-! ### Rewriting the timestamps -/

/-- A task row with every timestamp written by `f`. -/
def TaskRow.mapTime (f : τ → σ) (t : TaskRow τ) : TaskRow σ where
  taskId := t.taskId
  ownerId := t.ownerId
  status := t.status
  criteriaJson := t.criteriaJson
  modelJson := t.modelJson
  acceptedCount := t.acceptedCount
  processedCount := t.processedCount
  successfulCount := t.successfulCount
  failedCount := t.failedCount
  taskErrorJson := t.taskErrorJson
  leaseOwner := t.leaseOwner
  leaseExpiresAt := t.leaseExpiresAt.map f
  createdAt := f t.createdAt
  updatedAt := f t.updatedAt
  startedAt := t.startedAt.map f
  completedAt := t.completedAt.map f
  expiresAt := f t.expiresAt
  purgedAt := t.purgedAt.map f

/-- An item row with every timestamp written by `f`. -/
def ItemRow.mapTime (f : τ → σ) (i : ItemRow τ) : ItemRow σ where
  taskId := i.taskId
  position := i.position
  sourceId := i.sourceId
  sourceText := i.sourceText
  status := i.status
  outcomeJson := i.outcomeJson
  errorJson := i.errorJson
  startedAt := i.startedAt.map f
  completedAt := i.completedAt.map f

@[simp] theorem TaskRow.taskId_mapTime (f : τ → σ) (t : TaskRow τ) : (t.mapTime f).taskId = t.taskId := rfl

@[simp] theorem ItemRow.taskId_mapTime (f : τ → σ) (i : ItemRow τ) : (i.mapTime f).taskId = i.taskId := rfl

theorem ItemRow.key_mapTime (f : τ → σ) (i : ItemRow τ) : (i.mapTime f).key = i.key := rfl

/-- Both tables with every timestamp written by `f`. -/
def Db.mapTime (f : τ → σ) (db : Db τ) : Db σ where
  tasks := db.tasks.map (TaskRow.mapTime f) (TaskRow.taskId_mapTime f)
  items := db.items.map (ItemRow.mapTime f) (ItemRow.key_mapTime f)

theorem Db.select_tasks_mapTime (f : τ → σ) (db : Db τ) {p : TaskRow τ → Bool} {p' : TaskRow σ → Bool}
    (hp : ∀ t, p' (t.mapTime f) = p t) :
    (db.mapTime f).tasks.select p' = (db.tasks.select p).map (TaskRow.mapTime f) :=
  Table.select_map (TaskRow.taskId_mapTime f) hp

/-! ### The predicates -/

section Predicates
variable [LinearOrder τ] [LinearOrder σ] (f : τ ↪o σ)

theorem TaskRow.claimable_mapTime (now : τ) (t : TaskRow τ) :
    (t.mapTime f).claimable (f now) = t.claimable now := by
  cases h : t.leaseExpiresAt <;> simp [claimable, mapTime, h]

theorem TaskRow.leasedTo_mapTime (taskId workerId : String) (now : τ) (t : TaskRow τ) :
    (t.mapTime f).leasedTo taskId workerId (f now) = t.leasedTo taskId workerId now := by
  cases h : t.leaseExpiresAt <;> simp [leasedTo, mapTime, h]

theorem TaskRow.expired_mapTime (now : τ) (t : TaskRow τ) :
    (t.mapTime f).expired (f now) = t.expired now := by
  simp [expired, mapTime]

theorem TaskRow.elapsed_mapTime (cutoff : τ) (t : TaskRow τ) :
    (t.mapTime f).elapsed (f cutoff) = t.elapsed cutoff := by
  simp [elapsed, mapTime]

/-- `ORDER BY created_at, task_id` orders the same rows the same way. -/
theorem TaskRow.age_mapTime_le_iff (t u : TaskRow τ) :
    toLex ((t.mapTime f).createdAt, (t.mapTime f).taskId) ≤
        toLex ((u.mapTime f).createdAt, (u.mapTime f).taskId) ↔
      toLex (t.createdAt, t.taskId) ≤ toLex (u.createdAt, u.taskId) := by
  simp [Prod.Lex.toLex_le_toLex, mapTime]

/-! ### The methods that filter by time -/

/-- `claim_task` picks the same row. -/
theorem oldestClaimable_mapTime (now : τ) (db : Db τ) :
    oldestClaimable (f now) (db.mapTime f) = (oldestClaimable now db).map (TaskRow.mapTime f) := by
  have hsorted : orderBy (fun t : TaskRow σ => toLex (t.createdAt, t.taskId))
        ((db.tasks.select (·.claimable now)).map (TaskRow.mapTime f)) =
      (orderBy (fun t : TaskRow τ => toLex (t.createdAt, t.taskId))
        (db.tasks.select (·.claimable now))).map (TaskRow.mapTime f) := by
    refine orderBy_map_of_le_iff (fun t u => ?_) _
    exact TaskRow.age_mapTime_le_iff f t u
  rw [oldestClaimable, db.select_tasks_mapTime f (TaskRow.claimable_mapTime f now), hsorted, List.head?_map]
  rfl

/-- `claim_next_item` finds the same row under its lease. -/
theorem leasedTask_mapTime (taskId workerId : String) (now : τ) (db : Db τ) :
    ((db.mapTime f).tasks.select (TaskRow.leasedTo taskId workerId (f now))).head? =
      (db.tasks.select (TaskRow.leasedTo taskId workerId now)).head?.map (TaskRow.mapTime f) := by
  rw [db.select_tasks_mapTime f (TaskRow.leasedTo_mapTime f taskId workerId now), List.head?_map]

theorem purgeItems_map (taskIds : List String) (items : Table (ItemRow.key (τ := τ))) :
    purgeItems taskIds (items.map (ItemRow.mapTime f) (ItemRow.key_mapTime f)) =
      (purgeItems taskIds items).map (ItemRow.mapTime f) (ItemRow.key_mapTime f) := by
  induction taskIds generalizing items with
  | nil => rfl
  | cons taskId taskIds ih =>
    have hstep : (items.map (ItemRow.mapTime f) (ItemRow.key_mapTime f)).updateWhere
          (fun i => i.taskId = taskId) ItemRow.purge (fun _ => rfl) =
        (items.updateWhere (fun i => i.taskId = taskId) ItemRow.purge fun _ => rfl).map
          (ItemRow.mapTime f) (ItemRow.key_mapTime f) :=
      Table.updateWhere_map (ItemRow.key_mapTime f) (fun _ => rfl) fun _ => rfl
    simp only [purgeItems, List.foldl_cons] at ih ⊢
    rw [hstep, ih]

/-- `maintain_retention` purges and deletes the same rows. -/
theorem purgeAndDelete_mapTime (now cutoff : τ) (db : Db τ) :
    purgeAndDelete (f now) (f cutoff) (db.mapTime f) =
      ((purgeAndDelete now cutoff db).1, (purgeAndDelete now cutoff db).2.mapTime f) := by
  have hids (l : List (TaskRow τ)) : (l.map (TaskRow.mapTime f)).map TaskRow.taskId = l.map TaskRow.taskId :=
    List.map_map
  have htasks : (db.mapTime f).tasks.updateWhere (·.expired (f now)) (TaskRow.purge (f now)) (fun _ => rfl) =
      (db.tasks.updateWhere (·.expired now) (TaskRow.purge now) fun _ => rfl).map (TaskRow.mapTime f)
        (TaskRow.taskId_mapTime f) :=
    Table.updateWhere_map (TaskRow.taskId_mapTime f) (TaskRow.expired_mapTime f now) fun _ => rfl
  have hitems : (db.mapTime f).items = db.items.map (ItemRow.mapTime f) (ItemRow.key_mapTime f) := rfl
  simp only [purgeAndDelete]
  rw [db.select_tasks_mapTime f (TaskRow.expired_mapTime f now), htasks, hitems,
    Table.select_map _ (TaskRow.elapsed_mapTime f cutoff), hids, hids, List.length_map, List.length_map,
    purgeItems_map, Table.deleteWhere_map _ (TaskRow.elapsed_mapTime f cutoff)]
  congr 2
  exact Table.deleteWhere_map _ fun _ => rfl

end Predicates

/-- Stored timestamps compare like times: the texts of two datetimes are ordered, and equal, exactly as
their instants are, and no predicate or order of the repository tells texts from instants. -/
theorem storedTimestamps_compare_like_instants :
    (∀ a b : DateTime, (utf8 a.isoformat < utf8 b.isoformat ↔ a.instant < b.instant) ∧
      (a.isoformat = b.isoformat ↔ a.instant = b.instant)) ∧
    (∀ d : DateTime, d.wholeSeconds.length = 19 ∧ (zeroPadded 6 d.microsecond).length = 6 ∧
      d.isoformat =
        if d.microsecond = 0 then d.wholeSeconds ++ "+00:00"
        else d.wholeSeconds ++ "." ++ zeroPadded 6 d.microsecond ++ "+00:00") ∧
    (∀ (taskId workerId : String) (now cutoff : DateTime) (t : TaskRow DateTime),
      (t.mapTime DateTime.stamp).claimable now.stamp = t.claimable now ∧
      (t.mapTime DateTime.stamp).leasedTo taskId workerId now.stamp = t.leasedTo taskId workerId now ∧
      (t.mapTime DateTime.stamp).expired now.stamp = t.expired now ∧
      (t.mapTime DateTime.stamp).elapsed cutoff.stamp = t.elapsed cutoff) ∧
    (∀ (taskId workerId : String) (now cutoff : DateTime) (db : Db DateTime),
      oldestClaimable now.stamp (db.mapTime DateTime.stamp) =
        (oldestClaimable now db).map (TaskRow.mapTime DateTime.stamp) ∧
      ((db.mapTime DateTime.stamp).tasks.select (TaskRow.leasedTo taskId workerId now.stamp)).head? =
        (db.tasks.select (TaskRow.leasedTo taskId workerId now)).head?.map (TaskRow.mapTime DateTime.stamp) ∧
      purgeAndDelete now.stamp cutoff.stamp (db.mapTime DateTime.stamp) =
        ((purgeAndDelete now cutoff db).1, (purgeAndDelete now cutoff db).2.mapTime DateTime.stamp)) := by
  refine ⟨fun a b => ⟨?_, ?_⟩, fun d => ⟨d.length_wholeSeconds, length_zeroPadded _ _, d.isoformat_eq⟩,
    fun taskId workerId now cutoff t => ?_, fun taskId workerId now cutoff db => ?_⟩
  · exact DateTime.isoformat_lt_iff a b
  · exact DateTime.isoformat_inj a b
  · exact ⟨t.claimable_mapTime DateTime.isoText now, t.leasedTo_mapTime DateTime.isoText taskId workerId now,
      t.expired_mapTime DateTime.isoText now, t.elapsed_mapTime DateTime.isoText cutoff⟩
  · exact ⟨oldestClaimable_mapTime DateTime.isoText now db,
      leasedTask_mapTime DateTime.isoText taskId workerId now db,
      purgeAndDelete_mapTime DateTime.isoText now cutoff db⟩

end TextExtraction
