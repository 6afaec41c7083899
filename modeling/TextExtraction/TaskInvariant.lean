import Mathlib.Algebra.Group.Action.Defs
import Mathlib.Algebra.Group.Int.Defs
import TextExtraction.TaskCalls

/-!
# The representation invariant of the task store

`Aggregate.Inv` relates a task row to its item rows: the counters count the items, the status says
how far they got, and the lease is there exactly while an unpurged task is processing. It holds of
every task of every store that a sequence of calls reaches (`Db.run_inv`). What only the history
tells, whether a failed task was ended by `fail_task`, is `EndedByFailTask`.
-/

namespace TextExtraction

open Python Relational

variable {τ : Type}

/-- What an item row keeps, in a task that is `purged` or not. -/
structure ItemRow.Inv (purged : Bool) (i : ItemRow τ) : Prop where
  pending : i.status.isTerminal = false → i.outcomeJson = none ∧ i.errorJson = none
  completed : i.status = .completed → i.errorJson = none ∧ (purged = false → i.outcomeJson.isSome)
  failed : i.status = .failed → i.outcomeJson = none ∧ (purged = false → i.errorJson.isSome)
  completedAt : i.completedAt.isSome = i.status.isTerminal
  text : i.sourceText.isSome = !purged
  purged : purged = true → i.outcomeJson = none ∧ i.errorJson = none

namespace ItemRow.Inv

variable {i : ItemRow τ} {purged : Bool} {now : τ}

theorem take (h : i.Inv purged) (hpending : i.status.isTerminal = false) : (i.take now).Inv purged where
  pending _ := h.pending hpending
  completed he := by simp [ItemRow.take] at he
  failed he := by simp [ItemRow.take] at he
  completedAt := h.completedAt.trans hpending
  text := h.text
  purged := h.purged

theorem finalize (h : i.Inv false) {oj ej : Option Json} (hone : oj.isSome = ej.isNone) :
    (i.finalize (if ej.isNone then .completed else .failed) oj ej now).Inv false where
  pending he := by cases ej <;> simp [ItemRow.finalize, ExtractionTaskItemStatus.isTerminal] at he
  completed he := by cases ej <;> simp_all [ItemRow.finalize]
  failed he := by cases ej <;> cases oj <;> simp_all [ItemRow.finalize]
  completedAt := by cases ej <;> rfl
  text := h.text
  purged he := by cases he

theorem abort (h : i.Inv false) (hpending : i.status.isTerminal = false) {ej : Json} :
    (i.abort ej now).Inv false where
  pending he := by cases he
  completed he := by cases he
  failed _ := ⟨(h.pending hpending).1, fun _ => rfl⟩
  completedAt := rfl
  text := h.text
  purged he := by cases he

theorem purge (h : i.Inv false) : i.purge.Inv true where
  pending _ := ⟨rfl, rfl⟩
  completed _ := ⟨rfl, by simp⟩
  failed _ := ⟨rfl, by simp⟩
  completedAt := h.completedAt
  text := rfl
  purged _ := ⟨rfl, rfl⟩

end ItemRow.Inv

@[simp] theorem TaskRow.advance_acceptedCount (task t : TaskRow τ) (succeeded : Bool) (w : String)
    (now : τ) : (TaskRow.advance task succeeded w now t).acceptedCount = t.acceptedCount := rfl

@[simp] theorem TaskRow.advance_processedCount (task t : TaskRow τ) (succeeded : Bool) (w : String)
    (now : τ) :
    (TaskRow.advance task succeeded w now t).processedCount = task.processedCount + 1 := rfl

@[simp] theorem TaskRow.advance_purgedAt (task t : TaskRow τ) (succeeded : Bool) (w : String)
    (now : τ) : (TaskRow.advance task succeeded w now t).purgedAt = t.purgedAt := rfl

/-- How `finalize_item` derives the status and the lease from the new counters. -/
theorem TaskRow.advance_cases (t : TaskRow τ) (succeeded : Bool) (w : String) (now : τ) :
    let t' := TaskRow.advance t succeeded w now t
    (t.processedCount + 1 ≠ t.acceptedCount ∧ t'.status = .processing ∧ t'.completedAt = none ∧
      t'.leaseOwner = some w ∧ t'.leaseExpiresAt = t.leaseExpiresAt) ∨
    (t.processedCount + 1 = t.acceptedCount ∧ t'.completedAt = some now ∧ t'.leaseOwner = none ∧
      t'.leaseExpiresAt = none ∧
      (t'.status = .completed ∧ t'.successfulCount = t.acceptedCount ∨
        t'.status = .partiallyCompleted ∧ t'.successfulCount ≠ t.acceptedCount ∧
          t'.successfulCount ≠ 0 ∨
        t'.status = .failed ∧ t'.successfulCount ≠ t.acceptedCount ∧ t'.successfulCount = 0)) := by
  intro t'
  by_cases hlast : t.processedCount + 1 = t.acceptedCount
  · right
    refine ⟨hlast, ?_, ?_, ?_, ?_⟩
    · simp [t', TaskRow.advance, hlast]
    · simp [t', TaskRow.advance, hlast]
    · simp [t', TaskRow.advance, hlast]
    · by_cases hall : t'.successfulCount = t.acceptedCount
      · left
        exact ⟨by simp_all [t', TaskRow.advance], hall⟩
      · right
        by_cases hz : t'.successfulCount = 0
        · right
          exact ⟨by simp_all [t', TaskRow.advance], hall, hz⟩
        · left
          exact ⟨by simp_all [t', TaskRow.advance], hall, hz⟩
  · left
    refine ⟨hlast, ?_, ?_, ?_, ?_⟩ <;> simp [t', TaskRow.advance, hlast]

namespace Aggregate

@[simp] theorem finalize_row (a : Aggregate τ) (w : String) (p : ℤ) (oj ej : Option Json) (now : τ) :
    (a.finalize w p oj ej now).row = TaskRow.advance a.row ej.isNone w now a.row := rfl

/-- The items in a status. -/
def count (a : Aggregate τ) (status : ExtractionTaskItemStatus) : ℕ :=
  a.items.countP fun i => i.status = status

/-- The representation invariant of one task. -/
structure Inv (a : Aggregate τ) : Prop where
  accepted_pos : 0 < a.row.acceptedCount
  taskIds : ∀ i ∈ a.items, i.taskId = a.row.taskId
  positions : a.items.map ItemRow.position = (List.range a.row.acceptedCount).map Int.ofNat
  items : ∀ i ∈ a.items, i.Inv a.row.purgedAt.isSome
  successful : a.row.successfulCount = a.count .completed
  failed : a.row.failedCount = a.count .failed
  processed : a.row.processedCount = a.row.successfulCount + a.row.failedCount
  terminal : a.row.status.isTerminal = true ↔ a.row.processedCount = a.row.acceptedCount
  completedAt : a.row.completedAt.isSome = a.row.status.isTerminal
  completed : a.row.status = .completed ↔ a.row.successfulCount = a.row.acceptedCount
  partially : a.row.status = .partiallyCompleted → 0 < a.row.successfulCount
  queued : a.row.status = .queued → a.row.startedAt = none ∧ ∀ i ∈ a.items, i.status = .queued
  leased : a.row.leaseOwner.isSome = true ↔ a.row.status = .processing ∧ a.row.purgedAt = none
  leaseExpiry : a.row.leaseExpiresAt.isSome = a.row.leaseOwner.isSome
  criteria : a.row.criteriaJson.isSome = a.row.purgedAt.isNone
  model : a.row.modelJson.isSome = a.row.purgedAt.isNone
  error : a.row.taskErrorJson.isSome = true → a.row.status.isTerminal = true ∧ a.row.purgedAt = none

namespace Inv
variable {a : Aggregate τ}

theorem positions_nodup (h : a.Inv) : (a.items.map ItemRow.position).Nodup := by
  rw [h.positions]
  exact List.nodup_range.map Int.ofNat_injective

theorem length_items (h : a.Inv) : a.items.length = a.row.acceptedCount := by
  simpa using congrArg List.length h.positions

theorem eq_of_position (h : a.Inv) {i j : ItemRow τ} (hi : i ∈ a.items) (hj : j ∈ a.items)
    (hp : i.position = j.position) : i = j :=
  eq_of_key_eq h.positions_nodup hi hj hp

end Inv

theorem count_total (a : Aggregate τ) :
    a.count .completed + a.count .failed + a.items.countP (·.status.isPending) = a.items.length := by
  rw [count, count]
  induction a.items with
  | nil => rfl
  | cons i items ih =>
    simp only [ExtractionTaskItemStatus.isPending_eq_not, List.countP_cons, List.length_cons] at ih ⊢
    cases i.status <;> simp <;> omega

namespace Inv
variable {a : Aggregate τ}

theorem processed_le (h : a.Inv) : a.row.processedCount ≤ a.row.acceptedCount := by
  rw [h.processed, h.successful, h.failed, ← h.length_items, ← a.count_total]
  omega

theorem processed_lt (h : a.Inv) (hrun : a.row.status.isTerminal = false) :
    a.row.processedCount < a.row.acceptedCount := by
  refine lt_of_le_of_ne h.processed_le fun he => ?_
  rw [h.terminal.2 he] at hrun
  simp at hrun

theorem unpurged_of_leased (h : a.Inv) {w : String} (how : a.row.leaseOwner = some w) :
    a.row.purgedAt = none := (h.leased.1 (by simp [how])).2

/-- Every item of a task that is not terminal but has nothing pending would be finished. -/
theorem exists_pending (h : a.Inv) (hrun : a.row.status.isTerminal = false) :
    ∃ i, a.items.find? (·.status.isPending) = some i := by
  have hlt := h.processed_lt hrun
  have htotal := a.count_total
  rw [h.processed, h.successful, h.failed, ← h.length_items] at hlt
  have hpos : 0 < a.items.countP (·.status.isPending) := by omega
  obtain ⟨i, hi, hp⟩ := List.countP_pos_iff.1 hpos
  exact Option.isSome_iff_exists.1 (List.find?_isSome.2 ⟨i, hi, hp⟩)

theorem taskFromRow_eq (h : a.Inv) (includePayload : Bool) :
    taskFromRow a.row includePayload = .ok (a.row.record includePayload) :=
  ExtractionTaskRecord.postInit_of_valid h.accepted_pos h.processed h.processed_le h.terminal.1
    h.completedAt

theorem check (h : a.Inv) : a.row.check = true := by
  simp only [TaskRow.check, decide_eq_true_eq]
  exact ⟨h.accepted_pos, h.processed.symm, h.processed_le⟩

end Inv

theorem Inv.successful_eq_iff {a : Aggregate τ} (h : a.Inv) :
    a.row.successfulCount = a.row.acceptedCount ↔ ∀ i ∈ a.items, i.status = .completed := by
  rw [h.successful, ← h.length_items, count, List.countP_eq_length]
  simp

theorem Inv.successful_eq_zero_iff {a : Aggregate τ} (h : a.Inv) :
    a.row.successfulCount = 0 ↔ ∀ i ∈ a.items, i.status ≠ .completed := by
  rw [h.successful, count, List.countP_eq_zero]
  simp

/-! ### New tasks -/

theorem newItems_status (id : String) (items : List (String × String)) (n : ℕ) :
    ∀ i ∈ (items.zipIdx n).map (newItem (τ := τ) id), i.taskId = id ∧ i.status = .queued ∧
      i.Inv false := by
  intro i hi
  obtain ⟨source, -, rfl⟩ := List.mem_map.1 hi
  exact ⟨rfl, rfl, ⟨fun _ => ⟨rfl, rfl⟩, by rintro ⟨⟩, by rintro ⟨⟩, rfl, rfl, by rintro ⟨⟩⟩⟩

theorem inv_newAggregate (id owner : String) (cj mj : Json) {items : List (String × String)}
    (hne : items ≠ []) (created expires : τ) :
    (newAggregate id owner cj mj items created expires).Inv := by
  have hitems := newItems_status (τ := τ) id items 0
  have hcount : ∀ status, status ≠ ExtractionTaskItemStatus.queued →
      (newAggregate id owner cj mj items created expires).count status = 0 := by
    intro status hs
    rw [count, List.countP_eq_zero]
    intro i hi
    simp only [(hitems i hi).2.1, decide_eq_true_eq]
    exact Ne.symm hs
  refine
    { accepted_pos := List.length_pos_of_ne_nil hne
      taskIds := fun i hi => (hitems i hi).1
      positions := (positions_newItems items 0).trans (by rw [List.range_eq_range']; rfl)
      items := fun i hi => (hitems i hi).2.2
      successful := (hcount _ (by simp)).symm
      failed := (hcount _ (by simp)).symm
      processed := rfl
      terminal := ?_
      completedAt := rfl
      completed := ?_
      partially := by rintro ⟨⟩
      queued := fun _ => ⟨rfl, fun i hi => (hitems i hi).2.1⟩
      leased := by simp [newAggregate, newTask]
      leaseExpiry := rfl
      criteria := rfl
      model := rfl
      error := by rintro ⟨⟩ }
  all_goals
    have := List.length_pos_of_ne_nil hne
    simp [newAggregate, newTask, ExtractionTaskStatus.isTerminal]
    omega

/-! ### Steps -/

section Step
variable {a : Aggregate τ}

/-- Replacing the one item at a position moves each count by that item alone. -/
theorem Inv.count_update (h : a.Inv) {i : ItemRow τ} (hi : i ∈ a.items) (f : ItemRow τ → ItemRow τ)
    (row : TaskRow τ) (status : ExtractionTaskItemStatus) :
    (⟨row, a.items.map fun j => if j.position = i.position then f j else j⟩ : Aggregate τ).count status
        + (if i.status = status then 1 else 0) =
      a.count status + if (f i).status = status then 1 else 0 := by
  simpa [count] using countP_update_one h.positions_nodup hi f fun j => decide (j.status = status)

theorem map_position {g : ItemRow τ → ItemRow τ} (hg : ∀ i, (g i).position = i.position)
    (items : List (ItemRow τ)) : (items.map g).map ItemRow.position = items.map ItemRow.position := by
  rw [List.map_map]
  exact List.map_congr_left fun i _ => hg i

theorem Inv.taskIds_map (h : a.Inv) {g : ItemRow τ → ItemRow τ} (hg : ∀ i, (g i).taskId = i.taskId) :
    ∀ i ∈ a.items.map g, i.taskId = a.row.taskId := by
  intro i hi
  obtain ⟨k, hk, rfl⟩ := List.mem_map.1 hi
  exact (hg k).trans (h.taskIds k hk)

namespace Inv
variable {w : String} {now expiry : τ} {i : ItemRow τ} {oj ej : Option Json} {json : Json}

theorem claim [LinearOrder τ] (h : a.Inv) (hclaim : a.row.claimable now = true) :
    (a.claim w expiry now).Inv := by
  obtain ⟨hrun, hpurged, -, -⟩ := TaskRow.claimable_iff.1 hclaim
  have hterm : a.row.processedCount ≠ a.row.acceptedCount := fun he => by simp [h.terminal.2 he] at hrun
  have hcomp : a.row.successfulCount ≠ a.row.acceptedCount := fun he => by
    simp [h.completed.2 he] at hrun
  exact
    { accepted_pos := h.accepted_pos
      taskIds := h.taskIds
      positions := h.positions
      items := h.items
      successful := h.successful
      failed := h.failed
      processed := h.processed
      terminal := by simp [Aggregate.claim, TaskRow.claim, hterm]
      completedAt := h.completedAt.trans hrun
      completed := by simp [Aggregate.claim, TaskRow.claim, hcomp]
      partially := by rintro ⟨⟩
      queued := by rintro ⟨⟩
      leased := by simp [Aggregate.claim, TaskRow.claim, hpurged]
      leaseExpiry := rfl
      criteria := h.criteria
      model := h.model
      error := fun he => absurd (h.error he).1 (by simp [hrun]) }

theorem renew (h : a.Inv) (how : a.row.leaseOwner = some w) : (a.renew expiry now).Inv :=
  { accepted_pos := h.accepted_pos
    taskIds := h.taskIds
    positions := h.positions
    items := h.items
    successful := h.successful
    failed := h.failed
    processed := h.processed
    terminal := h.terminal
    completedAt := h.completedAt
    completed := h.completed
    partially := h.partially
    queued := h.queued
    leased := h.leased
    leaseExpiry := by simp [Aggregate.renew, TaskRow.renew, how]
    criteria := h.criteria
    model := h.model
    error := h.error }

theorem take (h : a.Inv) (hstatus : a.row.status = .processing) (hi : i ∈ a.items)
    (hpending : i.status.isTerminal = false) : (a.take i.position now).Inv := by
  have hcount : ∀ status : ExtractionTaskItemStatus, status.isTerminal = true →
      (a.take i.position now).count status = a.count status := by
    intro status hs
    have hup := h.count_update hi (ItemRow.take now) a.row status
    have hne : i.status ≠ status := fun he => by simp [he, hs] at hpending
    have hne' : (i.take now).status ≠ status := fun he => by
      rw [← he] at hs; cases hs
    rw [if_neg hne, if_neg hne'] at hup
    exact hup
  exact
    { accepted_pos := h.accepted_pos
      taskIds := h.taskIds_map fun j => by split <;> rfl
      positions := (map_position (fun j => by split <;> rfl) a.items).trans h.positions
      items := by
        rintro j hj
        obtain ⟨k, hk, rfl⟩ := List.mem_map.1 hj
        split
        · rename_i hp
          rw [h.eq_of_position hk hi hp]
          exact (h.items i hi).take hpending
        · exact h.items k hk
      successful := h.successful.trans (hcount _ rfl).symm
      failed := h.failed.trans (hcount _ rfl).symm
      processed := h.processed
      terminal := h.terminal
      completedAt := h.completedAt
      completed := h.completed
      partially := h.partially
      queued := fun he => by rw [show (a.take i.position now).row = a.row from rfl, hstatus] at he; simp at he
      leased := h.leased
      leaseExpiry := h.leaseExpiry
      criteria := h.criteria
      model := h.model
      error := h.error }

theorem finalize (h : a.Inv) (how : a.row.leaseOwner = some w)
    (hrun : a.row.status.isTerminal = false) (hi : i ∈ a.items)
    (hpending : i.status.isTerminal = false) (hone : oj.isSome = ej.isNone) :
    (a.finalize w i.position oj ej now).Inv := by
  have hpurged := h.unpurged_of_leased how
  have hlt := h.processed_lt hrun
  have hstatus := (h.leased.1 (by simp [how])).1
  have hcount : ∀ status : ExtractionTaskItemStatus, status.isTerminal = true →
      (a.finalize w i.position oj ej now).count status = a.count status +
        if (if ej.isNone then ExtractionTaskItemStatus.completed else .failed) = status then 1 else 0 := by
    intro status hs
    have hup := h.count_update hi
      (ItemRow.finalize (if ej.isNone then .completed else .failed) oj ej now)
      (TaskRow.advance a.row ej.isNone w now a.row) status
    have hne : i.status ≠ status := fun he => by simp [he, hs] at hpending
    rw [if_neg hne] at hup
    exact hup
  have hitems : ∀ j ∈ (a.finalize w i.position oj ej now).items, j.Inv a.row.purgedAt.isSome := by
    intro j hj
    obtain ⟨k, hk, rfl⟩ := List.mem_map.1 hj
    have hinv := h.items k hk
    rw [hpurged] at hinv ⊢
    split
    · exact hinv.finalize hone
    · exact hinv
  have hsucc : (TaskRow.advance a.row ej.isNone w now a.row).successfulCount =
      a.row.successfulCount + if ej.isNone then 1 else 0 := rfl
  have hcounts := h.processed
  have hle : (TaskRow.advance a.row ej.isNone w now a.row).successfulCount ≤ a.row.processedCount + 1 := by
    rw [hsucc]; split <;> omega
  refine
    { accepted_pos := h.accepted_pos
      taskIds := h.taskIds_map fun j => by split <;> rfl
      positions := (map_position (fun j => by split <;> rfl) a.items).trans h.positions
      items := hitems
      successful := ?successful
      failed := ?failed
      processed := ?processed
      terminal := ?terminal
      completedAt := ?completedAt
      completed := ?completed
      partially := ?partially
      queued := ?queued
      leased := ?leased
      leaseExpiry := ?leaseExpiry
      criteria := h.criteria
      model := h.model
      error := fun he => absurd (h.error he).1 (by simp [hrun]) }
  case successful => rw [hcount _ rfl, finalize_row, hsucc, h.successful]; cases ej <;> rfl
  case failed => rw [hcount _ rfl, ← h.failed]; cases ej <;> rfl
  case processed => simp only [Aggregate.finalize, TaskRow.advance]; cases ej <;> simp <;> omega
  -- the new status and lease: unfinished, or one of the three final statuses
  all_goals
    rcases a.row.advance_cases ej.isNone w now with ⟨hlast, hs, hc, ho, he⟩ |
      ⟨hlast, hc, ho, he, ⟨hs, hn⟩ | ⟨hs, hn, hz⟩ | ⟨hs, hn, hz⟩⟩
  all_goals simp only [finalize_row, TaskRow.advance_acceptedCount, TaskRow.advance_processedCount,
    TaskRow.advance_purgedAt, hs, hc, ho, he]
  case completed.inl => simp only [reduceCtorEq, false_iff]; omega
  case completed.inr.inl => simp [hn]
  case completed.inr.inr.inl => simp [hn]
  case completed.inr.inr.inr => simp [hn]
  case partially.inr.inr.inl => exact fun _ => Nat.pos_of_ne_zero hz
  case leaseExpiry.inl => rw [h.leaseExpiry, how]
  all_goals simp [hlast, hpurged]

theorem abort (h : a.Inv) (how : a.row.leaseOwner = some w)
    (hrun : a.row.status.isTerminal = false) : (a.abort json now).Inv := by
  have hpurged := h.unpurged_of_leased how
  have hlt := h.processed_lt hrun
  have hcomp : (a.abort json now).count .completed = a.count .completed := by
    simp only [count, Aggregate.abort, List.countP_map]
    refine List.countP_congr fun i _ => ?_
    cases hs : i.status <;> simp [hs, ItemRow.abort]
  have hfail : (a.abort json now).count .failed =
      a.count .failed + (a.row.acceptedCount - a.row.processedCount) := by
    have hnone : (a.abort json now).items.countP (·.status.isPending) = 0 := by
      rw [List.countP_eq_zero]
      intro i hi
      obtain ⟨j, -, rfl⟩ := List.mem_map.1 hi
      cases hs : j.status <;> simp [hs, ItemRow.abort]
    have htotal := (a.abort json now).count_total
    rw [hnone, hcomp, ← h.successful] at htotal
    have hlen : (a.abort json now).items.length = a.row.acceptedCount :=
      (List.length_map _).trans h.length_items
    have := h.processed
    have := h.failed
    omega
  have hfailed : (a.abort json now).row.failedCount =
      a.row.failedCount + (a.row.acceptedCount - a.row.processedCount) := rfl
  exact
    { accepted_pos := h.accepted_pos
      taskIds := h.taskIds_map fun j => by split <;> rfl
      positions := (map_position (fun j => by split <;> rfl) a.items).trans h.positions
      items := by
        intro j hj
        obtain ⟨k, hk, rfl⟩ := List.mem_map.1 hj
        have hinv := h.items k hk
        rw [hpurged] at hinv
        rw [show (a.abort json now).row.purgedAt = none from hpurged]
        split
        · exact hinv.abort (by simp_all)
        · exact hinv
      successful := h.successful.trans hcomp.symm
      failed := by rw [hfailed, hfail, h.failed]
      processed := by
        have := h.processed
        change a.row.acceptedCount = a.row.successfulCount +
          (a.row.failedCount + (a.row.acceptedCount - a.row.processedCount))
        omega
      terminal := iff_of_true rfl rfl
      completedAt := rfl
      completed := iff_of_false (by simp [Aggregate.abort, TaskRow.abort]) (by
        have := h.processed
        change a.row.successfulCount ≠ a.row.acceptedCount
        omega)
      partially := by rintro ⟨⟩
      queued := by rintro ⟨⟩
      leased := by simp [Aggregate.abort, TaskRow.abort]
      leaseExpiry := rfl
      criteria := h.criteria
      model := h.model
      error := fun _ => ⟨rfl, hpurged⟩ }

theorem purge (h : a.Inv) (hpurged : a.row.purgedAt = none) : (a.purge now).Inv := by
  have hcount : ∀ status, (a.purge now).count status = a.count status := fun status => by
    simp only [count, Aggregate.purge, List.countP_map]
    exact List.countP_congr fun i _ => Iff.rfl
  exact
    { accepted_pos := h.accepted_pos
      taskIds := h.taskIds_map (g := ItemRow.purge) fun _ => rfl
      positions := (map_position (g := ItemRow.purge) (fun _ => rfl) a.items).trans h.positions
      items := by
        intro j hj
        obtain ⟨k, hk, rfl⟩ := List.mem_map.1 hj
        have hinv := h.items k hk
        rw [hpurged] at hinv
        exact hinv.purge
      successful := h.successful.trans (hcount _).symm
      failed := h.failed.trans (hcount _).symm
      processed := h.processed
      terminal := h.terminal
      completedAt := h.completedAt
      completed := h.completed
      partially := h.partially
      queued := fun hs => ⟨(h.queued hs).1, fun j hj => by
        obtain ⟨k, hk, rfl⟩ := List.mem_map.1 hj
        exact (h.queued hs).2 k hk⟩
      leased := by simp [Aggregate.purge, TaskRow.purge]
      leaseExpiry := rfl
      criteria := rfl
      model := rfl
      error := by rintro ⟨⟩ }

theorem step [LinearOrder τ] (h : a.Inv) {act : Action τ} {a' : Aggregate τ} (hstep : a.Step act a') :
    a'.Inv := by
  cases hstep with
  | claim hclaim => exact h.claim hclaim
  | renew how _ => exact h.renew how
  | take _ _ hstatus _ hfirst =>
    have hi := List.mem_of_find?_eq_some hfirst
    have hp := List.find?_some hfirst
    exact h.take hstatus hi (by simpa using hp)
  | finalize how hrun hi hpending hone => exact h.finalize how hrun hi hpending hone
  | abort how hrun => exact h.abort how hrun
  | purge hexp => exact h.purge (TaskRow.expired_iff.1 hexp).2

end Inv

end Step

end Aggregate

/-! ### Reachable stores -/

section Run
variable [LinearOrder τ] [VAdd ℤ τ] {calls : List (Call τ)} {c : Call τ} {id : String}
  {a : Aggregate τ}

theorem Db.run_inv (h : (Db.run calls).view id = some a) : a.Inv :=
  Db.run_invariant (P := Aggregate.Inv)
    (fun _ _ _ _ _ _ _ hne => Aggregate.inv_newAggregate _ _ _ _ hne _ _)
    (fun _ _ _ hinv hstep => hinv.step hstep) calls id a h

/-- A `fail_task` call on the task succeeded, and the task has been there ever since. -/
def EndedByFailTask (calls : List (Call τ)) (id : String) : Prop :=
  ∃ before w error now after, calls = before ++ .failTask id w error now :: after ∧
    (∃ r, (failTask id w error now (Db.run before)).1 = .ok r) ∧
    ∀ part, part <+: after →
      ((Db.run (before ++ .failTask id w error now :: part)).view id).isSome

theorem EndedByFailTask.snoc (h : EndedByFailTask calls id)
    (hv : (Db.run (calls ++ [c])).view id = some a) : EndedByFailTask (calls ++ [c]) id := by
  obtain ⟨before, w, error, now, after, rfl, hok, hkept⟩ := h
  refine ⟨before, w, error, now, after ++ [c], by simp, hok, fun part hpart => ?_⟩
  rcases List.prefix_concat_iff.1 hpart with rfl | hpart
  · simpa using congrArg Option.isSome hv
  · exact hkept part hpart

omit [VAdd ℤ τ] in
/-- A terminal task steps no more, purge aside. -/
theorem Aggregate.Step.not_terminal {act : Action τ} {a' : Aggregate τ} (h : a.Step act a') :
    a.row.status.isTerminal = false ∨ ∃ now, act = .purge now ∧ a' = a.purge now := by
  cases h with
  | claim hclaim => exact .inl (TaskRow.claimable_iff.1 hclaim).1
  | renew _ hrun => exact .inl hrun
  | take _ _ hstatus => exact .inl (by rw [hstatus]; rfl)
  | finalize _ hrun => exact .inl hrun
  | abort _ hrun => exact .inl hrun
  | purge _ => exact .inr ⟨_, rfl, rfl⟩

theorem EndedByFailTask.failed (h : EndedByFailTask calls id)
    (hv : (Db.run calls).view id = some a) : a.row.status = .failed := by
  obtain ⟨before, w, error, now, after, rfl, ⟨r, hok⟩, hkept⟩ := h
  induction after using List.reverseRecOn generalizing a with
  | nil =>
    rw [show before ++ [Call.failTask id w error now] = before ++ [.failTask id w error now] from rfl,
      Db.run_snoc] at hv
    rcases failTask_cases id w error now (Db.run before) with
      ⟨e, he⟩ | ⟨a₀, ej, -, -, -, -, -, hrep⟩
    · rw [he] at hok; simp at hok
    · have hself := hrep.view_self
      rw [Call.exec] at hv
      rw [hv] at hself
      cases hself; rfl
  | append_singleton after c ih =>
    have hlast := hkept after (List.prefix_append ..)
    obtain ⟨a₀, hv₀⟩ := Option.isSome_iff_exists.1 hlast
    have hfailed := ih hv₀ fun part hpart => hkept part (hpart.trans (List.prefix_append ..))
    have haff := (Db.change_run (before ++ .failTask id w error now :: after) c).affects id
    rw [List.append_assoc, List.cons_append, hv, hv₀] at haff
    cases haff with
    | same => exact hfailed
    | stepped hstep hdoes =>
      rcases hstep.not_terminal with hrun | ⟨now, rfl, -⟩
      · rw [hfailed] at hrun; simp at hrun
      · cases hdoes
    | purged => exact hfailed

/-- A task fails because no item completed or because `fail_task` ended it. -/
theorem ended_of_failed (hv : (Db.run calls).view id = some a) (hfailed : a.row.status = .failed) :
    a.row.successfulCount = 0 ∨ EndedByFailTask calls id := by
  induction calls using List.reverseRecOn generalizing a with
  | nil => cases hv
  | append_singleton calls c ih =>
    have haff := (Db.change_run calls c).affects id
    rw [hv] at haff
    generalize hv₀ : (Db.run calls).view id = v at haff
    cases haff with
    | same => exact (ih hv₀ hfailed).imp_right (·.snoc hv)
    | created => cases hfailed
    | purged _ hstep => exact (ih hv₀ hfailed).imp_right (·.snoc hv)
    | @stepped a₀ act _ hstep hdoes =>
      cases hstep with
      | claim => cases hfailed
      | renew _ hrun =>
        rw [show (a₀.renew _ _).row.status = a₀.row.status from rfl] at hfailed
        rw [hfailed] at hrun; simp at hrun
      | take _ _ hstatus =>
        rw [show (a₀.take _ _).row.status = a₀.row.status from rfl, hstatus] at hfailed
        simp at hfailed
      | @finalize w now i oj ej =>
        left
        rcases a₀.row.advance_cases ej.isNone w now with ⟨-, hs, -⟩ |
          ⟨-, -, -, -, ⟨hs, -⟩ | ⟨hs, -⟩ | ⟨-, -, hz⟩⟩
        · rw [Aggregate.finalize_row, hs] at hfailed; simp at hfailed
        · rw [Aggregate.finalize_row, hs] at hfailed; simp at hfailed
        · rw [Aggregate.finalize_row, hs] at hfailed; simp at hfailed
        · exact hz
      | @abort w now ej how hrun =>
        right
        cases hdoes with
        | @abort _ _ error _ _ hej =>
          rcases failTask_cases id w error now (Db.run calls) with
            ⟨e, he⟩ | ⟨a₁, ej', -, -, -, -, hok, hrep⟩
          · rw [Db.run_snoc, Call.exec, he, hv₀] at hv
            injection hv with hsame
            rw [hsame] at hrun; cases hrun
          · refine ⟨calls, w, error, now, [], rfl, ?_, fun part hpart => ?_⟩
            · have hr := (Db.run_inv hv).taskFromRow_eq true
              have hself := hrep.view_self
              rw [Db.run_snoc, Call.exec, hself] at hv
              injection hv with hsame
              exact ⟨_, by rw [hok, hsame, hr]⟩
            · rw [List.prefix_nil.1 hpart, hv]; rfl
      | purge => cases hdoes

/-- What the store keeps of a task after the calls `calls`. -/
structure Consistent (calls : List (Call τ)) (id : String) (a : Aggregate τ) : Prop where
  positions : a.items.map ItemRow.position = (List.range a.row.acceptedCount).map Int.ofNat
  successful : a.row.successfulCount = a.items.countP fun i => i.status = .completed
  failed : a.row.failedCount = a.items.countP fun i => i.status = .failed
  processed : a.row.processedCount = a.row.successfulCount + a.row.failedCount
  terminal_iff_processed :
    a.row.status.isTerminal = true ↔ a.row.processedCount = a.row.acceptedCount
  terminal_iff_completedAt : a.row.status.isTerminal = true ↔ a.row.completedAt.isSome = true
  completed_iff : a.row.status = .completed ↔ ∀ i ∈ a.items, i.status = .completed
  partially : a.row.status = .partiallyCompleted →
    (∃ i ∈ a.items, i.status = .completed) ∧ ∃ i ∈ a.items, i.status ≠ .completed
  failed_iff : a.row.status = .failed ↔ a.row.status.isTerminal = true ∧
    ((∀ i ∈ a.items, i.status ≠ .completed) ∨ EndedByFailTask calls id)
  queued : a.row.status = .queued → a.row.leaseOwner = none ∧ a.row.leaseExpiresAt = none ∧
    a.row.startedAt = none ∧ ∀ i ∈ a.items, i.status = .queued
  processing : a.row.status = .processing → a.row.purgedAt = none → a.row.leaseOwner.isSome = true
  loads : ∀ includePayload, taskFromRow a.row includePayload = .ok (a.row.record includePayload)

/-- Whatever calls have been made, whatever they raised, every task in the store is consistent. -/
theorem run_consistent (calls : List (Call τ)) (id : String) (a : Aggregate τ)
    (h : (Db.run calls).view id = some a) : Consistent calls id a where
  positions := (Db.run_inv h).positions
  successful := (Db.run_inv h).successful
  failed := (Db.run_inv h).failed
  processed := (Db.run_inv h).processed
  terminal_iff_processed := (Db.run_inv h).terminal
  terminal_iff_completedAt := by rw [(Db.run_inv h).completedAt]
  completed_iff := by rw [(Db.run_inv h).completed, (Db.run_inv h).successful_eq_iff]
  partially hs := by
    have hinv := Db.run_inv h
    constructor
    · have hpos := hinv.partially hs
      rw [hinv.successful] at hpos
      obtain ⟨i, hi, hp⟩ := List.countP_pos_iff.1 hpos
      exact ⟨i, hi, by simpa using hp⟩
    · by_contra hall
      push Not at hall
      rw [hinv.completed.2 (hinv.successful_eq_iff.2 hall)] at hs
      simp at hs
  failed_iff := by
    have hinv := Db.run_inv h
    rw [← hinv.successful_eq_zero_iff]
    constructor
    · intro hs
      exact ⟨by rw [hs]; rfl, ended_of_failed h hs⟩
    · rintro ⟨hterm, hzero | hended⟩
      · cases hs : a.row.status with
        | failed => rfl
        | completed =>
          have := hinv.completed.1 hs
          have := hinv.accepted_pos
          omega
        | partiallyCompleted =>
          have := hinv.partially hs
          omega
        | _ => rw [hs] at hterm; simp at hterm
      · exact hended.failed h
  queued hs := by
    have hinv := Db.run_inv h
    have hown : a.row.leaseOwner.isSome = false := by
      rw [Bool.eq_false_iff, ne_eq, hinv.leased, hs]
      simp
    have hexp : a.row.leaseExpiresAt.isSome = false := hinv.leaseExpiry.trans hown
    exact ⟨by simpa using hown, by simpa using hexp, hinv.queued hs⟩
  processing hs hpurged := (Db.run_inv h).leased.2 ⟨hs, hpurged⟩
  loads := (Db.run_inv h).taskFromRow_eq

end Run

/-- One item completed and one refused, then the task failed. -/
theorem run_consistent_example :
    let calls : List (Call ℤ) :=
      [.createTask "t" "o" [] [] [("a", "x"), ("b", "y")] 0 9, .claimTask "w" 1 3,
        .claimNextItem "t" "w" 2, .finalizeItem "t" "w" 0 (some []) none 2,
        .failTask "t" "w" [("code", "c")] 3]
    ∃ a, (Db.run calls).view "t" = some a ∧ Consistent calls "t" a :=
  ⟨_, rfl, run_consistent _ _ _ rfl⟩

end TextExtraction
