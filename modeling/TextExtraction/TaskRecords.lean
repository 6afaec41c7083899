import TextExtraction.Lib.PyJson

/-!
# Task rows and records

The two task tables of `task_repository.py`, one structure a row, and the records `models.py` makes
of them. Timestamps are whatever the texts SQLite stores compare like: any linear order `τ` on
which time differences (in microseconds) act. A JSON column holds a document or is null.
-/

namespace TextExtraction

open Python Relational

inductive ExtractionTaskStatus
  | queued | processing | completed | partiallyCompleted | failed
deriving DecidableEq, Repr

namespace ExtractionTaskStatus

def value : ExtractionTaskStatus → String
  | queued => "queued"
  | processing => "processing"
  | completed => "completed"
  | partiallyCompleted => "partially_completed"
  | failed => "failed"

/-- `is_terminal`, and membership in `TERMINAL_TASK_STATUSES`. -/
def isTerminal : ExtractionTaskStatus → Bool
  | queued | processing => false
  | completed | partiallyCompleted | failed => true

/-- `status IN ('queued', 'processing')`. -/
def isRunning : ExtractionTaskStatus → Bool
  | queued | processing => true
  | completed | partiallyCompleted | failed => false

@[simp] theorem isTerminal_queued : queued.isTerminal = false := rfl
@[simp] theorem isTerminal_processing : processing.isTerminal = false := rfl
@[simp] theorem isTerminal_completed : completed.isTerminal = true := rfl
@[simp] theorem isTerminal_partiallyCompleted : partiallyCompleted.isTerminal = true := rfl
@[simp] theorem isTerminal_failed : failed.isTerminal = true := rfl

@[simp] theorem isRunning_eq_not (s : ExtractionTaskStatus) : s.isRunning = !s.isTerminal := by
  cases s <;> rfl

end ExtractionTaskStatus

inductive ExtractionTaskItemStatus
  | queued | processing | completed | failed
deriving DecidableEq, Repr

namespace ExtractionTaskItemStatus

/-- `status IN ('completed', 'failed')`. -/
def isTerminal : ExtractionTaskItemStatus → Bool
  | queued | processing => false
  | completed | failed => true

/-- `status IN ('queued', 'processing')`. -/
def isPending : ExtractionTaskItemStatus → Bool
  | queued | processing => true
  | completed | failed => false

@[simp] theorem isTerminal_queued : queued.isTerminal = false := rfl
@[simp] theorem isTerminal_processing : processing.isTerminal = false := rfl
@[simp] theorem isTerminal_completed : completed.isTerminal = true := rfl
@[simp] theorem isTerminal_failed : failed.isTerminal = true := rfl

@[simp] theorem isPending_eq_not (s : ExtractionTaskItemStatus) : s.isPending = !s.isTerminal := by
  cases s <;> rfl

end ExtractionTaskItemStatus

/-! ### Rows -/

/-- A row of `extraction_tasks`. -/
structure TaskRow (τ : Type) where
  taskId : String
  ownerId : String
  status : ExtractionTaskStatus
  criteriaJson : Option Json
  modelJson : Option Json
  acceptedCount : ℕ
  processedCount : ℕ
  successfulCount : ℕ
  failedCount : ℕ
  taskErrorJson : Option Json
  leaseOwner : Option String
  leaseExpiresAt : Option τ
  createdAt : τ
  updatedAt : τ
  startedAt : Option τ
  completedAt : Option τ
  expiresAt : τ
  purgedAt : Option τ

/-- A row of `extraction_task_items`. -/
structure ItemRow (τ : Type) where
  taskId : String
  position : ℤ
  sourceId : String
  sourceText : Option String
  status : ExtractionTaskItemStatus
  outcomeJson : Option Json
  errorJson : Option Json
  startedAt : Option τ
  completedAt : Option τ

variable {τ : Type}

/-- The `CHECK` constraints on the counters. -/
def TaskRow.check (t : TaskRow τ) : Bool :=
  0 < t.acceptedCount ∧ t.successfulCount + t.failedCount = t.processedCount ∧
    t.processedCount ≤ t.acceptedCount

/-- `PRIMARY KEY (task_id, position)`. -/
def ItemRow.key (i : ItemRow τ) : String × ℤ := (i.taskId, i.position)

/-! ### Records -/

/-- The payload fields are `None` (`Value.none`) or decoded JSON. -/
structure ExtractionTaskRecord (τ : Type) where
  taskId : String
  ownerId : String
  status : ExtractionTaskStatus
  acceptedCount : ℕ
  processedCount : ℕ
  successfulCount : ℕ
  failedCount : ℕ
  createdAt : τ
  updatedAt : τ
  expiresAt : τ
  startedAt : Option τ
  completedAt : Option τ
  criteria : Value
  model : Value
  error : Value
  leaseOwner : Option String
  leaseExpiresAt : Option τ
  purgedAt : Option τ

def ExtractionTaskRecord.isPurged (r : ExtractionTaskRecord τ) : Bool := r.purgedAt.isSome

/-- `__post_init__`: the record, or the first progress invariant it breaks. -/
def ExtractionTaskRecord.postInit (r : ExtractionTaskRecord τ) :
    Except Exc (ExtractionTaskRecord τ) :=
  if r.acceptedCount < 1 then .error (.raised .valueError "accepted_count must be positive")
  else if r.successfulCount + r.failedCount ≠ r.processedCount then
    .error (.raised .valueError "successful and failed counts must equal processed count")
  else if ¬ r.processedCount ≤ r.acceptedCount then
    .error (.raised .valueError "processed count must be within accepted count")
  else if r.status.isTerminal ∧ r.processedCount ≠ r.acceptedCount then
    .error (.raised .valueError "terminal tasks must account for every accepted item")
  else if r.status.isTerminal ∧ r.completedAt.isNone then
    .error (.raised .valueError "terminal tasks require a completion time")
  else .ok r

theorem ExtractionTaskRecord.postInit_of_valid {r : ExtractionTaskRecord τ}
    (haccepted : 0 < r.acceptedCount) (hsum : r.processedCount = r.successfulCount + r.failedCount)
    (hle : r.processedCount ≤ r.acceptedCount)
    (hterminal : r.status.isTerminal = true → r.processedCount = r.acceptedCount)
    (hcompleted : r.completedAt.isSome = r.status.isTerminal) : r.postInit = .ok r := by
  rw [postInit, if_neg (by omega), if_neg (by simp [hsum]), if_neg (by simpa using hle),
    if_neg (by simpa using hterminal), if_neg (by
      rintro ⟨ht, hc⟩
      rw [ht] at hcompleted
      rw [Option.isNone_iff_eq_none.1 hc] at hcompleted
      cases hcompleted)]

structure ExtractionTaskItemRecord (τ : Type) where
  taskId : String
  position : ℤ
  sourceId : String
  sourceText : Option String
  status : ExtractionTaskItemStatus
  outcome : Value
  error : Value
  startedAt : Option τ
  completedAt : Option τ

/-- `json.loads(text) if text else None`. -/
def decode (column : Option Json) : Value := column.elim .none loads

@[simp] theorem decode_none : decode none = .none := rfl

@[simp] theorem decode_some (j : Json) : decode (some j) = loads j := rfl

/-- The fields `_task_from_row` fills in. -/
def TaskRow.record (row : TaskRow τ) (includePayload : Bool) : ExtractionTaskRecord τ where
  taskId := row.taskId
  ownerId := row.ownerId
  status := row.status
  acceptedCount := row.acceptedCount
  processedCount := row.processedCount
  successfulCount := row.successfulCount
  failedCount := row.failedCount
  createdAt := row.createdAt
  updatedAt := row.updatedAt
  expiresAt := row.expiresAt
  startedAt := row.startedAt
  completedAt := row.completedAt
  criteria := if includePayload then decode row.criteriaJson else .none
  model := if includePayload then decode row.modelJson else .none
  error := decode row.taskErrorJson
  leaseOwner := row.leaseOwner
  leaseExpiresAt := row.leaseExpiresAt
  purgedAt := row.purgedAt

/-- `_task_from_row`. -/
def taskFromRow (row : TaskRow τ) (includePayload : Bool) : Except Exc (ExtractionTaskRecord τ) :=
  (row.record includePayload).postInit

theorem eq_record_of_taskFromRow {row : TaskRow τ} {includePayload : Bool}
    {r : ExtractionTaskRecord τ} (h : taskFromRow row includePayload = .ok r) :
    r = row.record includePayload := by
  rw [taskFromRow, ExtractionTaskRecord.postInit] at h
  split at h
  · simp at h
  · split at h
    · simp at h
    · split at h
      · simp at h
      · split at h
        · simp at h
        · split at h
          · simp at h
          · exact (Except.ok.inj h).symm

/-- `_item_from_row`. -/
def itemFromRow (row : ItemRow τ) : ExtractionTaskItemRecord τ where
  taskId := row.taskId
  position := row.position
  sourceId := row.sourceId
  sourceText := row.sourceText
  status := row.status
  outcome := decode row.outcomeJson
  error := decode row.errorJson
  startedAt := row.startedAt
  completedAt := row.completedAt

end TextExtraction
