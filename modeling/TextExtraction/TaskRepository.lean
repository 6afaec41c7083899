import Mathlib.Algebra.GroupWithZero.Nat
import TextExtraction.TaskRecords

/-!
# The task repository

`task_repository.py`, one definition a method. A method returns its answer (or what it raises) and
the database it leaves; every method commits at most once, so a method that raises before its
commit leaves the database it found. `lease` and `tombstone` are the `timedelta` values the methods
build from seconds.
-/

namespace TextExtraction

open Python Relational

/-- The two task tables. -/
structure Db (τ : Type) where
  tasks : Table (TaskRow.taskId (τ := τ))
  items : Table (ItemRow.key (τ := τ))

variable {τ : Type}

/-- A freshly initialized database. -/
def Db.empty : Db τ := ⟨∅, ∅⟩

/-- `SELECT * FROM extraction_task_items WHERE task_id = ? ORDER BY position`. -/
def Db.itemRows (db : Db τ) (taskId : String) : List (ItemRow τ) :=
  orderBy ItemRow.position (db.items.select fun i => i.taskId = taskId)

/-- `canonical_json`. -/
def canonicalJson (value : Value) : Except Exc Json := dumps true value

/-- A `dict[str, str]` argument as a value. -/
def strDict (d : List (String × String)) : Value := .dict (d.map fun kv => (.str kv.1, .str kv.2))

def valueError (message : String) : Exc := .raised .valueError message

/-- `_task_from_row` of the row fetched after an update, inside the same transaction. -/
def fetchTask (db : Db τ) (taskId : String) : Except Exc (ExtractionTaskRecord τ) :=
  match db.tasks.lookup taskId with
  | some row => taskFromRow row true
  | none => .error (.raised .typeError "'NoneType' object is not subscriptable")

/-! ### `create_task` -/

section CreateTask

/-- The row one `INSERT INTO extraction_task_items` adds. -/
def newItem (taskId : String) : (String × String) × ℕ → ItemRow τ
  | ((sourceId, text), position) =>
    { taskId, position, sourceId, sourceText := some text, status := .queued, outcomeJson := none,
      errorJson := none, startedAt := none, completedAt := none }

/-- The item `INSERT`s, with the primary key and the `UNIQUE (task_id, source_id)` constraint. -/
def insertItems (taskId : String) (items : Table (ItemRow.key (τ := τ))) :
    List ((String × String) × ℕ) → Option (Table (ItemRow.key (τ := τ)))
  | [] => some items
  | source :: rest =>
    if items.rows.any fun i => i.taskId = taskId ∧ i.sourceId = source.1.1 then none
    else
      match items.insert? (newItem taskId source) with
      | none => none
      | some items => insertItems taskId items rest

/-- The `INSERT INTO extraction_tasks`. -/
def newTask (taskId ownerId : String) (criteriaJson modelJson : Json) (accepted : ℕ)
    (createdAt expiresAt : τ) : TaskRow τ where
  taskId := taskId
  ownerId := ownerId
  status := .queued
  criteriaJson := some criteriaJson
  modelJson := some modelJson
  acceptedCount := accepted
  processedCount := 0
  successfulCount := 0
  failedCount := 0
  taskErrorJson := none
  leaseOwner := none
  leaseExpiresAt := none
  createdAt := createdAt
  updatedAt := createdAt
  startedAt := none
  completedAt := none
  expiresAt := expiresAt
  purgedAt := none

/-- The transaction of `create_task`, up to its commit. -/
def insertTask (taskId ownerId : String) (criteria model : List (Key × Value))
    (items : List (String × String)) (createdAt expiresAt : τ) (db : Db τ) :
    Except Exc Unit × Db τ :=
  if items = [] then (.error (valueError "A task requires at least one item"), db)
  else
    match canonicalJson (.dict criteria), canonicalJson (.dict model) with
    | .error e, _ => (.error e, db)
    | _, .error e => (.error e, db)
    | .ok criteriaJson, .ok modelJson =>
      match db.tasks.insert?
          (newTask taskId ownerId criteriaJson modelJson items.length createdAt expiresAt),
        insertItems taskId db.items items.zipIdx with
      | some tasks, some items => (.ok (), ⟨tasks, items⟩)
      | _, _ => (.error (valueError "Task or source identifiers must be unique"), db)

end CreateTask

/-! ### Reads -/

/-- The `SELECT` list of `get_status`, with its `NULL`s. -/
def TaskRow.statusProjection (row : TaskRow τ) : TaskRow τ :=
  { row with criteriaJson := none, modelJson := none, leaseOwner := none, leaseExpiresAt := none }

/-- `get_status`: the projection leaves payloads and the lease out. -/
def getStatus (taskId ownerId : String) (db : Db τ) :
    Except Exc (Option (ExtractionTaskRecord τ)) :=
  match (db.tasks.select fun t => t.taskId = taskId ∧ t.ownerId = ownerId).head? with
  | none => .ok none
  | some row => (taskFromRow row.statusProjection false).map some

/-- `get_results`: the task row is read from `db` and, when it is there and not purged, the item
rows from `later`, the database the second `SELECT` finds. -/
def getResultsAcross (taskId ownerId : String) (db later : Db τ) :
    Except Exc (Option (ExtractionTaskRecord τ) × List (ExtractionTaskItemRecord τ)) :=
  match (db.tasks.select fun t => t.taskId = taskId ∧ t.ownerId = ownerId).head? with
  | none => .ok (none, [])
  | some row =>
    (taskFromRow row true).map fun task =>
      (some task, if row.purgedAt.isSome then [] else (later.itemRows taskId).map itemFromRow)

/-- `get_results` with nothing committed in between. -/
def getResults (taskId ownerId : String) (db : Db τ) :
    Except Exc (Option (ExtractionTaskRecord τ) × List (ExtractionTaskItemRecord τ)) :=
  getResultsAcross taskId ownerId db db

/-- `create_task`: the transaction, then the task read back. -/
def createTask (taskId ownerId : String) (criteria model : List (Key × Value))
    (items : List (String × String)) (createdAt expiresAt : τ) (db : Db τ) :
    Except Exc (ExtractionTaskRecord τ) × Db τ :=
  match insertTask taskId ownerId criteria model items createdAt expiresAt db with
  | (.error e, db) => (.error e, db)
  | (.ok _, db) =>
    match getStatus taskId ownerId db with
    | .error e => (.error e, db)
    | .ok none => (.error (.raised .runtimeError "Accepted task could not be reloaded"), db)
    | .ok (some task) => (.ok task, db)

/-- The answer of `get_running_summary`. -/
structure RunningSummary where
  total : ℕ
  queued : ℕ
  processing : ℕ
  accepted : ℕ
  processed : ℕ
  successful : ℕ
  failed : ℕ
deriving DecidableEq

def getRunningSummary (ownerId : String) (db : Db τ) : RunningSummary :=
  let rows := db.tasks.select fun t => t.ownerId = ownerId ∧ t.status.isRunning
  { total := rows.length
    queued := rows.countP fun t => t.status = .queued
    processing := rows.countP fun t => t.status = .processing
    accepted := (rows.map TaskRow.acceptedCount).sum
    processed := (rows.map TaskRow.processedCount).sum
    successful := (rows.map TaskRow.successfulCount).sum
    failed := (rows.map TaskRow.failedCount).sum }

/-! ### Leases -/

variable [LinearOrder τ]

/-- The `WHERE` clause of `claim_task`. -/
def TaskRow.claimable (now : τ) (t : TaskRow τ) : Bool :=
  t.status.isRunning ∧ t.purgedAt = none ∧ now < t.expiresAt ∧
    (t.leaseOwner = none ∨ t.leaseExpiresAt.any (· ≤ now))

/-- The `UPDATE` of `claim_task`. -/
def TaskRow.claim (workerId : String) (leaseExpiry now : τ) (t : TaskRow τ) : TaskRow τ :=
  { t with
    status := .processing
    leaseOwner := some workerId
    leaseExpiresAt := some leaseExpiry
    startedAt := some (t.startedAt.getD now)
    updatedAt := now }

/-- `ORDER BY created_at, task_id LIMIT 1` over the claimable rows. -/
def oldestClaimable (now : τ) (db : Db τ) : Option (TaskRow τ) :=
  (orderBy (fun t => toLex (t.createdAt, t.taskId)) (db.tasks.select (·.claimable now))).head?

/-- The `WHERE` clause of `renew_lease`. -/
def TaskRow.renewable (taskId workerId : String) (t : TaskRow τ) : Bool :=
  t.taskId = taskId ∧ t.leaseOwner = some workerId ∧ t.status.isRunning

/-- The `UPDATE` of `renew_lease`. -/
def TaskRow.renew (leaseExpiry now : τ) (t : TaskRow τ) : TaskRow τ :=
  { t with leaseExpiresAt := some leaseExpiry, updatedAt := now }

section Lease
variable [VAdd ℤ τ]

def claimTask (workerId : String) (now : τ) (lease : ℤ) (db : Db τ) :
    Except Exc (Option (ExtractionTaskRecord τ)) × Db τ :=
  match oldestClaimable now db with
  | none => (.ok none, db)
  | some row =>
    let db := { db with
      tasks := db.tasks.updateWhere (fun t => t.taskId = row.taskId)
        (TaskRow.claim workerId (lease +ᵥ now) now) fun _ => rfl }
    ((fetchTask db row.taskId).map some, db)

def renewLease (taskId workerId : String) (now : τ) (lease : ℤ) (db : Db τ) : Bool × Db τ :=
  ((db.tasks.select (TaskRow.renewable taskId workerId)).length == 1,
    { db with
      tasks := db.tasks.updateWhere (TaskRow.renewable taskId workerId)
        (TaskRow.renew (lease +ᵥ now) now) fun _ => rfl })

end Lease

/-! ### Items -/

/-- The lease check of `claim_next_item`. -/
def TaskRow.leasedTo (taskId workerId : String) (now : τ) (t : TaskRow τ) : Bool :=
  t.taskId = taskId ∧ t.leaseOwner = some workerId ∧ t.leaseExpiresAt.any (now < ·) ∧
    t.status = .processing ∧ t.purgedAt = none

/-- The `UPDATE` of `claim_next_item`. -/
def ItemRow.take (now : τ) (i : ItemRow τ) : ItemRow τ :=
  { i with status := .processing, startedAt := some (i.startedAt.getD now) }

def claimNextItem (taskId workerId : String) (now : τ) (db : Db τ) :
    Option (ExtractionTaskItemRecord τ) × Db τ :=
  match (db.tasks.select (TaskRow.leasedTo taskId workerId now)).head? with
  | none => (none, db)
  | some _ =>
    match (orderBy ItemRow.position
      (db.items.select fun i => i.taskId = taskId ∧ i.status.isPending)).head? with
    | none => (none, db)
    | some row =>
      let db := { db with
        items := db.items.updateWhere (fun i => i.taskId = taskId ∧ i.position = row.position)
          (ItemRow.take now) fun _ => rfl }
      ((db.items.lookup (taskId, row.position)).map itemFromRow, db)

/-- The item `UPDATE` of `finalize_item`. -/
def ItemRow.finalize (status : ExtractionTaskItemStatus) (outcomeJson errorJson : Option Json)
    (now : τ) (i : ItemRow τ) : ItemRow τ :=
  { i with status, outcomeJson, errorJson, completedAt := some now }

/-- The task `UPDATE` of `finalize_item`, computed from the row `task` read before. -/
def TaskRow.advance (task : TaskRow τ) (succeeded : Bool) (workerId : String) (now : τ)
    (t : TaskRow τ) : TaskRow τ :=
  let processed := task.processedCount + 1
  let successful := task.successfulCount + if succeeded then 1 else 0
  let failed := task.failedCount + if succeeded then 0 else 1
  let terminal : Bool := processed = task.acceptedCount
  { t with
    status :=
      if terminal then
        if successful = task.acceptedCount then .completed
        else if successful ≠ 0 then .partiallyCompleted
        else .failed
      else .processing
    processedCount := processed
    successfulCount := successful
    failedCount := failed
    updatedAt := now
    completedAt := if terminal then some now else none
    leaseOwner := if terminal then none else some workerId
    leaseExpiresAt := if terminal then none else task.leaseExpiresAt }

/-- `canonical_json(x) if x is not None else None`. -/
def canonicalJson? (value : Option Value) : Except Exc (Option Json) :=
  match value with
  | none => .ok none
  | some value => (canonicalJson value).map some

/-- The task a worker may write to: the row under its lease, unless terminal. -/
def mutableTask (taskId workerId : String) (db : Db τ) : Option (TaskRow τ) :=
  (db.tasks.select fun t => t.taskId = taskId ∧ t.leaseOwner = some workerId).head?.filter
    fun t => !t.status.isTerminal

def finalizeItem (taskId workerId : String) (position : ℤ) (outcome : Option (List (Key × Value)))
    (error : Option (List (String × String))) (now : τ) (db : Db τ) :
    Except Exc (ExtractionTaskRecord τ) × Db τ :=
  if outcome.isNone = error.isNone then
    (.error (valueError "Exactly one of outcome or error is required"), db)
  else
    match mutableTask taskId workerId db with
    | none => (.error (valueError "Task is not mutable under this worker lease"), db)
    | some task =>
      match (db.items.lookup (taskId, position)).filter fun i => !i.status.isTerminal with
      | none =>
        -- a position that cannot be bound raises before a row is looked for
        (.error (if Bindable position then valueError "Task item is already terminal or absent"
          else .raised .overflowError "Python int too large to convert to SQLite INTEGER"), db)
      | some _ =>
        match canonicalJson? (outcome.map .dict), canonicalJson? (error.map strDict) with
        | .error e, _ => (.error e, db)
        | _, .error e => (.error e, db)
        | .ok outcomeJson, .ok errorJson =>
          let status := if error.isNone then .completed else .failed
          let after : Db τ :=
            { tasks := db.tasks.updateWhere (fun t => t.taskId = taskId)
                (TaskRow.advance task error.isNone workerId now) fun _ => rfl
              items := db.items.updateWhere (fun i => i.taskId = taskId ∧ i.position = position)
                (ItemRow.finalize status outcomeJson errorJson now) fun _ => rfl }
          -- a broken `CHECK` raises `IntegrityError` and the transaction is rolled back
          if (after.tasks.lookup taskId).all TaskRow.check then (fetchTask after taskId, after)
          else (.error (.raised .integrityError "CHECK constraint failed"), db)

/-- The item `UPDATE` of `fail_task`. -/
def ItemRow.abort (errorJson : Json) (now : τ) (i : ItemRow τ) : ItemRow τ :=
  { i with status := .failed, errorJson := some errorJson, completedAt := some now }

/-- The task `UPDATE` of `fail_task`. -/
def TaskRow.abort (remaining : ℕ) (errorJson : Json) (now : τ) (t : TaskRow τ) : TaskRow τ :=
  { t with
    status := .failed
    processedCount := t.acceptedCount
    failedCount := t.failedCount + remaining
    taskErrorJson := some errorJson
    updatedAt := now
    completedAt := some now
    leaseOwner := none
    leaseExpiresAt := none }

def failTask (taskId workerId : String) (error : List (String × String)) (now : τ) (db : Db τ) :
    Except Exc (ExtractionTaskRecord τ) × Db τ :=
  match canonicalJson (strDict error) with
  | .error e => (.error e, db)
  | .ok errorJson =>
    match mutableTask taskId workerId db with
    | none => (.error (valueError "Task is not mutable under this worker lease"), db)
    | some task =>
      let remaining := task.acceptedCount - task.processedCount
      let after : Db τ :=
        { tasks := db.tasks.updateWhere (fun t => t.taskId = taskId)
            (TaskRow.abort remaining errorJson now) fun _ => rfl
          items := db.items.updateWhere (fun i => i.taskId = taskId ∧ i.status.isPending)
            (ItemRow.abort errorJson now) fun _ => rfl }
      if (after.tasks.lookup taskId).all TaskRow.check then (fetchTask after taskId, after)
      else (.error (.raised .integrityError "CHECK constraint failed"), db)

/-! ### Retention -/

/-- `expires_at <= now AND purged_at IS NULL`. -/
def TaskRow.expired (now : τ) (t : TaskRow τ) : Bool := t.expiresAt ≤ now ∧ t.purgedAt = none

/-- `purged_at IS NOT NULL AND expires_at <= cutoff`. -/
def TaskRow.elapsed (cutoff : τ) (t : TaskRow τ) : Bool := t.purgedAt ≠ none ∧ t.expiresAt ≤ cutoff

/-- The item `UPDATE` of the purge. -/
def ItemRow.purge (i : ItemRow τ) : ItemRow τ :=
  { i with sourceText := none, outcomeJson := none, errorJson := none }

/-- The task `UPDATE` of the purge. -/
def TaskRow.purge (now : τ) (t : TaskRow τ) : TaskRow τ :=
  { t with
    criteriaJson := none
    modelJson := none
    taskErrorJson := none
    leaseOwner := none
    leaseExpiresAt := none
    purgedAt := some now
    updatedAt := now }

/-- The loop over the expired ids. -/
def purgeItems (taskIds : List String) (items : Table (ItemRow.key (τ := τ))) :
    Table (ItemRow.key (τ := τ)) :=
  taskIds.foldl
    (fun items taskId => items.updateWhere (fun i => i.taskId = taskId) ItemRow.purge fun _ => rfl)
    items

/-- The transaction of `maintain_retention`; deleting a task deletes its items (`ON DELETE
CASCADE`). -/
def purgeAndDelete (now cutoff : τ) (db : Db τ) : (ℕ × ℕ) × Db τ :=
  let taskIds := (db.tasks.select (·.expired now)).map TaskRow.taskId
  let items := purgeItems taskIds db.items
  let purged := (db.tasks.select (·.expired now)).length
  let tasks := db.tasks.updateWhere (·.expired now) (TaskRow.purge now) fun _ => rfl
  let gone := tasks.select (·.elapsed cutoff)
  ((purged, gone.length),
    { tasks := tasks.deleteWhere (·.elapsed cutoff)
      items := items.deleteWhere fun i => i.taskId ∈ gone.map TaskRow.taskId })

def maintainRetention [VAdd ℤ τ] (now : τ) (tombstone : ℤ) (db : Db τ) : (ℕ × ℕ) × Db τ :=
  purgeAndDelete now (-tombstone +ᵥ now) db

end TextExtraction
