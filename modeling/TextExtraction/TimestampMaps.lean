import TextExtraction.TaskCalls
import TextExtraction.Timestamps

/-!
# Repository methods under rewritten timestamps

Every method of the repository commutes with writing its timestamps another way: the tables it leaves
and the record it answers with are the ones it would have had before, rewritten. Methods that compare
times need an order embedding, the others any function. Where a method adds a duration to the clock, the
sum is an argument here (`claimTaskUntil`, `renewLeaseUntil`).
-/

namespace TextExtraction

open Python Relational

variable {τ σ : Type}

/-! ### Records with rewritten timestamps -/

def ExtractionTaskRecord.mapTime (f : τ → σ) (r : ExtractionTaskRecord τ) : ExtractionTaskRecord σ where
  taskId := r.taskId
  ownerId := r.ownerId
  status := r.status
  acceptedCount := r.acceptedCount
  processedCount := r.processedCount
  successfulCount := r.successfulCount
  failedCount := r.failedCount
  createdAt := f r.createdAt
  updatedAt := f r.updatedAt
  expiresAt := f r.expiresAt
  startedAt := r.startedAt.map f
  completedAt := r.completedAt.map f
  criteria := r.criteria
  model := r.model
  error := r.error
  leaseOwner := r.leaseOwner
  leaseExpiresAt := r.leaseExpiresAt.map f
  purgedAt := r.purgedAt.map f

def ExtractionTaskItemRecord.mapTime (f : τ → σ) (r : ExtractionTaskItemRecord τ) :
    ExtractionTaskItemRecord σ where
  taskId := r.taskId
  position := r.position
  sourceId := r.sourceId
  sourceText := r.sourceText
  status := r.status
  outcome := r.outcome
  error := r.error
  startedAt := r.startedAt.map f
  completedAt := r.completedAt.map f

theorem ExtractionTaskRecord.postInit_mapTime (f : τ → σ) (r : ExtractionTaskRecord τ) :
    (r.mapTime f).postInit = r.postInit.map (ExtractionTaskRecord.mapTime f) := by
  unfold postInit
  simp only [mapTime, Option.isNone_map]
  repeat' (split; · rfl)
  rfl

theorem taskFromRow_mapTime (f : τ → σ) (row : TaskRow τ) (includePayload : Bool) :
    taskFromRow (row.mapTime f) includePayload =
      (taskFromRow row includePayload).map (ExtractionTaskRecord.mapTime f) :=
  (row.record includePayload).postInit_mapTime f

/-! ### Reads -/

section Reads
variable (f : τ → σ) (db : Db τ)

theorem Db.lookup_mapTime (taskId : String) :
    (db.mapTime f).tasks.lookup taskId = (db.tasks.lookup taskId).map (TaskRow.mapTime f) :=
  Table.lookup_map (TaskRow.taskId_mapTime f) taskId

theorem Db.lookupItem_mapTime (k : String × ℤ) :
    (db.mapTime f).items.lookup k = (db.items.lookup k).map (ItemRow.mapTime f) :=
  Table.lookup_map (ItemRow.key_mapTime f) k

theorem Db.itemRows_mapTime (taskId : String) :
    (db.mapTime f).itemRows taskId = (db.itemRows taskId).map (ItemRow.mapTime f) := by
  have hselect : (db.mapTime f).items.select (fun i => i.taskId = taskId) =
      (db.items.select fun i => i.taskId = taskId).map (ItemRow.mapTime f) :=
    Table.select_map (ItemRow.key_mapTime f) fun _ => rfl
  rw [itemRows, hselect]
  exact orderBy_map (fun _ => rfl) _

theorem fetchTask_mapTime (taskId : String) :
    fetchTask (db.mapTime f) taskId = (fetchTask db taskId).map (ExtractionTaskRecord.mapTime f) := by
  rw [fetchTask, db.lookup_mapTime f, fetchTask]
  cases db.tasks.lookup taskId with
  | none => rfl
  | some row => exact taskFromRow_mapTime f row true

/-- The rows an owner reads. -/
theorem Db.ownedRow_mapTime (taskId ownerId : String) :
    ((db.mapTime f).tasks.select fun t => t.taskId = taskId ∧ t.ownerId = ownerId).head? =
      (db.tasks.select fun t => t.taskId = taskId ∧ t.ownerId = ownerId).head?.map (TaskRow.mapTime f) := by
  have hselect : ((db.mapTime f).tasks.select fun t => t.taskId = taskId ∧ t.ownerId = ownerId) =
      (db.tasks.select fun t => t.taskId = taskId ∧ t.ownerId = ownerId).map (TaskRow.mapTime f) :=
    db.select_tasks_mapTime f fun _ => rfl
  rw [hselect, List.head?_map]

theorem getStatus_mapTime (taskId ownerId : String) :
    getStatus taskId ownerId (db.mapTime f) =
      (getStatus taskId ownerId db).map (Option.map (ExtractionTaskRecord.mapTime f)) := by
  rw [getStatus, db.ownedRow_mapTime f, getStatus]
  cases (db.tasks.select fun t => t.taskId = taskId ∧ t.ownerId = ownerId).head? with
  | none => rfl
  | some row =>
    have hrow := taskFromRow_mapTime f row.statusProjection false
    simp only [Option.map_some]
    rw [show (row.mapTime f).statusProjection = row.statusProjection.mapTime f from rfl, hrow]
    cases taskFromRow row.statusProjection false <;> rfl

theorem getResults_mapTime (taskId ownerId : String) :
    getResults taskId ownerId (db.mapTime f) =
      (getResults taskId ownerId db).map fun answer =>
        (answer.1.map (ExtractionTaskRecord.mapTime f), answer.2.map (ExtractionTaskItemRecord.mapTime f)) := by
  rw [getResults, getResultsAcross, db.ownedRow_mapTime f, getResults, getResultsAcross]
  cases (db.tasks.select fun t => t.taskId = taskId ∧ t.ownerId = ownerId).head? with
  | none => rfl
  | some row =>
    simp only [Option.map_some, taskFromRow_mapTime, db.itemRows_mapTime f]
    cases taskFromRow row true with
    | error e => rfl
    | ok task =>
      simp only [Except.map]
      have hpurged : (row.mapTime f).purgedAt.isSome = row.purgedAt.isSome := by simp [TaskRow.mapTime]
      rw [hpurged]
      split
      · rfl
      · simp only [List.map_map]
        rfl

theorem getRunningSummary_mapTime (ownerId : String) :
    getRunningSummary ownerId (db.mapTime f) = getRunningSummary ownerId db := by
  have hselect : ((db.mapTime f).tasks.select fun t => t.ownerId = ownerId ∧ t.status.isRunning) =
      (db.tasks.select fun t => t.ownerId = ownerId ∧ t.status.isRunning).map (TaskRow.mapTime f) :=
    db.select_tasks_mapTime f fun _ => rfl
  have hcount (p : TaskRow σ → Bool) (q : TaskRow τ → Bool) (hq : ∀ t, p (t.mapTime f) = q t)
      (l : List (TaskRow τ)) : (l.map (TaskRow.mapTime f)).countP p = l.countP q := by
    rw [List.countP_map]
    exact List.countP_congr fun t _ => by simp [hq]
  simp only [getRunningSummary, hselect, List.length_map, List.map_map]
  rw [hcount _ (fun t => t.status = .queued) fun _ => rfl, hcount _ (fun t => t.status = .processing) fun _ => rfl]
  rfl

end Reads

/-! ### Transactions -/

theorem Db.mk_mapTime {f : τ → σ} {db : Db τ} {tasks : Table (TaskRow.taskId (τ := σ))}
    {items : Table (ItemRow.key (τ := σ))} (htasks : tasks = db.tasks.map (TaskRow.mapTime f) (TaskRow.taskId_mapTime f))
    (hitems : items = db.items.map (ItemRow.mapTime f) (ItemRow.key_mapTime f)) :
    (⟨tasks, items⟩ : Db σ) = db.mapTime f := by
  rw [htasks, hitems]
  rfl

theorem Db.updateTasks_mapTime (f : τ → σ) (db : Db τ) {p : TaskRow τ → Bool} {q : TaskRow σ → Bool}
    (g : TaskRow τ → TaskRow τ) (h : TaskRow σ → TaskRow σ) (hg : ∀ t, (g t).taskId = t.taskId)
    (hh : ∀ t, (h t).taskId = t.taskId) (hpq : ∀ t, q (t.mapTime f) = p t)
    (hgh : ∀ t, h (t.mapTime f) = (g t).mapTime f) :
    (db.mapTime f).tasks.updateWhere q h hh =
      (db.tasks.updateWhere p g hg).map (TaskRow.mapTime f) (TaskRow.taskId_mapTime f) :=
  Table.updateWhere_map _ hpq hgh

theorem Db.updateItems_mapTime (f : τ → σ) (db : Db τ) {p : ItemRow τ → Bool} {q : ItemRow σ → Bool}
    (g : ItemRow τ → ItemRow τ) (h : ItemRow σ → ItemRow σ) (hg : ∀ i, (g i).key = i.key)
    (hh : ∀ i, (h i).key = i.key) (hpq : ∀ i, q (i.mapTime f) = p i)
    (hgh : ∀ i, h (i.mapTime f) = (g i).mapTime f) :
    (db.mapTime f).items.updateWhere q h hh =
      (db.items.updateWhere p g hg).map (ItemRow.mapTime f) (ItemRow.key_mapTime f) :=
  Table.updateWhere_map _ hpq hgh

section CreateTask
variable (f : τ → σ)

theorem insertItems_mapTime (taskId : String) (items : Table (ItemRow.key (τ := τ)))
    (sources : List ((String × String) × ℕ)) :
    insertItems taskId (items.map (ItemRow.mapTime f) (ItemRow.key_mapTime f)) sources =
      (insertItems taskId items sources).map fun t => t.map (ItemRow.mapTime f) (ItemRow.key_mapTime f) := by
  induction sources generalizing items with
  | nil => rfl
  | cons source rest ih =>
    have hunique : ((items.map (ItemRow.mapTime f) (ItemRow.key_mapTime f)).rows.any fun i =>
          i.taskId = taskId ∧ i.sourceId = source.1.1) =
        items.rows.any fun i => i.taskId = taskId ∧ i.sourceId = source.1.1 := by
      rw [Table.rows_map, List.any_map]
      rfl
    have hinsert := Table.insert?_map (t := items) (ItemRow.key_mapTime f) (newItem taskId source)
    rw [insertItems, hunique, insertItems]
    split
    · rfl
    · rw [show newItem (τ := σ) taskId source = (newItem taskId source).mapTime f from rfl, hinsert]
      cases items.insert? (newItem taskId source) with
      | none => rfl
      | some items' => exact ih items'

theorem insertTask_mapTime (taskId ownerId : String) (criteria model : List (Key × Value))
    (items : List (String × String)) (createdAt expiresAt : τ) (db : Db τ) :
    insertTask taskId ownerId criteria model items (f createdAt) (f expiresAt) (db.mapTime f) =
      ((insertTask taskId ownerId criteria model items createdAt expiresAt db).1,
        (insertTask taskId ownerId criteria model items createdAt expiresAt db).2.mapTime f) := by
  unfold insertTask
  split
  · rfl
  · cases canonicalJson (.dict criteria) with
    | error e => rfl
    | ok criteriaJson =>
      cases canonicalJson (.dict model) with
      | error e => rfl
      | ok modelJson =>
        have htask := Table.insert?_map (t := db.tasks) (TaskRow.taskId_mapTime f)
          (newTask taskId ownerId criteriaJson modelJson items.length createdAt expiresAt)
        have hitems := insertItems_mapTime f taskId db.items items.zipIdx
        simp only
        rw [show newTask taskId ownerId criteriaJson modelJson items.length (f createdAt) (f expiresAt) =
            (newTask taskId ownerId criteriaJson modelJson items.length createdAt expiresAt).mapTime f from rfl,
          show (db.mapTime f).tasks = db.tasks.map (TaskRow.mapTime f) (TaskRow.taskId_mapTime f) from rfl,
          show (db.mapTime f).items = db.items.map (ItemRow.mapTime f) (ItemRow.key_mapTime f) from rfl,
          htask, hitems]
        cases db.tasks.insert? (newTask taskId ownerId criteriaJson modelJson items.length createdAt expiresAt) with
        | none => rfl
        | some tasks => cases insertItems taskId db.items items.zipIdx <;> rfl

theorem createTask_mapTime (taskId ownerId : String) (criteria model : List (Key × Value))
    (items : List (String × String)) (createdAt expiresAt : τ) (db : Db τ) :
    createTask taskId ownerId criteria model items (f createdAt) (f expiresAt) (db.mapTime f) =
      ((createTask taskId ownerId criteria model items createdAt expiresAt db).1.map
          (ExtractionTaskRecord.mapTime f),
        (createTask taskId ownerId criteria model items createdAt expiresAt db).2.mapTime f) := by
  rw [createTask, insertTask_mapTime, createTask]
  generalize insertTask taskId ownerId criteria model items createdAt expiresAt db = inserted
  obtain ⟨answer, db⟩ := inserted
  cases answer with
  | error e => rfl
  | ok u =>
    simp only [getStatus_mapTime]
    cases getStatus taskId ownerId db with
    | error e => rfl
    | ok task => cases task <;> rfl

end CreateTask

section Lease
variable [LinearOrder τ] [LinearOrder σ]

omit [LinearOrder τ] [LinearOrder σ] in
/-- The `UPDATE` of `claim_task` and the row read after it. -/
def claimRow (workerId : String) (now expiry : τ) (taskId : String) (db : Db τ) :
    Except Exc (Option (ExtractionTaskRecord τ)) × Db τ :=
  let db : Db τ := ⟨db.tasks.updateWhere (fun t => t.taskId = taskId) (TaskRow.claim workerId expiry now)
    fun _ => rfl, db.items⟩
  ((fetchTask db taskId).map some, db)

/-- The transaction of `claim_task`, the new expiry computed. -/
def claimTaskUntil (workerId : String) (now expiry : τ) (db : Db τ) :
    Except Exc (Option (ExtractionTaskRecord τ)) × Db τ :=
  match oldestClaimable now db with
  | none => (.ok none, db)
  | some row => claimRow workerId now expiry row.taskId db

omit [LinearOrder τ] [LinearOrder σ] in
/-- The transaction of `renew_lease`, the new expiry computed. -/
def renewLeaseUntil (taskId workerId : String) (now expiry : τ) (db : Db τ) : Bool × Db τ :=
  ((db.tasks.select (TaskRow.renewable taskId workerId)).length == 1,
    { db with
      tasks := db.tasks.updateWhere (TaskRow.renewable taskId workerId) (TaskRow.renew expiry now) fun _ => rfl })

theorem claimTask_eq [VAdd ℤ τ] (workerId : String) (now : τ) (lease : ℤ) (db : Db τ) :
    claimTask workerId now lease db = claimTaskUntil workerId now (lease +ᵥ now) db := rfl

omit [LinearOrder τ] [LinearOrder σ] in
theorem renewLease_eq [VAdd ℤ τ] (taskId workerId : String) (now : τ) (lease : ℤ) (db : Db τ) :
    renewLease taskId workerId now lease db = renewLeaseUntil taskId workerId now (lease +ᵥ now) db := rfl

omit [LinearOrder τ] [LinearOrder σ] in
theorem claim_mapTime (f : τ → σ) (workerId : String) (now expiry : τ) (t : TaskRow τ) :
    (t.mapTime f).claim workerId (f expiry) (f now) = (t.claim workerId expiry now).mapTime f := by
  cases h : t.startedAt <;> simp [TaskRow.claim, TaskRow.mapTime, h]

omit [LinearOrder τ] [LinearOrder σ] in
theorem claimRow_mapTime (f : τ → σ) (workerId : String) (now expiry : τ) (taskId : String) (db : Db τ) :
    claimRow workerId (f now) (f expiry) taskId (db.mapTime f) =
      ((claimRow workerId now expiry taskId db).1.map (Option.map (ExtractionTaskRecord.mapTime f)),
        (claimRow workerId now expiry taskId db).2.mapTime f) := by
  have htasks := db.updateTasks_mapTime f (p := fun t => t.taskId = taskId) (q := fun t => t.taskId = taskId)
    (TaskRow.claim workerId expiry now) (TaskRow.claim workerId (f expiry) (f now)) (fun _ => rfl)
    (fun _ => rfl) (fun _ => rfl) (claim_mapTime f workerId now expiry)
  have hdb : (⟨(db.mapTime f).tasks.updateWhere (fun t => t.taskId = taskId)
        (TaskRow.claim workerId (f expiry) (f now)) fun _ => rfl, (db.mapTime f).items⟩ : Db σ) =
      Db.mapTime f ⟨db.tasks.updateWhere (fun t => t.taskId = taskId) (TaskRow.claim workerId expiry now)
        fun _ => rfl, db.items⟩ := Db.mk_mapTime htasks rfl
  simp only [claimRow, hdb, fetchTask_mapTime]
  cases fetchTask _ taskId <;> rfl

theorem claimTaskUntil_mapTime (f : τ ↪o σ) (workerId : String) (now expiry : τ) (db : Db τ) :
    claimTaskUntil workerId (f now) (f expiry) (db.mapTime f) =
      ((claimTaskUntil workerId now expiry db).1.map (Option.map (ExtractionTaskRecord.mapTime f)),
        (claimTaskUntil workerId now expiry db).2.mapTime f) := by
  rw [claimTaskUntil, oldestClaimable_mapTime, claimTaskUntil]
  cases oldestClaimable now db with
  | none => rfl
  | some row => exact claimRow_mapTime f workerId now expiry row.taskId db

omit [LinearOrder τ] [LinearOrder σ] in
theorem renewLeaseUntil_mapTime (f : τ → σ) (taskId workerId : String) (now expiry : τ) (db : Db τ) :
    renewLeaseUntil taskId workerId (f now) (f expiry) (db.mapTime f) =
      ((renewLeaseUntil taskId workerId now expiry db).1,
        (renewLeaseUntil taskId workerId now expiry db).2.mapTime f) := by
  have hselect : (db.mapTime f).tasks.select (TaskRow.renewable taskId workerId) =
      (db.tasks.select (TaskRow.renewable taskId workerId)).map (TaskRow.mapTime f) :=
    db.select_tasks_mapTime f fun _ => rfl
  have htasks := db.updateTasks_mapTime f (p := TaskRow.renewable taskId workerId)
    (q := TaskRow.renewable taskId workerId) (TaskRow.renew expiry now) (TaskRow.renew (f expiry) (f now))
    (fun _ => rfl) (fun _ => rfl) (fun _ => rfl) fun _ => rfl
  rw [renewLeaseUntil, hselect, htasks, List.length_map]
  rfl

end Lease

section Items
variable [LinearOrder τ] [LinearOrder σ] (f : τ ↪o σ)

omit [LinearOrder τ] [LinearOrder σ] in
theorem take_mapTime (f : τ → σ) (now : τ) (i : ItemRow τ) : (i.mapTime f).take (f now) = (i.take now).mapTime f := by
  cases h : i.startedAt <;> simp [ItemRow.take, ItemRow.mapTime, h]

omit [LinearOrder τ] [LinearOrder σ] in
theorem ItemRow.key_take (now : τ) (i : ItemRow τ) : (i.take now).key = i.key := rfl

omit [LinearOrder τ] [LinearOrder σ] in
/-- The `UPDATE` of `claim_next_item` and the row read after it. -/
def takeRow (taskId : String) (position : ℤ) (now : τ) (db : Db τ) :
    Option (ExtractionTaskItemRecord τ) × Db τ :=
  let db : Db τ := ⟨db.tasks, db.items.updateWhere (fun i => i.taskId = taskId ∧ i.position = position)
    (ItemRow.take now) (ItemRow.key_take now)⟩
  ((db.items.lookup (taskId, position)).map itemFromRow, db)

omit [LinearOrder τ] [LinearOrder σ] in
theorem takeRow_mapTime (f : τ → σ) (taskId : String) (position : ℤ) (now : τ) (db : Db τ) :
    takeRow taskId position (f now) (db.mapTime f) =
      ((takeRow taskId position now db).1.map (ExtractionTaskItemRecord.mapTime f),
        (takeRow taskId position now db).2.mapTime f) := by
  have hitems := db.updateItems_mapTime f (p := fun i => i.taskId = taskId ∧ i.position = position)
    (q := fun i => i.taskId = taskId ∧ i.position = position) (ItemRow.take now) (ItemRow.take (f now))
    (fun _ => rfl) (fun _ => rfl) (fun _ => rfl) (take_mapTime f now)
  simp only [takeRow, hitems, Table.lookup_map, Option.map_map]
  rfl

theorem claimNextItem_mapTime (taskId workerId : String) (now : τ) (db : Db τ) :
    claimNextItem taskId workerId (f now) (db.mapTime f) =
      ((claimNextItem taskId workerId now db).1.map (ExtractionTaskItemRecord.mapTime f),
        (claimNextItem taskId workerId now db).2.mapTime f) := by
  have hselect : (db.mapTime f).items.select (fun i => i.taskId = taskId ∧ i.status.isPending) =
      (db.items.select fun i => i.taskId = taskId ∧ i.status.isPending).map (ItemRow.mapTime f) :=
    Table.select_map (ItemRow.key_mapTime f) fun _ => rfl
  have hsorted : orderBy ItemRow.position
        ((db.items.select fun i => i.taskId = taskId ∧ i.status.isPending).map (ItemRow.mapTime f)) =
      (orderBy ItemRow.position (db.items.select fun i => i.taskId = taskId ∧ i.status.isPending)).map
        (ItemRow.mapTime f) := orderBy_map (fun _ => rfl) _
  rw [claimNextItem, leasedTask_mapTime, hselect, hsorted, List.head?_map, claimNextItem]
  cases (db.tasks.select (TaskRow.leasedTo taskId workerId now)).head? with
  | none => rfl
  | some task =>
    cases (orderBy ItemRow.position
      (db.items.select fun i => i.taskId = taskId ∧ i.status.isPending)).head? with
    | none => rfl
    | some row => exact takeRow_mapTime f taskId row.position now db

omit [LinearOrder τ] [LinearOrder σ] in
theorem mutableTask_mapTime (f : τ → σ) (taskId workerId : String) (db : Db τ) :
    mutableTask taskId workerId (db.mapTime f) = (mutableTask taskId workerId db).map (TaskRow.mapTime f) := by
  have hselect : ((db.mapTime f).tasks.select fun t => t.taskId = taskId ∧ t.leaseOwner = some workerId) =
      (db.tasks.select fun t => t.taskId = taskId ∧ t.leaseOwner = some workerId).map (TaskRow.mapTime f) :=
    db.select_tasks_mapTime f fun _ => rfl
  rw [mutableTask, hselect, List.head?_map, mutableTask]
  cases (db.tasks.select fun t => t.taskId = taskId ∧ t.leaseOwner = some workerId).head? with
  | none => rfl
  | some t => exact Option.filter_map

omit [LinearOrder τ] [LinearOrder σ] in
/-- How `finalize_item` and `fail_task` end: a row that breaks a `CHECK` rolls the transaction back. -/
def commitTask (taskId : String) (after db : Db τ) : Except Exc (ExtractionTaskRecord τ) × Db τ :=
  if (after.tasks.lookup taskId).all TaskRow.check then (fetchTask after taskId, after)
  else (.error (.raised .integrityError "CHECK constraint failed"), db)

omit [LinearOrder τ] [LinearOrder σ] in
theorem commitTask_mapTime (f : τ → σ) (taskId : String) (after db : Db τ) :
    commitTask taskId (after.mapTime f) (db.mapTime f) =
      ((commitTask taskId after db).1.map (ExtractionTaskRecord.mapTime f),
        (commitTask taskId after db).2.mapTime f) := by
  have hcheck : ((after.mapTime f).tasks.lookup taskId).all TaskRow.check =
      (after.tasks.lookup taskId).all TaskRow.check := by
    rw [after.lookup_mapTime f]
    cases after.tasks.lookup taskId <;> rfl
  rw [commitTask, hcheck, fetchTask_mapTime, commitTask]
  split <;> rfl

omit [LinearOrder τ] [LinearOrder σ] in
theorem advance_mapTime (f : τ → σ) (task : TaskRow τ) (succeeded : Bool) (workerId : String) (now : τ)
    (t : TaskRow τ) :
    TaskRow.advance (task.mapTime f) succeeded workerId (f now) (t.mapTime f) =
      (TaskRow.advance task succeeded workerId now t).mapTime f := by
  by_cases h : task.processedCount + 1 = task.acceptedCount <;> simp [TaskRow.advance, TaskRow.mapTime, h]

omit [LinearOrder τ] [LinearOrder σ] in
theorem finalizeItem_mapTime (f : τ → σ) (taskId workerId : String) (position : ℤ)
    (outcome : Option (List (Key × Value))) (error : Option (List (String × String))) (now : τ) (db : Db τ) :
    finalizeItem taskId workerId position outcome error (f now) (db.mapTime f) =
      ((finalizeItem taskId workerId position outcome error now db).1.map (ExtractionTaskRecord.mapTime f),
        (finalizeItem taskId workerId position outcome error now db).2.mapTime f) := by
  have hitem : ((db.mapTime f).items.lookup (taskId, position)).filter (fun i => !i.status.isTerminal) =
      ((db.items.lookup (taskId, position)).filter fun i => !i.status.isTerminal).map (ItemRow.mapTime f) := by
    rw [db.lookupItem_mapTime f]
    exact Option.filter_map
  rw [finalizeItem, mutableTask_mapTime, hitem, finalizeItem]
  split
  · rfl
  · cases mutableTask taskId workerId db with
    | none => rfl
    | some task =>
      cases (db.items.lookup (taskId, position)).filter fun i => !i.status.isTerminal with
      | none => rfl
      | some item =>
        cases canonicalJson? (outcome.map .dict) with
        | error e => rfl
        | ok outcomeJson =>
          cases canonicalJson? (error.map strDict) with
          | error e => rfl
          | ok errorJson =>
            have htasks := db.updateTasks_mapTime f (p := fun t => t.taskId = taskId) (q := fun t => t.taskId = taskId)
              (TaskRow.advance task error.isNone workerId now)
              (TaskRow.advance (task.mapTime f) error.isNone workerId (f now)) (fun _ => rfl) (fun _ => rfl)
              (fun _ => rfl) (advance_mapTime f task error.isNone workerId now)
            have hitems := db.updateItems_mapTime f (p := fun i => i.taskId = taskId ∧ i.position = position)
              (q := fun i => i.taskId = taskId ∧ i.position = position)
              (ItemRow.finalize (if error.isNone then .completed else .failed) outcomeJson errorJson now)
              (ItemRow.finalize (if error.isNone then .completed else .failed) outcomeJson errorJson (f now))
              (fun _ => rfl) (fun _ => rfl) (fun _ => rfl) fun _ => rfl
            have hcommit := commitTask_mapTime f taskId
              ⟨db.tasks.updateWhere (fun t => t.taskId = taskId) (TaskRow.advance task error.isNone workerId now)
                fun _ => rfl, db.items.updateWhere (fun i => i.taskId = taskId ∧ i.position = position)
                (ItemRow.finalize (if error.isNone then .completed else .failed) outcomeJson errorJson now)
                fun _ => rfl⟩ db
            rw [← Db.mk_mapTime htasks hitems] at hcommit
            exact hcommit

omit [LinearOrder τ] [LinearOrder σ] in
theorem failTask_mapTime (f : τ → σ) (taskId workerId : String) (error : List (String × String)) (now : τ)
    (db : Db τ) :
    failTask taskId workerId error (f now) (db.mapTime f) =
      ((failTask taskId workerId error now db).1.map (ExtractionTaskRecord.mapTime f),
        (failTask taskId workerId error now db).2.mapTime f) := by
  rw [failTask, mutableTask_mapTime, failTask]
  cases canonicalJson (strDict error) with
  | error e => rfl
  | ok errorJson =>
    cases mutableTask taskId workerId db with
    | none => rfl
    | some task =>
      have htasks := db.updateTasks_mapTime f (p := fun t => t.taskId = taskId) (q := fun t => t.taskId = taskId)
        (TaskRow.abort (task.acceptedCount - task.processedCount) errorJson now)
        (TaskRow.abort (task.acceptedCount - task.processedCount) errorJson (f now)) (fun _ => rfl) (fun _ => rfl)
        (fun _ => rfl) fun _ => rfl
      have hitems := db.updateItems_mapTime f (p := fun i => i.taskId = taskId ∧ i.status.isPending)
        (q := fun i => i.taskId = taskId ∧ i.status.isPending) (ItemRow.abort errorJson now)
        (ItemRow.abort errorJson (f now)) (fun _ => rfl) (fun _ => rfl) (fun _ => rfl) fun _ => rfl
      have hcommit := commitTask_mapTime f taskId
        ⟨db.tasks.updateWhere (fun t => t.taskId = taskId)
          (TaskRow.abort (task.acceptedCount - task.processedCount) errorJson now) fun _ => rfl,
          db.items.updateWhere (fun i => i.taskId = taskId ∧ i.status.isPending) (ItemRow.abort errorJson now)
            fun _ => rfl⟩ db
      rw [← Db.mk_mapTime htasks hitems] at hcommit
      exact hcommit

end Items

end TextExtraction
