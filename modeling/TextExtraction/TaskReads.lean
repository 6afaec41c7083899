import TextExtraction.TaskInvariant
import TextExtraction.TaskService

/-!
# Reads

What `get_status`, `get_results` and the reload in `create_task` answer, in terms of `Db.view`: for
the owner, the record of the task; for anyone else, nothing.
-/

namespace TextExtraction

open Python Relational

variable {τ : Type} {db later : Db τ} {id ownerId : String} {a : Aggregate τ}

theorem select_owned (db : Db τ) (id ownerId : String) :
    (db.tasks.select fun t => t.taskId = id ∧ t.ownerId = ownerId).head? =
      ((db.view id).map Aggregate.row).filter fun t => t.ownerId = ownerId := by
  rw [Table.select_head?_eq_lookup (k := id) (fun r hr => by simp at hr; exact hr.1), Db.view,
    Option.map_map]
  cases hl : db.tasks.lookup id with
  | none => rfl
  | some row =>
    have hkey : row.taskId = id := Table.key_of_lookup hl
    simp [Option.filter_some, hkey]

theorem getStatus_of_none (hv : db.view id = none) : getStatus id ownerId db = .ok none := by
  rw [getStatus, select_owned, hv]; rfl

theorem Aggregate.Inv.statusProjection_eq (h : a.Inv) :
    taskFromRow a.row.statusProjection false = .ok (a.row.statusProjection.record false) :=
  ExtractionTaskRecord.postInit_of_valid h.accepted_pos h.processed h.processed_le h.terminal.1
    h.completedAt

theorem getStatus_of_view (hinv : a.Inv) (hv : db.view id = some a) (ownerId : String) :
    getStatus id ownerId db =
      .ok (if a.row.ownerId = ownerId then some (a.row.statusProjection.record false) else none) := by
  rw [getStatus, select_owned, hv, Option.map_some, Option.filter_some]
  by_cases how : a.row.ownerId = ownerId
  · rw [if_pos (by simpa using how), if_pos how]
    simp only [hinv.statusProjection_eq]
    rfl
  · rw [if_neg (by simpa using how), if_neg how]

theorem getResultsAcross_of_none (hv : db.view id = none) :
    getResultsAcross id ownerId db later = .ok (none, []) := by
  rw [getResultsAcross, select_owned, hv]; rfl

theorem getResultsAcross_of_view (hinv : a.Inv) (hv : db.view id = some a) :
    getResultsAcross id ownerId db later =
      .ok (if a.row.ownerId = ownerId then
        (some (a.row.record true),
          if a.row.purgedAt.isSome then [] else (later.itemRows id).map itemFromRow)
        else (none, [])) := by
  rw [getResultsAcross, select_owned, hv, Option.map_some, Option.filter_some]
  by_cases how : a.row.ownerId = ownerId
  · rw [if_pos (by simpa using how), if_pos how]
    simp only [hinv.taskFromRow_eq]
    rfl
  · rw [if_neg (by simpa using how), if_neg how]

/-- `create_task` raises and changes nothing, or adds one task and answers its record. -/
theorem createTask_cases (hc : db.Closed) (taskId ownerId : String) (criteria model : List (Key × Value))
    (items : List (String × String)) (createdAt expiresAt : τ) :
    (∃ e, createTask taskId ownerId criteria model items createdAt expiresAt db = (.error e, db)) ∨
    ∃ cj mj r, canonicalJson (.dict criteria) = .ok cj ∧ canonicalJson (.dict model) = .ok mj ∧
      items ≠ [] ∧ db.view taskId = none ∧
      (createTask taskId ownerId criteria model items createdAt expiresAt db).1 = .ok r ∧
      db.Replaces (createTask taskId ownerId criteria model items createdAt expiresAt db).2 taskId
        (newAggregate taskId ownerId cj mj items createdAt expiresAt) := by
  rcases insertTask_cases hc taskId ownerId criteria model items createdAt expiresAt with
    ⟨e, he⟩ | ⟨cj, mj, hcj, hmj, hne, hfresh, hok, hrep⟩
  · exact .inl ⟨e, by rw [createTask, he]⟩
  · have hstatus := getStatus_of_view
      (Aggregate.inv_newAggregate taskId ownerId cj mj hne createdAt expiresAt) hrep.view_self ownerId
    rw [if_pos (show (newAggregate taskId ownerId cj mj items createdAt expiresAt).row.ownerId = ownerId
      from rfl)] at hstatus
    refine .inr ⟨cj, mj, (newAggregate taskId ownerId cj mj items createdAt
      expiresAt).row.statusProjection.record false, hcj, hmj, hne, hfresh, ?_, by rwa [Call.snd_createTask]⟩
    rw [createTask]
    generalize insertTask taskId ownerId criteria model items createdAt expiresAt db = answer
      at hok hstatus
    obtain ⟨r, db'⟩ := answer
    cases hok
    simp only [hstatus]

/-! ### Service reads -/

section Service
variable [LinearOrder τ] [VAdd ℤ τ] {service : ExtractionTaskService} {now : τ}

theorem view_maintainRetention (service : ExtractionTaskService) (now : τ) (db : Db τ) (id : String) :
    (service.maintainRetention now db).view id =
      (db.view id).bind (Aggregate.maintain now (-service.tombstone +ᵥ now)) :=
  view_purgeAndDelete now _ db id

theorem view_maintainRetention_of_live (service : ExtractionTaskService) (hv : db.view id = some a)
    (hpurged : a.row.purgedAt = none) (hnow : now < a.row.expiresAt) :
    (service.maintainRetention now db).view id = some a := by
  have hkeep : a.maintain now (-service.tombstone +ᵥ now) = some a := by
    refine Aggregate.maintain_eq_some.2 ⟨.inl ⟨?_, rfl⟩, ?_⟩
    · rw [Bool.eq_false_iff, ne_eq, TaskRow.expired_iff]
      rintro ⟨hle, -⟩
      exact absurd hnow (not_lt.2 hle)
    · simp [TaskRow.elapsed, hpurged]
  rw [view_maintainRetention, hv, Option.bind_some, hkeep]

theorem service_getStatus_of_none (hv : (service.maintainRetention now db).view id = none)
    (ownerId : String) : (service.getStatus ownerId id now db).1 = .error .taskNotFound := by
  unfold ExtractionTaskService.getStatus
  simp only [getStatus_of_none hv]

/-- A status read shows the owner an unpurged task, and nobody else anything. -/
theorem service_getStatus_of_view (hinv : a.Inv) (hv : (service.maintainRetention now db).view id = some a)
    (ownerId : String) :
    (service.getStatus ownerId id now db).1 =
      if a.row.ownerId = ownerId then
        if a.row.purgedAt.isSome then .error .taskExpired
        else .ok (a.row.statusProjection.record false)
      else .error .taskNotFound := by
  unfold ExtractionTaskService.getStatus
  simp only [getStatus_of_view hinv hv]
  by_cases how : a.row.ownerId = ownerId
  · rw [if_pos how, if_pos how]; rfl
  · rw [if_neg how, if_neg how]

omit [LinearOrder τ] [VAdd ℤ τ] in
theorem readResults_of_none (hv : db.view id = none) (ownerId : String) (later : Db τ) :
    ExtractionTaskService.readResults ownerId id db later = .error .taskNotFound := by
  unfold ExtractionTaskService.readResults
  simp only [getResultsAcross_of_none hv]
  rfl

omit [LinearOrder τ] [VAdd ℤ τ] in
/-- A results read: the first `SELECT` decides, unless the task is finished and unpurged. -/
theorem readResults_of_view (hinv : a.Inv) (hv : db.view id = some a) (ownerId : String) (later : Db τ) :
    ExtractionTaskService.readResults ownerId id db later =
      if a.row.ownerId = ownerId then
        if a.row.purgedAt.isSome then .error .taskExpired
        else if ¬ a.row.status.isTerminal then .error (.resultsPending a.row.status.value)
        else if (a.row.record true).model.isNone then .error .taskExpired
        else
          match taskResults (a.row.record true) ((later.itemRows id).map itemFromRow) with
          | .error e => .error (.raised e)
          | .ok results => .ok results
      else .error .taskNotFound := by
  unfold ExtractionTaskService.readResults
  simp only [getResultsAcross_of_view hinv hv]
  by_cases how : a.row.ownerId = ownerId
  · rw [if_pos how, if_pos how]
    unfold ExtractionTaskService.answerResults
    cases hp : a.row.purgedAt with
    | none => simp only [ExtractionTaskRecord.isPurged, TaskRow.record, hp]; rfl
    | some t => simp only [ExtractionTaskRecord.isPurged, TaskRow.record, hp]; rfl
  · rw [if_neg how, if_neg how]; rfl

end Service

end TextExtraction
