import TextExtraction.TaskService
import TextExtraction.TaskReads
import TextExtraction.TaskLease

/-!
# The worker's moves

What a worker reads back from the snapshots of a claimed task (`beginProcessing_eq`), and
`WorkerMove`: every move of a worker from one call to the next, with what it does to the store in
terms of `Db.view` and what an unsuccessful call tells about the store. Later modules reason about
workers by cases on it.
-/

namespace TextExtraction

open Python Relational

variable {τ : Type}

/-! ### Reading the snapshots -/

theorem itemNames_loads (definitions : List PropertyDefinition) {js : List Json}
    (h : dumpsList true (definitions.map fun definition =>
      .dict [(.str "name", .str definition.name), (.str "type", .str definition.type.value),
        (.str "required", .bool definition.required),
        (.str "description", definition.description.elim .none .str)]) = .ok js) :
    itemNames (js.map loads) = .ok (definitions.map fun definition => .str definition.name) := by
  induction definitions generalizing js with
  | nil => cases h; rfl
  | cons definition definitions ih =>
    cases dumpsList_ok h with
    | @cons _ j _ js hj _ =>
    rw [List.map_cons, dumpsList] at h
    split at h <;> cases h
    rename_i hjs
    obtain ⟨j', hname, hget⟩ := getItem_of_dumps hj (k := "name") (v := .str definition.name)
      (by simp) (by simp) (by simp)
    cases hname
    rw [List.map_cons, itemNames, hget, ih hjs]
    rfl

theorem propertyNames_loads {schema : ExtractionSchema} {cj : Json}
    (h : canonicalJson (.dict schema.modelDump) = .ok cj) :
    (do
      let properties ← (loads cj).getItem "properties"
      let properties ← properties.iter
      itemNames properties) = .ok schema.propertyNames := by
  rw [canonicalJson, ExtractionSchema.modelDump] at h
  obtain ⟨j, hj, hget⟩ := getItem_of_dumps h (k := "properties") (by simp) (by simp)
    (List.mem_singleton_self _)
  rw [dumps] at hj
  obtain ⟨js, hjs, rfl⟩ := map_eq_ok_iff.1 hj
  rw [hget, loads, loadsList_eq_map]
  exact itemNames_loads schema.properties hjs

/-- Snapshots written at submission read back: the worker never fails before its loop. -/
theorem beginProcessing_eq (service : ExtractionTaskService) {row : TaskRow τ}
    {schema : ExtractionSchema} {model : ResolvedModelReference} {cj mj : Json}
    (hcriteria : row.criteriaJson = some cj) (hmodel : row.modelJson = some mj)
    (hcj : canonicalJson (.dict schema.modelDump) = .ok cj)
    (hmj : canonicalJson (.dict (service.modelSnapshot model)) = .ok mj) :
    ∃ reference, beginProcessing (row.record true) =
      .ok ⟨row.taskId, schema.propertyNames, reference⟩ := by
  have hnames := propertyNames_loads hcj
  obtain ⟨criteria, hc⟩ := loads_of_dumps_dict hcj
  obtain ⟨snapshot, hm⟩ := loads_of_dumps_dict hmj
  obtain ⟨jn, -, hname⟩ := getItem_of_dumps hmj (k := "name") (v := model.name)
    (by simp [ExtractionTaskService.modelSnapshot]) (by simp [ExtractionTaskService.modelSnapshot])
    (by simp [ExtractionTaskService.modelSnapshot])
  obtain ⟨jv, -, hversion⟩ := getItem_of_dumps hmj (k := "version") (v := model.version)
    (by simp [ExtractionTaskService.modelSnapshot]) (by simp [ExtractionTaskService.modelSnapshot])
    (by simp [ExtractionTaskService.modelSnapshot])
  refine ⟨⟨loads jn, loads jv⟩, ?_⟩
  have hrc : (row.record true).criteria = loads cj := by simp [TaskRow.record, hcriteria]
  have hrm : (row.record true).model = loads mj := by simp [TaskRow.record, hmodel]
  rw [beginProcessing, hrc, hrm, if_neg (by simp [hc, hm, Value.isNone]), hname, hversion]
  obtain ⟨properties, hp, hnames⟩ := bind_eq_ok_iff.1 hnames
  obtain ⟨values, hi, hnames⟩ := bind_eq_ok_iff.1 hnames
  simp only [hp, hi, hnames, bind, Except.bind]
  rfl

/-! ### Moves -/

/-- `finalize_item` has nothing to object to. -/
def Finalizable (db : Db τ) (id w : String) (p : ℤ) (outcome : Option (List (Key × Value)))
    (error : Option (List (String × String))) : Prop :=
  ∃ a i oj ej, db.view id = some a ∧ a.row.leaseOwner = some w ∧ a.row.status.isTerminal = false ∧
    i ∈ a.items ∧ i.position = p ∧ i.status.isTerminal = false ∧ outcome.isNone ≠ error.isNone ∧
    canonicalJson? (outcome.map .dict) = .ok oj ∧ canonicalJson? (error.map strDict) = .ok ej

section Success
variable [LinearOrder τ] {db : Db τ} {id w : String} {now : τ} {a : Aggregate τ}

theorem finalizeItem_ok {i : ItemRow τ} {outcome : Option (List (Key × Value))}
    {error : Option (List (String × String))} {oj ej : Option Json} (hinv : a.Inv)
    (hv : db.view id = some a) (how : a.row.leaseOwner = some w)
    (hrun : a.row.status.isTerminal = false) (hi : i ∈ a.items)
    (hpending : i.status.isTerminal = false) (hone : outcome.isNone ≠ error.isNone)
    (hoj : canonicalJson? (outcome.map .dict) = .ok oj)
    (hej : canonicalJson? (error.map strDict) = .ok ej) (now : τ) :
    ∃ after, db.Replaces after id (a.finalize w i.position oj ej now) ∧
      finalizeItem id w i.position outcome error now db =
        (.ok ((a.finalize w i.position oj ej now).row.record true), after) := by
  obtain ⟨after, hrep, heq⟩ := finalizeItem_of_view hv how hrun hi hpending hone hoj hej now
  have hinv' : (a.finalize w i.position oj ej now).Inv :=
    hinv.finalize how hrun hi hpending (isSome_of_arguments hone hoj hej)
  rw [if_pos hinv'.check, hinv'.taskFromRow_eq] at heq
  exact ⟨after, hrep, heq⟩

theorem failTask_ok (hinv : a.Inv) (hv : db.view id = some a) (how : a.row.leaseOwner = some w)
    (error : List (String × String)) (now : τ) :
    ∃ ej after, canonicalJson (strDict error) = .ok ej ∧ db.Replaces after id (a.abort ej now) ∧
      failTask id w error now db = (.ok ((a.abort ej now).row.record true), after) := by
  have hrun : a.row.status.isTerminal = false := by rw [hinv.processing how]; rfl
  obtain ⟨ej, after, hej, hrep, heq⟩ := failTask_of_view hv how hrun error now
  have hinv' : (a.abort ej now).Inv := hinv.abort how hrun
  rw [if_pos hinv'.check, hinv'.taskFromRow_eq] at heq
  exact ⟨ej, after, hej, hrep, heq⟩

end Success

section Move
variable [LinearOrder τ] [VAdd ℤ τ] (service : ExtractionTaskService)

/-- The state of a worker that has just claimed the task of `row`. -/
def claimedState (row : TaskRow τ) : WorkerState τ :=
  match beginProcessing (row.record true) with
  | .ok context => .renewing context
  | .error error => handleFailure row.taskId error

/-- The moves of the worker `w` at clock reading `now` on the store `db`. -/
inductive WorkerMove (w : String) (now : τ) (db : Db τ) :
    WorkerState τ → WorkerState τ → Db τ → Prop
  | rest (hnone : oldestClaimable now db = none) : WorkerMove w now db .idle .idle db
  | claim {a db'} (hold : oldestClaimable now db = some a.row) (hv : db.view a.row.taskId = some a)
      (hclaim : a.row.claimable now = true)
      (hrep : db.Replaces db' a.row.taskId (a.claim w (service.lease +ᵥ now) now)) :
      WorkerMove w now db .idle (claimedState (a.row.claim w (service.lease +ᵥ now) now)) db'
  | renew {context a db'} (hv : db.view context.taskId = some a)
      (how : a.row.leaseOwner = some w) (hrun : a.row.status.isTerminal = false)
      (hrep : db.Replaces db' context.taskId (a.renew (service.lease +ᵥ now) now)) :
      WorkerMove w now db (.renewing context) (.selecting context now) db'
  | lost {context} (hlost : Displaced db context.taskId w) :
      WorkerMove w now db (.renewing context) (.failing context.taskId "Task lease was lost") db
  | take {context t a i db'} (hv : db.view context.taskId = some a) (hi : i ∈ a.items)
      (hstep : a.Step (.take w t i.position) (a.take i.position t))
      (hrep : db.Replaces db' context.taskId (a.take i.position t)) :
      WorkerMove w now db (.selecting context t) (.inferring context (itemFromRow (i.take t))) db'
  | stop {context t}
      (hno : ∀ a p, db.view context.taskId = some a → ¬ a.Step (.take w t p) (a.take p t)) :
      WorkerMove w now db (.selecting context t) .idle db
  | infer {context item outcome error} (hok : service.processItem context item = .ok (outcome, error)) :
      WorkerMove w now db (.inferring context item) (.finalizing context item.position outcome error) db
  | inferError {context item e} (herror : service.processItem context item = .error e) :
      WorkerMove w now db (.inferring context item) (handleFailure context.taskId e) db
  | finalize {context outcome error a i oj ej db'} (hv : db.view context.taskId = some a)
      (hi : i ∈ a.items) (hoj : canonicalJson? (outcome.map .dict) = .ok oj)
      (hej : canonicalJson? (error.map strDict) = .ok ej)
      (hstep : a.Step (.finalize w now i.position oj ej) (a.finalize w i.position oj ej now))
      (hrep : db.Replaces db' context.taskId (a.finalize w i.position oj ej now)) :
      WorkerMove w now db (.finalizing context i.position outcome error)
        (if (a.finalize w i.position oj ej now).row.status.isTerminal then .idle else .renewing context)
        db'
  | refuse {context p outcome error e} (hno : ¬ Finalizable db context.taskId w p outcome error)
      (hraise : finalizeItem context.taskId w p outcome error now db = (.error e, db)) :
      WorkerMove w now db (.finalizing context p outcome error) (handleFailure context.taskId e) db
  | abort {taskId detail a ej db'} (hv : db.view taskId = some a)
      (hej : canonicalJson (strDict (taskFailure detail)) = .ok ej)
      (hstep : a.Step (.abort w now ej) (a.abort ej now))
      (hrep : db.Replaces db' taskId (a.abort ej now)) :
      WorkerMove w now db (.failing taskId detail) .idle db'
  | giveUp {taskId detail} (hlost : Displaced db taskId w) :
      WorkerMove w now db (.failing taskId detail) .idle db

variable {service} {w : String} {now : τ} {db : Db τ}

omit [LinearOrder τ] [VAdd ℤ τ] in
theorem displaced_of_refusal {id : String} (hinv : ∀ id a, db.view id = some a → a.Inv)
    (h : ∀ a, db.view id = some a → a.row.leaseOwner = some w → a.row.status.isTerminal = true) :
    Displaced db id w := by
  intro a hv how
  have hterm := h a hv how
  rw [(hinv id a hv).processing how] at hterm
  simp at hterm

theorem workerStep_move (hinv : ∀ id a, db.view id = some a → a.Inv) (state : WorkerState τ) :
    WorkerMove service w now db state (service.workerStep w now state db).1
      (service.workerStep w now state db).2 := by
  cases state with
  | idle =>
    rw [ExtractionTaskService.workerStep]
    rcases claimTask_cases w now service.lease db with ⟨hnone, he⟩ | ⟨a, hold, hv, hstep, hr, hrep⟩
    · rw [he]; exact .rest hnone
    · cases hstep with
      | claim hclaim =>
        have hrow : taskFromRow (a.claim w (service.lease +ᵥ now) now).row true =
            .ok ((a.row.claim w (service.lease +ᵥ now) now).record true) :=
          ((hinv _ a hv).claim hclaim).taskFromRow_eq true
        rw [hrow] at hr
        generalize claimTask w now service.lease db = answer at hr hrep
        obtain ⟨r, db'⟩ := answer
        cases hr
        have : WorkerMove service w now db .idle _ db' := .claim hold hv hclaim hrep
        rw [claimedState] at this
        split at this <;> rename_i hb <;> simp only [hb] <;> exact this
  | renewing context =>
    rw [ExtractionTaskService.workerStep]
    rcases renewLease_cases context.taskId w now service.lease db with
      ⟨hlost, he⟩ | ⟨a, hv, hstep, hr, hrep⟩
    · rw [he]; exact .lost (displaced_of_refusal hinv hlost)
    · cases hstep with
      | renew how hrun =>
        generalize renewLease context.taskId w now service.lease db = answer at hr hrep
        obtain ⟨r, db'⟩ := answer
        cases hr
        exact .renew hv how hrun hrep
  | selecting context t =>
    rw [ExtractionTaskService.workerStep]
    rcases claimNextItem_cases context.taskId w t db with ⟨hno, he⟩ | ⟨a, i, hv, hi, hstep, hr, hrep⟩
    · rw [he]; exact .stop hno
    · generalize claimNextItem context.taskId w t db = answer at hr hrep
      obtain ⟨r, db'⟩ := answer
      cases hr
      exact .take hv hi hstep hrep
  | inferring context item =>
    rw [ExtractionTaskService.workerStep]
    cases hp : service.processItem context item with
    | error e => exact .inferError hp
    | ok arguments => exact .infer hp
  | finalizing context p outcome error =>
    rw [ExtractionTaskService.workerStep]
    rcases finalizeItem_cases context.taskId w p outcome error now db with
      ⟨e, he⟩ | ⟨a, i, oj, ej, hv, hi, rfl, hoj, hej, hstep, -, hr, hrep⟩
    · rw [he]
      refine .refuse ?_ he
      rintro ⟨a, i, oj, ej, hv, how, hrun, hi, rfl, hpending, hone, hoj, hej⟩
      obtain ⟨after, -, hok⟩ :=
        finalizeItem_ok (hinv _ a hv) hv how hrun hi hpending hone hoj hej now
      rw [hok] at he
      simp at he
    · have hrow := ((hinv _ a hv).step hstep).taskFromRow_eq true
      rw [hrow] at hr
      generalize finalizeItem context.taskId w i.position outcome error now db = answer at hr hrep
      obtain ⟨r, db'⟩ := answer
      cases hr
      exact .finalize hv hi hoj hej hstep hrep
  | failing taskId detail =>
    rw [ExtractionTaskService.workerStep]
    rcases failTask_cases taskId w (taskFailure detail) now db with
      ⟨e, he⟩ | ⟨a, ej, hv, hej, hstep, -, -, hrep⟩
    · rw [he]
      refine .giveUp fun a hv how => ?_
      obtain ⟨ej, after, -, -, hok⟩ := failTask_ok (hinv _ a hv) hv how (taskFailure detail) now
      rw [hok] at he
      simp at he
    · exact .abort hv hej hstep hrep

end Move

end TextExtraction
