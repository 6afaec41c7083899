import TextExtraction.Lib.Runs
import TextExtraction.TaskWorker

/-!
# The task system

One database, any number of workers, and clients: `System.Step` interleaves submissions, single
worker calls, worker crashes and retention maintenance. `accepted` records what each accepted
submission asked for; no component reads it. Task ids come from `uuid4`, so a submission never gets
the id of an earlier one.

The invariant `System.Inv` ties every stored task and everything a worker holds in memory to the
submission it belongs to.
-/

namespace TextExtraction

open Python Relational Transition

variable {τ : Type}

/-- An accepted submission. -/
structure Submission (τ : Type) where
  ownerId : String
  request : ExtractionTaskRequest
  model : ResolvedModelReference
  expiresAt : τ

def Submission.propertyNames (sub : Submission τ) : List Value := sub.request.schema.propertyNames

/-- What a worker persists for a source: the outcome and error arguments of `finalize_item`. -/
def ExtractionTaskService.itemOutcome (service : ExtractionTaskService) (sub : Submission τ)
    (source : SourceText) : Except Exc (Option (List (Key × Value)) × Option (List (String × String))) := do
  let outcome ← service.extractionService.processSourceWithModel source.id source.text
    sub.propertyNames sub.model
  finalizeArguments sub.propertyNames outcome

structure System (τ : Type) where
  db : Db τ
  workers : String → WorkerState τ
  accepted : String → Option (Submission τ)

inductive Label (τ : Type)
  | submit (taskId ownerId : String) (request : ExtractionTaskRequest) (now : τ)
  | work (w : String) (now : τ)
  | crash (w : String)
  | maintain (now : τ)

/-- The repository calls a label may make. -/
inductive Label.Makes [VAdd ℤ τ] (service : ExtractionTaskService) : Label τ → Call τ → Prop
  | submit {taskId ownerId request now model} : Makes service (.submit taskId ownerId request now)
      (.createTask taskId ownerId request.schema.modelDump (service.modelSnapshot model)
        (request.texts.map fun source => (source.id, source.text)) now (service.retention +ᵥ now))
  | claim {w now} : Makes service (.work w now) (.claimTask w now service.lease)
  | renew {w now taskId} : Makes service (.work w now) (.renewLease taskId w now service.lease)
  | take {w now t taskId} : Makes service (.work w now) (.claimNextItem taskId w t)
  | finalize {w now taskId p outcome error} :
      Makes service (.work w now) (.finalizeItem taskId w p outcome error now)
  | abort {w now taskId detail} :
      Makes service (.work w now) (.failTask taskId w (taskFailure detail) now)
  | maintain {now} : Makes service (.maintain now) (.maintainRetention now service.tombstone)

namespace System

def init : System τ := ⟨Db.empty, fun _ => .idle, fun _ => none⟩

variable [LinearOrder τ] [VAdd ℤ τ] (service : ExtractionTaskService)

def submit (taskId ownerId : String) (request : ExtractionTaskRequest) (now : τ) (s : System τ) :
    System τ :=
  let answer := service.submit taskId ownerId request now s.db
  { s with
    db := answer.2
    accepted :=
      match answer.1, service.extractionService.resolveModel request with
      | .ok _, .ok model =>
        Function.update s.accepted taskId (some ⟨ownerId, request, model, service.retention +ᵥ now⟩)
      | _, _ => s.accepted }

def work (w : String) (now : τ) (s : System τ) : System τ :=
  let next := service.workerStep w now (s.workers w) s.db
  { s with db := next.2, workers := Function.update s.workers w next.1 }

omit [LinearOrder τ] [VAdd ℤ τ] in
/-- A worker dies between two calls; its id may be used again. -/
def crash (w : String) (s : System τ) : System τ :=
  { s with workers := Function.update s.workers w .idle }

def maintain (now : τ) (s : System τ) : System τ := { s with db := service.maintainRetention now s.db }

inductive Step : System τ → Label τ → System τ → Prop
  | submit {s taskId ownerId request now} (hfresh : s.accepted taskId = none) :
      Step s (.submit taskId ownerId request now) (s.submit service taskId ownerId request now)
  | work {s w now} : Step s (.work w now) (s.work service w now)
  | crash {s w} : Step s (.crash w) (s.crash w)
  | maintain {s now} : Step s (.maintain now) (s.maintain service now)

/-- What any interleaving reaches from a fresh database. -/
def Reachable (s : System τ) : Prop := ∃ labels, Run (Step service) init labels s

end System

/-! ### Tasks and their submissions -/

/-- The item `i` of a task belongs to `source`, and holds its outcome or the failure of the task. -/
structure Recorded (service : ExtractionTaskService) (sub : Submission τ) (purged : Bool)
    (source : SourceText) (i : ItemRow τ) : Prop where
  sourceId : i.sourceId = source.id
  text : purged = false → i.sourceText = some source.text
  completed : i.status = .completed → purged = false → ∃ payload j,
    service.itemOutcome sub source = .ok (some payload, none) ∧
      canonicalJson (.dict payload) = .ok j ∧ i.outcomeJson = some j
  failed : i.status = .failed → purged = false → ∃ error j,
    canonicalJson (strDict error) = .ok j ∧ i.errorJson = some j ∧
      (service.itemOutcome sub source = .ok (none, some error) ∨ ∃ detail, error = taskFailure detail)

/-- The task `a` is what became of the submission `sub`. -/
structure Submission.Holds (service : ExtractionTaskService) (sub : Submission τ) (a : Aggregate τ) :
    Prop where
  ownerId : a.row.ownerId = sub.ownerId
  expiresAt : a.row.expiresAt = sub.expiresAt
  accepted : a.row.acceptedCount = sub.request.texts.length
  criteria : a.row.purgedAt = none → ∃ cj, a.row.criteriaJson = some cj ∧
    canonicalJson (.dict sub.request.schema.modelDump) = .ok cj
  model : a.row.purgedAt = none → ∃ mj, a.row.modelJson = some mj ∧
    canonicalJson (.dict (service.modelSnapshot sub.model)) = .ok mj
  items : ∀ (n : ℕ) source i, sub.request.texts[n]? = some source → a.items[n]? = some i →
    Recorded service sub a.row.purgedAt.isSome source i

/-- What a transaction may write into a task of this submission. -/
def Submission.Allows (service : ExtractionTaskService) (sub : Submission τ) : Action τ → Prop
  | .finalize _ _ p oj ej => ∃ (n : ℕ) (source : SourceText) (outcome : Option (List (Key × Value)))
      (error : Option (List (String × String))), p = n ∧ sub.request.texts[n]? = some source ∧
      service.itemOutcome sub source = .ok (outcome, error) ∧
      canonicalJson? (outcome.map .dict) = .ok oj ∧ canonicalJson? (error.map strDict) = .ok ej
  | .abort _ _ ej => ∃ detail, canonicalJson (strDict (taskFailure detail)) = .ok ej
  | _ => True

theorem finalizeArguments_one {names : List Value} {o : ExtractionOutcome}
    {outcome : Option (List (Key × Value))} {error : Option (List (String × String))}
    (h : finalizeArguments names o = .ok (outcome, error)) : outcome.isNone ≠ error.isNone := by
  rw [finalizeArguments] at h
  split at h
  · obtain ⟨payload, -, hargs⟩ := map_eq_ok_iff.1 h
    cases hargs
    exact Bool.false_ne_true
  · cases h
    exact Bool.false_ne_true.symm

theorem itemOutcome_one {service : ExtractionTaskService} {sub : Submission τ} {source : SourceText}
    {outcome : Option (List (Key × Value))} {error : Option (List (String × String))}
    (h : service.itemOutcome sub source = .ok (outcome, error)) : outcome.isNone ≠ error.isNone := by
  rw [ExtractionTaskService.itemOutcome] at h
  obtain ⟨o, -, hargs⟩ := bind_eq_ok_iff.1 h
  exact finalizeArguments_one hargs

theorem Aggregate.Inv.position_getElem? {a : Aggregate τ} (h : a.Inv) {n : ℕ} {i : ItemRow τ}
    (hi : a.items[n]? = some i) : i.position = n := by
  have hpos := congrArg (·[n]?) h.positions
  simp only [List.getElem?_map, hi, Option.map_some] at hpos
  rw [List.getElem?_range (by
    rw [← h.length_items]
    exact (List.getElem?_eq_some_iff.1 hi).1)] at hpos
  simpa using hpos

theorem Aggregate.Inv.position_lt {a : Aggregate τ} (h : a.Inv) {i : ItemRow τ} (hi : i ∈ a.items) :
    0 ≤ i.position ∧ i.position < a.row.acceptedCount := by
  have hmem : i.position ∈ a.items.map ItemRow.position := List.mem_map_of_mem hi
  rw [h.positions] at hmem
  obtain ⟨k, hk, hpos⟩ := List.mem_map.1 hmem
  rw [List.mem_range] at hk
  rw [← hpos]
  show (0 : ℤ) ≤ (k : ℤ) ∧ (k : ℤ) < (a.row.acceptedCount : ℤ)
  omega

namespace Recorded
variable {service : ExtractionTaskService} {sub : Submission τ} {source : SourceText} {i : ItemRow τ}
  {purged : Bool} {now : τ}

theorem take (h : Recorded service sub purged source i) :
    Recorded service sub purged source (i.take now) :=
  ⟨h.sourceId, h.text, by rintro ⟨⟩, by rintro ⟨⟩⟩

theorem finalize (h : Recorded service sub purged source i) {outcome : Option (List (Key × Value))}
    {error : Option (List (String × String))} {oj ej : Option Json}
    (hok : service.itemOutcome sub source = .ok (outcome, error))
    (hoj : canonicalJson? (outcome.map .dict) = .ok oj)
    (hej : canonicalJson? (error.map strDict) = .ok ej) :
    Recorded service sub purged source
      (i.finalize (if ej.isNone then .completed else .failed) oj ej now) := by
  have hone := itemOutcome_one hok
  cases error with
  | none =>
    cases hej
    cases outcome with
    | none => exact absurd rfl hone
    | some payload =>
      obtain ⟨j, hj, rfl⟩ := canonicalJson?_some_iff.1 hoj
      exact ⟨h.sourceId, h.text, fun _ _ => ⟨payload, j, hok, hj, rfl⟩, by rintro ⟨⟩⟩
  | some error =>
    obtain ⟨j, hj, rfl⟩ := canonicalJson?_some_iff.1 hej
    cases outcome with
    | some payload => exact absurd rfl hone
    | none => exact ⟨h.sourceId, h.text, by rintro ⟨⟩, fun _ _ => ⟨error, j, hj, rfl, .inl hok⟩⟩

theorem abort (h : Recorded service sub purged source i) {ej : Json} {detail : String}
    (hej : canonicalJson (strDict (taskFailure detail)) = .ok ej) :
    Recorded service sub purged source (i.abort ej now) :=
  ⟨h.sourceId, h.text, by rintro ⟨⟩, fun _ _ => ⟨_, ej, hej, rfl, .inr ⟨detail, rfl⟩⟩⟩

theorem purge (h : Recorded service sub purged source i) :
    Recorded service sub true source i.purge :=
  ⟨h.sourceId, by rintro ⟨⟩, by rintro - ⟨⟩, by rintro - ⟨⟩⟩

end Recorded

namespace Submission.Holds
variable {service : ExtractionTaskService} {sub : Submission τ} {a a' : Aggregate τ}

theorem items_map (h : sub.Holds service a) {g : ItemRow τ → ItemRow τ} {purged : Bool}
    (hg : ∀ (n : ℕ) source i, sub.request.texts[n]? = some source → a.items[n]? = some i →
      Recorded service sub a.row.purgedAt.isSome source i → Recorded service sub purged source (g i)) :
    ∀ (n : ℕ) source i, sub.request.texts[n]? = some source → (a.items.map g)[n]? = some i →
      Recorded service sub purged source i := by
  intro n source i hs hi
  rw [List.getElem?_map] at hi
  obtain ⟨k, hk, rfl⟩ := Option.map_eq_some_iff.1 hi
  exact hg n source k hs hk (h.items n source k hs hk)

/-- Every transaction the submission allows keeps the task the submission's. -/
theorem step [LinearOrder τ] (h : sub.Holds service a) (hinv : a.Inv) {act : Action τ}
    (hstep : a.Step act a') (hact : sub.Allows service act) : sub.Holds service a' := by
  cases hstep with
  | claim => exact ⟨h.ownerId, h.expiresAt, h.accepted, h.criteria, h.model, h.items⟩
  | renew => exact ⟨h.ownerId, h.expiresAt, h.accepted, h.criteria, h.model, h.items⟩
  | take =>
    refine ⟨h.ownerId, h.expiresAt, h.accepted, h.criteria, h.model, h.items_map fun n source i _ _ hr => ?_⟩
    split
    · exact hr.take
    · exact hr
  | @finalize w now j oj ej how hrun hj hpending hone =>
    obtain ⟨m, source', outcome, error, hm, hs', hok, hoj, hej⟩ := hact
    refine ⟨h.ownerId, h.expiresAt, h.accepted, h.criteria, h.model,
      h.items_map fun n source i hs hi hr => ?_⟩
    split
    · rename_i hpos
      have hnm : n = m := by
        have := hinv.position_getElem? hi
        rw [hpos, hm] at this
        exact_mod_cast this.symm
      subst hnm
      rw [hs] at hs'
      cases hs'
      exact hr.finalize hok hoj hej
    · exact hr
  | abort =>
    obtain ⟨detail, hej⟩ := hact
    refine ⟨h.ownerId, h.expiresAt, h.accepted, h.criteria, h.model, h.items_map fun n source i _ _ hr => ?_⟩
    split
    · exact hr.abort hej
    · exact hr
  | purge =>
    exact ⟨h.ownerId, h.expiresAt, h.accepted, by rintro ⟨⟩, by rintro ⟨⟩,
      h.items_map fun _ _ _ _ _ hr => hr.purge⟩

theorem newAggregate {id : String} {cj mj : Json} {created : τ}
    (hcj : canonicalJson (.dict sub.request.schema.modelDump) = .ok cj)
    (hmj : canonicalJson (.dict (service.modelSnapshot sub.model)) = .ok mj) :
    sub.Holds service (TextExtraction.newAggregate id sub.ownerId cj mj
      (sub.request.texts.map fun source => (source.id, source.text)) created sub.expiresAt) := by
  refine ⟨rfl, rfl, by simp [TextExtraction.newAggregate, newTask], fun _ => ⟨cj, rfl, hcj⟩,
    fun _ => ⟨mj, rfl, hmj⟩, fun n source i hs hi => ?_⟩
  simp only [TextExtraction.newAggregate, List.getElem?_map, List.getElem?_zipIdx, hs,
    Option.map_some, Option.some.injEq] at hi
  subst hi
  exact ⟨rfl, fun _ => rfl, by rintro ⟨⟩, by rintro ⟨⟩⟩

theorem recorded (h : sub.Holds service a) (hinv : a.Inv) (hpurged : a.row.purgedAt = none)
    {i : ItemRow τ} (hi : i ∈ a.items) :
    ∃ (n : ℕ) (source : SourceText), sub.request.texts[n]? = some source ∧ a.items[n]? = some i ∧
      Recorded service sub false source i := by
  obtain ⟨n, hn⟩ := List.getElem?_of_mem hi
  have hlt := (List.getElem?_eq_some_iff.1 hn).1
  rw [hinv.length_items, h.accepted] at hlt
  have hsource := List.getElem?_eq_getElem hlt
  have hrec := h.items n _ i hsource hn
  rw [hpurged] at hrec
  exact ⟨n, _, hsource, hn, hrec⟩

end Submission.Holds

/-! ### Submissions -/

section Submit
variable [VAdd ℤ τ] {service : ExtractionTaskService} {db : Db τ}

/-- `submit` raises and changes nothing, or adds the task of the submission. -/
theorem submit_cases (hc : db.Closed) (taskId ownerId : String) (request : ExtractionTaskRequest)
    (now : τ) :
    (∃ e, service.submit taskId ownerId request now db = (.error e, db)) ∨
    ∃ model cj mj r, service.extractionService.resolveModel request = .ok model ∧
      canonicalJson (.dict request.schema.modelDump) = .ok cj ∧
      canonicalJson (.dict (service.modelSnapshot model)) = .ok mj ∧ db.view taskId = none ∧
      (service.submit taskId ownerId request now db).1 = .ok r ∧
      db.Replaces (service.submit taskId ownerId request now db).2 taskId
        (newAggregate taskId ownerId cj mj
          (request.texts.map fun source => (source.id, source.text)) now (service.retention +ᵥ now)) := by
  rw [ExtractionTaskService.submit]
  cases hl : checkLimits service.maxTexts service.maxCharacters request.texts with
  | error e => exact .inl ⟨e, rfl⟩
  | ok u =>
  cases hm : service.extractionService.resolveModel request with
  | error e => exact .inl ⟨.raised e, rfl⟩
  | ok model =>
  simp only
  rcases createTask_cases hc taskId ownerId request.schema.modelDump (service.modelSnapshot model)
      (request.texts.map fun source => (source.id, source.text)) now (service.retention +ᵥ now) with
    ⟨e, he⟩ | ⟨cj, mj, r, hcj, hmj, -, hfresh, hok, hrep⟩
  · exact .inl ⟨.raised e, by rw [he]⟩
  · refine .inr ⟨model, cj, mj, r, rfl, hcj, hmj, hfresh, ?_⟩
    generalize createTask taskId ownerId request.schema.modelDump (service.modelSnapshot model)
      (request.texts.map fun source => (source.id, source.text)) now (service.retention +ᵥ now) db =
        answer at hok hrep
    obtain ⟨r', db'⟩ := answer
    cases hok
    exact ⟨rfl, hrep⟩

end Submit

/-! ### The invariant -/

/-- A worker's memory of a task agrees with the submission it was accepted as. -/
inductive WorkerState.Faithful (service : ExtractionTaskService)
    (accepted : String → Option (Submission τ)) : WorkerState τ → Prop
  | idle : Faithful service accepted .idle
  | renewing {context sub} (hsub : accepted context.taskId = some sub)
      (hnames : context.propertyNames = sub.propertyNames) :
      Faithful service accepted (.renewing context)
  | selecting {context sub now} (hsub : accepted context.taskId = some sub)
      (hnames : context.propertyNames = sub.propertyNames) :
      Faithful service accepted (.selecting context now)
  | inferring {context sub} {item : ExtractionTaskItemRecord τ} {n : ℕ} {source}
      (hsub : accepted context.taskId = some sub)
      (hnames : context.propertyNames = sub.propertyNames)
      (hsource : sub.request.texts[n]? = some source) (hposition : item.position = n)
      (hid : item.sourceId = source.id) (htext : item.sourceText = some source.text) :
      Faithful service accepted (.inferring context item)
  | finalizing {context sub outcome error} {n : ℕ} {source}
      (hsub : accepted context.taskId = some sub)
      (hnames : context.propertyNames = sub.propertyNames)
      (hsource : sub.request.texts[n]? = some source)
      (hok : service.itemOutcome sub source = .ok (outcome, error)) :
      Faithful service accepted (.finalizing context n outcome error)
  | failing {taskId detail} : Faithful service accepted (.failing taskId detail)

theorem WorkerState.Faithful.mono {service : ExtractionTaskService}
    {accepted accepted' : String → Option (Submission τ)} {state : WorkerState τ}
    (h : state.Faithful service accepted)
    (hmono : ∀ id sub, accepted id = some sub → accepted' id = some sub) :
    state.Faithful service accepted' := by
  cases h with
  | idle => exact .idle
  | renewing hsub hnames => exact .renewing (hmono _ _ hsub) hnames
  | selecting hsub hnames => exact .selecting (hmono _ _ hsub) hnames
  | inferring hsub hnames hsource hposition hid htext =>
    exact .inferring (hmono _ _ hsub) hnames hsource hposition hid htext
  | finalizing hsub hnames hsource hok => exact .finalizing (hmono _ _ hsub) hnames hsource hok
  | failing => exact .failing

/-- After a failure a worker holds nothing but the text of the error. -/
theorem faithful_handleFailure {service : ExtractionTaskService}
    {accepted : String → Option (Submission τ)} (taskId : String) (e : Exc) :
    (handleFailure taskId e : WorkerState τ).Faithful service accepted := by
  rw [handleFailure]
  split
  · exact .failing
  · exact .idle

/-- What a provider is called with for an item of a submission is the submission's. -/
theorem processItem_eq {service : ExtractionTaskService} {sub : Submission τ} {source : SourceText}
    {context : WorkerContext} {item : ExtractionTaskItemRecord τ}
    (hnames : context.propertyNames = sub.propertyNames) (hid : item.sourceId = source.id)
    (htext : item.sourceText = some source.text) :
    service.processItem context item = service.itemOutcome sub source := by
  have hor : orElse source.text "" = source.text := by
    rw [orElse]; split <;> simp_all
  rw [ExtractionTaskService.processItem, ExtractionTaskService.itemOutcome, hnames, hid, htext,
    Option.getD_some, hor]
  rfl

section Move
variable {service : ExtractionTaskService} {accepted : String → Option (Submission τ)}
  {db db' : Db τ} {a a' : Aggregate τ}

/-- The tasks after a worker's transaction that its submission allows. -/
theorem tasks_replaces [LinearOrder τ] {id₀ : String} {act : Action τ}
    (htasks : ∀ id a, db.view id = some a → ∃ sub, accepted id = some sub ∧ sub.Holds service a)
    (hv : db.view id₀ = some a) (hinv : a.Inv) (hstep : a.Step act a')
    (hact : ∀ sub, accepted id₀ = some sub → sub.Allows service act) (hrep : db.Replaces db' id₀ a') :
    ∀ id a, db'.view id = some a → ∃ sub, accepted id = some sub ∧ sub.Holds service a := by
  intro id b hb
  rw [hrep.view id] at hb
  split at hb
  · rename_i hid
    cases hb
    obtain ⟨sub, hsub, hholds⟩ := htasks id₀ a hv
    exact ⟨sub, hid ▸ hsub, hholds.step hinv hstep (hact sub hsub)⟩
  · exact htasks id b hb

/-- A worker that claims the task of a submission reads the submission's names. -/
theorem claimedState_eq {sub : Submission τ} (hholds : sub.Holds service a)
    (hpurged : a.row.purgedAt = none) :
    ∃ reference, claimedState a.row = .renewing ⟨a.row.taskId, sub.propertyNames, reference⟩ := by
  obtain ⟨cj, hcriteria, hcj⟩ := hholds.criteria hpurged
  obtain ⟨mj, hmodel, hmj⟩ := hholds.model hpurged
  obtain ⟨reference, hbegin⟩ := beginProcessing_eq service hcriteria hmodel hcj hmj
  exact ⟨reference, by rw [claimedState, hbegin]; rfl⟩

section Work
variable [LinearOrder τ] [VAdd ℤ τ] {w : String} {now : τ} {state state' : WorkerState τ}

/-- A worker's move leaves the store alone, or takes one step on one task, which its submission
allows; only a worker that is failing a task ends it. -/
theorem WorkerMove.effect (h : WorkerMove service w now db state state' db')
    (hstate : state.Faithful service accepted) :
    db' = db ∨ ∃ id a act a', db.view id = some a ∧ a.Step act a' ∧ db.Replaces db' id a' ∧
      (∀ sub, accepted id = some sub → sub.Allows service act) ∧
      (∀ u t ej, act = .abort u t ej → u = w ∧ ∃ detail, state = .failing id detail) := by
  cases h with
  | rest => exact .inl rfl
  | @claim a _ _ hv hclaim hrep =>
    exact .inr ⟨_, a, _, _, hv, .claim hclaim, hrep, fun _ _ => trivial, by rintro _ _ _ ⟨⟩⟩
  | @renew context a _ hv how hrun hrep =>
    exact .inr ⟨_, a, .renew w now (service.lease +ᵥ now), _, hv, .renew how hrun, hrep,
      fun _ _ => trivial, by rintro _ _ _ ⟨⟩⟩
  | lost => exact .inl rfl
  | @take context t a i _ hv _ hstep hrep =>
    exact .inr ⟨_, a, _, _, hv, hstep, hrep, fun _ _ => trivial, by rintro _ _ _ ⟨⟩⟩
  | stop => exact .inl rfl
  | infer => exact .inl rfl
  | inferError => exact .inl rfl
  | @finalize context outcome error a i oj ej _ hv hi hoj hej hstep hrep =>
    refine .inr ⟨_, a, _, _, hv, hstep, hrep, fun sub' hsub' => ?_, by rintro _ _ _ ⟨⟩⟩
    generalize hp : i.position = p at hstate
    cases hstate with
    | @finalizing _ sub _ _ n source hsub hnames hsource hok =>
      rw [hsub] at hsub'
      cases hsub'
      exact ⟨n, source, outcome, error, rfl, hsource, hok, hoj, hej⟩
  | refuse => exact .inl rfl
  | @abort taskId detail a ej _ hv hej hstep hrep =>
    refine .inr ⟨_, a, _, _, hv, hstep, hrep, fun _ _ => ⟨detail, hej⟩, ?_⟩
    rintro u t ej' he
    cases he
    exact ⟨rfl, detail, rfl⟩
  | giveUp => exact .inl rfl

theorem WorkerMove.faithful (h : WorkerMove service w now db state state' db')
    (hstate : state.Faithful service accepted) (hinv : ∀ id a, db.view id = some a → a.Inv)
    (htasks : ∀ id a, db.view id = some a → ∃ sub, accepted id = some sub ∧ sub.Holds service a) :
    state'.Faithful service accepted := by
  cases h with
  | rest => exact .idle
  | @claim a _ _ hv hclaim hrep =>
    have hstep : a.Step (.claim w now (service.lease +ᵥ now)) (a.claim w (service.lease +ᵥ now) now) :=
      .claim hclaim
    obtain ⟨sub, hsub, hholds⟩ := htasks _ a hv
    obtain ⟨reference, he⟩ := claimedState_eq (hholds.step (hinv _ a hv) hstep trivial)
      (TaskRow.claimable_iff.1 hclaim).2.1
    show (claimedState (a.claim w (service.lease +ᵥ now) now).row).Faithful service accepted
    rw [he]
    exact .renewing hsub rfl
  | renew =>
    cases hstate with
    | renewing hsub hnames => exact .selecting hsub hnames
  | lost => exact .failing
  | @take context t a i _ hv hi hstep hrep =>
    cases hstate with
    | @selecting _ sub _ hsub hnames =>
      obtain ⟨sub', hsub', hholds⟩ := htasks _ a hv
      rw [hsub] at hsub'
      cases hsub'
      have hpurged : a.row.purgedAt = none := hstep.of_take.2.2.2.1
      obtain ⟨n, source, hsource, hn, hrec⟩ := hholds.recorded (hinv _ a hv) hpurged hi
      have hposition : i.position = n := (hinv _ a hv).position_getElem? hn
      exact .inferring hsub hnames hsource hposition hrec.sourceId (hrec.text rfl)
  | stop => exact .idle
  | infer hok =>
    cases hstate with
    | inferring hsub hnames hsource hposition hid htext =>
      rw [processItem_eq hnames hid htext] at hok
      rw [hposition]
      exact .finalizing hsub hnames hsource hok
  | inferError => exact faithful_handleFailure _ _
  | finalize =>
    split
    · exact .idle
    · generalize hp : ItemRow.position _ = p at hstate
      cases hstate with
      | finalizing hsub hnames => exact .renewing hsub hnames
  | refuse => exact faithful_handleFailure _ _
  | abort => exact .idle
  | giveUp => exact .idle

end Work

end Move

namespace System

variable [LinearOrder τ] [VAdd ℤ τ] {service : ExtractionTaskService} {s s' : System τ} {l : Label τ}

structure Inv (service : ExtractionTaskService) (s : System τ) : Prop where
  store : ∃ calls, s.db = Db.run calls
  tasks : ∀ id a, s.db.view id = some a → ∃ sub, s.accepted id = some sub ∧ sub.Holds service a
  workers : ∀ w, (s.workers w).Faithful service s.accepted

theorem Inv.aggregate (h : s.Inv service) {id : String} {a : Aggregate τ}
    (hv : s.db.view id = some a) : a.Inv := by
  obtain ⟨calls, hrun⟩ := h.store
  rw [hrun] at hv
  exact Db.run_inv hv

theorem Inv.closed (h : s.Inv service) : s.db.Closed := by
  obtain ⟨calls, hrun⟩ := h.store
  rw [hrun]
  exact Db.closed_run calls

theorem Inv.holds (h : s.Inv service) {id : String} {sub : Submission τ} {a : Aggregate τ}
    (hsub : s.accepted id = some sub) (hv : s.db.view id = some a) : sub.Holds service a := by
  obtain ⟨sub', hsub', hholds⟩ := h.tasks id a hv
  obtain rfl : sub = sub' := Option.some.inj (hsub.symm.trans hsub')
  exact hholds

theorem Inv.view_eq_none (h : s.Inv service) {id : String} (hid : s.accepted id = none) :
    s.db.view id = none := by
  rw [Option.eq_none_iff_forall_ne_some]
  intro a hv
  obtain ⟨sub, hsub, -⟩ := h.tasks id a hv
  rw [hid] at hsub
  simp at hsub

theorem snd_submit (taskId ownerId : String) (request : ExtractionTaskRequest) (now : τ) (db : Db τ) :
    (service.submit taskId ownerId request now db).2 = db ∨
    ∃ model, (service.submit taskId ownerId request now db).2 =
      (Call.createTask taskId ownerId request.schema.modelDump (service.modelSnapshot model)
        (request.texts.map fun source => (source.id, source.text)) now (service.retention +ᵥ now)).exec
          db := by
  rw [ExtractionTaskService.submit]
  split
  · exact .inl rfl
  · split
    · exact .inl rfl
    · rename_i model _
      refine .inr ⟨model, ?_⟩
      rw [Call.exec]
      split <;> rename_i h <;> rw [h]

theorem Step.call (h : Step service s l s') :
    s'.db = s.db ∨ ∃ c : Call τ, l.Makes service c ∧ s'.db = c.exec s.db := by
  cases h with
  | submit =>
    rcases snd_submit _ _ _ _ s.db with he | ⟨model, he⟩
    · exact .inl he
    · exact .inr ⟨_, .submit, he⟩
  | @work w now =>
    rw [System.work]
    simp only
    generalize s.workers w = state
    cases state with
    | idle =>
      refine .inr ⟨.claimTask w now service.lease, .claim, ?_⟩
      rw [ExtractionTaskService.workerStep, Call.exec]
      split
      · rename_i h
        rw [h]
        split <;> rfl
      · rename_i h
        rw [h]
    | renewing context =>
      refine .inr ⟨.renewLease context.taskId w now service.lease, .renew, ?_⟩
      rw [ExtractionTaskService.workerStep, Call.exec]
      split <;> rename_i h <;> rw [h]
    | selecting context t =>
      refine .inr ⟨.claimNextItem context.taskId w t, .take, ?_⟩
      rw [ExtractionTaskService.workerStep, Call.exec]
      split <;> rename_i h <;> rw [h]
    | inferring context item =>
      refine .inl ?_
      rw [ExtractionTaskService.workerStep]
      split <;> rfl
    | finalizing context p outcome error =>
      refine .inr ⟨.finalizeItem context.taskId w p outcome error now, .finalize, ?_⟩
      rw [ExtractionTaskService.workerStep, Call.exec]
      split <;> rename_i h <;> rw [h]
    | failing taskId detail => exact .inr ⟨_, .abort, rfl⟩
  | crash => exact .inl rfl
  | maintain => exact .inr ⟨_, .maintain, rfl⟩

theorem inv_init : (init : System τ).Inv service where
  store := ⟨[], rfl⟩
  tasks _ _ h := by cases h
  workers _ := .idle

theorem Step.inv (h : Step service s l s') (hinv : s.Inv service) : s'.Inv service := by
  have hstore : ∃ calls, s'.db = Db.run calls := by
    obtain ⟨calls, hrun⟩ := hinv.store
    rcases h.call with he | ⟨c, -, he⟩
    · exact ⟨calls, he.trans hrun⟩
    · exact ⟨calls ++ [c], by rw [he, hrun, Db.run_snoc]⟩
  cases h with
  | @submit taskId ownerId request now hfresh =>
    rcases submit_cases hinv.closed taskId ownerId request now with
      ⟨e, he⟩ | ⟨model, cj, mj, r, hmodel, hcj, hmj, -, hok, hrep⟩
    · have hsame : s.submit service taskId ownerId request now = s := by rw [System.submit, he]
      rw [hsame]; exact hinv
    · have hacc : (s.submit service taskId ownerId request now).accepted =
          Function.update s.accepted taskId
            (some ⟨ownerId, request, model, service.retention +ᵥ now⟩) := by
        rw [System.submit]; simp only [hok, hmodel]
      refine ⟨hstore, fun id a hv => ?_, fun w => (hinv.workers w).mono fun id sub hsub => ?_⟩
      · have hview := hrep.view id
        rw [show (s.submit service taskId ownerId request now).db =
          (service.submit taskId ownerId request now s.db).2 from rfl, hview] at hv
        rw [hacc]
        split at hv
        · rename_i hid
          cases hv
          exact ⟨⟨ownerId, request, model, service.retention +ᵥ now⟩,
            by rw [hid, Function.update_self], .newAggregate hcj hmj⟩
        · rename_i hid
          rw [Function.update_of_ne hid]
          exact hinv.tasks id a hv
      · have hne : id ≠ taskId := by
          rintro rfl
          rw [hfresh] at hsub; simp at hsub
        rw [hacc, Function.update_of_ne hne]
        exact hsub
  | @work w now =>
    have hmove : WorkerMove service w now s.db (s.workers w) _ _ :=
      workerStep_move (fun id a hv => hinv.aggregate hv) (s.workers w)
    have hstate := hmove.faithful (hinv.workers w) (fun _ _ hv => hinv.aggregate hv) hinv.tasks
    refine ⟨hstore, ?_, fun w' => ?_⟩
    · rw [show (s.work service w now).db = (service.workerStep w now (s.workers w) s.db).2 from rfl]
      rcases hmove.effect (hinv.workers w) with hsame | ⟨id, a, act, a', hv, hstep, hrep, hallows, -⟩
      · rw [hsame]; exact hinv.tasks
      · exact tasks_replaces hinv.tasks hv (hinv.aggregate hv) hstep hallows hrep
    rw [System.work]
    by_cases hw : w' = w
    · subst hw; simpa using hstate
    · simpa [Function.update_of_ne hw] using hinv.workers w'
  | @crash w =>
    refine ⟨hstore, hinv.tasks, fun w' => ?_⟩
    rw [System.crash]
    by_cases hw : w' = w
    · subst hw; simpa using .idle
    · simpa [Function.update_of_ne hw] using hinv.workers w'
  | @maintain now =>
    refine ⟨hstore, fun id a hv => ?_, hinv.workers⟩
    have hview := view_purgeAndDelete now (-service.tombstone +ᵥ now) s.db id
    rw [show (s.maintain service now).db = (purgeAndDelete now (-service.tombstone +ᵥ now) s.db).2
      from rfl, hview] at hv
    obtain ⟨b, hb, hm⟩ := Option.bind_eq_some_iff.1 hv
    obtain ⟨sub, hsub, hholds⟩ := hinv.tasks id b hb
    refine ⟨sub, hsub, ?_⟩
    rcases (Aggregate.maintain_eq_some.1 hm).1 with ⟨-, rfl⟩ | ⟨hexp, rfl⟩
    · exact hholds
    · exact hholds.step (hinv.aggregate hb) (.purge hexp) trivial

theorem Run.inv {labels : List (Label τ)} (h : Run (Step service) s labels s')
    (hinv : s.Inv service) : s'.Inv service :=
  h.invariant (fun _ _ _ hs hstep => hstep.inv hs) hinv

theorem Reachable.inv (h : Reachable service s) : s.Inv service := by
  obtain ⟨labels, hrun⟩ := h
  exact Run.inv hrun inv_init

/-! ### What a step does to one task -/

theorem Step.accepted (h : Step service s l s') {id : String} {sub : Submission τ}
    (hsub : s.accepted id = some sub) : s'.accepted id = some sub := by
  cases h with
  | @submit taskId ownerId request now hfresh =>
    have hne : id ≠ taskId := by
      rintro rfl
      rw [hfresh] at hsub; simp at hsub
    cases hr : (service.submit taskId ownerId request now s.db).1 <;>
      cases hm : service.extractionService.resolveModel request <;>
      simp only [System.submit, hr, hm, Function.update_of_ne hne, hsub]
  | _ => exact hsub

/-- The task `id` is left as it was, or the step makes a call that affects it. -/
theorem Step.affects (h : Step service s l s') (hinv : s.Inv service) (id : String) :
    s'.db.view id = s.db.view id ∨
      ∃ c, l.Makes service c ∧ c.Affects id (s.db.view id) (s'.db.view id) := by
  rcases h.call with he | ⟨c, hmakes, he⟩
  · exact .inl (by rw [he])
  · exact .inr ⟨c, hmakes, by rw [he]; exact (c.change hinv.closed).affects id⟩

theorem Step.not_created (h : Step service s l s') {c : Call τ} (hmakes : l.Makes service c)
    {id : String} {sub : Submission τ} (hsub : s.accepted id = some sub) {owner : String}
    {criteria model : List (Key × Value)} {items : List (String × String)} {created expires : τ} :
    c ≠ .createTask id owner criteria model items created expires := by
  rintro rfl
  cases hmakes
  cases h with
  | submit hfresh => rw [hfresh] at hsub; simp at hsub

theorem Step.absent (h : Step service s l s') (hinv : s.Inv service) {id : String}
    {sub : Submission τ} (hsub : s.accepted id = some sub) (hnone : s.db.view id = none) :
    s'.db.view id = none := by
  rcases h.affects hinv id with he | ⟨c, hmakes, haff⟩
  · rw [he, hnone]
  · rw [hnone] at haff
    generalize s'.db.view id = v at haff
    cases haff with
    | same => rfl
    | created hc => exact absurd hc (h.not_created hmakes hsub)

end System

end TextExtraction
