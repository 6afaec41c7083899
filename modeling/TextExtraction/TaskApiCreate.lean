import TextExtraction.TaskApiReads

/-!
# Creating a task and following its location

`POST /extraction-tasks` answers 202 exactly for the bodies within the limits, and with it the `Location`
of the task: the route of that path reads the task that was created, whatever requests, workers and
maintenance come in between, until it expires (`Application.create_law`).
-/

namespace TextExtraction

open Python Relational Transition

/-! ### Paths -/

theorem pathAfter_append (before : String) (rest : List Char) :
    pathAfter before (before.toList ++ rest) = some rest := by
  rw [pathAfter, if_pos (List.isPrefixOf_iff_prefix.2 (List.prefix_append _ _)), List.drop_left]

theorem pathBefore_append (after : String) (rest : List Char) :
    pathBefore after (rest ++ after.toList) = some rest := by
  rw [pathBefore, if_pos (List.isSuffixOf_iff_suffix.2 (List.suffix_append _ _)), List.length_append,
    Nat.add_sub_cancel, List.take_left]

theorem isPathParameter_text (uuid : Uuid) : isPathParameter uuid.text.toList = true := by
  have hslash : '/' ∉ uuid.text.toList := by
    intro hmem
    rcases Uuid.mem_text hmem with heq | hhex
    · cases heq
    · cases hhex
  simp [isPathParameter, uuid.text_ne_nil, hslash]

theorem toList_location (rest : String) :
    ("/extraction-tasks/" ++ rest).toList = "/extraction-tasks/".toList ++ rest.toList := String.toList_append

theorem dropNewline_of_not_mem {path : List Char} (h : '\n' ∉ path) : dropNewline path = path :=
  if_neg fun hlast => h (List.mem_of_getLast? hlast)

/-- The location of a task, and its results, are routes of its id. -/
theorem routeGet_location (uuid : Uuid) :
    routeGet ("/extraction-tasks/" ++ uuid.text) = some (.getExtractionTask uuid.text) ∧
    routeGet ("/extraction-tasks/" ++ (uuid.text ++ "/results")) = some (.getExtractionTaskResults uuid.text) := by
  have hsummary : ∀ rest : String, rest ≠ "summary" → '\n' ∉ rest.toList →
      dropNewline ("/extraction-tasks/" ++ rest).toList ≠ "/extraction-tasks/summary".toList := by
    intro rest hne hnewline heq
    have hnot : '\n' ∉ "/extraction-tasks/".toList ++ rest.toList := by
      rw [List.mem_append]
      rintro (h | h)
      · revert h
        decide
      · exact hnewline h
    rw [toList_location, dropNewline_of_not_mem hnot,
      show "/extraction-tasks/summary" = "/extraction-tasks/" ++ "summary" from rfl, toList_location,
      List.append_cancel_left_eq] at heq
    exact hne (String.toList_inj.1 heq)
  have hnewline : '\n' ∉ uuid.text.toList := by
    intro hmem
    rcases Uuid.mem_text hmem with h | h <;> cases h
  have hnewline' : '\n' ∉ (uuid.text ++ "/results").toList := by
    rw [String.toList_append, List.mem_append]
    rintro (h | h)
    · exact hnewline h
    · revert h
      decide
  have hid : uuid.text ≠ "summary" := by
    intro heq
    have hs : 's' ∈ uuid.text.toList := by
      rw [heq]
      decide
    rcases Uuid.mem_text hs with h | h <;> cases h
  have hresults : uuid.text ++ "/results" ≠ "summary" := by
    intro heq
    have hslash : '/' ∈ (uuid.text ++ "/results").toList := by
      rw [String.toList_append]
      exact List.mem_append_right _ (by decide)
    rw [heq] at hslash
    revert hslash
    decide
  constructor
  · rw [routeGet, if_neg (hsummary _ hid hnewline), toList_location, pathAfter_append]
    simp only [isPathParameter_text, if_true, String.ofList_toList]
  · have hnot : isPathParameter (uuid.text ++ "/results").toList = false := by
      rw [String.toList_append]
      simp [isPathParameter]
    rw [routeGet, if_neg (hsummary _ hresults hnewline'), toList_location, pathAfter_append]
    simp only [hnot, Bool.false_eq_true, if_false, dropNewline_of_not_mem hnewline']
    rw [String.toList_append, pathBefore_append]
    simp only [isPathParameter_text, if_true, String.ofList_toList]

/-! ### What is created -/

section Submit
variable {τ : Type} [VAdd ℤ τ] {service : ExtractionTaskService} {taskId ownerId : String}
  {request : ExtractionTaskRequest} {now : τ} {db : Db τ} {task : ExtractionTaskRecord τ}

/-- `submit` answers the task as `get_status` reads it from the store it leaves. -/
theorem getStatus_of_submit (h : (service.submit taskId ownerId request now db).1 = .ok task) :
    getStatus taskId ownerId (service.submit taskId ownerId request now db).2 = .ok (some task) := by
  unfold ExtractionTaskService.submit at h ⊢
  cases hlimits : checkLimits service.maxTexts service.maxCharacters request.texts with
  | error error => simp [hlimits] at h
  | ok u =>
    cases hmodel : service.extractionService.resolveModel request with
    | error error => simp [hlimits, hmodel] at h
    | ok model =>
      simp only [hlimits, hmodel] at h ⊢
      unfold createTask at h ⊢
      generalize insertTask taskId ownerId request.schema.modelDump (service.modelSnapshot model)
        (request.texts.map fun source => (source.id, source.text)) now (service.retention +ᵥ now) db = inserted at h ⊢
      obtain ⟨answer, after⟩ := inserted
      cases answer with
      | error error => simp at h
      | ok done =>
        dsimp only at h ⊢
        cases hread : getStatus taskId ownerId after with
        | error error => simp [hread] at h
        | ok found =>
          cases found with
          | none => simp [hread] at h
          | some found =>
            simp only [hread] at h ⊢
            cases h
            rfl

/-- The task that an accepted submission leaves, and the answer about it. -/
theorem submit_ok (hc : db.Closed) (h : (service.submit taskId ownerId request now db).1 = .ok task) :
    ∃ cj mj, (service.submit taskId ownerId request now db).2.view taskId =
        some (newAggregate taskId ownerId cj mj (request.texts.map fun source => (source.id, source.text)) now
          (service.retention +ᵥ now)) ∧
      task = (newTask taskId ownerId cj mj request.texts.length now (service.retention +ᵥ now)).statusProjection.record
        false := by
  rcases submit_cases hc taskId ownerId request now with ⟨error, he⟩ | ⟨model, cj, mj, r, -, -, -, -, -, hrep⟩
  · rw [he] at h
    cases h
  · refine ⟨cj, mj, hrep.view_self, ?_⟩
    have hne : request.texts.map (fun source => (source.id, source.text)) ≠ [] := by
      simpa using request.texts_ne
    have hinv := Aggregate.inv_newAggregate taskId ownerId cj mj hne now (service.retention +ᵥ now)
    have hread := getStatus_of_view hinv hrep.view_self ownerId
    rw [getStatus_of_submit h, if_pos (show (newAggregate taskId ownerId cj mj _ now _).row.ownerId = ownerId from rfl)]
      at hread
    have heq := Option.some.inj (Except.ok.inj hread)
    rw [heq]
    simp [newAggregate]

end Submit

/-- The response shows a queued task with nothing done. -/
structure Schemas.TaskStatusResponse.Created (response : Schemas.TaskStatusResponse ℤ) (uuid : Uuid) (accepted : ℕ)
    (now expiresAt : ℤ) : Prop where
  taskId : response.taskId = uuid
  status : response.status = .queued
  accepted : response.progress.accepted = accepted
  processed : response.progress.processed = 0
  successful : response.progress.successful = 0
  failed : response.progress.failed = 0
  createdAt : response.createdAt = now
  updatedAt : response.updatedAt = now
  expiresAt : response.expiresAt = expiresAt
  error : response.error = none

/-- A later response about the same task. -/
structure Schemas.TaskStatusResponse.Follows (later earlier : Schemas.TaskStatusResponse ℤ) : Prop where
  taskId : later.taskId = earlier.taskId
  createdAt : later.createdAt = earlier.createdAt
  expiresAt : later.expiresAt = earlier.expiresAt
  accepted : later.progress.accepted = earlier.progress.accepted
  status : earlier.status.rank ≤ later.status.rank
  processed : earlier.progress.processed ≤ later.progress.processed
  successful : earlier.progress.successful ≤ later.progress.successful
  failed : earlier.progress.failed ≤ later.progress.failed
  updatedAt : earlier.updatedAt ≤ later.updatedAt

namespace Application
variable {app : Application} {credentials : Option HTTPAuthorizationCredentials} {principal : AuthenticatedPrincipal}
  {payload : BatchInput} {uuid : Uuid} {now : ℤ} {db : Db ℤ}

/-- A body is accepted when it is within the limits and its expiry is a time. -/
def Accepts (app : Application) (payload : BatchInput) (now : ℤ) : Prop :=
  payload.Acceptable app.taskService.maxTexts app.taskService.maxCharacters ∧ payload.texts.length ≤ 100 ∧
    app.inRange (app.taskService.retention +ᵥ now) = true

theorem respond_createExtractionTask (hprincipal : app.getAuthenticatedPrincipal credentials = .ok principal) :
    app.respond credentials (.createExtractionTask payload) uuid now db =
      match app.createExtractionTask principal.ownerId payload uuid now db with
      | (.ok response, db) => (response, db)
      | (.error error, db) => (handleException error, db) := by
  unfold respond handle
  generalize app.getAuthenticatedPrincipal credentials = answer at hprincipal ⊢
  subst hprincipal
  rfl

/-- What is refused leaves the store as it was. -/
theorem create_refused (hprincipal : app.getAuthenticatedPrincipal credentials = .ok principal)
    (hnot : ¬ app.Accepts payload now) :
    (app.respond credentials (.createExtractionTask payload) uuid now db).2 = db ∧
    ((app.respond credentials (.createExtractionTask payload) uuid now db).1.status = .unprocessableEntity ∨
      (app.respond credentials (.createExtractionTask payload) uuid now db).1.status = .requestEntityTooLarge ∨
      (app.respond credentials (.createExtractionTask payload) uuid now db).1.status = .internalServerError ∧
        app.inRange (app.taskService.retention +ᵥ now) = false) := by
  rw [respond_createExtractionTask hprincipal]
  cases hvalid : payload.validate 100 with
  | error errors =>
    rw [createExtractionTask_of_invalid hvalid]
    exact ⟨rfl, .inl rfl⟩
  | ok request =>
    cases hrange : app.inRange (app.taskService.retention +ᵥ now) with
    | false =>
      have hout : ∃ error, app.createExtractionTask principal.ownerId payload uuid now db =
          (.error (.rejected (.extraction error)), db) := createExtractionTask_of_outOfRange hvalid hrange
      obtain ⟨error, heq⟩ := hout
      rw [heq]
      refine ⟨rfl, ?_⟩
      cases error with
      | request => exact .inl rfl
      | volume => exact .inr (.inl rfl)
      | raised => exact .inr (.inr ⟨rfl, rfl⟩)
    | true =>
      rw [createExtractionTask_eq hvalid hrange]
      cases hlimits : checkLimits app.taskService.maxTexts app.taskService.maxCharacters request.texts with
      | error error =>
        have hsubmit : app.taskService.submit uuid.text principal.ownerId request now db = (.error error, db) := by
          unfold ExtractionTaskService.submit
          simp only [hlimits]
        rw [hsubmit]
        refine ⟨rfl, ?_⟩
        unfold checkLimits at hlimits
        split_ifs at hlimits <;> cases hlimits
        · exact .inl rfl
        · exact .inr (.inl rfl)
      | ok u =>
        obtain ⟨hacc, hlength⟩ := exists_within_limits_iff.1 ⟨request, hvalid, hlimits⟩
        exact absurd ⟨hacc, hlength, hrange⟩ hnot

/-- What is accepted is answered with its location. -/
theorem create_accepted (hconforms : app.Conforms) (hc : db.Closed) (hfresh : db.view uuid.text = none)
    (hprincipal : app.getAuthenticatedPrincipal credentials = .ok principal) (hacc : app.Accepts payload now) :
    ∃ request task response, payload.validate 100 = .ok request ∧
      (app.taskService.submit uuid.text principal.ownerId request now db).1 = .ok task ∧
      app.respond credentials (.createExtractionTask payload) uuid now db =
        ({ status := .accepted, headers := [("Location", "/extraction-tasks/" ++ uuid.text)], body := .status response },
          (app.taskService.submit uuid.text principal.ownerId request now db).2) ∧
      response.Created uuid request.texts.length now (app.taskService.retention +ᵥ now) := by
  obtain ⟨request, hvalid, hlimits⟩ := exists_within_limits_iff.2 ⟨hacc.1, hacc.2.1⟩
  rw [respond_createExtractionTask hprincipal, createExtractionTask_eq hvalid hacc.2.2]
  rcases ExtractionTaskService.submitWithin_cases app.taskService app.inRange principal.ownerId now hconforms.catalog hc
    hfresh request with ⟨error, heq, -, hnot⟩ | ⟨task, hok, -, -⟩
  · exact absurd ⟨hlimits, hacc.2.2⟩ hnot
  rw [ExtractionTaskService.submitWithin_eq_submit hacc.2.2] at hok
  obtain ⟨cj, mj, hview, htask⟩ := submit_ok hc hok
  have hpos : 0 < request.texts.length := List.length_pos_iff.2 request.texts_ne
  have hshown : ∃ response, app.taskStatusResponse task = .ok response ∧ response.Shows uuid
      (newTask uuid.text principal.ownerId cj mj request.texts.length now (app.taskService.retention +ᵥ now)) :=
    app.taskStatusResponse_ok rfl hpos ⟨none, rfl⟩ false (.inr htask)
  obtain ⟨response, hresponse, hshows⟩ := hshown
  have hid : task.taskId = uuid.text := by
    rw [htask]
    rfl
  have herror : response.error = none := by
    have hfault := hshows.error
    cases herror : response.error with
    | none => rfl
    | some failure =>
      rw [herror] at hfault
      cases hfault.1
  refine ⟨request, task, response, hvalid, hok, ?_, ⟨hshows.taskId, hshows.status, hshows.accepted, hshows.processed,
    hshows.successful, hshows.failed, hshows.createdAt, hshows.updatedAt, hshows.expiresAt, herror⟩⟩
  generalize app.taskService.submit uuid.text principal.ownerId request now db = answer at hok ⊢
  obtain ⟨answer, after⟩ := answer
  cases hok
  simp only [hresponse, hid]

/-! ### Following the location -/

/-- What `POST /extraction-tasks` and the location it answers say. -/
structure CreationLaw (app : Application) (s : System ℤ) (now : ℤ) (credentials : Option HTTPAuthorizationCredentials)
    (principal : AuthenticatedPrincipal) (uuid : Uuid) (payload : BatchInput) : Prop where
  /-- A body outside the limits is refused and changes nothing; a 500 is an expiry beyond the calendar. -/
  refused : ¬ app.Accepts payload now →
    (app.respond credentials (.createExtractionTask payload) uuid now s.db).2 = s.db ∧
    ((app.respond credentials (.createExtractionTask payload) uuid now s.db).1.status = .unprocessableEntity ∨
      (app.respond credentials (.createExtractionTask payload) uuid now s.db).1.status = .requestEntityTooLarge ∨
      (app.respond credentials (.createExtractionTask payload) uuid now s.db).1.status = .internalServerError ∧
        app.inRange (app.taskService.retention +ᵥ now) = false)
  /-- Any other is accepted, and its location answers its owner, and nobody else, until it expires. -/
  accepted : app.Accepts payload now → ∃ path response,
    (app.respond credentials (.createExtractionTask payload) uuid now s.db).1 =
      { status := .accepted, headers := [("Location", path)], body := .status response } ∧
    response.Created uuid payload.texts.length now (app.taskService.retention +ᵥ now) ∧
    ∃ endpoint, routeGet path = some endpoint ∧
      ∀ labels s' t, Run app.Step (app.serve credentials (.createExtractionTask payload) uuid now s) labels s' →
        (∀ l ∈ labels, ∀ time ∈ l.times, now ≤ time ∧ time ≤ t) → now ≤ t → t < app.taskService.retention + now →
        app.inRange (-app.taskService.tombstone +ᵥ t) = true →
        ∀ credentials' reader, app.getAuthenticatedPrincipal credentials' = .ok reader → ∀ fresh,
          if reader.ownerId = principal.ownerId then
            ∃ later, (app.respond credentials' endpoint fresh t s'.db).1 = { status := .ok, body := .status later } ∧
              later.Follows response
          else (app.respond credentials' endpoint fresh t s'.db).1 = handleException (.task .taskNotFound)

/-- A created task answers as its row, whatever came after. -/
theorem Shows.follows {response later : Schemas.TaskStatusResponse ℤ} {accepted : ℕ} {expiresAt : ℤ} {a a' : Aggregate ℤ}
    (hcreated : response.Created uuid accepted now expiresAt) (hlater : later.Shows uuid a'.row) (h : a.Since now a')
    (hrow : a.row.acceptedCount = accepted ∧ a.row.createdAt = now ∧ a.row.updatedAt = now ∧ a.row.expiresAt = expiresAt) :
    later.Follows response where
  taskId := hlater.taskId.trans hcreated.taskId.symm
  createdAt := by rw [hlater.createdAt, h.createdAt, hrow.2.1, hcreated.createdAt]
  expiresAt := by rw [hlater.expiresAt, h.expiresAt, hrow.2.2.2, hcreated.expiresAt]
  accepted := by rw [hlater.accepted, h.accepted, hrow.1, hcreated.accepted]
  status := by
    rw [hcreated.status]
    exact Nat.zero_le _
  processed := by
    rw [hcreated.processed]
    exact Nat.zero_le _
  successful := by
    rw [hcreated.successful]
    exact Nat.zero_le _
  failed := by
    rw [hcreated.failed]
    exact Nat.zero_le _
  updatedAt := by
    rw [hcreated.updatedAt, hlater.updatedAt]
    rcases h.updatedAt with heq | hle
    · rw [heq, hrow.2.2.1]
    · exact hle

/-- Reads of a created task that is still live, after any run. -/
theorem respond_of_created {s : System ℤ} {t : ℤ} {sub : Submission ℤ} {a : Aggregate ℤ}
    {response : Schemas.TaskStatusResponse ℤ} {accepted : ℕ} {expiresAt : ℤ} {reader : AuthenticatedPrincipal}
    (hconforms : app.Conforms) (htombstone : 0 < app.taskService.tombstone)
    (hreachable : System.Reachable app.taskService s) (htimely : s.Timely app.taskService t)
    (hclock : app.inRange (-app.taskService.tombstone +ᵥ t) = true)
    (hsub : s.accepted uuid.text = some sub) (hlive : t < sub.expiresAt)
    (hsucc : System.Succeeds now (some a) (s.db.view uuid.text)) (hcreated : response.Created uuid accepted now expiresAt)
    (hrow : a.row.acceptedCount = accepted ∧ a.row.createdAt = now ∧ a.row.updatedAt = now ∧ a.row.expiresAt = expiresAt)
    (hreader : app.getAuthenticatedPrincipal credentials = .ok reader) (fresh : Uuid) :
    if reader.ownerId = sub.ownerId then
      ∃ later, (app.respond credentials (.getExtractionTask uuid.text) fresh t s.db).1 =
        { status := .ok, body := .status later } ∧ later.Follows response
    else
      (app.respond credentials (.getExtractionTask uuid.text) fresh t s.db).1 = handleException (.task .taskNotFound) := by
  have hparse : Uuid.parse app.unicode uuid.text = some uuid := Uuid.parse_text _ uuid
  split
  · rename_i hsame
    have hanswered := read_owned hconforms htombstone hreachable htimely hclock hreader hparse hsub hsame.symm fresh
    have hphase : sub.phase app.taskService.tombstone t = .live := if_pos hlive
    rw [Answered, hphase] at hanswered
    obtain ⟨a', hv', ⟨later, hlater, hshows⟩, -⟩ := hanswered
    rw [hv'] at hsucc
    cases hsucc with
    | since hsince => exact ⟨later, hlater, Shows.follows hcreated hshows hsince hrow⟩
  · rename_i hother
    refine (read_hidden hreachable.inv hclock hreader (fun uuid' sub' huuid hsub' => ?_) fresh).1
    rw [hparse] at huuid
    cases huuid
    rw [hsub] at hsub'
    cases hsub'
    exact fun heq => hother heq.symm

/-- The system after an accepted request. -/
theorem serve_of_accepts (uuid : Uuid) (hconforms : app.Conforms) {s : System ℤ} (hc : s.db.Closed)
    (hprincipal : app.getAuthenticatedPrincipal credentials = .ok principal) {request : ExtractionTaskRequest}
    {task : ExtractionTaskRecord ℤ} (hvalid : payload.validate 100 = .ok request)
    (hrange : app.inRange (app.taskService.retention +ᵥ now) = true)
    (hok : (app.taskService.submit uuid.text principal.ownerId request now s.db).1 = .ok task) :
    ∃ sub a, (app.serve credentials (.createExtractionTask payload) uuid now s).accepted uuid.text = some sub ∧
      sub.ownerId = principal.ownerId ∧ sub.request = request ∧ sub.expiresAt = app.taskService.retention + now ∧
      (app.serve credentials (.createExtractionTask payload) uuid now s).db.view uuid.text = some a ∧
      a.row.acceptedCount = request.texts.length ∧ a.row.createdAt = now ∧ a.row.updatedAt = now ∧
      a.row.expiresAt = app.taskService.retention +ᵥ now := by
  have hsubmission : app.submission credentials (.createExtractionTask payload) now =
      some (principal.ownerId, request) := by
    unfold submission
    simp only [hprincipal, hvalid, hrange, if_true]
  have hserve : app.serve credentials (.createExtractionTask payload) uuid now s =
      s.submit app.taskService uuid.text principal.ownerId request now := by
    rcases serve_cases app credentials (.createExtractionTask payload) uuid now s with
      ⟨ownerId, request', hsome, heq⟩ | ⟨hnone, -⟩
    · rw [hsubmission] at hsome
      cases hsome
      exact heq
    · rw [hsubmission] at hnone
      cases hnone
  obtain ⟨name, version, hcatalog⟩ := hconforms.catalog (request.model.map ModelSelection.name)
    (request.model.bind ModelSelection.version)
  have hmodel : app.taskService.extractionService.resolveModel request = .ok ⟨.str name, .str version⟩ := hcatalog
  obtain ⟨cj, mj, hview, -⟩ := submit_ok hc hok
  rw [hserve]
  refine ⟨⟨principal.ownerId, request, ⟨.str name, .str version⟩, app.taskService.retention +ᵥ now⟩, _, ?_, rfl, rfl, rfl,
    hview, ?_, rfl, rfl, rfl⟩
  · rw [System.submit]
    simp only [hok, hmodel, Function.update_self]
  · simp [newAggregate, newTask]

/-- What a request created is still there after any later run. -/
theorem later_of_served {labels labels' : List ApiLabel} {s s' : System ℤ} {endpoint : Endpoint} {t : ℤ}
    {sub : Submission ℤ} {a : Aggregate ℤ} (h : Run app.Step System.init labels s)
    (htimes : ∀ l ∈ labels, ∀ time ∈ l.times, time ≤ now) (hfresh : s.accepted uuid.text = none)
    (hsub : (app.serve credentials endpoint uuid now s).accepted uuid.text = some sub)
    (hview : (app.serve credentials endpoint uuid now s).db.view uuid.text = some a)
    (hrun' : Run app.Step (app.serve credentials endpoint uuid now s) labels' s')
    (htimes' : ∀ l ∈ labels', ∀ time ∈ l.times, now ≤ time ∧ time ≤ t) (hle : now ≤ t) :
    System.Reachable app.taskService s' ∧ s'.Timely app.taskService t ∧ s'.accepted uuid.text = some sub ∧
      System.Succeeds now (some a) (s'.db.view uuid.text) := by
  have hrequest : app.Step s (.request credentials endpoint uuid now) (app.serve credentials endpoint uuid now s) :=
    .request hfresh
  have hserved := h.snoc hrequest
  have hlabels : ∀ l ∈ labels ++ [.request credentials endpoint uuid now] ++ labels', ∀ time ∈ l.times, time ≤ t := by
    intro l hl time htime
    rcases List.mem_append.1 hl with hl | hl
    · rcases List.mem_append.1 hl with hl | hl
      · exact (htimes l hl time htime).trans hle
      · rw [List.mem_singleton.1 hl] at htime
        rw [List.mem_singleton.1 htime]
        exact hle
    · exact (htimes' l hl time htime).2
  obtain ⟨hreachable, htimely⟩ := Run.reachable (hserved.append hrun') hlabels
  obtain ⟨labels₁, hrun₁, htimes₁⟩ := Run.system hrun'
  obtain ⟨labels₂, hrun₂, -⟩ := Run.system hserved
  have hinv := System.Run.inv hrun₂ System.inv_init
  have hsucc := System.Run.succeeds hrun₁ hinv (fun l hl time htime => by
    obtain ⟨k, hk, heq⟩ := htimes₁ l hl
    rw [heq] at htime
    exact (htimes' k hk time htime).1) hsub
  rw [hview] at hsucc
  exact ⟨hreachable, htimely, System.Run.accepted hrun₁ hsub, hsucc⟩

/-- Over every run of the API, a submission under a fresh id is answered as `CreationLaw` says. -/
theorem create_law (hconforms : app.Conforms) (htombstone : 0 < app.taskService.tombstone) {labels : List ApiLabel}
    {s : System ℤ} (h : Run app.Step System.init labels s) (htimes : ∀ l ∈ labels, ∀ time ∈ l.times, time ≤ now)
    (hprincipal : app.getAuthenticatedPrincipal credentials = .ok principal) (hfresh : s.accepted uuid.text = none)
    (payload : BatchInput) : app.CreationLaw s now credentials principal uuid payload := by
  have hinv : s.Inv app.taskService := (Run.reachable h htimes).1.inv
  have hview : s.db.view uuid.text = none := hinv.view_eq_none hfresh
  refine ⟨create_refused hprincipal, fun hacc => ?_⟩
  · obtain ⟨request, task, response, hvalid, hok, hrespond, hcreated⟩ :=
      create_accepted hconforms hinv.closed hview hprincipal hacc
    have hlength : request.texts.length = payload.texts.length :=
      (BatchInput.validate_eq_ok_iff.1 hvalid).texts.length_eq.symm
    rw [hlength] at hcreated
    refine ⟨_, response, by rw [hrespond], hcreated, _, (routeGet_location uuid).1, ?_⟩
    intro labels' s' t hrun' htimes' hle hlt hclock credentials' reader hreader fresh
    obtain ⟨sub, a, hsub, howner, -, hexpires, hview', hcount, hcreatedAt, hupdatedAt, hexpiresAt⟩ :=
      serve_of_accepts uuid hconforms hinv.closed hprincipal hvalid hacc.2.2 hok
    obtain ⟨hreachable, htimely, hlater, hsucc⟩ := later_of_served h htimes hfresh hsub hview' hrun' htimes' hle
    rw [← howner]
    exact respond_of_created hconforms htombstone hreachable htimely hclock hlater (by rw [hexpires]; exact hlt) hsucc
      hcreated ⟨hcount.trans hlength, hcreatedAt, hupdatedAt, hexpiresAt⟩ hreader fresh

/-- One source submitted to the stub application, which accepts it. -/
theorem create_law_example : stubApplication.Accepts (plainBody 1) 0 ∧
    stubApplication.CreationLaw System.init 0 (some ⟨"bearer", "token"⟩) ⟨"o"⟩ ⟨1, by decide⟩ (plainBody 1) :=
  ⟨⟨plainBody_acceptable (by decide) (by decide) (by decide), by decide, rfl⟩,
    create_law stubApplication_conforms (by decide) (.nil _) (by simp) stubApplication_principal.1 rfl _⟩

end Application

end TextExtraction
