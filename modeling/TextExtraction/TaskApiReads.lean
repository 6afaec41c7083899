import TextExtraction.TaskApiResponses
import TextExtraction.TaskOwners

/-!
# What the API answers

Every request is a maintenance, a submission or nothing to the system behind it
(`Application.Run.system`), so what holds of its runs holds here. Over them, the reads: without a
principal every answer is one 401; a task that is somebody else's, an id that never was and a text that
is no UUID are one 404; and the owner's answer is a function of time and of the stored task, never a 500
(`Application.read_law`). Without an injected authenticator there is nothing to read
(`Application.createApp_rejects`).
-/

namespace TextExtraction

open Python Relational Transition

namespace Application
variable {app : Application} {s s' : System ℤ}

/-! ### Requests as steps of the system -/

section Create
variable {ownerId : String} {payload : BatchInput} {request : ExtractionTaskRequest} {uuid : Uuid} {now : ℤ} {db : Db ℤ}

/-- The handler over `submit`, where the expiry is a time. -/
theorem createExtractionTask_eq (hvalid : payload.validate 100 = .ok request)
    (hrange : app.inRange (app.taskService.retention +ᵥ now) = true) :
    app.createExtractionTask ownerId payload uuid now db =
      match app.taskService.submit uuid.text ownerId request now db with
      | (.error error, db) => (.error (.rejected (.extraction error)), db)
      | (.ok task, db) =>
        (match app.taskStatusResponse task with
          | .error error => .error error
          | .ok response => .ok
            { status := .accepted, headers := [("Location", "/extraction-tasks/" ++ task.taskId)]
              body := .status response }, db) := by
  unfold createExtractionTask ExtractionTaskService.createExtractionTask
  simp only [hvalid, ExtractionTaskService.submitWithin_eq_submit hrange]
  generalize app.taskService.submit uuid.text ownerId request now db = answer
  obtain ⟨answer, db'⟩ := answer
  cases answer with
  | error error => rfl
  | ok task => rfl

theorem createExtractionTask_of_invalid {errors : List ValidationError} (hvalid : payload.validate 100 = .error errors) :
    app.createExtractionTask ownerId payload uuid now db = (.error (.rejected (.validation errors)), db) := by
  unfold createExtractionTask ExtractionTaskService.createExtractionTask
  simp only [hvalid]

theorem createExtractionTask_of_outOfRange (hvalid : payload.validate 100 = .ok request)
    (hrange : app.inRange (app.taskService.retention +ᵥ now) = false) :
    ∃ error, app.createExtractionTask ownerId payload uuid now db = (.error (.rejected (.extraction error)), db) := by
  unfold createExtractionTask ExtractionTaskService.createExtractionTask ExtractionTaskService.submitWithin addTimedelta
  simp only [hvalid, hrange]
  cases checkLimits app.taskService.maxTexts app.taskService.maxCharacters request.texts with
  | error error => exact ⟨error, rfl⟩
  | ok u =>
    cases app.taskService.extractionService.resolveModel request with
    | error error => exact ⟨.raised error, rfl⟩
    | ok model => exact ⟨_, rfl⟩

end Create

section Serve
variable {credentials : Option HTTPAuthorizationCredentials} {uuid : Uuid} {now : ℤ}

theorem snd_respond (endpoint : Endpoint) (db : Db ℤ) :
    (app.respond credentials endpoint uuid now db).2 = (app.handle credentials endpoint uuid now db).2 := by
  unfold respond
  generalize app.handle credentials endpoint uuid now db = answer
  obtain ⟨answer, db'⟩ := answer
  cases answer <;> rfl

/-- What a read leaves: the store as it was, or after maintenance. -/
theorem snd_getExtractionTask (ownerId taskId : String) (db : Db ℤ) :
    (app.getExtractionTask ownerId taskId now db).2 = db ∨
      (app.getExtractionTask ownerId taskId now db).2 = app.taskService.maintainRetention now db := by
  unfold getExtractionTask
  cases app.validateTaskId taskId with
  | error error => exact .inl rfl
  | ok id =>
    cases app.retentionCutoff now with
    | error error => exact .inl rfl
    | ok cutoff =>
      have hsnd : (app.taskService.getStatus ownerId id now db).2 = app.taskService.maintainRetention now db :=
        snd_getStatus ownerId id now db
      dsimp only
      generalize app.taskService.getStatus ownerId id now db = answer at hsnd
      obtain ⟨answer, db'⟩ := answer
      refine .inr ?_
      cases answer with
      | error error => exact hsnd
      | ok task => exact hsnd

theorem snd_getExtractionTaskResults (ownerId taskId : String) (db : Db ℤ) :
    (app.getExtractionTaskResults ownerId taskId now db).2 = db ∨
      (app.getExtractionTaskResults ownerId taskId now db).2 = app.taskService.maintainRetention now db := by
  unfold getExtractionTaskResults
  cases app.validateTaskId taskId with
  | error error => exact .inl rfl
  | ok id =>
    cases app.retentionCutoff now with
    | error error => exact .inl rfl
    | ok cutoff =>
      have hsnd : (app.taskService.getResults ownerId id now db).2 = app.taskService.maintainRetention now db := rfl
      dsimp only
      generalize app.taskService.getResults ownerId id now db = answer at hsnd
      obtain ⟨answer, db'⟩ := answer
      refine .inr ?_
      cases answer with
      | error error => exact hsnd
      | ok results => exact hsnd

theorem snd_getRunningTaskSummary (ownerId : String) (db : Db ℤ) :
    (app.getRunningTaskSummary ownerId now db).2 = db ∨
      (app.getRunningTaskSummary ownerId now db).2 = app.taskService.maintainRetention now db := by
  unfold getRunningTaskSummary
  cases app.retentionCutoff now with
  | error error => exact .inl rfl
  | ok cutoff => exact .inr rfl

/-- A request that submits nothing leaves the store as it was, or after maintenance. -/
theorem snd_handle_of_none (uuid : Uuid) {endpoint : Endpoint} (h : app.submission credentials endpoint now = none)
    (db : Db ℤ) :
    (app.handle credentials endpoint uuid now db).2 = db ∨
      (app.handle credentials endpoint uuid now db).2 = app.taskService.maintainRetention now db := by
  unfold submission at h
  unfold handle
  cases endpoint with
  | createExtraction payload => exact .inl rfl
  | getRunningTaskSummary =>
    cases app.getAuthenticatedPrincipal credentials with
    | error error => exact .inl rfl
    | ok principal => exact snd_getRunningTaskSummary principal.ownerId db
  | getExtractionTask taskId =>
    cases app.getAuthenticatedPrincipal credentials with
    | error error => exact .inl rfl
    | ok principal => exact snd_getExtractionTask principal.ownerId taskId db
  | getExtractionTaskResults taskId =>
    cases app.getAuthenticatedPrincipal credentials with
    | error error => exact .inl rfl
    | ok principal => exact snd_getExtractionTaskResults principal.ownerId taskId db
  | createExtractionTask payload =>
    cases hprincipal : app.getAuthenticatedPrincipal credentials with
    | error error => exact .inl rfl
    | ok principal =>
      dsimp only
      cases hvalid : payload.validate 100 with
      | error errors =>
        rw [createExtractionTask_of_invalid hvalid]
        exact .inl rfl
      | ok request =>
        have hrange : app.inRange (app.taskService.retention +ᵥ now) = false := by
          rw [hprincipal] at h
          simpa only [hvalid, ite_eq_right_iff, reduceCtorEq, imp_false, Bool.not_eq_true] using h
        have hout : ∃ error, app.createExtractionTask principal.ownerId payload uuid now db =
            (.error (.rejected (.extraction error)), db) := createExtractionTask_of_outOfRange hvalid hrange
        obtain ⟨error, heq⟩ := hout
        rw [heq]
        exact .inl rfl

/-- A request that submits leaves the store as the submission does. -/
theorem snd_handle_of_some {endpoint : Endpoint} {ownerId : String} {request : ExtractionTaskRequest}
    (h : app.submission credentials endpoint now = some (ownerId, request)) (db : Db ℤ) :
    (app.handle credentials endpoint uuid now db).2 =
      (app.taskService.submit uuid.text ownerId request now db).2 := by
  unfold submission at h
  split at h
  · rename_i payload principal hprincipal
    split at h
    · rename_i hvalid
      split_ifs at h with hrange
      cases h
      rw [handle, hprincipal]
      dsimp only
      rw [createExtractionTask_eq hvalid hrange]
      generalize app.taskService.submit uuid.text principal.ownerId request now db = answer
      obtain ⟨answer, db'⟩ := answer
      cases answer <;> rfl
    · cases h
  · cases h

theorem submission_of_error {endpoint : Endpoint} {error : HandlerError}
    (h : app.getAuthenticatedPrincipal credentials = .error error) : app.submission credentials endpoint now = none := by
  unfold submission
  rw [h]
  cases endpoint <;> rfl

/-- A request that submits does to the system what the submission does. -/
theorem serve_of_submission {endpoint : Endpoint} {ownerId : String} {request : ExtractionTaskRequest}
    (h : app.submission credentials endpoint now = some (ownerId, request)) (uuid : Uuid) (s : System ℤ) :
    app.serve credentials endpoint uuid now s = s.submit app.taskService uuid.text ownerId request now := by
  rw [serve, snd_respond, snd_handle_of_some h]
  simp only [h]
  rfl

/-- A request that submits, as a step. -/
theorem Step.submits {endpoint : Endpoint} {ownerId : String} {request : ExtractionTaskRequest}
    (h : app.submission credentials endpoint now = some (ownerId, request)) (uuid : Uuid)
    (hfresh : s.accepted uuid.text = none) :
    app.Step s (.request credentials endpoint uuid now) (s.submit app.taskService uuid.text ownerId request now) :=
  serve_of_submission h uuid s ▸ .request hfresh

/-- A request submits, maintains or leaves the system alone. -/
theorem serve_cases (app : Application) (credentials : Option HTTPAuthorizationCredentials) (endpoint : Endpoint)
    (uuid : Uuid) (now : ℤ) (s : System ℤ) :
    (∃ ownerId request, app.submission credentials endpoint now = some (ownerId, request) ∧
      app.serve credentials endpoint uuid now s = s.submit app.taskService uuid.text ownerId request now) ∨
    app.submission credentials endpoint now = none ∧
      (app.serve credentials endpoint uuid now s = s ∨
        app.serve credentials endpoint uuid now s = s.maintain app.taskService now) := by
  cases hsubmission : app.submission credentials endpoint now with
  | none =>
    refine .inr ⟨rfl, ?_⟩
    rcases snd_handle_of_none uuid hsubmission s.db with hdb | hdb
    · left
      rw [serve, snd_respond, hdb]
      simp only [hsubmission]
    · right
      rw [serve, snd_respond, hdb]
      simp only [hsubmission]
      rfl
  | some submitted => exact .inl ⟨_, _, rfl, serve_of_submission hsubmission uuid s⟩

end Serve

/-- A step of the API is a step of the system at the same time, or none. -/
theorem Step.system {l : ApiLabel} (h : app.Step s l s') :
    s' = s ∨ ∃ l', System.Step app.taskService s l' s' ∧ l'.times = l.times := by
  cases h with
  | @request credentials endpoint uuid now hfresh =>
    rcases serve_cases app credentials endpoint uuid now s with
      ⟨ownerId, request, -, heq⟩ | ⟨-, heq | heq⟩
    · rw [heq]
      exact .inr ⟨_, .submit hfresh, rfl⟩
    · exact .inl heq
    · rw [heq]
      exact .inr ⟨_, .maintain, rfl⟩
  | work => exact .inr ⟨_, .work, rfl⟩
  | crash => exact .inr ⟨_, .crash, rfl⟩
  | maintain => exact .inr ⟨_, .maintain, rfl⟩

/-- A run of the API is a run of the system, at no other times. -/
theorem Run.system {labels : List ApiLabel} (h : Run app.Step s labels s') :
    ∃ labels', Run (System.Step app.taskService) s labels' s' ∧
      ∀ l' ∈ labels', ∃ l ∈ labels, l'.times = l.times := by
  induction h with
  | nil s => exact ⟨[], .nil s, by simp⟩
  | @cons s u s' l labels hstep _ ih =>
    obtain ⟨labels', hrun, htimes⟩ := ih
    have htimes' : ∀ l' ∈ labels', ∃ k ∈ l :: labels, l'.times = k.times := by
      intro l' hl'
      obtain ⟨k, hk, heq⟩ := htimes l' hl'
      exact ⟨k, by simp [hk], heq⟩
    rcases hstep.system with rfl | ⟨l', hl', heq⟩
    · exact ⟨labels', hrun, htimes'⟩
    · refine ⟨l' :: labels', .cons hl' hrun, fun k hk => ?_⟩
      rcases List.mem_cons.1 hk with rfl | hk
      · exact ⟨l, by simp, heq⟩
      · exact htimes' k hk

end Application

/-! ### The law of reads -/

namespace Application
variable (app : Application)

/-- What the owner of a submission is answered at `t`. -/
def Answered (t : ℤ) (s : System ℤ) (uuid : Uuid) (sub : Submission ℤ) (status results : Response ℤ) : Prop :=
  match sub.phase app.taskService.tombstone t with
  | .live => ∃ a, s.db.view uuid.text = some a ∧
      (∃ response, status = { status := .ok, body := .status response } ∧ response.Shows uuid a.row) ∧
      if a.row.status.isTerminal then
        ∃ response, results = { status := .ok, body := .results response } ∧ response.Shows app uuid a sub
      else
        results = { status := .conflict, body := .pending ⟨"Final task results are not yet available", a.row.status⟩ }
  | .expired => status = handleException (.task .taskExpired) ∧ results = handleException (.task .taskExpired)
  | .gone => status = handleException (.task .taskNotFound) ∧ results = handleException (.task .taskNotFound)

/-- What the reads at `t` answer. -/
structure ReadLaw (t : ℤ) (s : System ℤ) (credentials : Option HTTPAuthorizationCredentials) : Prop where
  /-- Without a principal, every task route gives the same 401 and touches nothing. -/
  unauthorized : ∀ error, app.getAuthenticatedPrincipal credentials = .error error →
    ∃ message, ∀ endpoint, (∀ payload, endpoint ≠ .createExtraction payload) → ∀ fresh,
      app.respond credentials endpoint fresh t s.db =
        ({ status := .unauthorized, headers := [("WWW-Authenticate", "Bearer")], body := .error { detail := message } },
          s.db)
  /-- What is not the principal's is not there, whatever the text of the id. -/
  hidden : ∀ principal, app.getAuthenticatedPrincipal credentials = .ok principal → ∀ taskId,
    (∀ uuid sub, Uuid.parse app.unicode taskId = some uuid → s.accepted uuid.text = some sub →
      sub.ownerId ≠ principal.ownerId) → ∀ fresh,
    (app.respond credentials (.getExtractionTask taskId) fresh t s.db).1 = handleException (.task .taskNotFound) ∧
    (app.respond credentials (.getExtractionTaskResults taskId) fresh t s.db).1 = handleException (.task .taskNotFound)
  /-- The principal's own tasks, under any spelling of the id. -/
  owned : ∀ principal, app.getAuthenticatedPrincipal credentials = .ok principal → ∀ taskId uuid sub,
    Uuid.parse app.unicode taskId = some uuid → s.accepted uuid.text = some sub → sub.ownerId = principal.ownerId →
    ∀ fresh, app.Answered t s uuid sub
      (app.respond credentials (.getExtractionTask taskId) fresh t s.db).1
      (app.respond credentials (.getExtractionTaskResults taskId) fresh t s.db).1

section Reads
variable {app} {credentials : Option HTTPAuthorizationCredentials} {principal : AuthenticatedPrincipal} {taskId : String}
  {uuid fresh : Uuid} {t : ℤ} {db : Db ℤ} {s : System ℤ}

theorem respond_of_malformed (hprincipal : app.getAuthenticatedPrincipal credentials = .ok principal)
    (huuid : Uuid.parse app.unicode taskId = none) :
    (app.respond credentials (.getExtractionTask taskId) fresh t db).1 = handleException (.task .taskNotFound) ∧
    (app.respond credentials (.getExtractionTaskResults taskId) fresh t db).1 = handleException (.task .taskNotFound) := by
  unfold respond handle getExtractionTask getExtractionTaskResults validateTaskId
  simp only [hprincipal, huuid, and_self]

/-- The handler of a status read over the service. -/
theorem respond_getExtractionTask (hprincipal : app.getAuthenticatedPrincipal credentials = .ok principal)
    (huuid : Uuid.parse app.unicode taskId = some uuid) (hclock : app.inRange (-app.taskService.tombstone +ᵥ t) = true) :
    (app.respond credentials (.getExtractionTask taskId) fresh t db).1 =
      match (app.taskService.getStatus principal.ownerId uuid.text t db).1 with
      | .error error => handleException (.task error)
      | .ok task =>
        match app.taskStatusResponse task with
        | .error error => handleException error
        | .ok response => { status := .ok, body := .status response } := by
  unfold respond handle getExtractionTask validateTaskId retentionCutoff addTimedelta
  simp only [hprincipal, huuid, hclock, if_true]
  generalize app.taskService.getStatus principal.ownerId uuid.text t db = answer
  obtain ⟨answer, db'⟩ := answer
  cases answer with
  | error error => rfl
  | ok task =>
    dsimp only
    cases app.taskStatusResponse task <;> rfl

/-- The handler of a results read over the service. -/
theorem respond_getExtractionTaskResults (hprincipal : app.getAuthenticatedPrincipal credentials = .ok principal)
    (huuid : Uuid.parse app.unicode taskId = some uuid) (hclock : app.inRange (-app.taskService.tombstone +ᵥ t) = true) :
    (app.respond credentials (.getExtractionTaskResults taskId) fresh t db).1 =
      match (app.taskService.getResults principal.ownerId uuid.text t db).1 with
      | .error error => handleException (.task error)
      | .ok results =>
        match app.taskResultsResponse results with
        | .error error => handleException error
        | .ok response => { status := .ok, body := .results response } := by
  unfold respond handle getExtractionTaskResults validateTaskId retentionCutoff addTimedelta
  simp only [hprincipal, huuid, hclock, if_true]
  generalize app.taskService.getResults principal.ownerId uuid.text t db = answer
  obtain ⟨answer, db'⟩ := answer
  cases answer with
  | error error => rfl
  | ok results =>
    dsimp only
    cases app.taskResultsResponse results <;> rfl

theorem getAuthenticatedPrincipal_error {error : HandlerError}
    (h : app.getAuthenticatedPrincipal credentials = .error error) :
    ∃ message, error = .unauthorized message := by
  unfold getAuthenticatedPrincipal at h
  split at h
  · cases h
    exact ⟨_, rfl⟩
  · split at h
    · cases h
      exact ⟨_, rfl⟩
    · split at h
      · cases h
        exact ⟨_, rfl⟩
      · cases h
        exact ⟨_, rfl⟩
      · split at h <;> cases h
        exact ⟨_, rfl⟩

/-- Whoever does not own a task is told what she is told of no task. -/
theorem reads_of_foreign {service : ExtractionTaskService} {ownerId id : String} (hinv : s.Inv service)
    (hforeign : ∀ sub, s.accepted id = some sub → sub.ownerId ≠ ownerId) :
    (service.getStatus ownerId id t s.db).1 = .error .taskNotFound ∧
    (service.getResults ownerId id t s.db).1 = .error .taskNotFound := by
  have hmaintained : (s.maintain service t).Inv service := System.Step.maintain.inv hinv
  have hresults : (service.getResults ownerId id t s.db).1 =
      ExtractionTaskService.readResults ownerId id (service.maintainRetention t s.db)
        (service.maintainRetention t s.db) := rfl
  cases hv : (service.maintainRetention t s.db).view id with
  | none => exact reads_of_none hv ownerId
  | some a =>
    have hainv := hmaintained.aggregate (show (s.maintain service t).db.view id = some a from hv)
    have hother : a.row.ownerId ≠ ownerId := by
      cases hsub : s.accepted id with
      | none =>
        have hnone := hmaintained.view_eq_none (show (s.maintain service t).accepted id = none from hsub)
        rw [show (s.maintain service t).db.view id = some a from hv] at hnone
        cases hnone
      | some sub =>
        have hholds := hmaintained.holds (show (s.maintain service t).accepted id = some sub from hsub) hv
        rw [hholds.ownerId]
        exact hforeign sub hsub
    rw [hresults, service_getStatus_of_view hainv hv, readResults_of_view hainv hv, if_neg hother, if_neg hother]
    exact ⟨rfl, rfl⟩

theorem read_unauthorized {error : HandlerError} (herror : app.getAuthenticatedPrincipal credentials = .error error) :
    ∃ message, ∀ endpoint, (∀ payload, endpoint ≠ .createExtraction payload) → ∀ fresh,
      app.respond credentials endpoint fresh t db =
        ({ status := .unauthorized, headers := [("WWW-Authenticate", "Bearer")], body := .error { detail := message } },
          db) := by
  obtain ⟨message, rfl⟩ := getAuthenticatedPrincipal_error herror
  refine ⟨message, fun endpoint hne fresh => ?_⟩
  cases endpoint with
  | createExtraction payload => exact absurd rfl (hne payload)
  | _ => simp only [respond, handle, herror]; rfl

theorem read_hidden (hinv : s.Inv app.taskService) (hclock : app.inRange (-app.taskService.tombstone +ᵥ t) = true)
    (hprincipal : app.getAuthenticatedPrincipal credentials = .ok principal)
    (hforeign : ∀ uuid sub, Uuid.parse app.unicode taskId = some uuid → s.accepted uuid.text = some sub →
      sub.ownerId ≠ principal.ownerId) (fresh : Uuid) :
    (app.respond credentials (.getExtractionTask taskId) fresh t s.db).1 = handleException (.task .taskNotFound) ∧
    (app.respond credentials (.getExtractionTaskResults taskId) fresh t s.db).1 =
      handleException (.task .taskNotFound) := by
  cases huuid : Uuid.parse app.unicode taskId with
  | none => exact respond_of_malformed hprincipal huuid
  | some uuid =>
    obtain ⟨hstatus, hresults⟩ := reads_of_foreign (t := t) hinv fun sub => hforeign uuid sub huuid
    rw [respond_getExtractionTask hprincipal huuid hclock, respond_getExtractionTaskResults hprincipal huuid hclock,
      hstatus, hresults]
    exact ⟨rfl, rfl⟩

theorem read_owned {sub : Submission ℤ} (hconforms : app.Conforms) (htombstone : 0 < app.taskService.tombstone)
    (hreachable : System.Reachable app.taskService s) (htimely : s.Timely app.taskService t)
    (hclock : app.inRange (-app.taskService.tombstone +ᵥ t) = true)
    (hprincipal : app.getAuthenticatedPrincipal credentials = .ok principal)
    (huuid : Uuid.parse app.unicode taskId = some uuid) (hsub : s.accepted uuid.text = some sub)
    (howner : sub.ownerId = principal.ownerId) (fresh : Uuid) :
    app.Answered t s uuid sub (app.respond credentials (.getExtractionTask taskId) fresh t s.db).1
      (app.respond credentials (.getExtractionTaskResults taskId) fresh t s.db).1 := by
  have hinv := hreachable.inv
  rw [respond_getExtractionTask hprincipal huuid hclock, respond_getExtractionTaskResults hprincipal huuid hclock,
    ← howner, Answered]
  rcases System.reads_cases hinv htimely hsub with
    ⟨hlt, a, hv, hpurged, htold⟩ | ⟨hle, hlt, hstatus, hresults⟩ | ⟨hle, hstatus, hresults⟩
  · have hphase : sub.phase app.taskService.tombstone t = .live := if_pos hlt
    have hainv := hinv.aggregate hv
    have hid : a.row.taskId = uuid.text := Db.view_taskId hv
    have hfault := hreachable.faulted hv
    obtain ⟨response, hresponse, hshows⟩ := app.taskStatusResponse_ok hid hainv.accepted_pos hfault false (.inr rfl)
    rw [hphase]
    refine ⟨a, hv, ⟨response, ?_, hshows⟩, ?_⟩
    · rw [htold.status]
      simp only [hresponse]
    · split
      · rename_i hterm
        obtain ⟨results, -, hok, hread⟩ := htold.ready hterm
        obtain ⟨response, hresponse, hshows⟩ := hconforms.taskResultsResponse (hinv.holds hsub hv) hainv hpurged hterm
          hfault (hreachable.resolved hsub) hid hread
        refine ⟨response, ?_, hshows⟩
        rw [hok]
        simp only [hresponse]
      · rename_i hrun
        rw [htold.pending (by simpa using hrun)]
        simp only [handleException, ExtractionTaskStatus.ofText_value]
  · have hphase : sub.phase app.taskService.tombstone t = .expired := by
      rw [Submission.phase, if_neg (by omega), if_pos hlt]
    rw [hphase, hstatus, hresults]
    exact ⟨rfl, rfl⟩
  · have hphase : sub.phase app.taskService.tombstone t = .gone := by
      rw [Submission.phase, if_neg (by omega), if_neg (by omega)]
    rw [hphase, hstatus, hresults]
    exact ⟨rfl, rfl⟩

end Reads

/-- What a run of the API reaches, at a time no earlier than any of it. -/
theorem Run.reachable {app : Application} {labels : List ApiLabel} {s : System ℤ}
    (h : Run app.Step System.init labels s) {t : ℤ} (htimes : ∀ l ∈ labels, ∀ now ∈ l.times, now ≤ t) :
    System.Reachable app.taskService s ∧ s.Timely app.taskService t := by
  obtain ⟨labels', hrun, htimes'⟩ := Run.system h
  refine ⟨⟨labels', hrun⟩, System.Run.timely hrun System.inv_init (fun l hl now hnow => ?_) fun id sub hsub => ?_⟩
  · obtain ⟨k, hk, heq⟩ := htimes' l hl
    rw [heq] at hnow
    exact htimes k hk now hnow
  · cases hsub

/-- Over every run of requests, worker steps and crashes, reads at a time no earlier than any of them answer as
`ReadLaw` says. -/
theorem read_law {app : Application} (hconforms : app.Conforms) (htombstone : 0 < app.taskService.tombstone)
    {labels : List ApiLabel} {s : System ℤ} (h : Run app.Step System.init labels s) {t : ℤ}
    (htimes : ∀ l ∈ labels, ∀ now ∈ l.times, now ≤ t) (hclock : app.inRange (-app.taskService.tombstone +ᵥ t) = true)
    (credentials : Option HTTPAuthorizationCredentials) : app.ReadLaw t s credentials := by
  obtain ⟨hreachable, htimely⟩ := Run.reachable h htimes
  exact {
    unauthorized := fun _ herror => read_unauthorized herror
    hidden := fun _ hprincipal _ hforeign => read_hidden hreachable.inv hclock hprincipal hforeign
    owned := fun _ hprincipal _ _ _ huuid hsub howner =>
      read_owned hconforms htombstone hreachable htimely hclock hprincipal huuid hsub howner }

/-! ### An application without an authenticator -/

section Unconfigured
variable {settings : Settings} {provider : Option InferenceProvider} {estimator : Option UncertaintyEstimator}
  {catalog : Option ModelCatalog} {inRange : ℤ → Bool} {decimal : Char → Option (Fin 10)}
  {optionalFloat : Value → Option (Option PyFloat)}

theorem createApp_principal (credentials : Option HTTPAuthorizationCredentials) : ∃ error,
    (createApp settings provider estimator catalog none inRange decimal optionalFloat).getAuthenticatedPrincipal
      credentials = .error error := by
  unfold getAuthenticatedPrincipal
  cases credentials with
  | none => exact ⟨_, rfl⟩
  | some credentials =>
    dsimp only
    split
    · exact ⟨_, rfl⟩
    · exact ⟨_, rfl⟩

/-- Until an authenticator is injected no task is accepted or stored, and every task route answers 401. -/
theorem createApp_rejects {labels : List ApiLabel} {s : System ℤ}
    (h : Run (createApp settings provider estimator catalog none inRange decimal optionalFloat).Step System.init labels s) :
    (∀ id, s.accepted id = none ∧ s.db.view id = none) ∧
    ∀ credentials t, ∃ message, ∀ endpoint, (∀ payload, endpoint ≠ .createExtraction payload) → ∀ fresh,
      (createApp settings provider estimator catalog none inRange decimal optionalFloat).respond credentials endpoint
        fresh t s.db =
          ({ status := .unauthorized, headers := [("WWW-Authenticate", "Bearer")], body := .error { detail := message } },
            s.db) := by
  have hnone : ∀ id, s.accepted id = none := by
    refine Run.invariant (P := fun s : System ℤ => ∀ id, s.accepted id = none) (fun s l s' hs hstep => ?_) h fun _ => rfl
    cases hstep with
    | @request credentials endpoint uuid now =>
      obtain ⟨error, herror⟩ := createApp_principal credentials
      rcases serve_cases _ credentials endpoint uuid now s with ⟨_, _, hsubmission, -⟩ | ⟨-, heq | heq⟩
      · rw [submission_of_error herror] at hsubmission
        cases hsubmission
      · rw [heq]
        exact hs
      · rw [heq]
        exact hs
    | work | crash | maintain => exact hs
  obtain ⟨labels', hrun, -⟩ := Run.system h
  have hinv : s.Inv _ := System.Run.inv hrun System.inv_init
  refine ⟨fun id => ⟨hnone id, hinv.view_eq_none (hnone id)⟩, fun credentials t => ?_⟩
  obtain ⟨error, herror⟩ := createApp_principal credentials
  exact read_unauthorized herror

end Unconfigured

end Application

/-- The stub service behind an authenticator with two tokens. -/
def stubApplication : Application where
  taskService := stubService []
  authenticate token :=
    if token = "token" then .ok ⟨"o"⟩
    else if token = "other" then .ok ⟨"p"⟩
    else .error (.unauthorized "Unknown token")
  inRange _ := true
  decimal _ := none
  optionalFloat value :=
    match value with
    | .none => some none
    | .float f => some (some f)
    | _ => none

theorem stubApplication_conforms : stubApplication.Conforms where
  catalog _ _ := ⟨_, _, rfl⟩
  estimator _ _ _ _ h := by
    cases h
    exact .inl rfl
  optionalFloat_none := rfl
  optionalFloat_float _ := rfl

theorem stubApplication_principal :
    stubApplication.getAuthenticatedPrincipal (some ⟨"bearer", "token"⟩) = .ok ⟨"o"⟩ ∧
    stubApplication.getAuthenticatedPrincipal (some ⟨"Bearer", "other"⟩) = .ok ⟨"p"⟩ := by
  have hscheme : "bearer".toLower = "bearer" ∧ "Bearer".toLower = "bearer" := by decide +kernel
  simp only [Application.getAuthenticatedPrincipal, hscheme]
  exact ⟨rfl, rfl⟩

theorem normalized_a : Normalized "a" := by decide

theorem normalized_x : Normalized "x" := by decide

/-- What `plainBody 2` is read as. -/
def plainRequest : ExtractionTaskRequest where
  texts := [⟨"a", "x", normalized_a, normalized_x⟩, ⟨"aa", "x", by decide, normalized_x⟩]
  schema := sampleSchema
  texts_ne := by simp
  texts_length := by simp
  ids_nodup := by decide

/-- Two owners submit a task each, and a worker finishes the first, claims the second and dies. -/
def sampleLabels : List ApiLabel :=
  [.request (some ⟨"bearer", "token"⟩) (.createExtractionTask (plainBody 2)) ⟨1, by decide⟩ 0,
    .request (some ⟨"Bearer", "other"⟩) (.createExtractionTask (plainBody 2)) ⟨2, by decide⟩ 1] ++
  List.replicate 10 (.work "w" 2) ++ [.crash "w"]

/-- What they reach. -/
def sampleServed : System ℤ :=
  let w := System.work (stubService []) "w" 2
  (System.init.submit (stubService []) "00000000-0000-0000-0000-000000000001" "o" plainRequest 0
    |>.submit (stubService []) "00000000-0000-0000-0000-000000000002" "p" plainRequest 1)
    |> w |> w |> w |> w |> w |> w |> w |> w |> w |> w |>.crash "w"

theorem sample_submission :
    (∀ now, stubApplication.submission (some ⟨"bearer", "token"⟩) (.createExtractionTask (plainBody 2)) now =
      some ("o", plainRequest)) ∧
    ∀ now, stubApplication.submission (some ⟨"Bearer", "other"⟩) (.createExtractionTask (plainBody 2)) now =
      some ("p", plainRequest) := by
  unfold Application.submission
  rw [stubApplication_principal.1, stubApplication_principal.2]
  exact ⟨fun now => rfl, fun now => rfl⟩

theorem sample_served : Run stubApplication.Step System.init sampleLabels sampleServed := by
  have htext : (⟨1, by decide⟩ : Uuid).text = "00000000-0000-0000-0000-000000000001" ∧
      (⟨2, by decide⟩ : Uuid).text = "00000000-0000-0000-0000-000000000002" := by decide +kernel
  have hfirst := Application.Step.submits (s := System.init) (sample_submission.1 0) ⟨1, by decide⟩ rfl
  rw [htext.1] at hfirst
  have hsecond := Application.Step.submits (s := System.init.submit (stubService [])
    "00000000-0000-0000-0000-000000000001" "o" plainRequest 0) (sample_submission.2 1) ⟨2, by decide⟩
    (by rw [htext.2]; rfl)
  rw [htext.2] at hsecond
  exact .cons hfirst (.cons hsecond (.cons .work (.cons .work (.cons .work (.cons .work (.cons .work (.cons .work
    (.cons .work (.cons .work (.cons .work (.cons .work (.single .crash))))))))))))

/-- What is answered about the results of a task at `t`. -/
def sampleResults (credentials : Option HTTPAuthorizationCredentials) (taskId : String) (t : ℤ) : Response ℤ :=
  (stubApplication.respond credentials (.getExtractionTaskResults taskId) ⟨3, by decide⟩ t sampleServed.db).1

/-- The finished task, under another spelling of its id, to its owner, to the other owner and to nobody; the unfinished
one to its owner; and the first at its expiry and at the end of its tombstone. -/
theorem Application.read_law_example :
    (∃ response, sampleResults (some ⟨"bearer", "token"⟩) "{00000000000000000000000000000001}" 9 =
        { status := .ok, body := .results response } ∧ response.status = .completed ∧ response.outcomes.length = 2) ∧
    sampleResults (some ⟨"Bearer", "other"⟩) "{00000000000000000000000000000001}" 9 =
      handleException (.task .taskNotFound) ∧
    (sampleResults none "{00000000000000000000000000000001}" 9).status = .unauthorized ∧
    sampleResults (some ⟨"Bearer", "other"⟩) "00000000-0000-0000-0000-000000000002" 9 =
      { status := .conflict, body := .pending ⟨"Final task results are not yet available", .processing⟩ } ∧
    sampleResults (some ⟨"bearer", "token"⟩) "{00000000000000000000000000000001}" 10 =
      handleException (.task .taskExpired) ∧
    sampleResults (some ⟨"bearer", "token"⟩) "{00000000000000000000000000000001}" 20 =
      handleException (.task .taskNotFound) := by
  have htimes : ∀ l ∈ sampleLabels, ∀ now ∈ l.times, now ≤ 2 := by decide
  have hlaw (t : ℤ) (ht : 2 ≤ t) (credentials : Option HTTPAuthorizationCredentials) :
      stubApplication.ReadLaw t sampleServed credentials :=
    read_law stubApplication_conforms (by decide) sample_served
      (fun l hl now hnow => (htimes l hl now hnow).trans ht) rfl credentials
  have hfirst : Uuid.parse stubApplication.unicode "{00000000000000000000000000000001}" = some ⟨1, by decide⟩ ∧
      (⟨1, by decide⟩ : Uuid).text = "00000000-0000-0000-0000-000000000001" := by decide +kernel
  have hsecond : Uuid.parse stubApplication.unicode "00000000-0000-0000-0000-000000000002" = some ⟨2, by decide⟩ ∧
      (⟨2, by decide⟩ : Uuid).text = "00000000-0000-0000-0000-000000000002" := by decide +kernel
  have howned (t : ℤ) (ht : 2 ≤ t) := (hlaw t ht _).owned _ stubApplication_principal.1 _ _
    ⟨"o", plainRequest, ⟨.str "stub-extraction-provider", .str "stub"⟩, 10⟩ hfirst.1 (by rw [hfirst.2]; rfl) rfl
    ⟨3, by decide⟩
  refine ⟨?_, ?_, ?_, ?_, (howned 10 (by decide)).2, (howned 20 (by decide)).2⟩
  · obtain ⟨a, hv, -, hresults⟩ := howned 9 (by decide)
    rw [hfirst.2] at hv
    cases hv
    obtain ⟨response, hresponse, hshows⟩ := hresults
    obtain ⟨outcomes, hreports, hshown⟩ := hshows.outcomes
    exact ⟨response, hresponse, hshows.status.status, hshown.length_eq.symm.trans hreports.length_eq.symm⟩
  · refine ((hlaw 9 (by decide) _).hidden _ stubApplication_principal.2 _ ?_ _).2
    intro uuid sub huuid hsub
    rw [hfirst.1, Option.some.injEq] at huuid
    rw [← huuid, hfirst.2] at hsub
    cases hsub
    decide
  · obtain ⟨message, hanswer⟩ := (hlaw 9 (by decide) none).unauthorized _ rfl
    rw [sampleResults, hanswer _ (by simp)]
  · obtain ⟨a, hv, -, hresults⟩ := (hlaw 9 (by decide) _).owned _ stubApplication_principal.2 _ _
      ⟨"p", plainRequest, ⟨.str "stub-extraction-provider", .str "stub"⟩, 11⟩ hsecond.1 (by rw [hsecond.2]; rfl) rfl
      ⟨3, by decide⟩
    rw [hsecond.2] at hv
    cases hv
    exact hresults

end TextExtraction
