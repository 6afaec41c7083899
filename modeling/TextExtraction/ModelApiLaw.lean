import TextExtraction.ModelApi

/-!
# What the model routes answer

`model_routes_law`: after any run of requests, whatever failed in it, there is a ledger from which every
answer of every route can be read off, as long as nothing below the handlers fails. The two ways to a 500
are a version number that SQLite cannot bind and a metadata text that `json` refuses with anything but a
`ValueError`.
-/

namespace TextExtraction

open Python Relational Transition

variable {τ : Type} {runtime : Runtime} {maxArtifactSize : ℕ}

/-! ### Responses -/

namespace Schemas

theorem exists_stringItems : ∀ {items : List (Key × Value)}, (∀ kv ∈ items, ∃ s, kv.1 = .str s) →
    ∃ fields, stringItems items = some fields
  | [], _ => ⟨[], rfl⟩
  | (k, v) :: rest, h => by
    obtain ⟨s, hs⟩ := h (k, v) (by simp)
    obtain rfl : k = .str s := hs
    obtain ⟨fields, hfields⟩ := exists_stringItems fun kv hkv => h kv (List.mem_cons_of_mem _ hkv)
    exact ⟨(s, v) :: fields, by rw [stringItems, hfields]; rfl⟩

theorem exists_dictField {doc : Json} {items : List (Key × Value)} (h : loads doc = .dict items) :
    ∃ fields, dictField (loads doc) = some fields := by
  have hplain := plain_loads doc
  rw [h] at hplain ⊢
  exact exists_stringItems (strings_of_plainItems hplain.2)

end Schemas

namespace Ledger

variable {l l' : Ledger τ} {e : Entry τ}

/-- No artifact is empty, and metadata is a JSON object. -/
def Valid (l : Ledger τ) : Prop :=
  ∀ e ∈ l.entries, 0 < e.artifactSize ∧ ∃ items, loads e.metadata = .dict items

theorem Posts.valid {call : ServiceCall τ} {posting : Posting τ} (h : Posts l runtime maxArtifactSize call posting)
    (hl : l.Valid) : Valid (l ++ [posting]) := by
  cases h with
  | activate =>
    intro e he
    rw [entries_activated] at he
    exact hl e he
  | @register _ r _ _ _ content metadata hsubmits huploads _ hmetadata =>
    intro e he
    rw [entries_registered, List.mem_append, List.mem_singleton] at he
    rcases he with he | rfl
    · exact hl e he
    · refine ⟨huploads.pos, ?_⟩
      obtain ⟨hvalid⟩ := hsubmits
      obtain ⟨-, -, hchecked, -⟩ := ModelService.validate_eq_ok_iff.1 hvalid
      obtain ⟨items, hitems⟩ : ∃ items, r.metadata = .dict items := by
        unfold ModelService.checkMetadata at hchecked
        split at hchecked
        · split at hchecked
          · exact ⟨_, (Except.ok.inj hchecked).symm⟩
          · split at hchecked <;> simp at hchecked
        · simp at hchecked
      rw [hitems] at hmetadata
      exact loads_of_dumps_dict hmetadata

theorem Valid.run {calls : List (ServiceCall τ × Except ModelError (ModelVersion τ))}
    (h : Run (Step runtime maxArtifactSize) l calls l') (hl : l.Valid) : l'.Valid := by
  refine h.invariant ?_ hl
  rintro l ⟨call, result⟩ l' hl hstep
  cases hstep with
  | refused => exact hl
  | posted hposts => exact hposts.valid hl

end Ledger

open Ledger

/-- What a version in the ledger is built from fits the response model. -/
theorem Represents.exists_response {l : Ledger τ} {w : World τ} {e : Entry τ} (h : Represents runtime l w)
    (hinv : World.Inv runtime w) (hl : l.Valid) (he : e ∈ l.entries) :
    ∃ response, Schemas.ModelVersionResponse.validate (l.record e) = some response := by
  obtain ⟨hsize, items, hitems⟩ := hl e he
  obtain ⟨fields, hfields⟩ := Schemas.exists_dictField hitems
  have hversion : 0 < e.version := hinv.catalog.positive _ (h.mem_entries.2 ⟨e, he, rfl⟩)
  unfold Schemas.ModelVersionResponse.validate
  rw [show (l.record e).metadata = loads e.metadata from rfl, hfields]
  have hge : 1 ≤ (l.record e).version ∧ 1 ≤ (l.record e).artifactSize := ⟨hversion, hsize⟩
  exact ⟨_, dif_pos hge⟩

/-! ### Requests -/

namespace ModelApi

variable {w w' : World τ} {around : Surroundings τ} {endpoint : ModelEndpoint} {answer : Response τ}

/-- The call of the service that writes, when a request gets that far. -/
def serviceCall (around : Surroundings τ) : ModelEndpoint → Option (ServiceCall τ)
  | .registerModelVersion modelName artifact version description metadata =>
    (registration around modelName artifact version description metadata).toOption
  | .activateModelVersion modelName version =>
    (pathVersion version).toOption.map fun version => .activate modelName version around.now around.activate
  | .listModelVersions _ | .getModelVersion .. => none

/-- A request makes its call of the service, or leaves the store alone. -/
theorem respond_cases (hinv : World.Inv runtime w) (maxArtifactSize : ℕ) (around : Surroundings τ)
    (endpoint : ModelEndpoint) : ∃ answer w', respond runtime maxArtifactSize around endpoint w = some (answer, w') ∧
      match serviceCall around endpoint with
      | none => w' = w
      | some call => ∃ result, World.Step runtime maxArtifactSize w (call, result) w' := by
  have hanswered (handled : Except HandlerError (Response τ)) (w' : World τ)
      (hhandle : handle runtime maxArtifactSize around w endpoint = some (handled, w')) :
      respond runtime maxArtifactSize around endpoint w = some (answered handled, w') := by
    unfold respond
    rw [hhandle]
    rfl
  have hperformed (call : ServiceCall τ) (status : HTTPStatus) (hhandle : handle runtime maxArtifactSize around w endpoint =
      (call.perform runtime maxArtifactSize w).map fun performed => (versionResponse status performed.1, performed.2)) :
      ∃ answer w', respond runtime maxArtifactSize around endpoint w = some (answer, w') ∧
        ∃ result, World.Step runtime maxArtifactSize w (call, result) w' := by
    obtain ⟨result, w', hperform, -⟩ := World.perform_cases maxArtifactSize hinv call
    rw [hperform] at hhandle
    exact ⟨_, w', hanswered _ w' hhandle, result, hperform⟩
  cases endpoint with
  | registerModelVersion modelName artifact version description metadata =>
    cases hcall : registration around modelName artifact version description metadata with
    | error error =>
      rw [show serviceCall around (.registerModelVersion modelName artifact version description metadata) = none by
        rw [serviceCall, hcall]; rfl]
      exact ⟨_, w, hanswered (.error error) w (by rw [handle, hcall]), rfl⟩
    | ok call =>
      rw [show serviceCall around (.registerModelVersion modelName artifact version description metadata) = some call by
        rw [serviceCall, hcall]; rfl]
      exact hperformed call .created (by rw [handle, hcall])
  | listModelVersions modelName => exact ⟨_, w, hanswered _ w rfl, rfl⟩
  | getModelVersion modelName version =>
    cases hversion : pathVersion version with
    | error error => exact ⟨_, w, hanswered (.error error) w (by rw [handle, hversion]), rfl⟩
    | ok version => exact ⟨_, w, hanswered _ w (by rw [handle, hversion]), rfl⟩
  | activateModelVersion modelName version =>
    cases hversion : pathVersion version with
    | error error =>
      rw [show serviceCall around (.activateModelVersion modelName version) = none by rw [serviceCall, hversion]; rfl]
      exact ⟨_, w, hanswered (.error error) w (by rw [handle, hversion]), rfl⟩
    | ok number =>
      rw [show serviceCall around (.activateModelVersion modelName version) =
        some (.activate modelName number around.now around.activate) by rw [serviceCall, hversion]; rfl]
      exact hperformed (.activate modelName number around.now around.activate) .ok (by rw [handle, hversion])

/-- A run of requests is the run of the calls they make. -/
theorem Run.calls {requests : List ((Surroundings τ × ModelEndpoint) × Response τ)}
    (h : Run (Step runtime maxArtifactSize) w requests w') (hinv : World.Inv runtime w) :
    ∃ calls, calls.map Prod.fst = requests.filterMap (fun request => serviceCall request.1.1 request.1.2) ∧
      Run (World.Step runtime maxArtifactSize) w calls w' := by
  induction h with
  | nil w => exact ⟨[], rfl, .nil w⟩
  | @cons s t u request requests hstep _ ih =>
    obtain ⟨answer, t', hrespond, hcases⟩ := respond_cases hinv maxArtifactSize request.1.1 request.1.2
    have hsame : some (answer, t') = some (request.2, t) := hrespond.symm.trans hstep
    cases hsame
    rw [List.filterMap_cons]
    cases hcall : serviceCall request.1.1 request.1.2 with
    | none =>
      rw [hcall] at hcases
      obtain rfl : t = s := hcases
      exact ih hinv
    | some call =>
      rw [hcall] at hcases
      obtain ⟨result, hperform⟩ := hcases
      obtain ⟨calls, hmap, hcalls⟩ := ih (hinv.performs (World.Step.performs hinv hperform))
      exact ⟨(call, result) :: calls, by rw [List.map_cons, hmap], .cons hperform hcalls⟩

end ModelApi

/-! ### Uploads that are refused -/

/-- The upload passes the limit, and everything before was read. -/
def Oversized (maxArtifactSize : ℕ) (stream : ℕ → ReadResult) : Prop :=
  ∃ n content bytes, Reads stream n content ∧ content.length ≤ maxArtifactSize ∧ stream n = .chunk bytes ∧
    maxArtifactSize < content.length + bytes.length

namespace World

variable {w w' : World τ} {r : Registration} {stream : ℕ → ReadResult} {now : τ} {temporary : String}
  {faults : RegisterPoint → Option Exc} {content : Bytes}

/-- An upload that is not taken is too large, or unreadable, not binary or empty. -/
theorem register_refused (runtime : Runtime) (r : Registration) (now : τ) (hdata : w.data temporary = none)
    (hstage : faults .stage = none) (hno : ¬∃ content, Uploads maxArtifactSize stream content) :
    ∃ error, w.register runtime maxArtifactSize r stream temporary now faults = some (.error (.store error), w) ∧
      (Oversized maxArtifactSize stream ∧ error = .tooLarge maxArtifactSize ∨
        ¬Oversized maxArtifactSize stream ∧ (error = .unreadable ∨ error = .notBinary ∨ error = .required)) := by
  obtain ⟨n, content, outcome, hreads, hfits, hend, hresult⟩ :=
    exists_stageEnd runtime maxArtifactSize stream temporary w.data
  have hstaged := hresult _ (Nat.lt_succ_self maxArtifactSize)
  have hregister (error : ModelStoreError)
      (herror : (stageResult runtime temporary w.data content outcome).1 = .error error) :
      w.register runtime maxArtifactSize r stream temporary now faults = some (.error (.store error), w) := by
    have hdir := stageResult_error herror
    rw [register, hstage, hstaged, show stageResult runtime temporary w.data content outcome =
      (.error error, Function.update w.data temporary none) from Prod.ext herror hdir, ← hdata,
      Function.update_eq_self]
  have hnot (hne : outcome ≠ .error (.tooLarge maxArtifactSize)) : ¬Oversized maxArtifactSize stream := by
    rintro ⟨m, before, bytes, hbefore, hle, hchunk, hlarge⟩
    have hbytes : bytes ≠ [] := by
      rintro rfl
      simp only [List.length_nil] at hlarge
      omega
    have htooLarge : StageEnd maxArtifactSize before (stream m) (.error (.tooLarge maxArtifactSize)) :=
      hchunk ▸ .tooLarge hbytes hlarge
    exact hne (hend.unique_of_reads htooLarge hreads hbefore hfits hle).2
  cases outcome with
  | ok =>
    have hempty : content.length = 0 := by
      by_contra hne
      exact hno ⟨content, n, hreads, hend.ends_of_ok, by omega, hfits⟩
    exact ⟨.required, hregister _ (by rw [stageResult, if_pos hempty]), .inr ⟨hnot (by simp), .inr (.inr rfl)⟩⟩
  | error error =>
    refine ⟨error, hregister _ rfl, ?_⟩
    generalize hread : stream n = result at hend
    cases hend with
    | unreadable => exact .inr ⟨hnot (by simp), .inl rfl⟩
    | notBinary => exact .inr ⟨hnot (by simp), .inr (.inl rfl)⟩
    | @tooLarge bytes hne hlarge => exact .inl ⟨⟨n, content, bytes, hreads, hfits, hread, hlarge⟩, rfl⟩

/-- What an upload that is taken ends with when nothing fails but the statements themselves. -/
theorem register_raised (hinv : Inv runtime w) (hcalm : ∀ point, faults point = none)
    (huploads : Uploads maxArtifactSize stream content) (hversion : ∀ version, r.version = some version → 1 ≤ version)
    {metadata : Json} (hmetadata : dumps true r.metadata = .ok metadata) {result : Except ModelError (ModelVersion τ)}
    (hregister : w.register runtime maxArtifactSize r stream temporary now faults = some (result, w')) :
    (2 ^ 63 ≤ r.assigned runtime w.catalog → ∃ error, result = .error (.store (.raised error))) ∧
    (r.assigned runtime w.catalog < 2 ^ 63 →
      (w.catalog.versions.lookup (runtime.normalizeName r.modelName, r.assigned runtime w.catalog)).isSome →
      result = .error (.store (.duplicateVersion (r.assigned runtime w.catalog) (strip r.modelName)))) := by
  have hstaged : stageArtifact runtime maxArtifactSize temporary stream (maxArtifactSize + 1) w.data =
      some (.ok (upload runtime temporary content), Function.update w.data temporary (some content)) := by
    rcases stageArtifact_cases runtime maxArtifactSize stream temporary w.data with ⟨content', huploads', hstaged⟩ |
      ⟨hno, -⟩
    · obtain rfl := huploads.unique huploads'
      exact hstaged
    · exact absurd ⟨content, huploads⟩ hno
  have hinsert := Registration.insert_raised_iff runtime r (runtime.sha256 content) content.length
    (r.begin runtime (runtime.sha256 content) now w.catalog)
  rw [show (r.begin runtime (runtime.sha256 content) now w.catalog).assignedVersion = r.assigned runtime w.catalog
    from rfl, bindable_assigned_iff hinv.catalog hversion, not_lt] at hinsert
  simp only [register, hcalm, hstaged, transact] at hregister
  constructor
  · intro hlarge
    obtain ⟨error, herror⟩ := hinsert.2 (.inr hlarge)
    rw [herror] at hregister
    simp only [Option.some.injEq, Prod.mk.injEq] at hregister
    exact ⟨error, hregister.1.symm⟩
  · intro hbound htaken
    cases hinserted : r.insert runtime (runtime.sha256 content) content.length
        (r.begin runtime (runtime.sha256 content) now w.catalog) with
    | inserted catalog =>
      obtain ⟨_, -, -, -, hadds⟩ := Registration.insert_inserted hinv.catalog huploads.pos hinserted
      have hfresh := hadds.fresh
      rw [Registration.row_key] at hfresh
      rw [hfresh] at htaken
      simp at htaken
    | integrityError =>
      rw [hinserted] at hregister
      simp only [Option.some.injEq, Prod.mk.injEq] at hregister
      exact hregister.1.symm
    | raised error =>
      rcases hinsert.1 ⟨error, hinserted⟩ with ⟨error', herror'⟩ | hlarge
      · rw [hmetadata] at herror'
        simp at herror'
      · omega

end World

/-! ### The law -/

namespace ModelApi

def invalid (detail : String) : Response τ := { status := .unprocessableEntity, body := .error { detail } }

def notFound (detail : String) : Response τ := { status := .notFound, body := .error { detail } }

/-- The answer about a version that is not there: SQLite cannot look for every integer. -/
def missing (modelName : String) (version : ℤ) : Response τ :=
  if version < 2 ^ 63 then notFound s!"Version {version} was not found for model '{strip modelName}'" else serverError

/-- The answer is the version `e` as the ledger has it. -/
def Shows (status : HTTPStatus) (l : Ledger τ) (e : Entry τ) (answer : Response τ) : Prop :=
  ∃ response, Schemas.ModelVersionResponse.validate (l.record e) = some response ∧
    answer = { status, body := .version response }

section Law
variable (runtime : Runtime) (maxArtifactSize : ℕ) (around : Surroundings τ) (l : Ledger τ) (w : World τ)

/-- What a registration that has passed the checks of the service is answered. -/
structure RegistrationLaw (endpoint : ModelEndpoint) (r : Registration) (stream : ℕ → ReadResult) : Prop where
  /-- No upload: nothing happens. -/
  refused : (¬∃ content, Uploads maxArtifactSize stream content) → ∃ answer,
    respond runtime maxArtifactSize around endpoint w = some (answer, w) ∧
      (Oversized maxArtifactSize stream ∧ answer = handleException (.model (.store (.tooLarge maxArtifactSize))) ∨
        ¬Oversized maxArtifactSize stream ∧ ∃ detail, answer = invalid detail)
  /-- An upload: the version is out of range, or taken, or created. -/
  uploaded : ∀ content, Uploads maxArtifactSize stream content → ∃ answer w',
    respond runtime maxArtifactSize around endpoint w = some (answer, w') ∧
      if 2 ^ 63 ≤ l.assigned runtime r then answer = serverError ∧ Represents runtime l w'
      else if (l.find (runtime.normalizeName r.modelName) (l.assigned runtime r)).isSome then
        answer = handleException (.model (.store (.duplicateVersion (l.assigned runtime r) (strip r.modelName)))) ∧
          w' = w
      else ∃ metadata, dumps true r.metadata = .ok metadata ∧
        Shows .created (l ++ [.registered (l.entry runtime r content metadata around.now)])
          (l.entry runtime r content metadata around.now) answer ∧
        Represents runtime (l ++ [.registered (l.entry runtime r content metadata around.now)]) w'

/-- What every route answers, from the ledger. -/
structure RoutesLaw : Prop where
  get : ∀ modelName version, 1 ≤ version → ∃ answer,
    respond runtime maxArtifactSize around (.getModelVersion modelName (.ok version)) w = some (answer, w) ∧
      match l.find (runtime.normalizeName modelName) version with
      | some e => Shows .ok l e answer
      | none => answer = missing modelName version
  list : ∀ modelName, ∃ answer,
    respond runtime maxArtifactSize around (.listModelVersions modelName) w = some (answer, w) ∧
      match l.ofModel (runtime.normalizeName modelName) with
      | [] => answer = notFound s!"Model '{strip modelName}' was not found"
      | first :: rest => ∃ responses,
        List.Forall₂ (fun e response => Schemas.ModelVersionResponse.validate (l.record e) = some response)
          (orderBy (fun e => -e.version) (first :: rest)) responses ∧
        answer = { status := .ok, body := .history ⟨first.modelName, responses⟩ }
  activate : ∀ modelName version, 1 ≤ version → ∃ answer w',
    respond runtime maxArtifactSize around (.activateModelVersion modelName (.ok version)) w = some (answer, w') ∧
      match l.find (runtime.normalizeName modelName) version with
      | some e => Shows .ok (l ++ [.activated ⟨runtime.normalizeName modelName, version, around.now⟩]) e answer ∧
        Represents runtime (l ++ [.activated ⟨runtime.normalizeName modelName, version, around.now⟩]) w'
      | none => answer = missing modelName version ∧ w' = w
  /-- A version that is no integer, or less than 1. -/
  malformed : ∀ modelName (version : Parameter ℤ), (∀ n, version = .ok n → n < 1) → ∃ detail,
    respond runtime maxArtifactSize around (.getModelVersion modelName version) w = some (invalid detail, w) ∧
    respond runtime maxArtifactSize around (.activateModelVersion modelName version) w = some (invalid detail, w)
  /-- What fails before the store is 422, but for a metadata text that raises no `ValueError`. -/
  unregistered : ∀ modelName artifact version description metadata,
    (∀ call, registration around modelName artifact version description metadata = .ok call →
      ∀ r stream now faults, ¬call.Submits r stream now faults) →
    ∃ answer, respond runtime maxArtifactSize around
        (.registerModelVersion modelName artifact version description metadata) w = some (answer, w) ∧
      ((∃ detail, answer = invalid detail) ∨ answer = serverError ∧ ∃ error, parseMetadata metadata = .error error ∧
        (error.kind ≠ .valueError ∨ ∃ inner, error.str = .error inner))
  register : ∀ modelName artifact version description metadata call r stream now faults,
    registration around modelName artifact version description metadata = .ok call →
    call.Submits r stream now faults →
    RegistrationLaw runtime maxArtifactSize around l w
      (.registerModelVersion modelName artifact version description metadata) r stream

end Law

/-! ### The routes -/

section Routes
variable {l : Ledger τ} {w : World τ} {e : Entry τ} {modelName : String} {version : ℤ}

theorem pathVersion_ok (h : 1 ≤ version) : pathVersion (.ok version) = .ok version := by
  unfold pathVersion
  exact if_neg (by omega)

theorem answered_ok {status : HTTPStatus} {response : Schemas.ModelVersionResponse τ}
    (h : Schemas.ModelVersionResponse.validate (l.record e) = some response) :
    answered (versionResponse status (.ok (l.record e))) = { status, body := .version response } := by
  simp only [versionResponse, ModelApi.response, h, answered]

/-- A call that went through is answered with the version as the ledger has it then. -/
theorem shows_of_posted {call : ServiceCall τ} {result : Except ModelError (ModelVersion τ)} {posting : Posting τ}
    {l' : Ledger τ} (hstep : Ledger.Step runtime maxArtifactSize l (call, result) l')
    (hposts : Posts l runtime maxArtifactSize call posting) (hreload : call.reload = none) (h : Represents runtime l' w)
    (hinv : World.Inv runtime w) (hl : l.Valid)
    (hfind : find (l ++ [posting]) posting.name posting.version = some e) :
    l' = l ++ [posting] ∧ ∀ status, Shows status (l ++ [posting]) e (answered (versionResponse status result)) := by
  cases hstep with
  | refused hno => exact absurd hposts (hno _)
  | @posted _ _ posting' e' hposts' hfind' hresult =>
    obtain rfl := hposts'.unique hposts
    obtain rfl : e' = e := Option.some.inj (hfind'.symm.trans hfind)
    obtain ⟨response, hresponse⟩ := h.exists_response hinv (hposts.valid hl) (find_spec hfind).1
    refine ⟨rfl, fun status => ⟨response, hresponse, ?_⟩⟩
    rw [hreload] at hresult
    rw [hresult]
    exact answered_ok hresponse

theorem answered_missing {status : HTTPStatus} (hfind : l.find (runtime.normalizeName modelName) version = none)
    (hge : 1 ≤ version) :
    answered (versionResponse status (l.get runtime modelName version)) = missing modelName version := by
  unfold Ledger.get missing
  have hbind : Bindable version ↔ version < 2 ^ 63 := ⟨fun h => h.2, fun h => ⟨by omega, h⟩⟩
  rw [hfind]
  by_cases hlt : version < 2 ^ 63
  · rw [if_pos hlt]
    simp only [if_pos (hbind.2 hlt)]
    rfl
  · rw [if_neg hlt]
    simp only [if_neg (mt hbind.1 hlt)]
    rfl

variable (h : Represents runtime l w) (hinv : World.Inv runtime w) (hsized : w.Sized) (hl : l.Valid)
include h hinv hsized hl

theorem respond_get (around : Surroundings τ) (hge : 1 ≤ version) : ∃ answer,
    respond runtime maxArtifactSize around (.getModelVersion modelName (.ok version)) w = some (answer, w) ∧
      match l.find (runtime.normalizeName modelName) version with
      | some e => Shows .ok l e answer
      | none => answer = missing modelName version := by
  refine ⟨answered (versionResponse .ok (w.catalog.get runtime modelName version)), ?_, ?_⟩
  · unfold respond handle
    simp only [pathVersion_ok hge]
    rfl
  · rw [h.get hinv hsized]
    cases hfind : l.find (runtime.normalizeName modelName) version with
    | none => exact answered_missing hfind hge
    | some e =>
      obtain ⟨response, hresponse⟩ := h.exists_response hinv hl (find_spec hfind).1
      refine ⟨response, hresponse, ?_⟩
      rw [Ledger.get, hfind]
      exact answered_ok hresponse

omit hsized in
theorem mapM_response : ∀ es : List (Entry τ), (∀ e ∈ es, e ∈ l.entries) → ∃ responses,
    (es.map l.record).mapM response = .ok responses ∧
      List.Forall₂ (fun e response => Schemas.ModelVersionResponse.validate (l.record e) = some response) es responses
  | [], _ => ⟨[], rfl, .nil⟩
  | e :: es, hes => by
    obtain ⟨response, hresponse⟩ := h.exists_response hinv hl (hes e (by simp))
    obtain ⟨responses, hrest, hall⟩ := mapM_response es fun e he => hes e (List.mem_cons_of_mem _ he)
    refine ⟨response :: responses, ?_, .cons hresponse hall⟩
    rw [List.map_cons, List.mapM_cons, hrest, ModelApi.response, hresponse]
    rfl

theorem respond_list (around : Surroundings τ) (modelName : String) : ∃ answer,
    respond runtime maxArtifactSize around (.listModelVersions modelName) w = some (answer, w) ∧
      match l.ofModel (runtime.normalizeName modelName) with
      | [] => answer = notFound s!"Model '{strip modelName}' was not found"
      | first :: rest => ∃ responses,
        List.Forall₂ (fun e response => Schemas.ModelVersionResponse.validate (l.record e) = some response)
          (orderBy (fun e => -e.version) (first :: rest)) responses ∧
        answer = { status := .ok, body := .history ⟨first.modelName, responses⟩ } := by
  refine ⟨answered (historyResponse (w.catalog.listVersions runtime modelName)), rfl, ?_⟩
  rw [h.listVersions hinv hsized, Ledger.listVersions]
  cases hversions : l.ofModel (runtime.normalizeName modelName) with
  | nil => rfl
  | cons first rest =>
    have hmem : ∀ e ∈ orderBy (fun e : Entry τ => -e.version) (first :: rest),
        e ∈ l.entries ∧ e.name = runtime.normalizeName modelName := by
      intro e he
      rw [mem_orderBy, ← hversions] at he
      exact mem_ofModel.1 he
    have horder : orderBy (fun record : ModelVersion τ => -record.version) ((first :: rest).map l.record) =
        (orderBy (fun e : Entry τ => -e.version) (first :: rest)).map l.record := orderBy_map (fun _ => rfl) _
    dsimp only
    rw [horder]
    obtain ⟨responses, hmap, hall⟩ := mapM_response h hinv hl _ fun e he => (hmem e he).1
    refine ⟨responses, hall, ?_⟩
    cases hsorted : orderBy (fun e : Entry τ => -e.version) (first :: rest) with
    | nil =>
      have hperm := orderBy_perm (fun e : Entry τ => -e.version) (first :: rest)
      rw [hsorted] at hperm
      exact absurd hperm.symm.eq_nil (by simp)
    | cons top others =>
      obtain ⟨htop, hname⟩ := hmem top (by rw [hsorted]; exact List.mem_cons_self)
      have hfirst := exists_first htop
      rw [hname, hversions, List.head?_cons, Option.some.injEq] at hfirst
      rw [hsorted] at hmap
      have hmodel : (l.record top).modelName = first.modelName := by rw [hfirst]; rfl
      rw [List.map_cons] at hmap ⊢
      simp only [historyResponse, hmap, answered, hmodel]

theorem respond_activate (hinj : Function.Injective runtime.sha256) (maxArtifactSize : ℕ) {around : Surroundings τ}
    (hcalm : around.Calm) (hge : 1 ≤ version) : ∃ answer w',
    respond runtime maxArtifactSize around (.activateModelVersion modelName (.ok version)) w = some (answer, w') ∧
      match l.find (runtime.normalizeName modelName) version with
      | some e => Shows .ok (l ++ [.activated ⟨runtime.normalizeName modelName, version, around.now⟩]) e answer ∧
        Represents runtime (l ++ [.activated ⟨runtime.normalizeName modelName, version, around.now⟩]) w'
      | none => answer = missing modelName version ∧ w' = w := by
  let activated := w.activate runtime modelName version around.now around.activate
  refine ⟨answered (versionResponse .ok activated.1), activated.2, ?_, ?_⟩
  · unfold respond handle
    simp only [pathVersion_ok hge]
    rfl
  cases hfind : l.find (runtime.normalizeName modelName) version with
  | none =>
    have hnone : w.catalog.activate (runtime.normalizeName modelName) version around.now = none := by
      unfold Catalog.activate
      rw [h.find_eq_none_iff.1 hfind]
    have hget : activated.1 = l.get runtime modelName version ∧ activated.2 = w := by
      simp only [activated, World.activate, hcalm.activate, hnone, Ledger.get, hfind]
      by_cases hbind : Bindable version
      · simp [hbind]
      · simp [hbind]
    refine ⟨?_, hget.2⟩
    rw [hget.1]
    exact answered_missing hfind hge
  | some e =>
    have hposts : Posts l runtime maxArtifactSize (.activate modelName version around.now around.activate)
        (.activated ⟨runtime.normalizeName modelName, version, around.now⟩) :=
      .activate (fun point _ => hcalm.activate point) (by rw [hfind]; rfl)
    obtain ⟨l', hstep, hnext⟩ : ∃ l', Ledger.Step runtime maxArtifactSize l
        (.activate modelName version around.now around.activate, activated.1) l' ∧ Represents runtime l' activated.2 :=
      h.step_activates hinj hinv hsized
    have hperforms : World.Performs runtime maxArtifactSize _ w activated.1 activated.2 :=
      World.activate_cases runtime maxArtifactSize modelName version around.now around.activate w
    have hinv' : World.Inv runtime activated.2 := hinv.performs hperforms
    have hfind' : find (l ++ [.activated ⟨runtime.normalizeName modelName, version, around.now⟩])
        (runtime.normalizeName modelName) version = some e := by
      unfold find
      rw [entries_activated]
      exact hfind
    obtain ⟨rfl, hshows⟩ := shows_of_posted hstep hposts (hcalm.activate _) hnext hinv' hl hfind'
    exact ⟨hshows _, hnext⟩

omit h hinv hsized hl in
theorem respond_malformed (runtime : Runtime) (maxArtifactSize : ℕ) (around : Surroundings τ) (w : World τ)
    (modelName : String) {version : Parameter ℤ} (hversion : ∀ n, version = .ok n → n < 1) : ∃ detail,
    respond runtime maxArtifactSize around (.getModelVersion modelName version) w = some (invalid detail, w) ∧
    respond runtime maxArtifactSize around (.activateModelVersion modelName version) w = some (invalid detail, w) := by
  cases version with
  | error message => exact ⟨message, rfl, rfl⟩
  | ok n =>
    have hpath : pathVersion (.ok n) = .error (.parameter "Input should be greater than or equal to 1") :=
      if_pos (hversion n rfl)
    refine ⟨"Input should be greater than or equal to 1", ?_, ?_⟩
    · unfold respond handle
      simp only [hpath]
      rfl
    · unfold respond handle
      simp only [hpath]
      rfl

end Routes

/-! ### Registration -/

section Register
variable {l : Ledger τ} {w : World τ} {around : Surroundings τ} {modelName : String}
  {artifact : Parameter (ℕ → ReadResult)} {version : Parameter (Option ℤ)} {description : Option String}
  {metadata : Option FieldText} {call : ServiceCall τ}

/-- What is read of the request before the service is called. -/
theorem of_registration (hcall : registration around modelName artifact version description metadata = .ok call) :
    ∃ stream number items, artifact = .ok stream ∧ version = .ok number ∧
      parseMetadata metadata = .ok (.dict items) ∧
      call = .register (.str modelName) (number.map .int) description (.dict items) stream around.temporary around.now
        around.register := by
  cases artifact with
  | error message => simp [registration] at hcall
  | ok stream =>
    cases version with
    | error message => simp [registration] at hcall
    | ok number =>
      cases hmetadata : parseMetadata metadata with
      | error error => simp [registration, hmetadata] at hcall
      | ok value =>
        obtain ⟨-, items, rfl⟩ := parseMetadata_plain hmetadata
        rw [registration, hmetadata] at hcall
        exact ⟨stream, number, items, rfl, rfl, rfl, (Except.ok.inj hcall).symm⟩

/-- The metadata of a request can be written both ways. -/
theorem exists_dumps {items : List (Key × Value)} (hmetadata : parseMetadata metadata = .ok (.dict items)) :
    ModelService.checkMetadata (.dict items) = .ok (.dict items) ∧ ∃ j, dumps true (.dict items) = .ok j := by
  obtain ⟨hplain, -⟩ := parseMetadata_plain hmetadata
  obtain ⟨j, hj, -⟩ := loads_dumps_of_plain _ hplain
  exact ⟨ModelService.checkMetadata_eq_ok_iff.2 ((exists_dumps_sorted_iff _).1 ⟨j, hj⟩).2, j, hj⟩

theorem checkName_error {value : Value} {error : ModelError} (h : ModelService.checkName value = .error error) :
    ∃ detail, error = .invalidRegistration detail := by
  unfold ModelService.checkName at h
  split at h
  · split at h
    · exact ⟨_, (Except.error.inj h).symm⟩
    · simp at h
  · exact ⟨_, (Except.error.inj h).symm⟩

theorem checkVersion_error {number : Option VersionArg} {error : ModelError}
    (h : ModelService.checkVersion number = .error error) : ∃ detail, error = .invalidRegistration detail := by
  unfold ModelService.checkVersion at h
  split at h
  · simp at h
  · exact ⟨_, (Except.error.inj h).symm⟩
  · split at h
    · exact ⟨_, (Except.error.inj h).symm⟩
    · simp at h

/-- Whatever the service objects to, with metadata that can be written, is an `InvalidRegistrationError`. -/
theorem validate_error {value : Value} {number : Option VersionArg} {items : List (Key × Value)} {error : ModelError}
    (hchecked : ModelService.checkMetadata (.dict items) = .ok (.dict items))
    (h : ModelService.validate value number description (.dict items) = .error error) :
    ∃ detail, error = .invalidRegistration detail := by
  cases hname : ModelService.checkName value with
  | error error' =>
    simp only [ModelService.validate, hname, bind, Except.bind, Except.error.injEq] at h
    exact h ▸ checkName_error hname
  | ok name =>
    cases hnumber : ModelService.checkVersion number with
    | error error' =>
      simp only [ModelService.validate, hname, hnumber, bind, Except.bind, Except.error.injEq] at h
      exact h ▸ checkVersion_error hnumber
    | ok number' =>
      simp [ModelService.validate, hname, hnumber, hchecked, bind, Except.bind] at h

theorem respond_unregistered (runtime : Runtime) (maxArtifactSize : ℕ) (w : World τ)
    (hno : ∀ call, registration around modelName artifact version description metadata = .ok call →
      ∀ r stream now faults, ¬call.Submits r stream now faults) :
    ∃ answer, respond runtime maxArtifactSize around
        (.registerModelVersion modelName artifact version description metadata) w = some (answer, w) ∧
      ((∃ detail, answer = invalid detail) ∨ answer = serverError ∧ ∃ error, parseMetadata metadata = .error error ∧
        (error.kind ≠ .valueError ∨ ∃ inner, error.str = .error inner)) := by
  cases hcall : registration around modelName artifact version description metadata with
  | error error =>
    refine ⟨handleException error, ?_, ?_⟩
    · unfold respond handle
      simp only [hcall]
      rfl
    · unfold registration at hcall
      split at hcall
      · cases hcall
        exact .inl ⟨_, rfl⟩
      · cases hcall
        exact .inl ⟨_, rfl⟩
      · split at hcall
        · rename_i refusal hmetadata
          cases hcall
          unfold metadataError
          split
          · split
            · exact .inl ⟨_, rfl⟩
            · rename_i inner hinner
              exact .inr ⟨rfl, refusal, hmetadata, .inr ⟨inner, hinner⟩⟩
          · rename_i hkind
            exact .inr ⟨rfl, refusal, hmetadata, .inl hkind⟩
        · simp at hcall
  | ok call =>
    obtain ⟨stream, number, items, -, -, hmetadata, rfl⟩ := of_registration hcall
    cases hvalid : ModelService.validate (.str modelName) (number.map .int) description (.dict items) with
    | ok r => exact absurd (.intro hvalid) (hno _ hcall r stream around.now around.register)
    | error error =>
      refine ⟨handleException (.model error), ?_, ?_⟩
      · unfold respond handle
        simp only [hcall, ServiceCall.perform, hvalid]
        rfl
      · left
        obtain ⟨detail, rfl⟩ := validate_error (exists_dumps hmetadata).1 hvalid
        exact ⟨detail, rfl⟩

theorem respond_registration (w : World τ) {result : Except ModelError (ModelVersion τ)} {w' : World τ}
    (hcall : registration around modelName artifact version description metadata = .ok call)
    (hperform : call.perform runtime maxArtifactSize w = some (result, w')) :
    respond runtime maxArtifactSize around (.registerModelVersion modelName artifact version description metadata) w =
      some (answered (versionResponse .created result), w') := by
  unfold respond handle
  simp only [hcall, hperform]
  rfl

/-- A registration of a version that is taken leaves nothing behind. -/
theorem unchanged_of_taken {r : Registration} {stream : ℕ → ReadResult} {now : τ} {faults : RegisterPoint → Option Exc}
    {j : Json} {result : Except ModelError (ModelVersion τ)} {w' : World τ} (h : Represents runtime l w)
    (hinj : Function.Injective runtime.sha256) (hinv : World.Inv runtime w) (hcalm : ∀ point, faults point = none)
    (hversion : ∀ v ∈ r.version, 1 ≤ v) (hmetadata : dumps true r.metadata = .ok j)
    (hbound : l.assigned runtime r < 2 ^ 63)
    (hfound : (l.find (runtime.normalizeName r.modelName) (l.assigned runtime r)).isSome)
    (hregisters : World.Registers runtime maxArtifactSize r stream now faults w result w') : w' = w := by
  cases hregisters with
  | unchanged => rfl
  | commits huploads hcommits =>
    obtain ⟨-, -, -, hfresh, -⟩ := h.registered hinj hinv hcommits huploads.pos
    rw [hfresh] at hfound
    cases hfound
  | strays _ hstrays =>
    rcases hstrays.raises with hfault | hfault | ⟨error, herror⟩ | hbind
    · exact absurd (hcalm _) hfault
    · exact absurd (hcalm _) hfault
    · rw [hmetadata] at herror
      cases herror
    · rw [World.bindable_assigned_iff hinv.catalog hversion, h.assigned] at hbind
      exact absurd hbound hbind

theorem registrationLaw (h : Represents runtime l w) (hinj : Function.Injective runtime.sha256)
    (hinv : World.Inv runtime w) (hsized : w.Sized) (hl : l.Valid) (maxArtifactSize : ℕ) (hcalm : around.Calm)
    {r : Registration} {stream : ℕ → ReadResult} {now : τ} {faults : RegisterPoint → Option Exc}
    (hcall : registration around modelName artifact version description metadata = .ok call)
    (hsubmits : call.Submits r stream now faults) :
    RegistrationLaw runtime maxArtifactSize around l w
      (.registerModelVersion modelName artifact version description metadata) r stream := by
  obtain ⟨stream', number, items, -, -, hmetadata, rfl⟩ := of_registration hcall
  obtain ⟨hvalid⟩ := hsubmits
  have hperform (result : Except ModelError (ModelVersion τ)) (w' : World τ)
      (hregister : w.register runtime maxArtifactSize r stream around.temporary around.now around.register =
        some (result, w')) : respond runtime maxArtifactSize around
          (.registerModelVersion modelName artifact version description metadata) w =
        some (answered (versionResponse .created result), w') := by
    refine respond_registration w hcall ?_
    rw [ServiceCall.perform, hvalid]
    exact hregister
  have hsubmits : ServiceCall.Submits (.register (.str modelName) (number.map .int) description (.dict items) stream
    around.temporary around.now around.register) r stream around.now around.register := .intro hvalid
  constructor
  · intro hno
    obtain ⟨error, hregister, hcases⟩ :=
      World.register_refused runtime r around.now (hinv.data around.temporary) (hcalm.register .stage) hno
    refine ⟨_, hperform _ _ hregister, ?_⟩
    rcases hcases with ⟨hover, rfl⟩ | ⟨hnot, rfl | rfl | rfl⟩
    · exact .inl ⟨hover, rfl⟩
    · exact .inr ⟨hnot, _, rfl⟩
    · exact .inr ⟨hnot, _, rfl⟩
    · exact .inr ⟨hnot, _, rfl⟩
  · intro content huploads
    obtain ⟨result, w', hregister, hregisters⟩ := World.register_cases runtime maxArtifactSize r stream around.now
      around.register (hinv.data around.temporary) hinv.stored
    have hversion := hsubmits.valid
    have hr : r.metadata = .dict items := by
      obtain ⟨-, -, hchecked, -⟩ := ModelService.validate_eq_ok_iff.1 hvalid
      rw [(exists_dumps hmetadata).1, Except.ok.injEq] at hchecked
      exact hchecked.symm
    obtain ⟨j, hj⟩ := (exists_dumps hmetadata).2
    rw [← hr] at hj
    obtain ⟨hlarge, htaken⟩ := World.register_raised hinv hcalm.register huploads hversion hj hregister
    rw [h.assigned] at hlarge htaken
    obtain ⟨l', hstep, hnext⟩ : ∃ l', Ledger.Step runtime maxArtifactSize l (_, result) l' ∧
        Represents runtime l' w' := h.step_registers hinj hinv hsized hsubmits hregisters
    have hinv' : World.Inv runtime w' := hinv.performs (.registers hsubmits hregisters)
    refine ⟨_, w', hperform _ _ hregister, ?_⟩
    by_cases hbound : 2 ^ 63 ≤ l.assigned runtime r
    · rw [if_pos hbound]
      obtain ⟨error, rfl⟩ := hlarge hbound
      refine ⟨rfl, ?_⟩
      cases hstep with
      | refused => exact hnext
      | posted hposts =>
        cases hposts with
        | register hsubmits' _ _ _ hbound' =>
          obtain ⟨rfl, -⟩ := hsubmits.unique hsubmits'
          omega
    rw [if_neg hbound]
    rw [not_le] at hbound
    by_cases hfound : (l.find (runtime.normalizeName r.modelName) (l.assigned runtime r)).isSome
    · rw [if_pos hfound]
      have hlookup := hfound
      rw [← Option.isSome_map (f := l.row), ← h.lookup_versions] at hlookup
      have hresult := htaken hbound hlookup
      exact ⟨by rw [hresult]; rfl, unchanged_of_taken h hinj hinv hcalm.register hversion hj hbound hfound hregisters⟩
    rw [if_neg hfound]
    have hposts : Posts l runtime maxArtifactSize _ (.registered (l.entry runtime r content j around.now)) :=
      .register hsubmits huploads (fun point _ => hcalm.register point) hj hbound
        (Option.not_isSome_iff_eq_none.1 hfound)
    have hfind := Represents.find_registered (e := l.entry runtime r content j around.now)
      (Option.not_isSome_iff_eq_none.1 hfound)
    obtain ⟨rfl, hshows⟩ := shows_of_posted hstep hposts (hcalm.register _) hnext hinv' hl hfind
    exact ⟨j, hj, hshows _, hnext⟩

end Register

/-- After any run of requests, whatever failed in it, there is a ledger of what the calls they made have
registered and activated, and every route answers from it as long as nothing below it fails. -/
theorem model_routes_law (hinj : Function.Injective runtime.sha256)
    {requests : List ((Surroundings τ × ModelEndpoint) × Response τ)} {w : World τ}
    (hrun : Run (Step runtime maxArtifactSize) World.init requests w) :
    ∃ calls l, calls.map Prod.fst = requests.filterMap (fun request => serviceCall request.1.1 request.1.2) ∧
      Run (World.Step runtime maxArtifactSize) World.init calls w ∧
      Run (Ledger.Step runtime maxArtifactSize) [] calls l ∧ Represents runtime l w ∧
      ∀ around, around.Calm → RoutesLaw runtime maxArtifactSize around l w := by
  obtain ⟨calls, hmap, hcalls⟩ := Run.calls hrun .init
  obtain ⟨l, hl, h, hinv, hsized⟩ := Represents.run hinj hcalls
  have hvalid : l.Valid := Valid.run hl (by simp [Valid, entries])
  refine ⟨calls, l, hmap, hcalls, hl, h, fun around hcalm => ?_⟩
  constructor
  · intro modelName version hge
    exact respond_get h hinv hsized hvalid around hge
  · exact respond_list h hinv hsized hvalid around
  · intro modelName version hge
    exact respond_activate h hinv hsized hvalid hinj maxArtifactSize hcalm hge
  · intro modelName version
    exact respond_malformed runtime maxArtifactSize around w modelName
  · intro modelName artifact version description metadata
    exact respond_unregistered runtime maxArtifactSize w
  · intro modelName artifact version description metadata call r stream now faults hcall hsubmits
    exact registrationLaw h hinj hinv hsized hvalid maxArtifactSize hcalm hcall hsubmits

/-- Nothing fails. -/
def sampleSurroundings : Surroundings ℤ := ⟨"upload-1", 1, fun _ => none, fun _ => none⟩

def sampleUpload : ModelEndpoint := .registerModelVersion " model" (.ok splitStream) (.ok none) none none

/-- After an upload, the version it has created can be activated, and the activation is in the ledger. -/
theorem model_routes_law_example : ∃ (answer : Response ℤ) (w : World ℤ)
    (calls : List (ServiceCall ℤ × Except ModelError (ModelVersion ℤ))) (l : Ledger ℤ) (e : Entry ℤ),
    Run (Step StoreSystem.sampleRuntime 4) World.init [((sampleSurroundings, sampleUpload), answer)] w ∧
      answer.status = .created ∧ calls.length = 1 ∧
      Run (Ledger.Step StoreSystem.sampleRuntime 4) [] calls l ∧ l.find "model" 1 = some e ∧
      ∃ activated w', respond StoreSystem.sampleRuntime 4 sampleSurroundings (.activateModelVersion "model" (.ok 1)) w =
        some (activated, w') ∧ Shows .ok (l ++ [.activated ⟨"model", 1, 1⟩]) e activated ∧
        Represents StoreSystem.sampleRuntime (l ++ [.activated ⟨"model", 1, 1⟩]) w' := by
  have hrespond : ∃ answer w, respond StoreSystem.sampleRuntime 4 sampleSurroundings sampleUpload World.init =
      some (answer, w) ∧ answer.status = .created ∧
      ∃ read, respond StoreSystem.sampleRuntime 4 sampleSurroundings (.getModelVersion "model" (.ok 1)) w =
        some (read, w) ∧ read.status = .ok := ⟨_, _, rfl, rfl, _, rfl, rfl⟩
  obtain ⟨answer, w, hrespond, hstatus, read, hread, hok⟩ := hrespond
  have hrun : Run (Step StoreSystem.sampleRuntime 4) World.init [((sampleSurroundings, sampleUpload), answer)] w :=
    .single hrespond
  obtain ⟨calls, l, hmap, -, hl, h, hlaw⟩ := model_routes_law StoreSystem.sampleRuntime_injective hrun
  have hroutes := hlaw sampleSurroundings ⟨fun _ => rfl, fun _ => rfl⟩
  -- the read that succeeds shows the version to be in the ledger
  obtain ⟨e, hfind⟩ : ∃ e, l.find "model" 1 = some e := by
    obtain ⟨read', hread', hcases⟩ := hroutes.get "model" 1 le_rfl
    rw [hread, Option.some.injEq, Prod.mk.injEq] at hread'
    obtain ⟨rfl, -⟩ := hread'
    cases hfind : l.find "model" 1 with
    | some e => exact ⟨e, rfl⟩
    | none =>
      rw [show StoreSystem.sampleRuntime.normalizeName "model" = "model" from rfl, hfind] at hcases
      rw [hcases, missing] at hok
      split at hok <;> cases hok
  obtain ⟨activated, w', hactivate, hcases⟩ := hroutes.activate "model" 1 le_rfl
  rw [show StoreSystem.sampleRuntime.normalizeName "model" = "model" from rfl, hfind] at hcases
  have hlength : calls.length = 1 := by
    rw [← List.length_map Prod.fst, hmap]
    rfl
  exact ⟨answer, w, calls, l, e, hrun, hstatus, hlength, hl, hfind, activated, w', hactivate, hcases⟩

end ModelApi

end TextExtraction
