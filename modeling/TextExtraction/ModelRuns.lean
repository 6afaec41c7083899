import TextExtraction.ModelArtifacts
import TextExtraction.ModelHistory

/-!
# Runs of calls

Any sequence of calls of `ModelService`, failing ones included. `World.Inv` holds throughout; a version
that one call has registered is found by every later read, unchanged but for its status, with its
bytes in the artifact directory.
-/

namespace TextExtraction

open Python Relational Transition

variable {τ : Type} {runtime : Runtime} {maxArtifactSize : ℕ}

/-- The call gets as far as the store, with these arguments. -/
inductive ServiceCall.Submits : ServiceCall τ → Registration → (ℕ → ReadResult) → τ →
    (RegisterPoint → Option Exc) → Prop
  | intro {modelName : Value} {version : Option VersionArg} {description : Option String}
      {metadata : Value} {stream : ℕ → ReadResult} {temporary : String} {now : τ}
      {faults : RegisterPoint → Option Exc} {r : Registration} :
      ModelService.validate modelName version description metadata = .ok r →
      Submits (.register modelName version description metadata stream temporary now faults) r stream now
        faults

theorem ServiceCall.Submits.unique {call : ServiceCall τ} {r r' : Registration}
    {stream stream' : ℕ → ReadResult} {now now' : τ} {faults faults' : RegisterPoint → Option Exc}
    (h : call.Submits r stream now faults) (h' : call.Submits r' stream' now' faults') :
    r = r' ∧ stream = stream' ∧ now = now' ∧ faults = faults' := by
  obtain ⟨hvalid⟩ := h
  obtain ⟨hvalid'⟩ := h'
  rw [hvalid] at hvalid'
  exact ⟨Except.ok.inj hvalid', rfl, rfl, rfl⟩

namespace World

variable {w w' w'' : World τ} {call : ServiceCall τ} {result : Except ModelError (ModelVersion τ)}

/-! ### The invariant -/

structure Inv (runtime : Runtime) (w : World τ) : Prop where
  catalog : w.catalog.Inv
  hashed : ∀ digest content, w.files digest = some content → runtime.sha256 content = digest
  stored : ∀ digest, w.files digest = none → w.catalog.artifacts.lookup digest = none
  data : ∀ temporary, w.data temporary = none

theorem Inv.init : Inv runtime (init : World τ) :=
  ⟨.empty, by rintro _ _ ⟨⟩, fun _ _ => rfl, fun _ => rfl⟩

/-- What a call of the service does: nothing, a registration or an activation. -/
inductive Performs (runtime : Runtime) (maxArtifactSize : ℕ) (call : ServiceCall τ) (w : World τ) :
    Except ModelError (ModelVersion τ) → World τ → Prop
  | refused {error : ModelError} : Performs runtime maxArtifactSize call w (.error error) w
  | registers {r : Registration} {stream : ℕ → ReadResult} {now : τ} {faults : RegisterPoint → Option Exc}
      {result : Except ModelError (ModelVersion τ)} {w' : World τ} : call.Submits r stream now faults →
      Registers runtime maxArtifactSize r stream now faults w result w' →
      Performs runtime maxArtifactSize call w result w'
  | activates {modelName : String} {version : ℤ} {now : τ} {faults : ActivatePoint → Option Exc}
      {catalog : Catalog τ} : call = .activate modelName version now faults →
      w.catalog.activate (runtime.normalizeName modelName) version now = some catalog →
      Performs runtime maxArtifactSize call w
        (match faults .reload with
          | some error => .error (.store (.raised error))
          | none => catalog.get runtime modelName version)
        { w with catalog }

theorem activate_cases (runtime : Runtime) (maxArtifactSize : ℕ) (modelName : String) (version : ℤ) (now : τ)
    (faults : ActivatePoint → Option Exc) (w : World τ) :
    Performs runtime maxArtifactSize (.activate modelName version now faults) w
      (w.activate runtime modelName version now faults).1
      (w.activate runtime modelName version now faults).2 := by
  unfold activate
  rcases faults .begin with - | error
  swap
  · exact .refused
  by_cases hbind : Bindable version
  swap
  · simp only [hbind, not_false_eq_true, if_true]
    exact .refused
  simp only [hbind, not_true_eq_false, if_false]
  rcases hactivate : w.catalog.activate (runtime.normalizeName modelName) version now with - | catalog
  · exact .refused
  have hperforms : Performs runtime maxArtifactSize (.activate modelName version now faults) w _ _ :=
    .activates rfl hactivate
  rcases faults .update with - | error
  · rcases faults .commit with - | error
    · rcases hreload : faults .reload with - | error
      · rw [hreload] at hperforms
        exact hperforms
      · rw [hreload] at hperforms
        exact hperforms
    · exact .refused
  · exact .refused

/-- Every call is answered, in one of these ways. -/
theorem perform_cases (maxArtifactSize : ℕ) (hinv : Inv runtime w) (call : ServiceCall τ) : ∃ result w',
    call.perform runtime maxArtifactSize w = some (result, w') ∧
      Performs runtime maxArtifactSize call w result w' := by
  rcases call with ⟨modelName, version, description, metadata, stream, temporary, now, faults⟩ |
    ⟨modelName, version, now, faults⟩
  · rcases hvalid : ModelService.validate modelName version description metadata with error | r
    · exact ⟨_, w, by rw [ServiceCall.perform, hvalid], .refused⟩
    · obtain ⟨result, w', hregister, hregisters⟩ := register_cases runtime maxArtifactSize r
        stream now faults (hinv.data temporary) hinv.stored
      exact ⟨result, w', by rw [ServiceCall.perform, hvalid]; exact hregister,
        .registers (.intro hvalid) hregisters⟩
  · exact ⟨_, _, rfl, activate_cases runtime maxArtifactSize modelName version now faults w⟩

theorem Step.performs (hinv : Inv runtime w) (h : Step runtime maxArtifactSize w (call, result) w') :
    Performs runtime maxArtifactSize call w result w' := by
  obtain ⟨result', w'', hperform, hperforms⟩ := perform_cases maxArtifactSize hinv call
  have hsame : some (result', w'') = some (result, w') := hperform.symm.trans h
  cases hsame
  exact hperforms

/-! ### What a call keeps -/

theorem placed_of_some {content stored : Bytes} {digest : String} (h : w.files digest = some stored) :
    placed runtime content w digest = some stored := by
  rw [placed, Function.update_apply]
  split
  · rename_i hdigest
    rw [← hdigest, h, Option.getD_some]
  · exact h

theorem of_placed_eq_none {content : Bytes} {digest : String} (h : placed runtime content w digest = none) :
    w.files digest = none := by
  rcases hfile : w.files digest with - | stored
  · rfl
  · rw [placed_of_some hfile] at h
    simp at h

theorem placed_self (hinj : Function.Injective runtime.sha256) (hinv : Inv runtime w) (content : Bytes) :
    placed runtime content w (runtime.sha256 content) = some content := by
  rw [placed, Function.update_self]
  rcases hfile : w.files (runtime.sha256 content) with - | stored
  · rw [Option.getD_none]
  · rw [Option.getD_some, hinj (hinv.hashed _ _ hfile)]

theorem Inv.hashed_placed (hinv : Inv runtime w) (content : Bytes) {digest : String} {stored : Bytes}
    (h : placed runtime content w digest = some stored) : runtime.sha256 stored = digest := by
  rw [World.placed, Function.update_apply] at h
  split at h
  · rename_i hdigest
    rcases hfile : w.files (runtime.sha256 content) with - | old
    · rw [hfile, Option.getD_none, Option.some.injEq] at h
      rw [← h, hdigest]
    · rw [hfile, Option.getD_some, Option.some.injEq] at h
      rw [← h, hdigest]
      exact hinv.hashed _ _ hfile
  · exact hinv.hashed _ _ h

theorem CommitsAt.adds {r : Registration} {now : τ} {faults : RegisterPoint → Option Exc} {content : Bytes}
    {catalog : Catalog τ} (h : CommitsAt runtime r now faults content catalog w) (hinv : w.catalog.Inv)
    (hsize : 0 < content.length) : ∃ metadataJson, dumps true r.metadata = .ok metadataJson ∧
      w.catalog.Adds (r.modelRow runtime now)
        ⟨runtime.sha256 content, runtime.sha256 content, content.length⟩
        (r.row runtime (runtime.sha256 content) now metadataJson w.catalog) catalog ∧ catalog.Inv := by
  obtain ⟨metadataJson, hjson, hbind, hpos, hadds⟩ := Registration.insert_inserted hinv hsize h.insert
  exact ⟨metadataJson, hjson, hadds, hadds.inv hinv rfl rfl rfl hsize hpos hbind.2 rfl⟩

/-- The record of a registration that commits. -/
theorem CommitsAt.exists_record {r : Registration} {now : τ} {faults : RegisterPoint → Option Exc}
    {content : Bytes} {catalog : Catalog τ} (h : CommitsAt runtime r now faults content catalog w)
    (hinv : w.catalog.Inv) (hpos : 0 < content.length) : ∃ record,
    catalog.get runtime r.modelName (r.assigned runtime w.catalog) = .ok record ∧
      record.version = r.assigned runtime w.catalog ∧
      ∃ metadataJson, dumps true r.metadata = .ok metadataJson ∧ record.metadata = loads metadataJson := by
  obtain ⟨metadataJson, hjson, hadds, hcatalog⟩ := h.adds hinv hpos
  obtain ⟨record, hget, hjoin⟩ := hcatalog.exists_get runtime r.modelName
    (hadds.mem_versions.2 (.inr rfl)) rfl
  obtain ⟨m, a, -, -, rfl⟩ := Catalog.joinVersion_eq_some_iff.1 hjoin
  exact ⟨_, hget, rfl, metadataJson, hjson, rfl⟩

/-- A registration that returns has registered a new version, the one it returns. -/
theorem Registers.answers {r : Registration} {stream : ℕ → ReadResult} {now : τ}
    {faults : RegisterPoint → Option Exc} {record : ModelVersion τ} (hinv : w.catalog.Inv)
    (h : Registers runtime maxArtifactSize r stream now faults w result w') (hresult : result = .ok record) :
    record.version = r.assigned runtime w.catalog ∧
      w.catalog.versions.lookup (runtime.normalizeName r.modelName, record.version) = none ∧
      w'.catalog.get runtime r.modelName record.version = .ok record ∧
      ∃ metadataJson, dumps true r.metadata = .ok metadataJson ∧ record.metadata = loads metadataJson := by
  rcases h with - | - | @⟨content, catalog, huploads, hcommits⟩
  · simp at hresult
  · simp at hresult
  · obtain ⟨metadataJson, -, hadds, -⟩ := hcommits.adds hinv huploads.pos
    obtain ⟨record', hget, hversion, hmetadata⟩ := hcommits.exists_record hinv huploads.pos
    rcases hreload : faults .reload with - | error
    · rw [hreload, Catalog.get_strip, hget] at hresult
      obtain rfl : record' = record := Except.ok.inj hresult
      rw [hversion]
      exact ⟨rfl, hadds.fresh, hget, hmetadata⟩
    · rw [hreload] at hresult
      simp at hresult

theorem Inv.performs (hinv : Inv runtime w) (h : Performs runtime maxArtifactSize call w result w') :
    Inv runtime w' := by
  rcases h with - | ⟨-, hregisters⟩ | ⟨-, hactivate⟩
  · exact hinv
  · rcases hregisters with - | @⟨content, -, -, -⟩ | @⟨content, catalog, huploads, hcommits⟩
    · exact hinv
    · refine ⟨hinv.catalog, fun digest stored => hinv.hashed_placed content, fun digest hnone => ?_, hinv.data⟩
      exact hinv.stored digest (of_placed_eq_none hnone)
    · obtain ⟨metadataJson, hjson, hadds, hcatalog⟩ := hcommits.adds hinv.catalog huploads.pos
      refine ⟨hcatalog, fun digest stored => hinv.hashed_placed content, fun digest hnone => ?_, hinv.data⟩
      have hne : runtime.sha256 content ≠ digest := by
        rintro rfl
        have hself : placed runtime content w (runtime.sha256 content) = none := hnone
        rw [placed, Function.update_self] at hself
        simp at hself
      rw [hadds.artifacts, if_neg hne, Option.or_none]
      exact hinv.stored digest (of_placed_eq_none hnone)
  · exact ⟨(Catalog.activate_spec hactivate).inv hinv.catalog, hinv.hashed,
      fun digest hnone => by rw [(Catalog.activate_spec hactivate).artifacts]; exact hinv.stored digest hnone,
      hinv.data⟩

/-- What is there stays: the rows but for a status, and every file. -/
structure Keeps (w w' : World τ) : Prop where
  catalog : w.catalog.Keeps w'.catalog
  files : ∀ digest content, w.files digest = some content → w'.files digest = some content

theorem Keeps.refl (w : World τ) : w.Keeps w := ⟨.refl _, fun _ _ => id⟩

theorem Keeps.trans (h : w.Keeps w') (h' : w'.Keeps w'') : w.Keeps w'' :=
  ⟨h.catalog.trans h'.catalog, fun _ _ hfile => h'.files _ _ (h.files _ _ hfile)⟩

theorem Performs.keeps (hinv : Inv runtime w) (h : Performs runtime maxArtifactSize call w result w') :
    w.Keeps w' := by
  rcases h with - | ⟨-, hregisters⟩ | ⟨-, hactivate⟩
  · exact .refl _
  · rcases hregisters with - | - | ⟨huploads, hcommits⟩
    · exact .refl _
    · exact ⟨.refl _, fun _ _ => placed_of_some⟩
    · obtain ⟨metadataJson, -, hadds, -⟩ := hcommits.adds hinv.catalog huploads.pos
      exact ⟨hadds.keeps, fun _ _ => placed_of_some⟩
  · exact ⟨(Catalog.activate_spec hactivate).keeps, fun _ _ => id⟩

/-- The size in an artifact's row is that of its file. -/
def Sized (w : World τ) : Prop := ∀ digest a, w.catalog.artifacts.lookup digest = some a →
  ∃ content, w.files digest = some content ∧ content.length = a.size

theorem Sized.performs (hinj : Function.Injective runtime.sha256) (hinv : Inv runtime w) (hsized : w.Sized)
    (h : Performs runtime maxArtifactSize call w result w') : w'.Sized := by
  have hkeeps := h.keeps hinv
  intro digest a ha
  have hold (hlookup : w.catalog.artifacts.lookup digest = some a) :
      ∃ content, w'.files digest = some content ∧ content.length = a.size := by
    obtain ⟨content, hfile, hlength⟩ := hsized digest a hlookup
    exact ⟨content, hkeeps.files _ _ hfile, hlength⟩
  rcases h with - | ⟨-, hregisters⟩ | ⟨-, hactivate⟩
  · exact hold ha
  · rcases hregisters with - | - | @⟨content, catalog, huploads, hcommits⟩
    · exact hold ha
    · exact hold ha
    · obtain ⟨metadataJson, -, hadds, -⟩ := hcommits.adds hinv.catalog huploads.pos
      have hlookup : catalog.artifacts.lookup digest = some a := ha
      rw [hadds.artifacts, Option.or_eq_some_iff] at hlookup
      rcases hlookup with hlookup | ⟨-, hnew⟩
      · exact hold hlookup
      · split at hnew
        · rename_i hdigest
          obtain rfl := Option.some.inj hnew
          refine ⟨content, ?_, rfl⟩
          rw [← hdigest]
          exact placed_self hinj hinv content
        · simp at hnew
  · refine hold ?_
    rw [← (Catalog.activate_spec hactivate).artifacts]
    exact ha

/-! ### Whole runs -/

variable {calls : List (ServiceCall τ × Except ModelError (ModelVersion τ))}

theorem Inv.run (hinv : Inv runtime w) (h : Run (Step runtime maxArtifactSize) w calls w') :
    Inv runtime w' :=
  h.invariant (fun _ _ _ hinv hstep => hinv.performs (Step.performs hinv hstep)) hinv

theorem Keeps.run (hinv : Inv runtime w) (h : Run (Step runtime maxArtifactSize) w calls w') :
    w.Keeps w' := by
  refine (h.invariant (P := fun t => Inv runtime t ∧ w.Keeps t) ?_ ⟨hinv, .refl w⟩).2
  rintro s ⟨call, result⟩ t ⟨hs, hkeeps⟩ hstep
  have hperforms := Step.performs hs hstep
  exact ⟨hs.performs hperforms, hkeeps.trans (hperforms.keeps hs)⟩

theorem Sized.run (hinj : Function.Injective runtime.sha256)
    (h : Run (Step runtime maxArtifactSize) (init : World τ) calls w) : w.Sized := by
  refine (h.invariant (P := fun t => Inv runtime t ∧ t.Sized) ?_ ⟨.init, by rintro _ _ ⟨⟩⟩).2
  rintro s ⟨call, result⟩ t ⟨hs, hsized⟩ hstep
  have hperforms := Step.performs hs hstep
  exact ⟨hs.performs hperforms, hsized.performs hinj hs hperforms⟩

/-! ### Registered versions -/

/-- The store answers with `record` for a version of `r` that was registered at `now` for `content`. -/
structure Holds (runtime : Runtime) (r : Registration) (now : τ) (content : Bytes) (version : ℤ)
    (w : World τ) (record : ModelVersion τ) : Prop where
  get : w.catalog.get runtime r.modelName version = .ok record
  artifactDigest : record.artifactDigest = runtime.sha256 content
  artifactSize : record.artifactSize = content.length
  createdAt : record.createdAt = now
  metadata : ∃ metadataJson, dumps true r.metadata = .ok metadataJson ∧ record.metadata = loads metadataJson
  file : w.files record.artifactDigest = some content

theorem Holds.keeps {r : Registration} {now : τ} {content : Bytes} {version : ℤ} {record : ModelVersion τ}
    (h : Holds runtime r now content version w record) (hkeeps : w.Keeps w') :
    ∃ status, Holds runtime r now content version w' { record with status } := by
  obtain ⟨status, hget⟩ := hkeeps.catalog.get h.get
  exact ⟨status, hget, h.artifactDigest, h.artifactSize, h.createdAt, h.metadata, hkeeps.files _ _ h.file⟩

theorem CommitsAt.holds (hinj : Function.Injective runtime.sha256) (hinv : Inv runtime w) (hsized : w.Sized)
    {r : Registration} {now : τ} {faults : RegisterPoint → Option Exc} {content : Bytes}
    {catalog : Catalog τ} (h : CommitsAt runtime r now faults content catalog w)
    (hpos : 0 < content.length) :
    ∃ record, Holds runtime r now content (r.assigned runtime w.catalog)
      { w with catalog, files := placed runtime content w } record ∧ record.status = .registered ∧
        record.version = r.assigned runtime w.catalog := by
  obtain ⟨metadataJson, hjson, hadds, hcatalog⟩ := h.adds hinv.catalog hpos
  have hfile := placed_self hinj hinv content
  have hrow : r.row runtime (runtime.sha256 content) now metadataJson w.catalog ∈ catalog.versions.rows :=
    hadds.mem_versions.2 (.inr rfl)
  obtain ⟨record, hget, hjoin⟩ := hcatalog.exists_get runtime r.modelName hrow rfl
  obtain ⟨m, a, -, ha, rfl⟩ := Catalog.joinVersion_eq_some_iff.1 hjoin
  refine ⟨_, ⟨hget, rfl, ?_, rfl, ⟨metadataJson, hjson, rfl⟩, hfile⟩, rfl, rfl⟩
  show a.size = content.length
  have hlookup : catalog.artifacts.lookup (runtime.sha256 content) = some a := ha
  rw [hadds.artifacts, if_pos rfl, Option.or_eq_some_iff] at hlookup
  rcases hlookup with hold | ⟨-, hnew⟩
  · obtain ⟨stored, hstored, hlength⟩ := hsized _ _ hold
    rw [← hlength, hinj (hinv.hashed _ _ hstored)]
  · rw [← Option.some.inj hnew]

/-- A call that registers a version, by its effect: the version is new. -/
theorem Performs.registered (hinj : Function.Injective runtime.sha256) (hinv : Inv runtime w)
    (hsized : w.Sized) (h : Performs runtime maxArtifactSize call w result w') {v : ModelVersionRow τ}
    (hv : v ∈ w'.catalog.versions.rows) (hnew : w.catalog.versions.lookup v.key = none) :
    ∃ r stream now faults content record, call.Submits r stream now faults ∧
      Uploads maxArtifactSize stream content ∧
      v.key = (runtime.normalizeName r.modelName, r.assigned runtime w.catalog) ∧
      w'.Holds runtime r now content v.version record := by
  have hold : v ∉ w.catalog.versions.rows := by
    intro hmem
    rw [Table.lookup_of_mem hmem] at hnew
    simp at hnew
  rcases h with - | ⟨hsubmits, hregisters⟩ | ⟨-, hactivate⟩
  · exact absurd hv hold
  · rcases hregisters with - | - | @⟨content, catalog, huploads, hcommits⟩
    · exact absurd hv hold
    · exact absurd hv hold
    · obtain ⟨metadataJson, -, hadds, -⟩ := hcommits.adds hinv.catalog huploads.pos
      obtain ⟨record, hholds, -⟩ := hcommits.holds hinj hinv hsized huploads.pos
      rcases hadds.mem_versions.1 hv with hmem | rfl
      · exact absurd hmem hold
      · exact ⟨_, _, _, _, content, record, hsubmits, huploads, rfl, hholds⟩
  · rw [(Catalog.activate_spec hactivate).versions] at hv
    obtain ⟨u, hu, rfl⟩ := List.mem_map.1 hv
    have hlookup := Table.lookup_of_mem hu
    rw [show ModelVersionRow.key (Catalog.restatus _ _ u) = u.key from rfl, hlookup] at hnew
    simp at hnew

/-- A registration that returns has registered the version it returns. -/
theorem Performs.returned (hinv : Inv runtime w)
    (h : Performs runtime maxArtifactSize call w result w') {r : Registration} {stream : ℕ → ReadResult}
    {now : τ} {faults : RegisterPoint → Option Exc} (hsubmits : call.Submits r stream now faults)
    {record : ModelVersion τ} (hresult : result = .ok record) :
    w.catalog.versions.lookup (runtime.normalizeName r.modelName, record.version) = none ∧
      w'.catalog.get runtime r.modelName record.version = .ok record := by
  rcases h with - | ⟨hsubmits', hregisters⟩ | ⟨hcall, -⟩
  · simp at hresult
  · obtain ⟨rfl, rfl, rfl, rfl⟩ := hsubmits.unique hsubmits'
    obtain ⟨-, hfresh, hget, -⟩ := hregisters.answers hinv.catalog hresult
    exact ⟨hfresh, hget⟩
  · obtain ⟨-⟩ := hsubmits
    simp at hcall

/-- The catalog over a whole run of calls, failing ones included. A version that was registered stays as
it was registered, but for its status, and its file holds the bytes it was registered for; a model has
at most one active version, the one of its last activation record, which is also what `resolve` finds;
every model has versions, and `list_versions` gives them all in descending order: it finds nothing exactly
where nothing was registered. -/
theorem catalog_invariant (hinj : Function.Injective runtime.sha256)
    (hrun : Run (Step runtime maxArtifactSize) init calls w) :
    (∀ before call result after s t, Run (Step runtime maxArtifactSize) init before s →
      Step runtime maxArtifactSize s (call, result) t → Run (Step runtime maxArtifactSize) t after w →
      (∀ v ∈ t.catalog.versions.rows, s.catalog.versions.lookup v.key = none →
        ∃ r stream now faults content record status, call.Submits r stream now faults ∧
          Uploads maxArtifactSize stream content ∧
          v.key = (runtime.normalizeName r.modelName, r.assigned runtime s.catalog) ∧
          t.Holds runtime r now content v.version record ∧
          w.Holds runtime r now content v.version { record with status }) ∧
      ∀ r stream now faults record, call.Submits r stream now faults → result = .ok record →
        s.catalog.versions.lookup (runtime.normalizeName r.modelName, record.version) = none ∧
          t.catalog.get runtime r.modelName record.version = .ok record) ∧
    (∀ u ∈ w.catalog.versions.rows, ∀ v ∈ w.catalog.versions.rows,
      u.normalizedName = v.normalizedName → u.status = .active → v.status = .active → u = v) ∧
    (∀ modelName,
      ((∃ v ∈ w.catalog.versions.rows, v.normalizedName = runtime.normalizeName modelName ∧
          v.status = .active) ↔ w.catalog.activationHistory runtime modelName ≠ []) ∧
      ∀ last, (w.catalog.activationHistory runtime modelName).getLast? = some last →
        (∀ v ∈ w.catalog.versions.rows, v.normalizedName = runtime.normalizeName modelName →
          v.status = .active → v.version = last.version) ∧
        ∃ record, w.catalog.resolve runtime modelName none = .ok record ∧
          record.version = last.version ∧ record.status = .active) ∧
    (∀ m ∈ w.catalog.models.rows, ∃ v ∈ w.catalog.versions.rows, v.normalizedName = m.normalizedName) ∧
    ∀ modelName,
      ((∃ message, w.catalog.listVersions runtime modelName = .error (.notFound message)) ∧
          ∀ version, w.catalog.versions.lookup (runtime.normalizeName modelName, version) = none) ∨
        ∃ records, w.catalog.listVersions runtime modelName = .ok records ∧ records ≠ [] ∧
          records.Pairwise (fun a b => b.version < a.version) ∧
          ∀ version, version ∈ records.map ModelVersion.version ↔
            (w.catalog.versions.lookup (runtime.normalizeName modelName, version)).isSome := by
  have hinv : Inv runtime w := Inv.init.run hrun
  refine ⟨?_, ?_, ?_, hinv.catalog.version, hinv.catalog.listVersions runtime⟩
  · intro before call result after s t hbefore hstep hafter
    have hs : Inv runtime s := Inv.init.run hbefore
    have hperforms := Step.performs hs hstep
    constructor
    · intro v hv hnew
      obtain ⟨r, stream, now, faults, content, record, hsubmits, huploads, hkey, hholds⟩ :=
        hperforms.registered hinj hs (.run hinj hbefore) hv hnew
      obtain ⟨status, hkept⟩ := hholds.keeps (.run (hs.performs hperforms) hafter)
      exact ⟨r, stream, now, faults, content, record, status, hsubmits, huploads, hkey, hholds, hkept⟩
    · intro r stream now faults record hsubmits hresult
      exact hperforms.returned hs hsubmits hresult
  · intro u hu v hv hname hactive hactive'
    exact hinv.catalog.active_unique hu hv hname hactive hactive'
  · intro modelName
    exact ⟨hinv.catalog.exists_active_iff runtime modelName, fun last h => hinv.catalog.active_of_last h⟩

/-! ### Two calls -/

def sampleRegister (version : Option VersionArg) : ServiceCall ℤ :=
  .register (.str " model") version none (.dict []) splitStream "upload-1" 1 fun _ => none

def sampleActivate : ServiceCall ℤ := .activate "model" 1 2 fun _ => none

theorem sample_run : ∃ result result' w, Run (Step StoreSystem.sampleRuntime 4) (init : World ℤ)
    [(sampleRegister none, result), (sampleActivate, result')] w ∧
    ∃ last, (w.catalog.activationHistory StoreSystem.sampleRuntime "model").getLast? = some last ∧
      last.version = 1 :=
  ⟨_, _, _, .cons rfl (.cons rfl (.nil _)), _, rfl, rfl⟩

theorem catalog_invariant_sample : ∃ (w : World ℤ) (record : ModelVersion ℤ),
    w.catalog.resolve StoreSystem.sampleRuntime "model" none = .ok record ∧ record.version = 1 ∧
      record.status = .active := by
  obtain ⟨result, result', w, hrun, last, hlast, hversion⟩ := sample_run
  obtain ⟨-, -, hactive, -⟩ := catalog_invariant StoreSystem.sampleRuntime_injective hrun
  obtain ⟨-, record, hresolve, hrecord, hstatus⟩ := (hactive "model").2 last hlast
  exact ⟨w, record, hresolve, hrecord.trans hversion, hstatus⟩

end World

end TextExtraction
