import Mathlib.Order.Bounds.Defs
import TextExtraction.ModelRuns

/-!
# Registrations that fail

What a call that `ModelService` lets through needs in order to succeed, and what it leaves behind when
it raises. Between `os.replace` and the commit only an `IntegrityError` and a failing commit are
handled: anything else that is raised there leaves the new file in the artifact directory. A version
that SQLite cannot bind is one such case, and `COALESCE(MAX(version), 0) + 1` comes to it once the largest
integer has been registered.
-/

namespace TextExtraction

open Python Relational Transition

variable {τ : Type} {runtime : Runtime} {maxArtifactSize : ℕ}

/-- What the service has checked. -/
theorem ModelService.validate_eq_ok_iff {modelName : Value} {version : Option VersionArg}
    {description : Option String} {metadata : Value} {r : Registration} :
    validate modelName version description metadata = .ok r ↔ checkName modelName = .ok r.modelName ∧
      checkVersion version = .ok r.version ∧ checkMetadata metadata = .ok r.metadata ∧ description = r.description := by
  simp only [validate, bind_eq_ok_iff, Except.ok.injEq]
  constructor
  · rintro ⟨name, hname, number, hnumber, items, hitems, rfl⟩
    exact ⟨hname, hnumber, hitems, rfl⟩
  · rintro ⟨hname, hnumber, hitems, rfl⟩
    exact ⟨_, hname, _, hnumber, _, hitems, rfl⟩

theorem ModelService.version_of_validate {modelName : Value} {version : Option VersionArg}
    {description : Option String} {metadata : Value} {r : Registration}
    (hvalid : validate modelName version description metadata = .ok r) :
    ∀ number, r.version = some number → 1 ≤ number := by
  obtain ⟨-, hversion, -⟩ := validate_eq_ok_iff.1 hvalid
  intro number hnumber
  rw [hnumber] at hversion
  rcases version with - | b | k
  · cases hversion
  · cases hversion
  · rw [checkVersion] at hversion
    split at hversion
    · simp at hversion
    · obtain rfl : k = number := Option.some.inj (Except.ok.inj hversion)
      omega

namespace ServiceCall

theorem Submits.valid {call : ServiceCall τ} {r : Registration} {stream : ℕ → ReadResult} {now : τ}
    {faults : RegisterPoint → Option Exc} (h : call.Submits r stream now faults) :
    ∀ version, r.version = some version → 1 ≤ version := by
  obtain ⟨hvalid⟩ := h
  exact ModelService.version_of_validate hvalid

end ServiceCall

namespace World

variable {w w' : World τ} {call : ServiceCall τ} {r : Registration} {stream : ℕ → ReadResult} {now : τ}
  {faults : RegisterPoint → Option Exc} {content : Bytes}
  {calls : List (ServiceCall τ × Except ModelError (ModelVersion τ))}

/-- The database takes the version: the metadata can be written with its keys sorted, the number can be
bound, and it is new. -/
structure Accepts (runtime : Runtime) (r : Registration) (w : World τ) : Prop where
  metadata : ∃ metadataJson, dumps true r.metadata = .ok metadataJson
  version : r.assigned runtime w.catalog < 2 ^ 63
  fresh : w.catalog.versions.lookup (runtime.normalizeName r.modelName, r.assigned runtime w.catalog) = none

theorem assigned_pos (hinv : w.catalog.Inv) (hversion : ∀ version, r.version = some version → 1 ≤ version) :
    0 < r.assigned runtime w.catalog := by
  unfold Registration.assigned
  rcases hr : r.version with - | version
  · exact Catalog.nextVersion_pos hinv.positive _
  · have := hversion version hr
    show 0 < version
    omega

theorem bindable_assigned_iff (hinv : w.catalog.Inv)
    (hversion : ∀ version, r.version = some version → 1 ≤ version) :
    Bindable (r.assigned runtime w.catalog) ↔ r.assigned runtime w.catalog < 2 ^ 63 := by
  have hpos : 0 < r.assigned runtime w.catalog := assigned_pos hinv hversion
  unfold Bindable
  omega

theorem exists_commitsAt_iff (now : τ) (faults : RegisterPoint → Option Exc) (hinv : w.catalog.Inv)
    (hpos : 0 < content.length) (hversion : ∀ version, r.version = some version → 1 ≤ version) :
    (∃ catalog, CommitsAt runtime r now faults content catalog w) ↔
      (∀ point, point ≠ .reload → faults point = none) ∧ Accepts runtime r w := by
  constructor
  · rintro ⟨catalog, hfaults, hinsert⟩
    obtain ⟨metadataJson, hjson, hbind, -, hadds⟩ := Registration.insert_inserted hinv hpos hinsert
    exact ⟨hfaults, ⟨metadataJson, hjson⟩, hbind.2, hadds.fresh⟩
  · rintro ⟨hfaults, ⟨metadataJson, hjson⟩, hbound, hfresh⟩
    obtain ⟨catalog, hinsert⟩ := Registration.exists_inserted (runtime.sha256 content) now hinv hpos hjson
      ((bindable_assigned_iff hinv hversion).2 hbound) (assigned_pos hinv hversion) hfresh
    exact ⟨catalog, hfaults, hinsert⟩

/-- What a failing call leaves: a file that is new and has no row, or a committed version that could not
be read again. -/
inductive LeavesTrace (runtime : Runtime) (maxArtifactSize : ℕ) (r : Registration)
    (stream : ℕ → ReadResult) (faults : RegisterPoint → Option Exc) (w : World τ) : Prop
  | file {content : Bytes} : Uploads maxArtifactSize stream content →
      faults .stage = none → faults .begin = none → faults .place = none →
      w.files (runtime.sha256 content) = none →
      (faults .insertArtifact ≠ none ∨ faults .insertVersion ≠ none ∨
        (∃ error, dumps true r.metadata = .error error) ∨ 2 ^ 63 ≤ r.assigned runtime w.catalog) →
      LeavesTrace runtime maxArtifactSize r stream faults w
  | version {content : Bytes} : Uploads maxArtifactSize stream content →
      (∀ point, point ≠ .reload → faults point = none) → faults .reload ≠ none →
      Accepts runtime r w → LeavesTrace runtime maxArtifactSize r stream faults w

theorem CommitsAt.ne {catalog : Catalog τ} (h : CommitsAt runtime r now faults content catalog w)
    (hinv : w.catalog.Inv) (hpos : 0 < content.length) : catalog ≠ w.catalog := by
  obtain ⟨metadataJson, -, hadds, -⟩ := h.adds hinv hpos
  rintro rfl
  have hfresh := hadds.fresh
  rw [Table.lookup_of_mem (hadds.mem_versions.2 (.inr rfl))] at hfresh
  simp at hfresh

/-- A call that gets to the store is answered as `register_cases` says. -/
theorem Inv.perform_submits (hinv : Inv runtime w) (maxArtifactSize : ℕ)
    (hsubmits : call.Submits r stream now faults) :
    ∃ result w', call.perform runtime maxArtifactSize w = some (result, w') ∧
      Registers runtime maxArtifactSize r stream now faults w result w' := by
  obtain ⟨hvalid⟩ := hsubmits
  obtain ⟨result, w', hregister, hregisters⟩ :=
    register_cases runtime maxArtifactSize r stream now faults (hinv.data _) hinv.stored
  refine ⟨result, w', ?_, hregisters⟩
  rw [ServiceCall.perform, hvalid]
  exact hregister

/-- A registration returns exactly when all of the upload can be read, no operation raises on its own
account and the database takes the version. -/
theorem Registers.ok_iff {result : Except ModelError (ModelVersion τ)} (hinv : w.catalog.Inv)
    (hversion : ∀ version, r.version = some version → 1 ≤ version)
    (h : Registers runtime maxArtifactSize r stream now faults w result w') :
    (∃ record, result = .ok record) ↔
      (∃ content, Uploads maxArtifactSize stream content) ∧ (∀ point, faults point = none) ∧ Accepts runtime r w := by
  rcases h with hwhy | @⟨content, error, huploads, hstrays⟩ | @⟨content, catalog, huploads, hcommits⟩
  · refine ⟨by rintro ⟨record, ⟨⟩⟩, ?_⟩
    rintro ⟨⟨content, huploads⟩, hfaults, haccepts⟩
    exact absurd ((exists_commitsAt_iff now _ hinv huploads.pos hversion).2 ⟨fun point _ => hfaults point, haccepts⟩)
      (hwhy _ huploads).2
  · refine ⟨by rintro ⟨record, ⟨⟩⟩, ?_⟩
    rintro ⟨-, hfaults, haccepts⟩
    exact absurd ((exists_commitsAt_iff now _ hinv huploads.pos hversion).2 ⟨fun point _ => hfaults point, haccepts⟩)
      (hstrays.not_commitsAt now)
  · obtain ⟨hfaults, haccepts⟩ := (exists_commitsAt_iff now _ hinv huploads.pos hversion).1 ⟨catalog, hcommits⟩
    obtain ⟨record, hget, -⟩ := hcommits.exists_record hinv huploads.pos
    rcases hreload : faults .reload with - | error
    · refine ⟨fun _ => ⟨⟨content, huploads⟩, fun point => ?_, haccepts⟩, fun _ => ⟨record, ?_⟩⟩
      · by_cases hpoint : point = .reload
        · rw [hpoint, hreload]
        · exact hfaults point hpoint
      · exact (Catalog.get_strip ..).trans hget
    · refine ⟨by rintro ⟨record, ⟨⟩⟩, ?_⟩
      rintro ⟨-, hnone, -⟩
      rw [hnone] at hreload
      simp at hreload

/-- A call of `register` that raises leaves the store as it was, except in the two cases of
`LeavesTrace`. -/
theorem failed_registration_iff (hrun : Run (Step runtime maxArtifactSize) init calls w)
    (hsubmits : call.Submits r stream now faults) :
    ∃ result w', call.perform runtime maxArtifactSize w = some (result, w') ∧
      (((∃ error, result = .error error) → w' = w) ↔
        ¬LeavesTrace runtime maxArtifactSize r stream faults w) := by
  have hinv : Inv runtime w := Inv.init.run hrun
  have hversion := hsubmits.valid
  obtain ⟨result, w', hperform, hregisters⟩ := hinv.perform_submits maxArtifactSize hsubmits
  refine ⟨result, w', hperform, ?_⟩
  rcases hregisters with hwhy | @⟨content, error, huploads, hstrays⟩ | @⟨content, catalog, huploads, hcommits⟩
  · refine ⟨fun _ htrace => ?_, fun _ _ => rfl⟩
    rcases htrace with ⟨huploads, hstage, hbegin, hplace, hfile, hraises⟩ |
      ⟨huploads, hfaults, -, haccepts⟩
    · refine (hwhy _ huploads).1 ⟨hstage, hbegin, hplace, hfile, ?_⟩
      rwa [bindable_assigned_iff hinv.catalog hversion, not_lt]
    · exact (hwhy _ huploads).2 ((exists_commitsAt_iff now _ hinv.catalog huploads.pos hversion).2
        ⟨hfaults, haccepts⟩)
  · refine ⟨fun hsame => ?_, fun hnot => absurd ?_ hnot⟩
    · have hfiles := congrArg (fun w : World τ => w.files (runtime.sha256 content)) (hsame ⟨error, rfl⟩)
      simp only [placed, Function.update_self, hstrays.file] at hfiles
      simp at hfiles
    · obtain ⟨hstage, hbegin, hplace, hfile, hraises⟩ := hstrays
      rw [bindable_assigned_iff hinv.catalog hversion, not_lt] at hraises
      exact .file huploads hstage hbegin hplace hfile hraises
  · obtain ⟨hfaults, haccepts⟩ :=
      (exists_commitsAt_iff now _ hinv.catalog huploads.pos hversion).1 ⟨catalog, hcommits⟩
    rcases hreload : faults .reload with - | error
    · obtain ⟨record, hget, -⟩ := hcommits.exists_record hinv.catalog huploads.pos
      constructor
      · rintro - (⟨-, -, -, -, -, hraises⟩ | ⟨-, -, hreloads, -⟩)
        · rw [← not_lt, ← bindable_assigned_iff hinv.catalog hversion] at hraises
          exact not_commitsAt_of_raises hraises ⟨catalog, hcommits⟩
        · exact hreloads hreload
      · rintro - ⟨error, herror⟩
        rw [Catalog.get_strip, hget] at herror
        cases herror
    · refine ⟨fun hsame => ?_, fun hnot => absurd ?_ hnot⟩
      · exact absurd (congrArg World.catalog (hsame ⟨_, rfl⟩)) (hcommits.ne hinv.catalog huploads.pos)
      · exact .version huploads hfaults (by simp [hreload]) haccepts

theorem sample_taken : ∃ result w, Run (Step StoreSystem.sampleRuntime 4) (init : World ℤ)
    [(sampleRegister none, result)] w ∧ (∃ record, result = .ok record) ∧
      ∃ error w', (sampleRegister (some (.int 1))).perform StoreSystem.sampleRuntime 4 w = some (.error error, w') :=
  ⟨_, _, .cons rfl (.nil _), ⟨_, rfl⟩, _, _, rfl⟩

/-- A version is registered, and a second call for the same version and content is refused. -/
theorem failed_registration_iff_sample : ∃ result error w, Run (Step StoreSystem.sampleRuntime 4) (init : World ℤ)
    [(sampleRegister none, result)] w ∧ (∃ record, result = .ok record) ∧
      (sampleRegister (some (.int 1))).perform StoreSystem.sampleRuntime 4 w = some (.error error, w) := by
  obtain ⟨result, w, hrun, hok, error, w', hrefused⟩ := sample_taken
  have hsubmits : (sampleRegister (some (.int 1))).Submits _ splitStream 1 fun _ => none := .intro rfl
  obtain ⟨answer, w'', hperform, hiff⟩ := failed_registration_iff hrun hsubmits
  obtain ⟨rfl, rfl⟩ := Prod.mk.inj (Option.some.inj (hperform.symm.trans hrefused))
  have hsame : w'' = w := by
    refine hiff.2 ?_ ⟨error, rfl⟩
    rintro (⟨-, -, -, -, -, h | h | ⟨error, h⟩ | h⟩ | ⟨-, -, h, -⟩)
    · exact h rfl
    · exact h rfl
    · cases h
    · exact absurd (show (2 : ℤ) ^ 63 ≤ 1 from h) (by decide)
    · exact h rfl
  rw [hsame] at hrefused
  exact ⟨result, error, w, hrun, hok, hrefused⟩

/-- A version that SQLite cannot bind is refused after the artifact has been put in place. -/
theorem failed_registration_leaves_file : ¬∀ (runtime : Runtime) (maxArtifactSize : ℕ)
    (calls : List (ServiceCall ℤ × Except ModelError (ModelVersion ℤ))) (w w' : World ℤ)
    (call : ServiceCall ℤ) (r : Registration) (stream : ℕ → ReadResult) (now : ℤ)
    (faults : RegisterPoint → Option Exc) (error : ModelError),
    Run (Step runtime maxArtifactSize) init calls w → call.Submits r stream now faults →
      call.perform runtime maxArtifactSize w = some (.error error, w') → w' = w := by
  intro hclaim
  have hsame := hclaim StoreSystem.sampleRuntime 4 [] init _ (sampleRegister (some (.int (2 ^ 63)))) _ _ _ _ _
    (.nil _) (.intro rfl) rfl
  have hfile := congrArg (fun w : World ℤ => w.files StoreSystem.digestTwo) hsame
  cases hfile

end World

/-! ### Automatic versions -/

namespace Catalog

variable {c : Catalog τ} {normalizedName : String}

/-- The next version is the first, or follows one that is there. -/
theorem nextVersion_spec (c : Catalog τ) (normalizedName : String) : c.nextVersion normalizedName = 1 ∨
    (c.versions.lookup (normalizedName, c.nextVersion normalizedName - 1)).isSome := by
  unfold nextVersion
  rcases hmax : ((c.versions.select fun v => v.normalizedName = normalizedName).map
    ModelVersionRow.version).max? with - | max
  · exact .inl rfl
  · obtain ⟨v, hv, rfl⟩ := List.mem_map.1 (List.max?_eq_some_iff.1 hmax).1
    obtain ⟨hv, hname⟩ := List.mem_filter.1 hv
    refine .inr (Option.isSome_iff_exists.2 ⟨v, Table.lookup_eq_some_iff.2 ⟨hv, Prod.ext ?_ ?_⟩⟩)
    · exact of_decide_eq_true hname
    · show v.version = v.version + 1 - 1
      omega

/-- The next version is the least positive number above all versions of the model. -/
theorem Inv.isLeast_nextVersion (hinv : c.Inv) (normalizedName : String) :
    IsLeast {k : ℤ | 0 < k ∧ ∀ version, (c.versions.lookup (normalizedName, version)).isSome → version < k}
      (c.nextVersion normalizedName) := by
  refine ⟨⟨nextVersion_pos hinv.positive _, fun version hversion => ?_⟩, fun k hk => ?_⟩
  · obtain ⟨v, hv⟩ := Option.isSome_iff_exists.1 hversion
    have hlt := lt_nextVersion (Table.mem_of_lookup hv)
    have hkey : v.key = (normalizedName, version) := Table.key_of_lookup hv
    obtain ⟨rfl, rfl⟩ := Prod.mk.inj hkey
    exact hlt
  · obtain ⟨hpos, hlt⟩ := hk
    rcases nextVersion_spec c normalizedName with hone | htop
    · omega
    · have := hlt _ htop
      omega

/-- There is a next version to bind unless the largest integer is taken. -/
theorem Inv.nextVersion_lt_iff (hinv : c.Inv) (normalizedName : String) :
    c.nextVersion normalizedName < 2 ^ 63 ↔ c.versions.lookup (normalizedName, 2 ^ 63 - 1) = none := by
  obtain ⟨⟨-, hlt⟩, -⟩ := hinv.isLeast_nextVersion normalizedName
  constructor
  · intro hbound
    by_contra htaken
    have := hlt _ (Option.isSome_iff_ne_none.2 htaken)
    omega
  · intro hfree
    rcases nextVersion_spec c normalizedName with hone | htop
    · rw [hone]
      decide
    · obtain ⟨v, hv⟩ := Option.isSome_iff_exists.1 htop
      have hbound := hinv.bindable v (Table.mem_of_lookup hv)
      rw [show v.version = c.nextVersion normalizedName - 1 from
        congrArg Prod.snd (Table.key_of_lookup hv)] at hbound
      by_contra hge
      have hexact : c.nextVersion normalizedName - 1 = 2 ^ 63 - 1 := by omega
      rw [hexact, hfree] at htop
      simp at htop

end Catalog

namespace World

variable {w : World τ} {call : ServiceCall τ} {r : Registration} {stream : ℕ → ReadResult} {now : τ}
  {content : Bytes} {calls : List (ServiceCall τ × Except ModelError (ModelVersion τ))}

/-- A call without a version gets the next one, unless its metadata has keys that do not compare or the
largest version number is taken. -/
theorem automatic_version_iff (hrun : Run (Step runtime maxArtifactSize) init calls w)
    (hsubmits : call.Submits r stream now fun _ => none) (hversion : r.version = none)
    (huploads : Uploads maxArtifactSize stream content) :
    ∃ result w', call.perform runtime maxArtifactSize w = some (result, w') ∧
      ((∃ record, result = .ok record ∧
          IsLeast {k : ℤ | 0 < k ∧ ∀ version, (w.catalog.versions.lookup
            (runtime.normalizeName r.modelName, version)).isSome → version < k} record.version ∧
          w'.catalog.get runtime r.modelName record.version = .ok record) ↔
        (∃ metadataJson, dumps true r.metadata = .ok metadataJson) ∧
          w.catalog.versions.lookup (runtime.normalizeName r.modelName, 2 ^ 63 - 1) = none) := by
  have hinv : Inv runtime w := Inv.init.run hrun
  have hassigned : r.assigned runtime w.catalog = w.catalog.nextVersion (runtime.normalizeName r.modelName) := by
    rw [Registration.assigned, hversion]
    rfl
  have haccepts : Accepts runtime r w ↔ (∃ metadataJson, dumps true r.metadata = .ok metadataJson) ∧
      w.catalog.versions.lookup (runtime.normalizeName r.modelName, 2 ^ 63 - 1) = none := by
    rw [← hinv.catalog.nextVersion_lt_iff, ← hassigned]
    refine ⟨fun h => ⟨h.metadata, h.version⟩, fun h => ⟨h.1, h.2, ?_⟩⟩
    rw [hassigned]
    exact Catalog.lookup_nextVersion ..
  obtain ⟨result, w', hperform, hregisters⟩ := hinv.perform_submits maxArtifactSize hsubmits
  refine ⟨result, w', hperform, ?_⟩
  rw [← haccepts]
  constructor
  · rintro ⟨record, hresult, -⟩
    exact ((hregisters.ok_iff hinv.catalog hsubmits.valid).1 ⟨record, hresult⟩).2.2
  · intro htakes
    obtain ⟨record, hresult⟩ := (hregisters.ok_iff hinv.catalog hsubmits.valid).2
      ⟨⟨content, huploads⟩, fun _ => rfl, htakes⟩
    obtain ⟨hrecord, -, hget, -⟩ := hregisters.answers hinv.catalog hresult
    refine ⟨record, hresult, ?_, hget⟩
    rw [hrecord, hassigned]
    exact hinv.catalog.isLeast_nextVersion _

theorem uploads_splitStream : Uploads 4 splitStream [116, 119, 111] :=
  ⟨2, reads_splitStream, .inr rfl, by decide, by decide⟩

theorem sample_fifth : ∃ result w, Run (Step StoreSystem.sampleRuntime 4) (init : World ℤ)
    [(sampleRegister (some (.int 5)), result)] w ∧ (∃ record, result = .ok record) ∧
      w.catalog.nextVersion "model" = 6 ∧ w.catalog.versions.lookup ("model", 2 ^ 63 - 1) = none :=
  ⟨_, _, .cons rfl (.nil _), ⟨_, rfl⟩, rfl, rfl⟩

/-- After version 5 the next automatic version is 6. -/
theorem automatic_version_iff_sample : ∃ (record : ModelVersion ℤ)
    (result : Except ModelError (ModelVersion ℤ)) (w w' : World ℤ),
    Run (Step StoreSystem.sampleRuntime 4) init [(sampleRegister (some (.int 5)), result)] w ∧
      (∃ record, result = .ok record) ∧
      (sampleRegister none).perform StoreSystem.sampleRuntime 4 w = some (.ok record, w') ∧ record.version = 6 := by
  obtain ⟨first, w, hrun, hok, hnext, hfree⟩ := sample_fifth
  have hsubmits : (sampleRegister none).Submits _ splitStream 1 fun _ => none := .intro rfl
  obtain ⟨result, w', hperform, hiff⟩ := automatic_version_iff hrun hsubmits rfl uploads_splitStream
  obtain ⟨record, rfl, hleast, -⟩ := hiff.2 ⟨⟨_, rfl⟩, hfree⟩
  refine ⟨record, first, w, w', hrun, hok, hperform, ?_⟩
  rw [← hnext]
  have hnextLeast := (Inv.init.run hrun).catalog.isLeast_nextVersion "model"
  exact le_antisymm (hleast.2 hnextLeast.1) (hnextLeast.2 hleast.1)

theorem sample_largest : ∃ result w, Run (Step StoreSystem.sampleRuntime 4) (init : World ℤ)
    [(sampleRegister (some (.int (2 ^ 63 - 1))), result)] w ∧ (∃ record, result = .ok record) ∧
      ∃ error w', (sampleRegister none).perform StoreSystem.sampleRuntime 4 w = some (.error error, w') :=
  ⟨_, _, .cons rfl (.nil _), ⟨_, rfl⟩, _, _, rfl⟩

/-- Once the largest integer has been registered no automatic version can be. -/
theorem automatic_version_exhausted : ¬∀ (runtime : Runtime) (maxArtifactSize : ℕ)
    (calls : List (ServiceCall ℤ × Except ModelError (ModelVersion ℤ))) (w : World ℤ)
    (call : ServiceCall ℤ) (r : Registration) (stream : ℕ → ReadResult) (now : ℤ) (content : Bytes),
    Run (Step runtime maxArtifactSize) init calls w → (∀ p ∈ calls, ∃ record, p.2 = .ok record) →
      call.Submits r stream now (fun _ => none) → r.version = none →
      (∃ metadataJson, dumps true r.metadata = .ok metadataJson) →
      Uploads maxArtifactSize stream content →
      ∃ record w', call.perform runtime maxArtifactSize w = some (.ok record, w') := by
  intro hclaim
  obtain ⟨result, w, hrun, hok, error, w', herror⟩ := sample_largest
  obtain ⟨record, w'', hauto⟩ := hclaim StoreSystem.sampleRuntime 4 _ w (sampleRegister none) _ _ _ _ hrun
    (by simpa using hok) (.intro rfl) rfl ⟨_, rfl⟩ uploads_splitStream
  rw [herror] at hauto
  simp at hauto

end World

end TextExtraction
