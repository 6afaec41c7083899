import TextExtraction.ModelRegister

/-!
# The catalog over whole runs

`Catalog.Inv` is what every committed catalog satisfies: each version has its model and its artifact,
each model has a version, and the active version of a model is the one activated last. `register` and
`activate` keep it, and keep every version that is there (`Catalog.Keeps`).
-/

namespace TextExtraction

open Python Relational Transition

variable {τ : Type} {runtime : Runtime} {maxArtifactSize : ℕ}

namespace Catalog

/-- The version of the last activation of a model. -/
def lastActivated (normalizedName : String) (c : Catalog τ) : Option ℤ :=
  ((c.activations.filter fun a => a.normalizedName = normalizedName).getLast?).map ActivationRow.version

structure Inv (c : Catalog τ) : Prop where
  model : ∀ v ∈ c.versions.rows, (c.models.lookup v.normalizedName).isSome
  artifact : ∀ v ∈ c.versions.rows, (c.artifacts.lookup v.artifactDigest).isSome
  positive : ∀ v ∈ c.versions.rows, 0 < v.version
  bindable : ∀ v ∈ c.versions.rows, v.version < 2 ^ 63
  version : ∀ m ∈ c.models.rows, ∃ v ∈ c.versions.rows, v.normalizedName = m.normalizedName
  storage : ∀ a ∈ c.artifacts.rows, a.storageKey = a.digest ∧ 0 < a.size
  active : ∀ v ∈ c.versions.rows,
    v.status = .active ↔ c.lastActivated v.normalizedName = some v.version
  activated : ∀ a ∈ c.activations, (c.versions.lookup (a.normalizedName, a.version)).isSome
  ids : (c.activations.map ActivationRow.id).Pairwise (· < ·)
  length : ∀ a ∈ c.activations, a.id ≤ c.activations.length

theorem Inv.empty : (empty : Catalog τ).Inv := by
  refine ⟨?_, ?_, ?_, ?_, ?_, ?_, ?_, ?_, .nil, ?_⟩ <;> rintro _ ⟨⟩

/-! ### The next version -/

theorem lt_nextVersion {c : Catalog τ} {v : ModelVersionRow τ} (hv : v ∈ c.versions.rows) :
    v.version < c.nextVersion v.normalizedName := by
  have hmem : v.version ∈
      (c.versions.select fun u => u.normalizedName = v.normalizedName).map ModelVersionRow.version :=
    List.mem_map_of_mem (List.mem_filter.2 ⟨hv, by simp⟩)
  unfold nextVersion
  rcases hmax : ((c.versions.select fun u => u.normalizedName = v.normalizedName).map
    ModelVersionRow.version).max? with - | max
  · rw [List.max?_eq_none_iff.1 hmax] at hmem
    simp at hmem
  · have hle := (List.max?_eq_some_iff.1 hmax).2 _ hmem
    show v.version < max + 1
    omega

theorem nextVersion_pos {c : Catalog τ} (hpositive : ∀ v ∈ c.versions.rows, 0 < v.version)
    (normalizedName : String) : 0 < c.nextVersion normalizedName := by
  unfold nextVersion
  rcases hmax : ((c.versions.select fun u => u.normalizedName = normalizedName).map
    ModelVersionRow.version).max? with - | max
  · decide
  · obtain ⟨v, hv, rfl⟩ := List.mem_map.1 (List.max?_eq_some_iff.1 hmax).1
    have := hpositive v (List.mem_of_mem_filter hv)
    show 0 < v.version + 1
    omega

theorem lookup_nextVersion (c : Catalog τ) (normalizedName : String) :
    c.versions.lookup (normalizedName, c.nextVersion normalizedName) = none := by
  rw [Table.lookup_eq_none_iff]
  intro v hv hkey
  obtain ⟨rfl, hversion⟩ := Prod.mk.inj hkey
  have := lt_nextVersion hv
  omega

/-! ### A registration -/

/-- The rows that a registration adds. -/
structure Adds (c : Catalog τ) (model : ModelRow τ) (artifact : ArtifactRow) (row : ModelVersionRow τ)
    (c' : Catalog τ) : Prop where
  models : c'.models = (c.models.insert? model).getD c.models
  artifacts : ∀ digest, c'.artifacts.lookup digest =
    (c.artifacts.lookup digest).or (if artifact.digest = digest then some artifact else none)
  versions : c.versions.insert? row = some c'.versions
  activations : c'.activations = c.activations

theorem lookup_insertArtifact_of_storage {c : Catalog τ} {size : ℕ}
    (hstorage : ∀ a ∈ c.artifacts.rows, a.storageKey = a.digest ∧ 0 < a.size) (hsize : 0 < size)
    (digest k : String) : (c.insertArtifact ⟨digest, digest, size⟩).artifacts.lookup k =
      (c.artifacts.lookup k).or (if digest = k then some ⟨digest, digest, size⟩ else none) := by
  unfold insertArtifact
  split
  · rename_i hignored
    rcases hignored with hzero | htaken
    · exact absurd hzero (by simpa using by omega)
    · obtain ⟨a, ha, hkey⟩ := List.any_eq_true.1 htaken
      obtain rfl : a.digest = digest := (hstorage a ha).1.symm.trans (by simpa using hkey)
      split
      · rename_i hk
        rw [← hk, Table.lookup_of_mem ha, Option.some_or]
      · rw [Option.or_none]
  · exact Table.lookup_insert?_getD _ _ _

theorem models_insertArtifact {c : Catalog τ} (row : ArtifactRow) :
    (c.insertArtifact row).models = c.models := by
  unfold insertArtifact
  split <;> rfl

theorem insertVersion_of_parents {c : Catalog τ} {row : ModelVersionRow τ}
    (hmodel : (c.models.lookup row.normalizedName).isSome)
    (hartifact : (c.artifacts.lookup row.artifactDigest).isSome) :
    c.insertVersion row =
      if row.version ≤ 0 then none
      else (c.versions.insert? row).map fun versions => { c with versions } := by
  unfold insertVersion
  by_cases hpos : row.version ≤ 0
  · rw [if_pos (.inl hpos), if_pos hpos]
  · rw [if_neg hpos, if_neg]
    rintro (h | h | h)
    · exact hpos h
    · simp [Option.isSome_iff_ne_none.1 hmodel] at h
    · simp [Option.isSome_iff_ne_none.1 hartifact] at h

end Catalog

namespace Registration

variable {r : Registration} {digest : String} {size : ℕ} {now : τ} {c c' : Catalog τ}

/-- The row of `model_versions` that `register` inserts. -/
def row (runtime : Runtime) (r : Registration) (digest : String) (now : τ) (metadataJson : Json)
    (c : Catalog τ) : ModelVersionRow τ :=
  { normalizedName := runtime.normalizeName r.modelName
    version := r.assigned runtime c
    status := .registered
    artifactDigest := digest
    metadataJson
    createdAt := now }

@[simp] theorem row_key (runtime : Runtime) (r : Registration) (digest : String) (now : τ)
    (metadataJson : Json) (c : Catalog τ) : (r.row runtime digest now metadataJson c).key =
      (runtime.normalizeName r.modelName, r.assigned runtime c) := rfl

/-- The row of `models` that `register` inserts unless the model is there. -/
def modelRow (runtime : Runtime) (r : Registration) (now : τ) : ModelRow τ :=
  ⟨runtime.normalizeName r.modelName, strip r.modelName, r.description, now⟩

theorem lookup_begin_models (runtime : Runtime) (r : Registration) (digest : String) (now : τ) (c : Catalog τ) :
    ((r.begin runtime digest now c).catalog.models.lookup (runtime.normalizeName r.modelName)).isSome := by
  show ((((c.models.insert? (r.modelRow runtime now)).getD c.models)).lookup _).isSome
  rw [Table.lookup_insert?_getD]
  rcases c.models.lookup (runtime.normalizeName r.modelName) with - | m
  · simp [modelRow]
  · rfl

theorem lookup_begin_artifacts (runtime : Runtime) (r : Registration) (now : τ) (hinv : c.Inv)
    (hsize : 0 < size) (k : String) :
    ((r.begin runtime digest now c).catalog.insertArtifact ⟨digest, digest, size⟩).artifacts.lookup k =
      (c.artifacts.lookup k).or (if digest = k then some ⟨digest, digest, size⟩ else none) :=
  Catalog.lookup_insertArtifact_of_storage (c := (r.begin runtime digest now c).catalog) hinv.storage hsize
    digest k

theorem lookup_begin_artifact (runtime : Runtime) (r : Registration) (digest : String) (now : τ) (hinv : c.Inv)
    (hsize : 0 < size) :
    (((r.begin runtime digest now c).catalog.insertArtifact ⟨digest, digest, size⟩).artifacts.lookup
      digest).isSome := by
  rw [lookup_begin_artifacts runtime r now hinv hsize, if_pos rfl]
  rcases c.artifacts.lookup digest with - | a <;> rfl

/-- Behind the bindings, only the primary key and the check on the version can refuse the `INSERT`. -/
theorem insertVersion_begin (runtime : Runtime) (r : Registration) (now : τ) (hinv : c.Inv)
    (hsize : 0 < size) (metadataJson : Json) :
    ((r.begin runtime digest now c).catalog.insertArtifact ⟨digest, digest, size⟩).insertVersion
        (r.row runtime digest now metadataJson c) =
      if r.assigned runtime c ≤ 0 then none
      else (c.versions.insert? (r.row runtime digest now metadataJson c)).map fun versions =>
        { (r.begin runtime digest now c).catalog.insertArtifact ⟨digest, digest, size⟩ with versions } := by
  have hmodel := lookup_begin_models runtime r digest now c
  have hartifact := lookup_begin_artifact runtime r digest now hinv hsize
  rw [Catalog.insertVersion_of_parents, Catalog.versions_insertArtifact]
  · rfl
  · rw [Catalog.models_insertArtifact]
    exact hmodel
  · exact hartifact

/-- The `INSERT` statements, once the encoder and the bindings have been passed. -/
theorem insert_of_valid (runtime : Runtime) (r : Registration) (now : τ) {metadataJson : Json}
    (hjson : dumps true r.metadata = .ok metadataJson) (hbind : Bindable (r.assigned runtime c)) :
    r.insert runtime digest size (r.begin runtime digest now c) =
      match ((r.begin runtime digest now c).catalog.insertArtifact ⟨digest, digest, size⟩).insertVersion
        (r.row runtime digest now metadataJson c) with
      | some catalog => .inserted catalog
      | none => .integrityError := by
  unfold Registration.insert
  simp only [hjson]
  rw [if_neg]
  · rfl
  · rintro (h | h)
    · exact absurd hbind.1 (not_le.2 h)
    · exact absurd hbind.2 (not_lt.2 h)

/-- The encoder and the bindings have been passed when nothing was raised. -/
theorem valid_of_insert
    (h : ∀ error, r.insert runtime digest size (r.begin runtime digest now c) ≠ .raised error) :
    ∃ metadataJson, dumps true r.metadata = .ok metadataJson ∧ Bindable (r.assigned runtime c) := by
  have hvalid := mt (insert_raised_iff runtime r digest size (r.begin runtime digest now c)).2
    (not_exists.2 h)
  rw [not_or, not_not] at hvalid
  rcases hdumps : dumps true r.metadata with error | metadataJson
  · exact absurd ⟨error, hdumps⟩ hvalid.1
  · exact ⟨metadataJson, rfl, hvalid.2⟩

/-- What a registration that is about to commit has added. -/
theorem insert_inserted (hinv : c.Inv) (hsize : 0 < size)
    (h : r.insert runtime digest size (r.begin runtime digest now c) = .inserted c') :
    ∃ metadataJson, dumps true r.metadata = .ok metadataJson ∧ Bindable (r.assigned runtime c) ∧
      0 < r.assigned runtime c ∧ c.Adds (r.modelRow runtime now) ⟨digest, digest, size⟩
        (r.row runtime digest now metadataJson c) c' := by
  obtain ⟨metadataJson, hdumps, hbind⟩ := valid_of_insert fun error => by rw [h]; rintro ⟨⟩
  rw [insert_of_valid runtime r now hdumps hbind, insertVersion_begin runtime r now hinv hsize] at h
  by_cases hpos : r.assigned runtime c ≤ 0
  · simp [if_pos hpos] at h
  rw [if_neg hpos] at h
  rcases hins : c.versions.insert? (r.row runtime digest now metadataJson c) with - | versions
  · simp [hins] at h
  · simp only [hins, Option.map_some, InsertResult.inserted.injEq] at h
    refine ⟨metadataJson, hdumps, hbind, by omega, ?_, ?_, ?_, ?_⟩
    · rw [← h]
      exact Catalog.models_insertArtifact _
    · rw [← h]
      exact lookup_begin_artifacts runtime r now hinv hsize
    · rw [← h, hins]
    · rw [← h]
      unfold Catalog.insertArtifact
      split <;> rfl

theorem exists_inserted (digest : String) (now : τ) (hinv : c.Inv) (hsize : 0 < size) {metadataJson : Json}
    (hjson : dumps true r.metadata = .ok metadataJson) (hbind : Bindable (r.assigned runtime c))
    (hpos : 0 < r.assigned runtime c)
    (hfresh : c.versions.lookup (runtime.normalizeName r.modelName, r.assigned runtime c) = none) :
    ∃ c', r.insert runtime digest size (r.begin runtime digest now c) = .inserted c' := by
  rw [insert_of_valid runtime r now hjson hbind, insertVersion_begin runtime r now hinv hsize,
    if_neg (not_le.2 hpos)]
  rcases hins : c.versions.insert? (r.row runtime digest now metadataJson c) with - | versions
  · have htaken := Table.insert?_eq_none_iff.1 hins
    rw [show (r.row runtime digest now metadataJson c).key =
      (runtime.normalizeName r.modelName, r.assigned runtime c) from rfl, hfresh] at htaken
    simp at htaken
  · exact ⟨_, rfl⟩

/-- `IntegrityError` is a version that is not positive, or that is there. -/
theorem insert_integrityError (hinv : c.Inv) (hsize : 0 < size)
    (h : r.insert runtime digest size (r.begin runtime digest now c) = .integrityError) :
    r.assigned runtime c ≤ 0 ∨
      (c.versions.lookup (runtime.normalizeName r.modelName, r.assigned runtime c)).isSome := by
  obtain ⟨metadataJson, hdumps, hbind⟩ := valid_of_insert fun error => by rw [h]; rintro ⟨⟩
  by_contra hok
  rw [not_or, Option.not_isSome_iff_eq_none, not_le] at hok
  obtain ⟨c', hinserted⟩ := exists_inserted digest now hinv hsize hdumps hbind hok.1 hok.2
  rw [h] at hinserted
  simp at hinserted

end Registration

/-! ### What a commit keeps -/

namespace Catalog

variable {c c' c'' : Catalog τ}

/-- Everything that is there stays, except that a version may change its status. -/
structure Keeps (c c' : Catalog τ) : Prop where
  models : ∀ k m, c.models.lookup k = some m → c'.models.lookup k = some m
  artifacts : ∀ k a, c.artifacts.lookup k = some a → c'.artifacts.lookup k = some a
  versions : ∀ v ∈ c.versions.rows, ∃ status, { v with status } ∈ c'.versions.rows

theorem Keeps.refl (c : Catalog τ) : c.Keeps c :=
  ⟨fun _ _ => id, fun _ _ => id, fun v hv => ⟨v.status, hv⟩⟩

theorem Keeps.trans (h : c.Keeps c') (h' : c'.Keeps c'') : c.Keeps c'' := by
  refine ⟨fun k m hm => h'.models k m (h.models k m hm), fun k a ha => h'.artifacts k a (h.artifacts k a ha), ?_⟩
  intro v hv
  obtain ⟨status, hstatus⟩ := h.versions v hv
  obtain ⟨status', hstatus'⟩ := h'.versions _ hstatus
  exact ⟨status', hstatus'⟩

theorem Keeps.lookup_isSome (h : c.Keeps c') {k : String × ℤ} (hk : (c.versions.lookup k).isSome) :
    (c'.versions.lookup k).isSome := by
  obtain ⟨v, hv⟩ := Option.isSome_iff_exists.1 hk
  obtain ⟨status, hstatus⟩ := h.versions v (Table.mem_of_lookup hv)
  have hlookup := Table.lookup_of_mem hstatus
  rw [show ModelVersionRow.key { v with status } = v.key from rfl, Table.key_of_lookup hv] at hlookup
  rw [hlookup]
  rfl

theorem mem_of_lastActivated {normalizedName : String} {version : ℤ}
    (h : c.lastActivated normalizedName = some version) :
    ∃ a ∈ c.activations, a.normalizedName = normalizedName ∧ a.version = version := by
  obtain ⟨a, ha, hversion⟩ := Option.map_eq_some_iff.1 h
  obtain ⟨hmem, hname⟩ := List.mem_filter.1 (List.mem_of_getLast? ha)
  exact ⟨a, hmem, by simpa using hname, hversion⟩

namespace Adds

variable {model : ModelRow τ} {artifact : ArtifactRow} {row : ModelVersionRow τ}

theorem keeps (h : c.Adds model artifact row c') : c.Keeps c' := by
  refine ⟨fun k m hm => ?_, fun k a ha => ?_, fun v hv => ⟨v.status, ?_⟩⟩
  · rw [h.models, Table.lookup_insert?_getD, hm, Option.some_or]
  · rw [h.artifacts, ha, Option.some_or]
  · rw [Table.rows_of_insert? h.versions]
    exact List.mem_append_left _ hv

theorem fresh (h : c.Adds model artifact row c') : c.versions.lookup row.key = none :=
  Table.lookup_of_insert?_self h.versions

theorem mem_versions (h : c.Adds model artifact row c') {v : ModelVersionRow τ} :
    v ∈ c'.versions.rows ↔ v ∈ c.versions.rows ∨ v = row := by
  rw [Table.rows_of_insert? h.versions, List.mem_append, List.mem_singleton]

theorem lookup_row (h : c.Adds model artifact row c') : (c'.versions.lookup row.key).isSome :=
  Option.isSome_iff_exists.2 ⟨row, Table.lookup_of_mem (h.mem_versions.2 (.inr rfl))⟩

theorem inv (h : c.Adds model artifact row c') (hinv : c.Inv) (hname : model.normalizedName = row.normalizedName)
    (hdigest : artifact.digest = row.artifactDigest) (hkey : artifact.storageKey = artifact.digest)
    (hsize : 0 < artifact.size) (hpos : 0 < row.version) (hbind : row.version < 2 ^ 63)
    (hstatus : row.status = .registered) : c'.Inv := by
  have hmodels (k : String) := Table.lookup_insert?_getD c.models model k
  rw [← h.models] at hmodels
  refine ⟨?_, ?_, ?_, ?_, ?_, ?_, ?_, ?_, ?_, ?_⟩
  · intro v hv
    rcases h.mem_versions.1 hv with hv | rfl
    · obtain ⟨m, hm⟩ := Option.isSome_iff_exists.1 (hinv.model v hv)
      rw [h.keeps.models _ _ hm]
      rfl
    · rw [hmodels, if_pos hname]
      rcases c.models.lookup v.normalizedName with - | m <;> rfl
  · intro v hv
    rcases h.mem_versions.1 hv with hv | rfl
    · obtain ⟨a, ha⟩ := Option.isSome_iff_exists.1 (hinv.artifact v hv)
      rw [h.keeps.artifacts _ _ ha]
      rfl
    · rw [h.artifacts, if_pos hdigest]
      rcases c.artifacts.lookup v.artifactDigest with - | a <;> rfl
  · intro v hv
    rcases h.mem_versions.1 hv with hv | rfl
    · exact hinv.positive v hv
    · exact hpos
  · intro v hv
    rcases h.mem_versions.1 hv with hv | rfl
    · exact hinv.bindable v hv
    · exact hbind
  · intro m hm
    have hlookup := Table.lookup_of_mem hm
    rw [hmodels] at hlookup
    rcases hold : c.models.lookup m.normalizedName with - | m'
    · rw [hold, Option.none_or] at hlookup
      split at hlookup
      · rename_i heq
        exact ⟨row, h.mem_versions.2 (.inr rfl), hname.symm.trans heq⟩
      · simp at hlookup
    · obtain ⟨v, hv, hv'⟩ := hinv.version m' (Table.mem_of_lookup hold)
      exact ⟨v, h.mem_versions.2 (.inl hv), hv'.trans (Table.key_of_lookup hold)⟩
  · intro a ha
    have hlookup := Table.lookup_of_mem ha
    rw [h.artifacts] at hlookup
    rcases hold : c.artifacts.lookup a.digest with - | a'
    · rw [hold, Option.none_or] at hlookup
      split at hlookup
      · obtain rfl := Option.some.inj hlookup
        exact ⟨hkey, hsize⟩
      · simp at hlookup
    · rw [hold, Option.some_or] at hlookup
      obtain rfl := Option.some.inj hlookup
      exact hinv.storage a' (Table.mem_of_lookup hold)
  · intro v hv
    have hlast : c'.lastActivated v.normalizedName = c.lastActivated v.normalizedName := by
      rw [lastActivated, h.activations]
      rfl
    rw [hlast]
    rcases h.mem_versions.1 hv with hv | rfl
    · exact hinv.active v hv
    · rw [hstatus]
      refine ⟨by rintro ⟨⟩, fun hactive => ?_⟩
      obtain ⟨a, ha, hname', hversion⟩ := mem_of_lastActivated hactive
      have htaken := hinv.activated a ha
      rw [hname', hversion, show (v.normalizedName, v.version) = v.key from rfl, h.fresh] at htaken
      simp at htaken
  · intro a ha
    rw [h.activations] at ha
    obtain ⟨v, hv⟩ := Option.isSome_iff_exists.1 (hinv.activated a ha)
    rw [← Table.key_of_lookup hv, Table.lookup_of_mem (h.mem_versions.2 (.inl (Table.mem_of_lookup hv)))]
    rfl
  · rw [h.activations]
    exact hinv.ids
  · rw [h.activations]
    exact hinv.length

end Adds

/-! ### An activation -/

section Activate
variable {normalizedName : String} {version : ℤ} {now : τ}

/-- The status of a version after `version` of `normalizedName` has been activated. -/
def restatus (normalizedName : String) (version : ℤ) (v : ModelVersionRow τ) : ModelVersionRow τ :=
  { v with status :=
    if v.normalizedName = normalizedName then if v.version = version then .active else .registered
    else v.status }

structure Activates (normalizedName : String) (version : ℤ) (now : τ) (c c' : Catalog τ) : Prop where
  models : c'.models = c.models
  artifacts : c'.artifacts = c.artifacts
  versions : c'.versions.rows = c.versions.rows.map (restatus normalizedName version)
  activations : c'.activations =
    c.activations ++ [⟨c.activations.length + 1, normalizedName, version, now⟩]
  present : (c.versions.lookup (normalizedName, version)).isSome

theorem activate_spec (h : c.activate normalizedName version now = some c') :
    Activates normalizedName version now c c' := by
  unfold activate at h
  split at h
  · simp at h
  · rename_i v hlookup
    cases h
    refine ⟨rfl, rfl, ?_, rfl, by rw [hlookup]; rfl⟩
    show List.map _ (List.map _ c.versions.rows) = _
    rw [List.map_map]
    refine List.map_congr_left fun u _ => ?_
    rcases u with ⟨name, k, status, digest, json, createdAt⟩
    by_cases hname : name = normalizedName <;> by_cases hversion : k = version <;>
      rcases status <;> simp [restatus, hname, hversion]

theorem lastActivated_append (a : ActivationRow τ) (name : String) :
    lastActivated name { c with activations := c.activations ++ [a] } =
      if a.normalizedName = name then some a.version else c.lastActivated name := by
  unfold lastActivated
  rw [List.filter_append]
  by_cases hname : a.normalizedName = name
  · simp [hname]
  · simp [hname]

namespace Activates

theorem keeps (h : Activates normalizedName version now c c') : c.Keeps c' := by
  refine ⟨fun k m hm => by rwa [h.models], fun k a ha => by rwa [h.artifacts], fun v hv => ?_⟩
  rw [h.versions]
  exact ⟨_, List.mem_map_of_mem hv⟩

theorem inv (h : Activates normalizedName version now c c') (hinv : c.Inv) : c'.Inv := by
  have hrow : ∀ v' ∈ c'.versions.rows, ∃ v ∈ c.versions.rows, v' = restatus normalizedName version v := by
    intro v' hv'
    rw [h.versions] at hv'
    obtain ⟨v, hv, rfl⟩ := List.mem_map.1 hv'
    exact ⟨v, hv, rfl⟩
  refine ⟨?_, ?_, ?_, ?_, ?_, ?_, ?_, ?_, ?_, ?_⟩
  · intro v' hv'
    obtain ⟨v, hv, rfl⟩ := hrow v' hv'
    rw [h.models]
    exact hinv.model v hv
  · intro v' hv'
    obtain ⟨v, hv, rfl⟩ := hrow v' hv'
    rw [h.artifacts]
    exact hinv.artifact v hv
  · intro v' hv'
    obtain ⟨v, hv, rfl⟩ := hrow v' hv'
    exact hinv.positive v hv
  · intro v' hv'
    obtain ⟨v, hv, rfl⟩ := hrow v' hv'
    exact hinv.bindable v hv
  · intro m hm
    rw [h.models] at hm
    obtain ⟨v, hv, hname⟩ := hinv.version m hm
    refine ⟨restatus normalizedName version v, ?_, hname⟩
    rw [h.versions]
    exact List.mem_map_of_mem hv
  · rw [h.artifacts]
    exact hinv.storage
  · intro v' hv'
    obtain ⟨v, hv, rfl⟩ := hrow v' hv'
    have hlast : c'.lastActivated v.normalizedName =
        if normalizedName = v.normalizedName then some version
        else c.lastActivated v.normalizedName := by
      rw [← lastActivated_append ⟨c.activations.length + 1, normalizedName, version, now⟩, lastActivated,
        h.activations]
      rfl
    show (restatus normalizedName version v).status = .active ↔
      c'.lastActivated v.normalizedName = some v.version
    rw [hlast]
    by_cases hname : normalizedName = v.normalizedName
    · by_cases hversion : v.version = version
      · simp [restatus, hname, hversion]
      · simp [restatus, hname, hversion, Ne.symm hversion]
    · rw [if_neg hname, ← hinv.active v hv]
      simp [restatus, Ne.symm hname]
  · intro a ha
    rw [h.activations] at ha
    rcases List.mem_append.1 ha with ha | ha
    · exact h.keeps.lookup_isSome (hinv.activated a ha)
    · rw [List.mem_singleton.1 ha]
      exact h.keeps.lookup_isSome h.present
  · rw [h.activations, List.map_append, List.pairwise_append]
    refine ⟨hinv.ids, List.pairwise_singleton .., ?_⟩
    intro i hi j hj
    obtain ⟨a, ha, rfl⟩ := List.mem_map.1 hi
    obtain rfl := List.mem_singleton.1 hj
    have := hinv.length a ha
    show a.id < c.activations.length + 1
    omega
  · intro a ha
    rw [h.activations] at ha ⊢
    rw [List.length_append, List.length_singleton]
    rcases List.mem_append.1 ha with ha | ha
    · have := hinv.length a ha
      omega
    · rw [List.mem_singleton.1 ha]

end Activates

end Activate

end Catalog

end TextExtraction
