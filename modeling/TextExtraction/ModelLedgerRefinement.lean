import TextExtraction.ModelLedger

/-!
# The store refines the ledger

`Represents` says which tables and files a ledger stands for. Every read of the store is then the read
of the ledger, and every call takes the store where it takes the ledger, with the same answer.
-/

namespace TextExtraction

open Python Relational Transition

variable {τ : Type} {runtime : Runtime} {maxArtifactSize : ℕ}

namespace Ledger

variable {l : Ledger τ} {e : Entry τ} {a : Activation τ} {name : String} {version : ℤ}

/-! ### One more posting -/

@[simp] theorem entries_registered (l : Ledger τ) (e : Entry τ) :
    entries (l ++ [.registered e]) = l.entries ++ [e] := by
  simp [entries, Posting.entry?]

@[simp] theorem entries_activated (l : Ledger τ) (a : Activation τ) :
    entries (l ++ [.activated a]) = l.entries := by
  simp [entries, Posting.entry?]

@[simp] theorem activations_registered (l : Ledger τ) (e : Entry τ) :
    activations (l ++ [.registered e]) = l.activations := by
  simp [activations, Posting.activation?]

@[simp] theorem activations_activated (l : Ledger τ) (a : Activation τ) :
    activations (l ++ [.activated a]) = l.activations ++ [a] := by
  simp [activations, Posting.activation?]

theorem ofModel_registered (l : Ledger τ) (e : Entry τ) (name : String) :
    ofModel (l ++ [.registered e]) name = l.ofModel name ++ if e.name = name then [e] else [] := by
  unfold ofModel
  rw [entries_registered, List.filter_append]
  by_cases hname : e.name = name
  · simp [hname]
  · simp [hname]

theorem current_registered (l : Ledger τ) (e : Entry τ) : current (l ++ [.registered e]) = l.current := by
  funext name
  rw [current, activations_registered]
  rfl

theorem current_activated (l : Ledger τ) (a : Activation τ) (name : String) :
    current (l ++ [.activated a]) name = if a.name = name then some a.version else l.current name := by
  unfold current
  rw [activations_activated, List.filter_append]
  by_cases hname : a.name = name
  · simp [hname]
  · simp [hname]

theorem mem_ofModel : e ∈ l.ofModel name ↔ e ∈ l.entries ∧ e.name = name := by
  simp [ofModel]

theorem find_spec (h : l.find name version = some e) : e ∈ l.entries ∧ e.name = name ∧ e.version = version :=
  ⟨List.mem_of_find?_eq_some h, by simpa using List.find?_some h⟩

/-- A model with a version has a first one. -/
theorem exists_first (h : e ∈ l.entries) : (l.ofModel e.name).head? = some (l.first e) := by
  have hmem : e ∈ l.ofModel e.name := mem_ofModel.2 ⟨h, rfl⟩
  unfold first
  cases hhead : (l.ofModel e.name).head? with
  | none =>
    rw [List.head?_eq_none_iff.1 hhead] at hmem
    simp at hmem
  | some first => rfl

/-- The row of `model_versions`. -/
def row (l : Ledger τ) (e : Entry τ) : ModelVersionRow τ :=
  { normalizedName := e.name
    version := e.version
    status := l.status e
    artifactDigest := e.artifactDigest
    metadataJson := e.metadata
    createdAt := e.createdAt }

theorem row_registered (l : Ledger τ) (e : Entry τ) : row (l ++ [.registered e]) = l.row := by
  funext e'
  unfold row status
  rw [current_registered]

theorem row_activated (l : Ledger τ) (a : Activation τ) (e : Entry τ) :
    row (l ++ [.activated a]) e = Catalog.restatus a.name a.version (l.row e) := by
  unfold row status Catalog.restatus
  rw [current_activated]
  by_cases hname : e.name = a.name
  · simp [hname, eq_comm]
  · simp [hname, Ne.symm hname]

end Ledger

open Ledger

def ActivationRow.activation (a : ActivationRow τ) : Activation τ := ⟨a.normalizedName, a.version, a.activatedAt⟩

/-- The tables and files that a ledger stands for. -/
structure Represents (runtime : Runtime) (l : Ledger τ) (w : World τ) : Prop where
  models : ∀ name, w.catalog.models.lookup name =
    (l.ofModel name).head?.map fun e => ⟨name, e.modelName, e.description, e.createdAt⟩
  versions : w.catalog.versions.rows = l.entries.map l.row
  activations : w.catalog.activations.map ActivationRow.activation = l.activations
  files : ∀ e ∈ l.entries, ∃ content, w.files e.artifactDigest = some content ∧
    runtime.sha256 content = e.artifactDigest ∧ content.length = e.artifactSize

namespace Represents

variable {l : Ledger τ} {w : World τ} {e : Entry τ} {name modelName : String} {version : ℤ}

/-! ### Reads -/

theorem mem_entries (h : Represents runtime l w) {v : ModelVersionRow τ} :
    v ∈ w.catalog.versions.rows ↔ ∃ e ∈ l.entries, l.row e = v := by
  rw [h.versions, List.mem_map]

theorem lookup_versions (h : Represents runtime l w) (name : String) (version : ℤ) :
    w.catalog.versions.lookup (name, version) = (l.find name version).map l.row := by
  unfold Table.lookup Ledger.find
  rw [h.versions, List.find?_map]
  congr 2
  funext e
  exact decide_eq_decide.2 (by rw [ModelVersionRow.key, Prod.mk.injEq]; rfl)

theorem current (h : Represents runtime l w) (name : String) :
    w.catalog.lastActivated name = l.current name := by
  unfold Catalog.lastActivated Ledger.current
  rw [← h.activations, List.filter_map, List.getLast?_map, Option.map_map]
  rfl

theorem nextVersion (h : Represents runtime l w) (name : String) :
    w.catalog.nextVersion name = l.nextVersion name := by
  unfold Catalog.nextVersion Ledger.nextVersion Ledger.ofModel Table.select
  rw [h.versions, List.filter_map, List.map_map]
  rfl

theorem assigned (h : Represents runtime l w) (r : Registration) :
    r.assigned runtime w.catalog = l.assigned runtime r := by
  unfold Registration.assigned Ledger.assigned
  rw [h.nextVersion]

/-- The join finds the model and the artifact of every version. -/
theorem joinVersion (h : Represents runtime l w) (hinv : World.Inv runtime w) (hsized : w.Sized) (he : e ∈ l.entries) :
    w.catalog.joinVersion (l.row e) = some (l.record e) := by
  obtain ⟨content, hfile, -, hlength⟩ := h.files e he
  obtain ⟨a, ha⟩ := Option.isSome_iff_exists.1 (hinv.catalog.artifact (l.row e) (h.mem_entries.2 ⟨e, he, rfl⟩))
  obtain ⟨content', hfile', hsize⟩ := hsized _ a ha
  have hsame : w.files e.artifactDigest = some content' := hfile'
  rw [hfile, Option.some.injEq] at hsame
  refine Catalog.joinVersion_eq_some_iff.2
    ⟨⟨e.name, (l.first e).modelName, (l.first e).description, (l.first e).createdAt⟩, a, ?_, ha, ?_⟩
  · show w.catalog.models.lookup e.name = some _
    rw [h.models, exists_first he]
    rfl
  · unfold Catalog.rowToVersion record
    rw [show a.size = e.artifactSize by rw [← hsize, ← hsame, hlength]]
    rfl

theorem get (h : Represents runtime l w) (hinv : World.Inv runtime w)
    (hsized : w.Sized) (modelName : String) (version : ℤ) :
    w.catalog.get runtime modelName version = l.get runtime modelName version := by
  unfold Catalog.get Ledger.get
  rw [Catalog.versionQuery_key, h.lookup_versions]
  cases hfind : l.find (runtime.normalizeName modelName) version with
  | none =>
    by_cases hbind : Bindable version
    · simp [hbind]
    · simp [hbind]
  | some e =>
    obtain ⟨he, -, hversion⟩ := find_spec hfind
    have hbind := hinv.catalog.bindable_version (h.mem_entries.2 ⟨e, he, rfl⟩)
    rw [show (l.row e).version = version from hversion] at hbind
    simp [hbind, h.joinVersion hinv hsized he]

theorem listVersions (h : Represents runtime l w) (hinv : World.Inv runtime w) (hsized : w.Sized) (modelName : String) :
    w.catalog.listVersions runtime modelName = l.listVersions runtime modelName := by
  have hquery : (w.catalog.versionQuery fun v => v.normalizedName = runtime.normalizeName modelName) =
      (l.ofModel (runtime.normalizeName modelName)).map l.record := by
    unfold Catalog.versionQuery Table.select Ledger.ofModel
    rw [h.versions, List.filter_map, List.filterMap_map, ← List.filterMap_eq_map]
    refine List.filterMap_congr fun e he => ?_
    exact h.joinVersion hinv hsized (List.mem_of_mem_filter he)
  simp only [Catalog.listVersions, Ledger.listVersions, hquery, h.models]
  cases l.ofModel (runtime.normalizeName modelName) with
  | nil => rfl
  | cons e es => rfl

theorem resolve (h : Represents runtime l w) (hinv : World.Inv runtime w) (hsized : w.Sized) (modelName : String)
    (version : Option ℤ) :
    w.catalog.resolve runtime modelName version = l.resolve runtime modelName version := by
  cases version with
  | some version => exact h.get hinv hsized modelName version
  | none =>
    unfold Ledger.resolve
    rw [← h.current]
    cases hlast : w.catalog.lastActivated (runtime.normalizeName modelName) with
    | none => exact hinv.catalog.resolve_of_not_activated hlast
    | some version =>
      obtain ⟨record, hresolve, hget, -⟩ := hinv.catalog.resolve_of_lastActivated hlast
      rw [hresolve, ← hget]
      exact h.get hinv hsized modelName version

theorem activationHistory (h : Represents runtime l w) (hinv : World.Inv runtime w) (modelName : String) :
    w.catalog.activationHistory runtime modelName = l.activationHistory runtime modelName := by
  have hsorted : (w.catalog.activations.filter fun a =>
      a.normalizedName = runtime.normalizeName modelName).Pairwise fun a b => a.id ≤ b.id :=
    ((List.pairwise_map.1 hinv.catalog.ids).imp le_of_lt).filter _
  have hfilter : (l.activations.filter fun a => a.name = runtime.normalizeName modelName) =
      (w.catalog.activations.filter fun a => a.normalizedName = runtime.normalizeName modelName).map
        ActivationRow.activation := by
    rw [← h.activations, List.filter_map]
    rfl
  rw [Catalog.activationHistory, orderBy_of_pairwise hsorted, Ledger.activationHistory, hfilter]
  cases hfirst : (l.ofModel (runtime.normalizeName modelName)).head? with
  | none =>
    refine List.filterMap_eq_nil_iff.2 fun a ha => ?_
    have hname : a.normalizedName = runtime.normalizeName modelName := by simpa using (List.mem_filter.1 ha).2
    rw [hname, h.models, hfirst]
    rfl
  | some first =>
    dsimp only
    rw [List.map_map, ← List.filterMap_eq_map]
    refine List.filterMap_congr fun a ha => ?_
    have hname : a.normalizedName = runtime.normalizeName modelName := by simpa using (List.mem_filter.1 ha).2
    rw [hname, h.models, hfirst]
    rfl

/-! ### Steps -/

theorem init : Represents runtime [] (World.init : World τ) where
  models _ := rfl
  versions := rfl
  activations := rfl
  files := by simp [entries]

theorem find_eq_none_iff (h : Represents runtime l w) :
    l.find name version = none ↔ w.catalog.versions.lookup (name, version) = none := by
  rw [h.lookup_versions, Option.map_eq_none_iff]

/-- The last activated version of a model is there, so a new one is not active. -/
theorem status_of_fresh (h : Represents runtime l w) (hinv : World.Inv runtime w)
    (hfresh : l.find e.name e.version = none) : l.status e = .registered := by
  unfold Ledger.status
  rw [if_neg]
  intro hcurrent
  rw [← h.current] at hcurrent
  obtain ⟨a, ha, hname, hversion⟩ := Catalog.mem_of_lastActivated hcurrent
  have hthere := hinv.catalog.activated a ha
  rw [hname, hversion, h.find_eq_none_iff.1 hfresh] at hthere
  simp at hthere

/-- A registration that commits is posted. -/
theorem registered (h : Represents runtime l w) (hinj : Function.Injective runtime.sha256)
    (hinv : World.Inv runtime w) {r : Registration} {now : τ} {faults : RegisterPoint → Option Exc} {content : Bytes}
    {catalog : Catalog τ} (hcommits : World.CommitsAt runtime r now faults content catalog w)
    (hpos : 0 < content.length) : ∃ metadata, dumps true r.metadata = .ok metadata ∧
      l.assigned runtime r < 2 ^ 63 ∧ l.find (runtime.normalizeName r.modelName) (l.assigned runtime r) = none ∧
      Represents runtime (l ++ [.registered (l.entry runtime r content metadata now)])
        { w with catalog, files := World.placed runtime content w } := by
  obtain ⟨metadata, hjson, hbind, -, hadds⟩ := Registration.insert_inserted hinv.catalog hpos hcommits.insert
  have hfresh : l.find (runtime.normalizeName r.modelName) (l.assigned runtime r) = none := by
    rw [h.find_eq_none_iff, ← h.assigned]
    exact hadds.fresh
  refine ⟨metadata, hjson, by rw [← h.assigned]; exact hbind.2, hfresh, ?_⟩
  have hstatus : l.status (l.entry runtime r content metadata now) = .registered := h.status_of_fresh hinv hfresh
  refine ⟨?_, ?_, ?_, ?_⟩
  · intro name
    show catalog.models.lookup name = _
    rw [hadds.models, Table.lookup_insert?_getD, h.models, ofModel_registered, List.head?_append]
    by_cases hname : runtime.normalizeName r.modelName = name
    · subst hname
      cases (l.ofModel (runtime.normalizeName r.modelName)).head? with
      | none => simp [Registration.modelRow, Ledger.entry]
      | some first => simp
    · simp [Registration.modelRow, Ledger.entry, hname]
  · show catalog.versions.rows = _
    rw [Table.rows_of_insert? hadds.versions, h.versions, row_registered, entries_registered, List.map_append,
      List.map_singleton]
    unfold Ledger.row Registration.row
    rw [hstatus, h.assigned]
    rfl
  · show catalog.activations.map _ = _
    rw [hadds.activations, h.activations, activations_registered]
  · intro e he
    rw [entries_registered, List.mem_append, List.mem_singleton] at he
    rcases he with he | rfl
    · obtain ⟨stored, hfile, hdigest, hlength⟩ := h.files e he
      exact ⟨stored, World.placed_of_some hfile, hdigest, hlength⟩
    · exact ⟨content, World.placed_self hinj hinv content, rfl, rfl⟩

/-- An activation that commits is posted. -/
theorem activated (h : Represents runtime l w) {now : τ} {catalog : Catalog τ}
    (hactivate : w.catalog.activate name version now = some catalog) :
    (l.find name version).isSome ∧
      Represents runtime (l ++ [.activated ⟨name, version, now⟩]) { w with catalog } := by
  have hspec := Catalog.activate_spec hactivate
  refine ⟨?_, ?_, ?_, ?_, ?_⟩
  · have hthere := hspec.present
    rwa [h.lookup_versions, Option.isSome_map] at hthere
  · intro name'
    show catalog.models.lookup name' = _
    rw [hspec.models, h.models]
    unfold Ledger.ofModel
    rw [entries_activated]
  · show catalog.versions.rows = _
    rw [hspec.versions, h.versions, List.map_map, entries_activated]
    exact List.map_congr_left fun e _ => (row_activated l ⟨name, version, now⟩ e).symm
  · show catalog.activations.map _ = _
    rw [hspec.activations, List.map_append, h.activations, activations_activated]
    rfl
  · intro e he
    rw [entries_activated] at he
    exact h.files e he

theorem find_registered (hfresh : l.find e.name e.version = none) :
    find (l ++ [.registered e]) e.name e.version = some e := by
  unfold find at hfresh ⊢
  rw [entries_registered, List.find?_append, hfresh]
  simp

theorem accepts_iff (h : Represents runtime l w) {r : Registration} : World.Accepts runtime r w ↔
    (∃ metadata, dumps true r.metadata = .ok metadata) ∧ l.assigned runtime r < 2 ^ 63 ∧
      l.find (runtime.normalizeName r.modelName) (l.assigned runtime r) = none := by
  rw [h.find_eq_none_iff, ← h.assigned]
  exact ⟨fun ⟨hmetadata, hbound, hfresh⟩ => ⟨hmetadata, hbound, hfresh⟩,
    fun ⟨hmetadata, hbound, hfresh⟩ => ⟨hmetadata, hbound, hfresh⟩⟩

/-- The number that is read back is the one that was posted. -/
theorem get_find (h : Represents runtime l w) (hinv : World.Inv runtime w) (hsized : w.Sized)
    (hfind : l.find (runtime.normalizeName modelName) version = some e) :
    w.catalog.get runtime modelName version = .ok (l.record e) := by
  rw [h.get hinv hsized, Ledger.get, hfind]

section Step
variable {result : Except ModelError (ModelVersion τ)} {w' : World τ}

theorem step_registers (h : Represents runtime l w) (hinj : Function.Injective runtime.sha256)
    (hinv : World.Inv runtime w) (hsized : w.Sized) {call : ServiceCall τ} {r : Registration}
    {stream : ℕ → ReadResult} {now : τ} {faults : RegisterPoint → Option Exc}
    (hsubmits : call.Submits r stream now faults)
    (hregisters : World.Registers runtime maxArtifactSize r stream now faults w result w') :
    ∃ l', Ledger.Step runtime maxArtifactSize l (call, result) l' ∧ Represents runtime l' w' := by
  have hversion := hsubmits.valid
  -- a call that has not committed posts nothing
  have hrefused (hno : ∀ content, Uploads maxArtifactSize stream content →
      ¬∃ catalog, World.CommitsAt runtime r now faults content catalog w) (posting : Posting τ) :
      ¬Posts l runtime maxArtifactSize call posting := by
    intro hposts
    cases hposts with
    | register hsubmits' huploads hfaults hmetadata hbound hfresh =>
      obtain ⟨rfl, rfl, rfl, rfl⟩ := hsubmits.unique hsubmits'
      exact hno _ huploads ((World.exists_commitsAt_iff now _ hinv.catalog huploads.pos hversion).2
        ⟨hfaults, h.accepts_iff.2 ⟨⟨_, hmetadata⟩, hbound, hfresh⟩⟩)
    | activate => cases hsubmits
  have hperforms := World.Performs.registers hsubmits hregisters
  have hinv' : World.Inv runtime w' := hinv.performs hperforms
  have hsized' : w'.Sized := hsized.performs hinj hinv hperforms
  cases hregisters with
  | unchanged hwhy => exact ⟨l, .refused (hrefused fun content huploads => (hwhy content huploads).2), h⟩
  | @strays content error huploads hstrays =>
    refine ⟨l, .refused (hrefused fun content' huploads' => ?_), h.models, h.versions, h.activations, ?_⟩
    · obtain rfl := huploads.unique huploads'
      exact hstrays.not_commitsAt now
    · intro e he
      obtain ⟨stored, hfile, hrest⟩ := h.files e he
      exact ⟨stored, World.placed_of_some hfile, hrest⟩
  | @commits content catalog huploads hcommits =>
    obtain ⟨metadata, hmetadata, hbound, hfresh, hnext⟩ := h.registered hinj hinv hcommits huploads.pos
    have hposts : Posts l runtime maxArtifactSize call (.registered (l.entry runtime r content metadata now)) :=
      .register hsubmits huploads hcommits.faults hmetadata hbound hfresh
    have hfind := find_registered (e := l.entry runtime r content metadata now) hfresh
    refine ⟨_, .posted hposts hfind ?_, hnext⟩
    obtain ⟨hvalid⟩ := hsubmits
    dsimp only [ServiceCall.reload]
    cases faults .reload with
    | some error => rfl
    | none =>
      dsimp only
      rw [Catalog.get_strip, h.assigned]
      exact hnext.get_find hinv' hsized' hfind

theorem step_activates (h : Represents runtime l w) (hinj : Function.Injective runtime.sha256)
    (hinv : World.Inv runtime w) (hsized : w.Sized) {now : τ} {faults : ActivatePoint → Option Exc} :
    ∃ l', Ledger.Step runtime maxArtifactSize l (.activate modelName version now faults,
        (w.activate runtime modelName version now faults).1) l' ∧
      Represents runtime l' (w.activate runtime modelName version now faults).2 := by
  have hrefused (hno : (∃ point, point ≠ .reload ∧ faults point ≠ none) ∨
      w.catalog.versions.lookup (runtime.normalizeName modelName, version) = none) (posting : Posting τ) :
      ¬Posts l runtime maxArtifactSize (.activate modelName version now faults) posting := by
    intro hposts
    cases hposts with
    | register hsubmits => cases hsubmits
    | activate hfaults hfind =>
      rcases hno with ⟨point, hpoint, hfault⟩ | hnone
      · exact hfault (hfaults point hpoint)
      · rw [h.find_eq_none_iff.2 hnone] at hfind
        simp at hfind
  unfold World.activate
  rcases hbegin : faults .begin with - | error
  swap
  · exact ⟨l, .refused (hrefused (.inl ⟨.begin, by simp, by simp [hbegin]⟩)), h⟩
  by_cases hbind : Bindable version
  swap
  · simp only [hbind, not_false_eq_true, if_true]
    refine ⟨l, .refused (hrefused (.inr ?_)), h⟩
    refine Table.lookup_eq_none_iff.2 fun v hv hkey => hbind ?_
    rw [← show v.version = version from congrArg Prod.snd hkey]
    exact hinv.catalog.bindable_version hv
  simp only [hbind, not_true_eq_false, if_false]
  rcases hactivate : w.catalog.activate (runtime.normalizeName modelName) version now with - | catalog
  · refine ⟨l, .refused (hrefused (.inr ?_)), h⟩
    unfold Catalog.activate at hactivate
    split at hactivate
    · assumption
    · simp at hactivate
  rcases hupdate : faults .update with - | error
  swap
  · exact ⟨l, .refused (hrefused (.inl ⟨.update, by simp, by simp [hupdate]⟩)), h⟩
  rcases hcommit : faults .commit with - | error
  swap
  · exact ⟨l, .refused (hrefused (.inl ⟨.commit, by simp, by simp [hcommit]⟩)), h⟩
  have hfaults : ∀ point, point ≠ .reload → faults point = none := by
    intro point hpoint
    cases point with
    | reload => exact absurd rfl hpoint
    | _ => assumption
  obtain ⟨hfind, hnext⟩ := h.activated hactivate
  obtain ⟨e, he⟩ := Option.isSome_iff_exists.1 hfind
  have hfind' : find (l ++ [.activated ⟨runtime.normalizeName modelName, version, now⟩])
      (runtime.normalizeName modelName) version = some e := by
    unfold find at he ⊢
    rw [entries_activated, he]
  have hperforms : World.Performs runtime maxArtifactSize (.activate modelName version now faults) w _ _ :=
    .activates rfl hactivate
  cases hreload : faults .reload with
  | some error => exact ⟨_, .posted (.activate hfaults hfind) hfind' (by simp [ServiceCall.reload, hreload]), hnext⟩
  | none =>
    refine ⟨_, .posted (.activate hfaults hfind) hfind' ?_, hnext⟩
    simp only [ServiceCall.reload, hreload]
    exact hnext.get_find (hinv.performs hperforms) (hsized.performs hinj hinv hperforms) hfind'

/-- A call takes the store where it takes the ledger. -/
theorem step (h : Represents runtime l w) (hinj : Function.Injective runtime.sha256) (hinv : World.Inv runtime w)
    (hsized : w.Sized) {call : ServiceCall τ × Except ModelError (ModelVersion τ)}
    (hstep : World.Step runtime maxArtifactSize w call w') :
    ∃ l', Ledger.Step runtime maxArtifactSize l call l' ∧ Represents runtime l' w' := by
  obtain ⟨call, result⟩ := call
  cases call with
  | register modelName version description metadata stream temporary now faults =>
    cases hvalid : ModelService.validate modelName version description metadata with
    | error error =>
      rw [World.Step, ServiceCall.perform, hvalid] at hstep
      cases hstep
      refine ⟨l, .refused fun posting hposts => ?_, h⟩
      cases hposts with
      | register hsubmits =>
        obtain ⟨hvalid'⟩ := hsubmits
        rw [hvalid] at hvalid'
        simp at hvalid'
    | ok r =>
      have hsubmits : ServiceCall.Submits (.register modelName version description metadata stream temporary now
        faults) r stream now faults := .intro hvalid
      obtain ⟨result', w'', hperform, hregisters⟩ := hinv.perform_submits maxArtifactSize hsubmits
      have hsame : some (result', w'') = some (result, w') := hperform.symm.trans hstep
      cases hsame
      exact h.step_registers hinj hinv hsized hsubmits hregisters
  | activate modelName version now faults =>
    have hsame : some (w.activate runtime modelName version now faults) = some (result, w') := hstep
    have hactivates : ∃ l', Ledger.Step runtime maxArtifactSize l (.activate modelName version now faults,
        (w.activate runtime modelName version now faults).1) l' ∧
        Represents runtime l' (w.activate runtime modelName version now faults).2 :=
      h.step_activates hinj hinv hsized
    rw [Option.some.inj hsame] at hactivates
    exact hactivates

end Step

end Represents

/-! ### Runs -/

/-- The store and the ledger answer every read alike. -/
structure Agrees (runtime : Runtime) (l : Ledger τ) (w : World τ) : Prop where
  get : ∀ modelName version, w.catalog.get runtime modelName version = l.get runtime modelName version
  listVersions : ∀ modelName, w.catalog.listVersions runtime modelName = l.listVersions runtime modelName
  resolve : ∀ modelName version, w.catalog.resolve runtime modelName version = l.resolve runtime modelName version
  activationHistory : ∀ modelName,
    w.catalog.activationHistory runtime modelName = l.activationHistory runtime modelName
  nextVersion : ∀ modelName, w.catalog.nextVersion (runtime.normalizeName modelName) =
    l.nextVersion (runtime.normalizeName modelName)
  files : ∀ e ∈ l.entries, ∃ content, w.files e.artifactDigest = some content ∧
    runtime.sha256 content = e.artifactDigest ∧ content.length = e.artifactSize

/-- A run of calls leaves a store that a ledger stands for. -/
theorem Represents.run (hinj : Function.Injective runtime.sha256)
    {calls : List (ServiceCall τ × Except ModelError (ModelVersion τ))} {w : World τ}
    (hrun : Run (World.Step runtime maxArtifactSize) World.init calls w) :
    ∃ l, Run (Ledger.Step runtime maxArtifactSize) [] calls l ∧ Represents runtime l w ∧ World.Inv runtime w ∧
      w.Sized := by
  have hstep : ∀ (w : World τ) call w' l, Represents runtime l w ∧ World.Inv runtime w ∧ w.Sized →
      World.Step runtime maxArtifactSize w call w' →
      ∃ l', Ledger.Step runtime maxArtifactSize l call l' ∧ Represents runtime l' w' ∧ World.Inv runtime w' ∧
        w'.Sized := by
    rintro w ⟨call, result⟩ w' l ⟨h, hinv, hsized⟩ hstep
    have hperforms := World.Step.performs hinv hstep
    obtain ⟨l', hstep', h'⟩ := h.step hinj hinv hsized hstep
    exact ⟨l', hstep', h', hinv.performs hperforms, hsized.performs hinj hinv hperforms⟩
  exact hrun.simulated hstep ⟨.init, .init, by rintro _ _ ⟨⟩⟩

/-- Over any run of calls, failing ones included, the store answers every call and every read as the ledger
does. The calls and their answers determine the ledger: nothing else the tables hold can be read. -/
theorem catalog_refines_ledger (hinj : Function.Injective runtime.sha256)
    {calls : List (ServiceCall τ × Except ModelError (ModelVersion τ))} {w : World τ}
    (hrun : Run (World.Step runtime maxArtifactSize) World.init calls w) :
    ∃ l, Run (Ledger.Step runtime maxArtifactSize) [] calls l ∧ Agrees runtime l w ∧
      ∀ l', Run (Ledger.Step runtime maxArtifactSize) [] calls l' → l' = l := by
  obtain ⟨l, hl, h, hinv, hsized⟩ := Represents.run hinj hrun
  refine ⟨l, hl, ⟨h.get hinv hsized, h.listVersions hinv hsized, h.resolve hinv hsized, h.activationHistory hinv,
    fun modelName => h.nextVersion _, h.files⟩, fun l' hl' => ?_⟩
  have hunique : ∀ (l : Ledger τ) call l' l'', Ledger.Step runtime maxArtifactSize l call l' →
      Ledger.Step runtime maxArtifactSize l call l'' → l' = l'' := by
    intro l call l' l'' h h'
    exact h.unique h'
  exact hl'.unique hunique hl

/-- A registration and an activation, read off their ledger. -/
theorem catalog_refines_ledger_example : ∃ (calls : List (ServiceCall ℤ × Except ModelError (ModelVersion ℤ)))
    (w : World ℤ) (l : Ledger ℤ), Run (World.Step StoreSystem.sampleRuntime 4) World.init calls w ∧
      Run (Ledger.Step StoreSystem.sampleRuntime 4) [] calls l ∧
      ∃ last, (l.activationHistory StoreSystem.sampleRuntime "model").getLast? = some last ∧ last.version = 1 := by
  obtain ⟨result, result', w, hrun, last, hlast, hversion⟩ := World.sample_run
  obtain ⟨l, hl, hagrees, -⟩ := catalog_refines_ledger StoreSystem.sampleRuntime_injective hrun
  rw [hagrees.activationHistory] at hlast
  exact ⟨_, w, l, hrun, hl, last, hlast, hversion⟩

end TextExtraction
