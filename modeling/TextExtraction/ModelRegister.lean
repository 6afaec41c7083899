import TextExtraction.ModelService

/-!
# What a registration can do

`register_cases`: a call of `register` either leaves everything as it was and raises, or raises and
leaves a new file that no version has (`Strays`), or commits its version (`Commits`). The last two say
when, in terms of the arguments and of the state the call finds.
-/

namespace TextExtraction

open Python Relational

variable {τ : Type} {runtime : Runtime} {maxArtifactSize : ℕ}

/-! ### Uploads -/

/-- The stream is `content`, which is of admissible size. -/
def Uploads (maxArtifactSize : ℕ) (stream : ℕ → ReadResult) (content : Bytes) : Prop :=
  ∃ n, Reads stream n content ∧ Ends (stream n) ∧ 1 ≤ content.length ∧ content.length ≤ maxArtifactSize

theorem Uploads.unique {stream : ℕ → ReadResult} {content content' : Bytes}
    (h : Uploads maxArtifactSize stream content) (h' : Uploads maxArtifactSize stream content') :
    content = content' := by
  obtain ⟨n, hreads, hends, -⟩ := h
  obtain ⟨n', hreads', hends', -⟩ := h'
  exact hreads.unique_of_ends hends hreads' hends'

theorem Uploads.pos {stream : ℕ → ReadResult} {content : Bytes}
    (h : Uploads maxArtifactSize stream content) : 0 < content.length := by
  obtain ⟨-, -, -, hpos, -⟩ := h
  omega

/-- What `_stage_artifact` returns for an upload. -/
abbrev upload (runtime : Runtime) (temporary : String) (content : Bytes) : StagedArtifact :=
  ⟨temporary, runtime.sha256 content, content.length⟩

/-- `_stage_artifact` takes an upload, and nothing else. -/
theorem stageArtifact_cases (runtime : Runtime) (maxArtifactSize : ℕ) (stream : ℕ → ReadResult)
    (temporary : String) (data : Directory) :
    (∃ content, Uploads maxArtifactSize stream content ∧
        stageArtifact runtime maxArtifactSize temporary stream (maxArtifactSize + 1) data =
          some (.ok (upload runtime temporary content),
            Function.update data temporary (some content))) ∨
      ((¬∃ content, Uploads maxArtifactSize stream content) ∧ ∃ error,
        stageArtifact runtime maxArtifactSize temporary stream (maxArtifactSize + 1) data =
          some (.error error, Function.update data temporary none)) := by
  obtain ⟨n, content, outcome, hreads, hfits, hend, hresult⟩ :=
    exists_stageEnd runtime maxArtifactSize stream temporary data
  have hresult := hresult _ (Nat.lt_succ_self maxArtifactSize)
  rcases hstage : (stageResult runtime temporary data content outcome).1 with error | staged
  · refine .inr ⟨?_, error, ?_⟩
    · rintro ⟨content', m, hreads', hends', hpos, hfits'⟩
      obtain ⟨rfl, rfl⟩ := hend.unique_of_reads (.ends hends') hreads hreads' hfits hfits'
      rw [stageResult, if_neg (by omega)] at hstage
      simp at hstage
    · rw [hresult, ← hstage, ← stageResult_error hstage]
  · obtain ⟨rfl, hne, -⟩ := stageResult_ok_iff.1 hstage
    refine .inl ⟨content, ⟨n, hreads, hend.ends_of_ok, by omega, hfits⟩, ?_⟩
    rw [hresult, stageResult, if_neg hne]

/-! ### The `INSERT` statements -/

/-- The version number that `register` is to insert into the catalog it finds. -/
def Registration.assigned (runtime : Runtime) (catalog : Catalog τ) (r : Registration) : ℤ :=
  r.version.getD (catalog.nextVersion (runtime.normalizeName r.modelName))

theorem Registration.insert_raised_iff (runtime : Runtime) (r : Registration) (digest : String) (size : ℕ)
    (txn : RegisterTxn τ) : (∃ error, r.insert runtime digest size txn = .raised error) ↔
      (∃ error, dumps true r.metadata = .error error) ∨ ¬Bindable txn.assignedVersion := by
  unfold Registration.insert
  rcases hjson : dumps true r.metadata with error | metadataJson
  · simp
  · simp only [reduceCtorEq, exists_false, false_or, Bindable]
    split
    · simpa using by omega
    · constructor
      · rintro ⟨error, herror⟩
        split at herror <;> cases herror
      · intro hbind
        omega

namespace World

/-! ### The transaction -/

section Register
variable (runtime maxArtifactSize) (r : Registration) (now : τ) (faults : RegisterPoint → Option Exc)

/-- A file for `content` is put in place, and then the call raises with no handler to remove it. -/
structure StraysAt (content : Bytes) (w : World τ) : Prop where
  stage : faults .stage = none
  begin : faults .begin = none
  place : faults .place = none
  file : w.files (runtime.sha256 content) = none
  raises : faults .insertArtifact ≠ none ∨ faults .insertVersion ≠ none ∨
    (∃ error, dumps true r.metadata = .error error) ∨ ¬Bindable (r.assigned runtime w.catalog)

/-- The statements before the commit all succeed, and so does the commit. -/
structure CommitsAt (content : Bytes) (catalog : Catalog τ) (w : World τ) : Prop where
  faults : ∀ point, point ≠ .reload → faults point = none
  insert : r.insert runtime (runtime.sha256 content) content.length
    (r.begin runtime (runtime.sha256 content) now w.catalog) = .inserted catalog

/-- The file of a staged upload is there afterwards, with the content it had if it was there before. -/
def placed (content : Bytes) (w : World τ) : String → Option Bytes :=
  Function.update w.files (runtime.sha256 content)
    (some ((w.files (runtime.sha256 content)).getD content))

end Register

variable {r : Registration} {now : τ} {faults : RegisterPoint → Option Exc} {w : World τ}
  {temporary : String} {content : Bytes}

theorem placed_of_file (h : w.files (runtime.sha256 content) ≠ none) : placed runtime content w = w.files := by
  obtain ⟨b, hb⟩ := Option.ne_none_iff_exists'.1 h
  rw [placed, hb, Option.getD_some, ← hb, Function.update_eq_self]

theorem placed_of_no_file (h : w.files (runtime.sha256 content) = none) :
    placed runtime content w = Function.update w.files (runtime.sha256 content) (some content) := by
  rw [placed, h, Option.getD_none]

theorem discard_place (runtime : Runtime) (hdata : w.data temporary = some content) :
    ((w.place (upload runtime temporary content)).2).discard temporary =
      { w.discard temporary with files := placed runtime content w } := by
  rcases hfile : w.files (runtime.sha256 content) with - | b
  · rw [placed_of_no_file hfile]
    simp [place, hfile, discard, hdata]
  · rw [placed_of_file (by simp [hfile])]
    simp [place, hfile, discard]

/-- The handlers undo the placement: a file that is missing has no row that would keep it. -/
theorem discard_compensate (r : Registration) (now : τ) (temporary : String)
    (hstored : w.files (runtime.sha256 content) = none →
      w.catalog.artifacts.lookup (runtime.sha256 content) = none) :
    let staged := upload runtime temporary content
    let txn := r.begin runtime staged.digest now w.catalog
    (((w.place staged).2.compensate staged.digest (w.place staged).1 txn.artifactExists).discard temporary) =
      w.discard temporary := by
  intro staged txn
  rcases hfile : w.files (runtime.sha256 content) with - | b
  · have hrow : txn.artifactExists = false := by
      show ((w.catalog.insertModel _).artifacts.lookup (runtime.sha256 content)).isSome = false
      rw [show (w.catalog.insertModel _).artifacts = w.catalog.artifacts from rfl, hstored hfile]
      rfl
    have hrestore : Function.update w.files (runtime.sha256 content) none = w.files := by
      rw [← hfile, Function.update_eq_self]
    simp [place, staged, hfile, compensate, hrow, discard, hrestore]
  · simp [place, staged, hfile, compensate, discard]

theorem not_commitsAt_of_raises
    (hraises : faults .insertArtifact ≠ none ∨ faults .insertVersion ≠ none ∨
      (∃ error, dumps true r.metadata = .error error) ∨ ¬Bindable (r.assigned runtime w.catalog)) :
    ¬∃ catalog, CommitsAt runtime r now faults content catalog w := by
  rintro ⟨catalog, hfaults, hinsert⟩
  rcases hraises with h | h | h
  · exact h (hfaults _ (by rintro ⟨⟩))
  · exact h (hfaults _ (by rintro ⟨⟩))
  · obtain ⟨error, hraised⟩ := (Registration.insert_raised_iff runtime r (runtime.sha256 content)
      content.length (r.begin runtime (runtime.sha256 content) now w.catalog)).2 h
    rw [hinsert] at hraised
    simp at hraised

theorem StraysAt.not_commitsAt (h : StraysAt runtime r faults content w) (now : τ) :
    ¬∃ catalog, CommitsAt runtime r now faults content catalog w :=
  not_commitsAt_of_raises h.raises

/-- What the transaction of a staged upload does, the upload itself aside. -/
inductive Transacts (runtime : Runtime) (r : Registration) (now : τ) (faults : RegisterPoint → Option Exc)
    (content : Bytes) (w : World τ) : Except ModelStoreError ℤ → World τ → Prop
  | unchanged {error : ModelStoreError} : ¬StraysAt runtime r faults content w →
      (¬∃ catalog, CommitsAt runtime r now faults content catalog w) →
      Transacts runtime r now faults content w (.error error) w
  | strays {error : ModelStoreError} : StraysAt runtime r faults content w →
      Transacts runtime r now faults content w (.error error)
        { w with files := placed runtime content w }
  | commits {catalog : Catalog τ} : CommitsAt runtime r now faults content catalog w →
      Transacts runtime r now faults content w (.ok (r.assigned runtime w.catalog))
        { w with catalog, files := placed runtime content w }

/-- The call raises before the placement. -/
theorem Transacts.early {error : ModelStoreError} (hfault : faults .begin ≠ none ∨ faults .place ≠ none) :
    Transacts runtime r now faults content w (.error error) w := by
  refine .unchanged (fun h => ?_) ?_
  · rcases hfault with hbegin | hplace
    · exact hbegin h.begin
    · exact hplace h.place
  · rintro ⟨catalog, hfaults, -⟩
    rcases hfault with hbegin | hplace
    · exact hbegin (hfaults .begin (by simp))
    · exact hplace (hfaults .place (by simp))

/-- The call raises behind the placement, where nothing removes the file again. -/
theorem Transacts.left {error : ModelStoreError} (hstage : faults .stage = none)
    (hbegin : faults .begin = none) (hplace : faults .place = none)
    (hraises : faults .insertArtifact ≠ none ∨ faults .insertVersion ≠ none ∨
      (∃ error, dumps true r.metadata = .error error) ∨ ¬Bindable (r.assigned runtime w.catalog)) :
    Transacts runtime r now faults content w (.error error)
      { w with files := placed runtime content w } := by
  rcases hfile : w.files (runtime.sha256 content) with - | b
  · exact .strays ⟨hstage, hbegin, hplace, hfile, hraises⟩
  · rw [placed_of_file (by simp [hfile])]
    refine .unchanged ?_ (not_commitsAt_of_raises hraises)
    rintro ⟨-, -, -, hnone, -⟩
    rw [hnone] at hfile
    simp at hfile

theorem transact_cases (runtime : Runtime) (r : Registration) (now : τ) (hstage : faults .stage = none)
    (hdata : w.data temporary = some content) (hstored : w.files (runtime.sha256 content) = none →
      w.catalog.artifacts.lookup (runtime.sha256 content) = none) :
    let out := w.transact runtime r (upload runtime temporary content) now faults
    Transacts runtime r now faults content (w.discard temporary) out.1 (out.2.discard temporary) := by
  intro out
  have hplaced := discard_place runtime hdata
  have hundone := discard_compensate r now temporary hstored
  rcases hbegin : faults .begin with - | error
  swap
  · have hout : out = (.error (.raised error), w) := by simp only [out, transact, hbegin]
    rw [hout]
    exact .early (.inl (by simp [hbegin]))
  rcases hplace : faults .place with - | error
  swap
  · have hout : out = (.error (.raised error), w) := by simp only [out, transact, hbegin, hplace]
    rw [hout]
    exact .early (.inr (by simp [hplace]))
  have hleft (error : ModelStoreError)
      (hout : out = (.error error, (w.place (upload runtime temporary content)).2))
      (hraises : faults .insertArtifact ≠ none ∨ faults .insertVersion ≠ none ∨
        (∃ error, dumps true r.metadata = .error error) ∨ ¬Bindable (r.assigned runtime w.catalog)) :
      Transacts runtime r now faults content (w.discard temporary) out.1 (out.2.discard temporary) := by
    rw [hout, hplaced]
    exact .left hstage hbegin hplace hraises
  rcases hartifact : faults .insertArtifact with - | error
  swap
  · refine hleft (.raised error) ?_ (.inl (by simp [hartifact]))
    simp only [out, transact, hbegin, hplace, hartifact]
  have hraised := Registration.insert_raised_iff runtime r (runtime.sha256 content)
    content.length (r.begin runtime (runtime.sha256 content) now w.catalog)
  have hclean (hversion : faults .insertVersion = none) (hno : ∀ error, r.insert runtime
      (runtime.sha256 content) content.length (r.begin runtime (runtime.sha256 content) now w.catalog) ≠
        .raised error) : ¬StraysAt runtime r faults content (w.discard temporary) := by
    rintro ⟨-, -, -, -, h | h | h⟩
    · exact h hartifact
    · exact h hversion
    · obtain ⟨error, herror⟩ := hraised.2 h
      exact hno error herror
  rcases hinsert : r.insert runtime (runtime.sha256 content) content.length
      (r.begin runtime (runtime.sha256 content) now w.catalog) with catalog | - | error
  · rcases hversion : faults .insertVersion with - | error
    swap
    · refine hleft (.raised error) ?_ (.inr (.inl (by simp [hversion])))
      simp only [out, transact, hbegin, hplace, hartifact, hinsert, hversion]
    rcases hcommit : faults .commit with - | error
    · have hout : out = (.ok (r.assigned runtime w.catalog),
          { (w.place (upload runtime temporary content)).2 with catalog }) := by
        simp only [out, transact, hbegin, hplace, hartifact, hinsert, hversion, hcommit]
        rfl
      have hcommits : CommitsAt runtime r now faults content catalog (w.discard temporary) := by
        refine ⟨fun point hpoint => ?_, hinsert⟩
        rcases point <;> first | assumption | exact absurd rfl hpoint
      have hworld : World.discard temporary
          { (w.place (upload runtime temporary content)).2 with catalog } =
            { w.discard temporary with catalog, files := placed runtime content w } :=
        congrArg (fun w' : World τ => { w' with catalog }) hplaced
      rw [hout, hworld]
      exact .commits hcommits
    · have hout : out = (.error (.raised error),
          (w.place (upload runtime temporary content)).2.compensate
            (runtime.sha256 content) (w.place (upload runtime temporary content)).1
            (r.begin runtime (runtime.sha256 content) now w.catalog).artifactExists) := by
        simp only [out, transact, hbegin, hplace, hartifact, hinsert, hversion, hcommit]
      rw [hout, hundone]
      refine .unchanged (hclean hversion fun error h => by simp [hinsert] at h) ?_
      rintro ⟨catalog, hfaults, -⟩
      exact absurd ((hfaults .commit (by simp)).symm.trans hcommit) (by simp)
  · rcases hversion : faults .insertVersion with - | error
    swap
    · refine hleft (.raised error) ?_ (.inr (.inl (by simp [hversion])))
      simp only [out, transact, hbegin, hplace, hartifact, hinsert, hversion]
    have hout : out = (.error (.duplicateVersion (r.assigned runtime w.catalog) (strip r.modelName)),
        (w.place (upload runtime temporary content)).2.compensate
          (runtime.sha256 content) (w.place (upload runtime temporary content)).1
          (r.begin runtime (runtime.sha256 content) now w.catalog).artifactExists) := by
      simp only [out, transact, hbegin, hplace, hartifact, hinsert, hversion]
      rfl
    rw [hout, hundone]
    refine .unchanged (hclean hversion fun error h => by simp [hinsert] at h) ?_
    rintro ⟨catalog, -, hinserted⟩
    exact absurd (hinserted.symm.trans hinsert) (by simp)
  · refine hleft (.raised error) ?_ (.inr (.inr (hraised.1 ⟨error, hinsert⟩)))
    simp only [out, transact, hbegin, hplace, hartifact, hinsert]

/-! ### The call -/

/-- What a call of `register` does to a store with no upload under way. -/
inductive Registers (runtime : Runtime) (maxArtifactSize : ℕ) (r : Registration)
    (stream : ℕ → ReadResult) (now : τ) (faults : RegisterPoint → Option Exc) (w : World τ) :
    Except ModelError (ModelVersion τ) → World τ → Prop
  | unchanged {error : ModelError} :
      (∀ content, Uploads maxArtifactSize stream content → ¬StraysAt runtime r faults content w ∧
        ¬∃ catalog, CommitsAt runtime r now faults content catalog w) →
      Registers runtime maxArtifactSize r stream now faults w (.error error) w
  | strays {content : Bytes} {error : ModelError} : Uploads maxArtifactSize stream content →
      StraysAt runtime r faults content w →
      Registers runtime maxArtifactSize r stream now faults w (.error error)
        { w with files := placed runtime content w }
  | commits {content : Bytes} {catalog : Catalog τ} : Uploads maxArtifactSize stream content →
      CommitsAt runtime r now faults content catalog w →
      Registers runtime maxArtifactSize r stream now faults w
        (match faults .reload with
          | some error => .error (.store (.raised error))
          | none => catalog.get runtime (strip r.modelName) (r.assigned runtime w.catalog))
        { w with catalog, files := placed runtime content w }

theorem register_cases (runtime : Runtime) (maxArtifactSize : ℕ) (r : Registration)
    (stream : ℕ → ReadResult) (now : τ) (faults : RegisterPoint → Option Exc) (hdata : w.data temporary = none)
    (hstored : ∀ digest, w.files digest = none → w.catalog.artifacts.lookup digest = none) :
    ∃ result w', w.register runtime maxArtifactSize r stream temporary now faults = some (result, w') ∧
      Registers runtime maxArtifactSize r stream now faults w result w' := by
  have hdiscard : w.discard temporary = w := by
    rw [discard, ← hdata, Function.update_eq_self]
  rcases hstage : faults .stage with - | error
  swap
  · refine ⟨_, w, by rw [register, hstage, hdiscard], .unchanged fun content _ => ⟨fun h => ?_, ?_⟩⟩
    · exact absurd (h.stage.symm.trans hstage) (by simp)
    · rintro ⟨catalog, hfaults, -⟩
      exact absurd ((hfaults .stage (by simp)).symm.trans hstage) (by simp)
  rcases stageArtifact_cases runtime maxArtifactSize stream temporary w.data with
    ⟨content, huploads, hstaged⟩ | ⟨hnone, error, hstaged⟩
  swap
  · refine ⟨.error (.store error), w, ?_, .unchanged fun content h => absurd ⟨content, h⟩ hnone⟩
    rw [register, hstage, hstaged, ← hdata, Function.update_eq_self]
  let w₁ : World τ := { w with data := Function.update w.data temporary (some content) }
  have htransacts := transact_cases runtime r now (w := w₁) hstage (Function.update_self ..) (hstored _)
  rcases hout : World.transact runtime r (upload runtime temporary content) now faults
      { w with data := Function.update w.data temporary (some content) } with ⟨out, w'⟩
  rw [hout] at htransacts
  have hdiscard' : World.discard temporary
      { w with data := Function.update w.data temporary (some content) } = w := by
    rw [discard, Function.update_idem, ← hdata, Function.update_eq_self]
  rw [hdiscard'] at htransacts
  simp only at htransacts
  rcases out with error | version
  · refine ⟨.error (.store error), w'.discard temporary, ?_, ?_⟩
    · rw [register, hstage]
      simp only [hstaged, hout]
    · generalize w'.discard temporary = w'' at htransacts ⊢
      rcases htransacts with ⟨hstray, hcommit⟩ | hstray
      · refine .unchanged fun content' huploads' => ?_
        obtain rfl := huploads.unique huploads'
        exact ⟨hstray, hcommit⟩
      · exact .strays huploads hstray
  · generalize hw' : w'.discard temporary = w'' at htransacts
    rcases htransacts with - | - | @⟨catalog, hcommit⟩
    have hcatalog : (w'.discard temporary).catalog = catalog := by rw [hw']
    obtain rfl : w'.catalog = catalog := hcatalog
    refine ⟨_, _, ?_, .commits huploads hcommit⟩
    rw [register, hstage]
    simp only [hstaged, hout]
    rcases faults .reload with - | error
    · exact congrArg some (Prod.ext rfl hw')
    · exact congrArg some (Prod.ext rfl hw')

end World

end TextExtraction
