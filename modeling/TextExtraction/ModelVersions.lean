import TextExtraction.ModelArtifacts
import TextExtraction.ModelFailures

/-!
# Versions under concurrency

Any number of calls of `register` on one database. A transaction works on the catalog it found, and
while it holds the database lock nobody else changes that catalog; so the version it inserts is still new
when it commits, the next version is still the next one, and `IntegrityError` means what
`DuplicateVersionError` says. The failures of a call (`raise`, `commitFails`) and activations may come
in between.
-/

namespace TextExtraction

open Python Relational Transition

variable {τ : Type} {runtime : Runtime} {maxArtifactSize : ℕ}

namespace StoreSystem

variable {s t u : StoreSystem τ} {c c' : ℕ} {call call' : RegisterCall τ} {label : StoreLabel τ}

/-- The call holds the database lock. -/
def InTxn : RegisterPhase τ → Prop
  | .begun .. | .found .. | .missing .. | .inserting .. | .committing .. => True
  | _ => False

/-- A `DuplicateVersionError` is about the version that was asked for, which is there unless the `CHECK`
on it has failed. -/
def ErrorInv (runtime : Runtime) (catalog : Catalog τ) (r : Registration) (error : ModelStoreError) : Prop :=
  ∀ version displayName, error = .duplicateVersion version displayName →
    r.version = some version ∧ displayName = strip r.modelName ∧
      (version ≤ 0 ∨ (catalog.versions.lookup (runtime.normalizeName r.modelName, version)).isSome)

def ResultInv (runtime : Runtime) (catalog : Catalog τ) (r : Registration) :
    Except ModelStoreError ℤ → Prop
  | .ok version => (catalog.versions.lookup (runtime.normalizeName r.modelName, version)).isSome
  | .error error => ErrorInv runtime catalog r error

/-- What holds of a call in each phase, with the catalog that is committed. -/
def PhaseInv (runtime : Runtime) (catalog : Catalog τ) (r : Registration) : RegisterPhase τ → Prop
  | .staging _ => True
  | .staged content | .locked content => 0 < content.length
  | .begun content txn | .found content txn | .missing content txn | .inserting content txn _ =>
    0 < content.length ∧ ∃ now, txn = r.begin runtime (runtime.sha256 content) now catalog
  | .committing content txn _ =>
    0 < content.length ∧ txn.assignedVersion = r.assigned runtime catalog ∧
      ∃ now, r.insert runtime (runtime.sha256 content) content.length
        (r.begin runtime (runtime.sha256 content) now catalog) = .inserted txn.catalog
  | .compensating _ error => ErrorInv runtime catalog r error
  | .leaving result | .returned result => ResultInv runtime catalog r result

structure AllocInv (runtime : Runtime) (s : StoreSystem τ) : Prop where
  catalog : s.catalog.Inv
  phase : ∀ c call, s.calls c = some call → PhaseInv runtime s.catalog call.registration call.phase
  writer : ∀ c call, s.calls c = some call → InTxn call.phase → s.writer = some c

theorem AllocInv.init : AllocInv runtime (init : StoreSystem τ) :=
  ⟨.empty, by rintro c call ⟨⟩, by rintro c call ⟨⟩⟩

/-! ### One call moves -/

theorem ErrorInv.mono {catalog catalog' : Catalog τ} {r : Registration} {error : ModelStoreError}
    (h : ErrorInv runtime catalog r error) (hkeeps : catalog.Keeps catalog') :
    ErrorInv runtime catalog' r error := by
  intro version displayName herror
  obtain ⟨hversion, hname, hlookup⟩ := h version displayName herror
  exact ⟨hversion, hname, hlookup.imp_right hkeeps.lookup_isSome⟩

theorem ResultInv.mono {catalog catalog' : Catalog τ} {r : Registration}
    {result : Except ModelStoreError ℤ} (h : ResultInv runtime catalog r result)
    (hkeeps : catalog.Keeps catalog') : ResultInv runtime catalog' r result := by
  rcases result with error | version
  · exact ErrorInv.mono h hkeeps
  · exact hkeeps.lookup_isSome h

/-- What holds of a call goes on to hold when the catalog changes outside its transaction. -/
theorem PhaseInv.mono {catalog catalog' : Catalog τ} {r : Registration} {phase : RegisterPhase τ}
    (h : PhaseInv runtime catalog r phase) (hkeeps : catalog.Keeps catalog')
    (htxn : InTxn phase → catalog' = catalog) : PhaseInv runtime catalog' r phase := by
  rcases phase with written | temporary | temporary | ⟨temporary, txn⟩ | ⟨temporary, txn⟩ |
    ⟨temporary, txn⟩ | ⟨content, txn, placed⟩ | ⟨content, txn, placed⟩ | ⟨content, error⟩ | result | result
  · trivial
  · exact h
  · exact h
  · rwa [htxn trivial]
  · rwa [htxn trivial]
  · rwa [htxn trivial]
  · rwa [htxn trivial]
  · rwa [htxn trivial]
  · exact ErrorInv.mono h hkeeps
  · exact ResultInv.mono h hkeeps
  · exact ResultInv.mono h hkeeps

/-- `c` moves on; the others are in no transaction when the catalog changes. -/
theorem AllocInv.move (h : AllocInv runtime s) (c : ℕ) (call' : RegisterCall τ)
    (hcalls : t.calls = Function.update s.calls c (some call')) (hcatalog : t.catalog.Inv)
    (hkeeps : s.catalog.Keeps t.catalog)
    (hphase : PhaseInv runtime t.catalog call'.registration call'.phase)
    (hwriter : InTxn call'.phase → t.writer = some c)
    (hothers : ∀ c' ≠ c, s.writer = some c' → t.writer = some c' ∧ t.catalog = s.catalog) :
    AllocInv runtime t := by
  have hother {c' : ℕ} {call : RegisterCall τ} (hne : c' ≠ c) (hcall : t.calls c' = some call) :
      s.calls c' = some call := by
    rwa [hcalls, Function.update_of_ne hne] at hcall
  have hself {call : RegisterCall τ} (hcall : t.calls c = some call) : call' = call := by
    rw [hcalls, Function.update_self] at hcall
    exact Option.some.inj hcall
  refine ⟨hcatalog, fun c' call hcall => ?_, fun c' call hcall hin => ?_⟩
  · rcases eq_or_ne c' c with rfl | hne
    · exact hself hcall ▸ hphase
    · exact (h.phase c' call (hother hne hcall)).mono hkeeps fun hin =>
        (hothers c' hne (h.writer c' call (hother hne hcall) hin)).2
  · rcases eq_or_ne c' c with rfl | hne
    · exact hwriter (hself hcall ▸ hin)
    · exact (hothers c' hne (h.writer c' call (hother hne hcall) hin)).1

/-! ### The statements -/

theorem errorInv_raised (catalog : Catalog τ) (r : Registration) (error : Exc) :
    ErrorInv runtime catalog r (.raised error) := by
  rintro version displayName ⟨⟩

theorem phaseInv_stageRead (catalog : Catalog τ) (r : Registration) (written : Bytes) (result : ReadResult) :
    PhaseInv runtime catalog r (stageRead maxArtifactSize written result) := by
  have hfinish : PhaseInv runtime catalog r (finishStage written) := by
    unfold finishStage
    split
    · rintro version displayName ⟨⟩
    · rename_i hne
      exact Nat.pos_of_ne_zero hne
  unfold stageRead
  split
  · exact hfinish
  · split
    · rintro version displayName ⟨⟩
    · trivial
  · exact hfinish
  · rintro version displayName ⟨⟩
  · rintro version displayName ⟨⟩

theorem not_inTxn_stageRead (written : Bytes) (result : ReadResult) :
    ¬InTxn (stageRead (τ := τ) maxArtifactSize written result) := by
  rcases stageRead_cases (τ := τ) maxArtifactSize written result with ⟨written', h⟩ | h | ⟨error, h⟩ <;>
    rw [h] <;> exact id

theorem phaseInv_rolledBack {catalog : Catalog τ} {r : Registration} {content : Bytes}
    {txn : RegisterTxn τ} {placed : Bool} {error : ModelStoreError} (h : ErrorInv runtime catalog r error) :
    PhaseInv runtime catalog r (rolledBack content txn placed error) := by
  unfold rolledBack
  split <;> exact h

theorem not_inTxn_rolledBack {content : Bytes} {txn : RegisterTxn τ} {placed : Bool}
    {error : ModelStoreError} : ¬InTxn (rolledBack content txn placed error) := by
  unfold rolledBack
  split <;> exact id

/-- An automatic version is the next one, and a version that was asked for is that one. -/
theorem assigned_eq (runtime : Runtime) (r : Registration) (catalog : Catalog τ) :
    (r.version = none ∧
        r.assigned runtime catalog = catalog.nextVersion (runtime.normalizeName r.modelName)) ∨
      r.version = some (r.assigned runtime catalog) := by
  unfold Registration.assigned
  rcases r.version with - | version
  · exact .inl ⟨rfl, rfl⟩
  · exact .inr rfl

/-- `IntegrityError` is a version that was asked for and is not positive, or is there. -/
theorem duplicate_spec {catalog : Catalog τ} {r : Registration} {content : Bytes} {now : τ}
    (hinv : catalog.Inv) (hpos : 0 < content.length)
    (h : r.insert runtime (runtime.sha256 content) content.length
      (r.begin runtime (runtime.sha256 content) now catalog) = .integrityError) :
    r.version = some (r.assigned runtime catalog) ∧ (r.assigned runtime catalog ≤ 0 ∨
      (catalog.versions.lookup (runtime.normalizeName r.modelName, r.assigned runtime catalog)).isSome) := by
  have hrefused := Registration.insert_integrityError hinv hpos h
  refine ⟨?_, hrefused⟩
  rcases assigned_eq runtime r catalog with ⟨-, heq⟩ | heq
  · have hpositive := Catalog.nextVersion_pos hinv.positive (runtime.normalizeName r.modelName)
    rw [heq, Catalog.lookup_nextVersion] at hrefused
    simp only [Option.isSome_none, Bool.false_eq_true, or_false] at hrefused
    omega
  · exact heq

/-! ### Every step -/

theorem AllocInv.phase_at (h : AllocInv runtime s) {phase : RegisterPhase τ} (hcall : s.calls c = some call)
    (hphase : call.phase = phase) : PhaseInv runtime s.catalog call.registration phase := by
  rw [← hphase]
  exact h.phase c call hcall

theorem AllocInv.writer_at (h : AllocInv runtime s) {phase : RegisterPhase τ} (hcall : s.calls c = some call)
    (hphase : call.phase = phase) (hin : InTxn phase) : s.writer = some c := by
  rw [← hphase] at hin
  exact h.writer c call hcall hin

/-- What the transaction of a call that is about to commit has added. -/
theorem AllocInv.committing_spec (h : AllocInv runtime s) {content : Bytes} {txn : RegisterTxn τ}
    {placed : Bool} (hcall : s.calls c = some call) (hphase : call.phase = .committing content txn placed) :
    txn.assignedVersion = call.registration.assigned runtime s.catalog ∧ txn.catalog.Inv ∧
      ∃ now metadataJson, s.catalog.Adds (call.registration.modelRow runtime now)
        ⟨runtime.sha256 content, runtime.sha256 content, content.length⟩
        (call.registration.row runtime (runtime.sha256 content) now metadataJson s.catalog) txn.catalog := by
  obtain ⟨hpos, hassigned, now, hinsert⟩ := h.phase_at hcall hphase
  obtain ⟨metadataJson, -, hbind, hpositive, hadds⟩ := Registration.insert_inserted h.catalog hpos hinsert
  exact ⟨hassigned, hadds.inv h.catalog rfl rfl rfl hpos hpositive hbind.2 rfl, now, metadataJson, hadds⟩

theorem AllocInv.goto (h : AllocInv runtime s) {s₀ : StoreSystem τ} (phase : RegisterPhase τ)
    (hcalls : s₀.calls = s.calls) (hcatalog : s₀.catalog = s.catalog)
    (hphase : PhaseInv runtime s.catalog call.registration phase)
    (hwriter : InTxn phase → s₀.writer = some c)
    (hothers : ∀ c' ≠ c, s.writer = some c' → s₀.writer = some c') :
    AllocInv runtime (s₀.goto c call phase) := by
  refine h.move c { call with phase } ?_ ?_ ?_ ?_ hwriter ?_
  · rw [goto_calls, hcalls]
  · exact hcatalog.symm ▸ h.catalog
  · exact hcatalog.symm ▸ .refl _
  · exact hcatalog.symm ▸ hphase
  · exact fun c' hne hw => ⟨hothers c' hne hw, hcatalog⟩

theorem AllocInv.step (h : AllocInv runtime s)
    (hstep : Step runtime maxArtifactSize s label t) : AllocInv runtime t := by
  cases hstep with
  | @start c store registration hnew =>
    exact h.move c _ rfl h.catalog (.refl _) trivial (by rintro ⟨⟩) fun c' hne hw => ⟨hw, rfl⟩
  | @read c call written result hcall hphase =>
    exact h.goto _ rfl rfl (phaseInv_stageRead ..) (fun hin => absurd hin (not_inTxn_stageRead _ _))
      fun _ _ => id
  | @acquire c call temporary hcall hphase hfree =>
    have hpos := h.phase_at hcall hphase
    exact h.goto (.locked temporary) rfl rfl hpos (by rintro ⟨⟩) fun _ _ => id
  | @begin c call temporary now hcall hphase hfree =>
    exact h.goto _ rfl rfl ⟨h.phase_at hcall hphase, now, rfl⟩ (fun _ => rfl) fun c' _ hw => by
      simp [hfree] at hw
  | @found c call temporary txn hcall hphase hfile =>
    have htxn := h.phase_at hcall hphase
    exact h.goto _ rfl rfl htxn (fun _ => h.writer_at hcall hphase trivial) fun _ _ => id
  | @missing c call temporary txn hcall hphase hfile =>
    have htxn := h.phase_at hcall hphase
    exact h.goto _ rfl rfl htxn (fun _ => h.writer_at hcall hphase trivial) fun _ _ => id
  | @discard c call temporary txn hcall hphase =>
    have htxn := h.phase_at hcall hphase
    exact h.goto _ rfl rfl htxn (fun _ => h.writer_at hcall hphase trivial) fun _ _ => id
  | @replace c call temporary txn hcall hphase =>
    have htxn := h.phase_at hcall hphase
    exact h.goto _ rfl rfl htxn (fun _ => h.writer_at hcall hphase trivial) fun _ _ => id
  | @inserted c call content txn placed catalog hcall hphase hinsert =>
    obtain ⟨hpos, now, rfl⟩ := h.phase_at hcall hphase
    exact h.goto _ rfl rfl ⟨hpos, rfl, now, hinsert⟩ (fun _ => h.writer_at hcall hphase trivial)
      fun _ _ => id
  | @duplicate c call content txn placed hcall hphase hinsert =>
    obtain ⟨hpos, now, rfl⟩ := h.phase_at hcall hphase
    obtain ⟨hversion, htaken⟩ := duplicate_spec h.catalog hpos hinsert
    refine h.goto _ rfl rfl (phaseInv_rolledBack ?_) (fun hin => absurd hin not_inTxn_rolledBack)
      fun c' => release_writer
    rintro version displayName ⟨⟩
    exact ⟨hversion, rfl, htaken⟩
  | @refused c call content txn placed error hcall hphase hinsert =>
    exact h.goto (.leaving (.error (.raised error))) rfl rfl (errorInv_raised _ _ _)
      (by rintro ⟨⟩) fun c' => release_writer
  | @commit c call content txn placed hcall hphase =>
    obtain ⟨hassigned, hcatalog, now, metadataJson, hadds⟩ := h.committing_spec hcall hphase
    refine h.move c { call with phase := .leaving (.ok txn.assignedVersion) } rfl hcatalog
      hadds.keeps ?_ (by rintro ⟨⟩) fun c' hne hw => ?_
    · have hrow := hadds.lookup_row
      rw [Registration.row_key, ← hassigned] at hrow
      exact hrow
    · rw [h.writer_at hcall hphase trivial, Option.some.injEq] at hw
      exact absurd hw.symm hne
  | @commitFails c call content txn placed error hcall hphase =>
    exact h.goto _ rfl rfl (phaseInv_rolledBack (errorInv_raised _ _ _))
      (fun hin => absurd hin not_inTxn_rolledBack) fun c' => release_writer
  | @compensate c call content error hcall hphase =>
    have herror := h.phase_at hcall hphase
    exact h.goto (.leaving (.error error)) rfl rfl herror (by rintro ⟨⟩) fun _ _ => id
  | @leave c call result hcall hphase =>
    have hresult := h.phase_at hcall hphase
    exact h.goto (.returned result) rfl rfl hresult (by rintro ⟨⟩) fun _ _ => id
  | @raise c call error hcall hlive =>
    exact h.goto (.returned (.error (.raised error))) rfl rfl (errorInv_raised _ _ _)
      (by rintro ⟨⟩) fun c' => release_writer
  | @activate normalizedName version now catalog hfree hactivate =>
    have hactivates := Catalog.activate_spec hactivate
    refine ⟨hactivates.inv h.catalog, fun c call hcall => ?_, h.writer⟩
    refine (h.phase c call hcall).mono hactivates.keeps fun hin => ?_
    have hwriter := h.writer c call hcall hin
    rw [hfree] at hwriter
    simp at hwriter

theorem AllocInv.run (h : AllocInv runtime s) {labels : List (StoreLabel τ)}
    (hrun : Run (Step runtime maxArtifactSize) s labels t) : AllocInv runtime t :=
  hrun.invariant (fun _ _ _ h hstep => h.step hstep) h

/-! ### Commits -/

theorem AllocInv.keeps (h : AllocInv runtime s) (hstep : Step runtime maxArtifactSize s label t) :
    s.catalog.Keeps t.catalog := by
  cases hstep with
  | @commit c call content txn placed hcall hphase =>
    obtain ⟨-, -, now, metadataJson, hadds⟩ := h.committing_spec hcall hphase
    exact hadds.keeps
  | activate hfree hactivate => exact (Catalog.activate_spec hactivate).keeps
  | _ => exact .refl _

theorem AllocInv.keeps_run (h : AllocInv runtime s) {labels : List (StoreLabel τ)}
    (hrun : Run (Step runtime maxArtifactSize) s labels t) :
    s.catalog.Keeps t.catalog := by
  induction hrun with
  | nil => exact .refl _
  | cons hstep _ ih =>
    exact (h.keeps hstep).trans (ih (h.step hstep))

/-! ### Activations -/

/-- The version of the last activation of a model among the labels. -/
def lastActivation (normalizedName : String) : List (StoreLabel τ) → Option ℤ
  | [] => none
  | .activate name version _ :: labels =>
    (lastActivation normalizedName labels).or (if name = normalizedName then some version else none)
  | _ :: labels => lastActivation normalizedName labels

/-- A step is the last activation of its model, or leaves it as it was. -/
theorem AllocInv.lastActivated_step (h : AllocInv runtime s) (hstep : Step runtime maxArtifactSize s label t)
    (normalizedName : String) (labels : List (StoreLabel τ)) :
    (lastActivation normalizedName labels).or (t.catalog.lastActivated normalizedName) =
      (lastActivation normalizedName (label :: labels)).or (s.catalog.lastActivated normalizedName) := by
  cases hstep with
  | @commit c call content txn placed hcall hphase =>
    obtain ⟨-, -, now, metadataJson, hadds⟩ := h.committing_spec hcall hphase
    have hlast : txn.catalog.lastActivated normalizedName = s.catalog.lastActivated normalizedName := by
      rw [Catalog.lastActivated, hadds.activations]
      rfl
    show (lastActivation normalizedName labels).or (txn.catalog.lastActivated normalizedName) = _
    rw [hlast]
    rfl
  | @activate name version now catalog hfree hactivate =>
    have hlast : catalog.lastActivated normalizedName =
        if name = normalizedName then some version else s.catalog.lastActivated normalizedName := by
      rw [← Catalog.lastActivated_append ⟨s.catalog.activations.length + 1, name, version, now⟩,
        Catalog.lastActivated, (Catalog.activate_spec hactivate).activations]
      rfl
    show (lastActivation normalizedName labels).or (catalog.lastActivated normalizedName) =
      ((lastActivation normalizedName labels).or (if name = normalizedName then some version else none)).or _
    rw [hlast, Option.or_assoc]
    split <;> rfl
  | _ => rfl

theorem AllocInv.lastActivated_run (h : AllocInv runtime s) {labels : List (StoreLabel τ)}
    (hrun : Run (Step runtime maxArtifactSize) s labels t)
    (normalizedName : String) : t.catalog.lastActivated normalizedName =
      (lastActivation normalizedName labels).or (s.catalog.lastActivated normalizedName) := by
  induction hrun with
  | nil => rfl
  | cons hstep _ ih =>
    rw [ih (h.step hstep)]
    exact h.lastActivated_step hstep normalizedName _

/-- Along a run a record only changes its status, and only an activation of its model does that. -/
theorem AllocInv.get_run (h : AllocInv runtime s) {labels : List (StoreLabel τ)}
    (hrun : Run (Step runtime maxArtifactSize) s labels t)
    {modelName : String} {version : ℤ} {record : ModelVersion τ}
    (hget : s.catalog.get runtime modelName version = .ok record) :
    ∃ status, t.catalog.get runtime modelName version = .ok { record with status } ∧
      (status = .active ↔ (lastActivation (runtime.normalizeName modelName) labels).or
        (s.catalog.lastActivated (runtime.normalizeName modelName)) = some version) := by
  obtain ⟨status, hstatus⟩ := (h.keeps_run hrun).get hget
  refine ⟨status, hstatus, ?_⟩
  rw [← h.lastActivated_run hrun]
  exact ((h.run hrun).catalog.get_status hstatus).2

/-! ### Versions -/

/-- The call is about to commit this version. -/
def Committing (s : StoreSystem τ) (c : ℕ) (call : RegisterCall τ) (version : ℤ) : Prop :=
  s.calls c = some call ∧ ∃ content txn placed, call.phase = .committing content txn placed ∧
    txn.assignedVersion = version

/-- A version about to be committed is new, and above all others when it was not asked for. -/
theorem AllocInv.committing (h : AllocInv runtime s) {version : ℤ} (hc : s.Committing c call version) :
    (call.registration.version = none ∨ call.registration.version = some version) ∧
      s.catalog.versions.lookup (runtime.normalizeName call.registration.modelName, version) = none ∧
      (call.registration.version = none → ∀ earlier, (s.catalog.versions.lookup
        (runtime.normalizeName call.registration.modelName, earlier)).isSome → earlier < version) := by
  obtain ⟨hcall, content, txn, placed, hphase, rfl⟩ := hc
  obtain ⟨hassigned, -, now, metadataJson, hadds⟩ := h.committing_spec hcall hphase
  rw [hassigned]
  refine ⟨?_, hadds.fresh, fun hnone earlier hearlier => ?_⟩
  · rcases assigned_eq runtime call.registration s.catalog with ⟨hnone, -⟩ | hsome
    · exact .inl hnone
    · exact .inr hsome
  · rcases assigned_eq runtime call.registration s.catalog with ⟨-, hnext⟩ | hsome
    · rw [hnext]
      exact (h.catalog.isLeast_nextVersion _).1.2 earlier hearlier
    · rw [hnone] at hsome
      simp at hsome

theorem AllocInv.committed (h : AllocInv runtime s) {version : ℤ} (hc : s.Committing c call version)
    (hstep : Step runtime maxArtifactSize s (.commit c) t) :
    t.calls c = some { call with phase := .leaving (.ok version) } ∧
      ∃ record, t.catalog.get runtime call.registration.modelName version = .ok record ∧
        record.version = version ∧ record.status = .registered := by
  obtain ⟨hcall, content, txn, placed, hphase, rfl⟩ := hc
  cases hstep with
  | @commit _ call' content' txn' placed' hcall' hphase' =>
    rw [hcall] at hcall'
    cases hcall'
    rw [hphase] at hphase'
    cases hphase'
    obtain ⟨hassigned, hcatalog, now, metadataJson, hadds⟩ := h.committing_spec hcall hphase
    refine ⟨Function.update_self .., ?_⟩
    have hmem := hadds.mem_versions.2 (.inr rfl)
    obtain ⟨record, hget, hjoin⟩ := hcatalog.exists_get runtime call.registration.modelName hmem rfl
    obtain ⟨record', hjoin', hversion, hstatus, -⟩ := hcatalog.exists_joinVersion hmem
    obtain rfl : record = record' := Option.some.inj (hjoin.symm.trans hjoin')
    rw [hassigned]
    exact ⟨record, hget, hversion, hstatus⟩

/-! ### A call that comes too late -/

/-- A call whose version is there: where it can stand between the end of its staging and its answer. -/
def Losing (version : ℤ) (displayName : String) : RegisterPhase τ → Prop
  | .staging _ | .committing .. => False
  | .compensating _ error => error = .duplicateVersion version displayName
  | .leaving result | .returned result => result = .error (.duplicateVersion version displayName)
  | _ => True

structure LosingAt (runtime : Runtime) (c : ℕ) (r : Registration) (version : ℤ) (s : StoreSystem τ) :
    Prop where
  inv : AllocInv runtime s
  taken : (s.catalog.versions.lookup (runtime.normalizeName r.modelName, version)).isSome
  call : ∃ call, s.calls c = some call ∧ call.registration = r ∧
    Losing version (strip r.modelName) call.phase

theorem losing_rolledBack {version : ℤ} {displayName : String} {content : Bytes} {txn : RegisterTxn τ}
    {placed : Bool} : Losing version displayName
      (rolledBack content txn placed (.duplicateVersion version displayName)) := by
  unfold rolledBack
  split <;> rfl

/-- The `INSERT` of a losing call can only be refused as a duplicate. -/
theorem AllocInv.loses_insert (h : AllocInv runtime s) {content : Bytes} {txn : RegisterTxn τ}
    {placed : Bool} (hcall : s.calls c = some call) (hphase : call.phase = .inserting content txn placed)
    {version : ℤ} (hversion : call.registration.version = some version)
    (htaken : (s.catalog.versions.lookup
      (runtime.normalizeName call.registration.modelName, version)).isSome)
    (hmetadata : ∃ metadataJson, dumps true call.registration.metadata = .ok metadataJson) :
    call.registration.insert runtime (runtime.sha256 content) content.length txn = .integrityError ∧
      txn.assignedVersion = version := by
  obtain ⟨hpos, now, rfl⟩ := h.phase_at hcall hphase
  have hassigned : call.registration.assigned runtime s.catalog = version := by
    rw [Registration.assigned, hversion]
    rfl
  refine ⟨?_, hassigned⟩
  rcases hinsert : call.registration.insert runtime (runtime.sha256 content) content.length
      (call.registration.begin runtime (runtime.sha256 content) now s.catalog) with catalog | - | error
  · obtain ⟨metadataJson, -, -, -, hadds⟩ := Registration.insert_inserted h.catalog hpos hinsert
    have hfresh : s.catalog.versions.lookup (runtime.normalizeName call.registration.modelName,
      call.registration.assigned runtime s.catalog) = none := hadds.fresh
    rw [← hassigned, hfresh] at htaken
    simp at htaken
  · rfl
  · exfalso
    obtain ⟨metadataJson, hjson⟩ := hmetadata
    rcases (Registration.insert_raised_iff ..).1 ⟨error, hinsert⟩ with ⟨error, herror⟩ | hbind
    · rw [hjson] at herror
      simp at herror
    · obtain ⟨v, hv⟩ := Option.isSome_iff_exists.1 htaken
      have hbindable := h.catalog.bindable_version (Table.mem_of_lookup hv)
      rw [show v.version = version from congrArg Prod.snd (Table.key_of_lookup hv), ← hassigned] at hbindable
      exact hbind hbindable

/-- A call that moves keeps a losing call losing, or is the one and goes on losing. -/
theorem losing_goto {version : ℤ} {displayName : String} (hcall : s.calls c = some call)
    (hlosing : Losing version displayName call.phase) {s₀ : StoreSystem τ} (hcall' : s.calls c' = some call')
    (hcalls : s₀.calls = s.calls) {phase : RegisterPhase τ}
    (hphase : c' = c → call' = call → Losing version displayName phase) :
    ∃ call₁, (s₀.goto c' call' phase).calls c = some call₁ ∧ call₁.registration = call.registration ∧
      Losing version displayName call₁.phase := by
  rcases eq_or_ne c c' with rfl | hne
  · obtain rfl : call' = call := Option.some.inj (hcall'.symm.trans hcall)
    exact ⟨{ call' with phase }, Function.update_self .., rfl, hphase rfl rfl⟩
  · refine ⟨call, ?_, rfl, hlosing⟩
    rw [goto_calls, hcalls, Function.update_of_ne hne, hcall]

/-- A losing call is not the one that moves, or it moves towards its answer. -/
theorem LosingAt.step {r : Registration} {version : ℤ} (h : LosingAt runtime c r version s)
    (hversion : r.version = some version)
    (hmetadata : ∃ metadataJson, dumps true r.metadata = .ok metadataJson)
    (hraise : ∀ error, label ≠ .raise c error) (hstep : Step runtime maxArtifactSize s label t) :
    LosingAt runtime c r version t := by
  obtain ⟨hinv, htaken, call, hcall, rfl, hlosing⟩ := h
  refine ⟨hinv.step hstep, (hinv.keeps hstep).lookup_isSome htaken, ?_⟩
  cases hstep with
  | @start c₁ store registration hnew =>
    have hne : c ≠ c₁ := by
      rintro rfl
      rw [hcall] at hnew
      simp at hnew
    exact ⟨call, (Function.update_of_ne hne ..).trans hcall, rfl, hlosing⟩
  | @read c₁ call₁ written result hcall₁ hphase₁ =>
    refine losing_goto hcall hlosing hcall₁ rfl fun _ hsame => ?_
    subst hsame
    rw [hphase₁] at hlosing
    exact hlosing.elim
  | acquire hcall₁ _ _ => exact losing_goto hcall hlosing hcall₁ rfl fun _ _ => trivial
  | begin hcall₁ _ _ => exact losing_goto hcall hlosing hcall₁ rfl fun _ _ => trivial
  | found hcall₁ _ _ => exact losing_goto hcall hlosing hcall₁ rfl fun _ _ => trivial
  | missing hcall₁ _ _ => exact losing_goto hcall hlosing hcall₁ rfl fun _ _ => trivial
  | discard hcall₁ _ => exact losing_goto hcall hlosing hcall₁ rfl fun _ _ => trivial
  | replace hcall₁ _ => exact losing_goto hcall hlosing hcall₁ rfl fun _ _ => trivial
  | @inserted c₁ call₁ content txn placed catalog hcall₁ hphase₁ hinsert =>
    refine losing_goto hcall hlosing hcall₁ rfl fun heq hsame => ?_
    subst heq hsame
    rw [(hinv.loses_insert hcall₁ hphase₁ hversion htaken hmetadata).1] at hinsert
    simp at hinsert
  | @duplicate c₁ call₁ content txn placed hcall₁ hphase₁ hinsert =>
    refine losing_goto hcall hlosing hcall₁ rfl fun heq hsame => ?_
    subst heq hsame
    rw [(hinv.loses_insert hcall₁ hphase₁ hversion htaken hmetadata).2]
    exact losing_rolledBack
  | @refused c₁ call₁ content txn placed error hcall₁ hphase₁ hinsert =>
    refine losing_goto hcall hlosing hcall₁ rfl fun heq hsame => ?_
    subst heq hsame
    rw [(hinv.loses_insert hcall₁ hphase₁ hversion htaken hmetadata).1] at hinsert
    simp at hinsert
  | @commit c₁ call₁ content txn placed hcall₁ hphase₁ =>
    refine losing_goto hcall hlosing hcall₁ rfl fun _ hsame => ?_
    subst hsame
    rw [hphase₁] at hlosing
    exact hlosing.elim
  | @commitFails c₁ call₁ content txn placed error hcall₁ hphase₁ =>
    refine losing_goto hcall hlosing hcall₁ rfl fun _ hsame => ?_
    subst hsame
    rw [hphase₁] at hlosing
    exact hlosing.elim
  | @compensate c₁ call₁ content error hcall₁ hphase₁ =>
    refine losing_goto hcall hlosing hcall₁ rfl fun _ hsame => ?_
    subst hsame
    rw [hphase₁] at hlosing
    exact congrArg Except.error hlosing
  | @leave c₁ call₁ result hcall₁ hphase₁ =>
    refine losing_goto hcall hlosing hcall₁ rfl fun _ hsame => ?_
    subst hsame
    rw [hphase₁] at hlosing
    exact hlosing
  | @raise c₁ call₁ error hcall₁ hlive =>
    exact losing_goto hcall hlosing hcall₁ rfl fun heq _ => absurd (heq ▸ rfl) (hraise error)
  | activate hfree hactivate => exact ⟨call, hcall, rfl, hlosing⟩

theorem LosingAt.run {r : Registration} {version : ℤ} (h : LosingAt runtime c r version s)
    (hversion : r.version = some version)
    (hmetadata : ∃ metadataJson, dumps true r.metadata = .ok metadataJson) {labels : List (StoreLabel τ)}
    (hrun : Run (Step runtime maxArtifactSize) s labels t)
    (hraise : ∀ label ∈ labels, ∀ error, label ≠ .raise c error) : LosingAt runtime c r version t := by
  induction hrun with
  | nil => exact h
  | cons hstep _ ih =>
    refine ih (h.step hversion hmetadata (hraise _ (by simp)) hstep) fun label hlabel => ?_
    exact hraise label (by simp [hlabel])

/-- How many steps a call is away from its answer, at most. -/
def turns : RegisterPhase τ → ℕ
  | .staging _ => 8
  | .staged _ => 7
  | .locked _ => 6
  | .begun .. => 5
  | .found .. | .missing .. => 4
  | .inserting .. | .committing .. => 3
  | .compensating .. => 2
  | .leaving _ => 1
  | .returned _ => 0

/-- The locks the call is to take are free. -/
def Unblocked (s : StoreSystem τ) (call : RegisterCall τ) : Prop :=
  match call.phase with
  | .staged _ => s.locks call.store = none ∧ s.writer = none
  | .locked _ => s.writer = none
  | _ => True

theorem LosingAt.exists_step {r : Registration} {version : ℤ} (h : LosingAt runtime c r version s)
    (maxArtifactSize : ℕ) (hversion : r.version = some version)
    (hmetadata : ∃ metadataJson, dumps true r.metadata = .ok metadataJson) (now : τ)
    (hcall : s.calls c = some call) (hfree : s.Unblocked call)
    (hlive : ∀ result, call.phase ≠ .returned result) :
    ∃ label t call', Step runtime maxArtifactSize s label t ∧
      (∀ error, label ≠ .raise c error) ∧ t.calls c = some call' ∧ t.Unblocked call' ∧
      turns call'.phase < turns call.phase := by
  obtain ⟨hinv, htaken, call₀, hcall₀, rfl, hlosing⟩ := h
  obtain rfl : call = call₀ := Option.some.inj (hcall.symm.trans hcall₀)
  have hgoto (s₀ : StoreSystem τ) (phase : RegisterPhase τ) :
      (s₀.goto c call phase).calls c = some { call with phase } := Function.update_self ..
  rcases call with ⟨store, registration, phase⟩
  rcases phase with written | temporary | temporary | ⟨temporary, txn⟩ | ⟨temporary, txn⟩ |
    ⟨temporary, txn⟩ | ⟨content, txn, placed⟩ | ⟨content, txn, placed⟩ | ⟨content, error⟩ | result | result
  · exact hlosing.elim
  · exact ⟨.acquire c, _, _, .acquire hcall rfl hfree.1, by rintro error ⟨⟩, hgoto _ _, hfree.2,
      by simp [turns]⟩
  · exact ⟨.begin c now, _, _, .begin hcall rfl hfree, by rintro error ⟨⟩, hgoto _ _, trivial,
      by simp [turns]⟩
  · rcases hfile : s.files (runtime.sha256 temporary) with - | content
    · exact ⟨.pathExists c, _, _, .missing hcall rfl hfile, by rintro error ⟨⟩, hgoto _ _, trivial,
        by simp [turns]⟩
    · exact ⟨.pathExists c, _, _, .found hcall rfl (by rw [hfile]; rfl), by rintro error ⟨⟩,
        hgoto _ _, trivial, by simp [turns]⟩
  · exact ⟨.discard c, _, _, .discard hcall rfl, by rintro error ⟨⟩, hgoto _ _, trivial, by simp [turns]⟩
  · exact ⟨.replace c, _, _, .replace hcall rfl, by rintro error ⟨⟩, hgoto _ _, trivial, by simp [turns]⟩
  · obtain ⟨hinsert, -⟩ := hinv.loses_insert hcall rfl hversion htaken hmetadata
    refine ⟨.insert c, _, _, .duplicate hcall rfl hinsert, by rintro error ⟨⟩, hgoto _ _, ?_, ?_⟩
    · unfold rolledBack
      split <;> trivial
    · unfold rolledBack
      split <;> simp [turns]
  · exact hlosing.elim
  · exact ⟨.compensate c, _, _, .compensate hcall rfl, by rintro error ⟨⟩, hgoto _ _, trivial,
      by simp [turns]⟩
  · exact ⟨.leave c, _, _, .leave hcall rfl, by rintro error ⟨⟩, hgoto _ _, trivial, by simp [turns]⟩
  · exact absurd rfl (hlive result)

theorem LosingAt.exists_run {r : Registration} {version : ℤ} (h : LosingAt runtime c r version s)
    (maxArtifactSize : ℕ) (hversion : r.version = some version)
    (hmetadata : ∃ metadataJson, dumps true r.metadata = .ok metadataJson) (now : τ)
    (hcall : s.calls c = some call) (hfree : s.Unblocked call) :
    ∃ labels t call', Run (Step runtime maxArtifactSize) s labels t ∧ t.calls c = some call' ∧
      call'.phase = .returned (.error (.duplicateVersion version (strip r.modelName))) := by
  induction hn : turns call.phase using Nat.strong_induction_on generalizing s call with
  | _ n ih =>
    by_cases hlive : ∀ result, call.phase ≠ .returned result
    · obtain ⟨label, t, call', hstep, hraise, hcall', hfree', hlt⟩ :=
        h.exists_step maxArtifactSize hversion hmetadata now hcall hfree hlive
      obtain ⟨labels, u, call₁, hrun, hcall₁, hphase⟩ :=
        ih _ (hn ▸ hlt) (h.step hversion hmetadata hraise hstep) hcall' hfree' rfl
      exact ⟨label :: labels, u, call₁, .cons hstep hrun, hcall₁, hphase⟩
    · push Not at hlive
      obtain ⟨result, hphase⟩ := hlive
      obtain ⟨call₀, hcall₀, -, hlosing⟩ := h.call
      obtain rfl : call = call₀ := Option.some.inj (hcall.symm.trans hcall₀)
      rw [hphase] at hlosing
      exact ⟨[], s, call, .nil s, hcall, hphase.trans (congrArg _ hlosing)⟩

/-! ### Allocation -/

/-- The call has its answer. -/
def Answers (s : StoreSystem τ) (c : ℕ) (call : RegisterCall τ) (result : Except ModelStoreError ℤ) : Prop :=
  s.calls c = some call ∧ (call.phase = .leaving result ∨ call.phase = .returned result)

/-- The call has staged its artifact and has not written its version. -/
def Pending : RegisterPhase τ → Prop
  | .staged _ | .locked _ | .begun .. | .found .. | .missing .. | .inserting .. => True
  | _ => False

theorem Pending.losing {version : ℤ} {displayName : String} :
    ∀ {phase : RegisterPhase τ}, Pending phase → Losing version displayName phase
  | .staged _, _ | .locked _, _ | .begun .., _ | .found .., _ | .missing .., _ | .inserting .., _ => trivial

/-- Every call that starts has passed the checks of `ModelService`. -/
def Admits : StoreLabel τ → Prop
  | .start _ _ r => ∃ modelName version description metadata,
      ModelService.validate modelName version description metadata = .ok r
  | _ => True

theorem registration_goto {s₀ : StoreSystem τ} {phase : RegisterPhase τ} (hcall' : s.calls c' = some call')
    (hcalls : s₀.calls = s.calls) (hcall : (s₀.goto c' call' phase).calls c = some call) :
    ∃ call₀, s.calls c = some call₀ ∧ call₀.registration = call.registration := by
  rw [goto_calls, hcalls] at hcall
  rcases eq_or_ne c c' with rfl | hne
  · rw [Function.update_self] at hcall
    cases hcall
    exact ⟨call', hcall', rfl⟩
  · rw [Function.update_of_ne hne] at hcall
    exact ⟨call, hcall, rfl⟩

theorem Step.registration (hstep : Step runtime maxArtifactSize s label t) (hcall : t.calls c = some call) :
    (∃ call₀, s.calls c = some call₀ ∧ call₀.registration = call.registration) ∨
      ∃ store, label = .start c store call.registration := by
  cases hstep with
  | @start c' store r hnew =>
    replace hcall : Function.update s.calls c' _ c = some call := hcall
    rcases eq_or_ne c c' with rfl | hne
    · rw [Function.update_self] at hcall
      cases hcall
      exact .inr ⟨store, rfl⟩
    · rw [Function.update_of_ne hne] at hcall
      exact .inl ⟨call, hcall, rfl⟩
  | read hcall' _ => exact .inl (registration_goto hcall' rfl hcall)
  | acquire hcall' _ _ => exact .inl (registration_goto hcall' rfl hcall)
  | begin hcall' _ _ => exact .inl (registration_goto hcall' rfl hcall)
  | found hcall' _ _ => exact .inl (registration_goto hcall' rfl hcall)
  | missing hcall' _ _ => exact .inl (registration_goto hcall' rfl hcall)
  | discard hcall' _ => exact .inl (registration_goto hcall' rfl hcall)
  | replace hcall' _ => exact .inl (registration_goto hcall' rfl hcall)
  | inserted hcall' _ _ => exact .inl (registration_goto hcall' rfl hcall)
  | duplicate hcall' _ _ => exact .inl (registration_goto hcall' rfl hcall)
  | refused hcall' _ _ => exact .inl (registration_goto hcall' rfl hcall)
  | commit hcall' _ => exact .inl (registration_goto hcall' rfl hcall)
  | commitFails hcall' _ => exact .inl (registration_goto hcall' rfl hcall)
  | compensate hcall' _ => exact .inl (registration_goto hcall' rfl hcall)
  | leave hcall' _ => exact .inl (registration_goto hcall' rfl hcall)
  | raise hcall' _ => exact .inl (registration_goto hcall' rfl hcall)
  | activate _ _ => exact .inl ⟨call, hcall, rfl⟩

/-- A version that `ModelService` lets through is positive. -/
def Positive (s : StoreSystem τ) : Prop :=
  ∀ c call, s.calls c = some call → ∀ version, call.registration.version = some version → 1 ≤ version

theorem Positive.run (h : s.Positive) {labels : List (StoreLabel τ)}
    (hrun : Run (Step runtime maxArtifactSize) s labels t) (hadmits : ∀ label ∈ labels, Admits label) :
    t.Positive := by
  induction hrun with
  | nil => exact h
  | cons hstep _ ih =>
    refine ih (fun c call hcall => ?_) fun label hlabel => hadmits label (by simp [hlabel])
    rcases hstep.registration hcall with ⟨call₀, hcall₀, heq⟩ | ⟨store, rfl⟩
    · rw [← heq]
      exact h c call₀ hcall₀
    · obtain ⟨modelName, version, description, metadata, hvalid⟩ := hadmits _ List.mem_cons_self
      exact ModelService.version_of_validate hvalid

/-- What the commit of `version` from `s` to `t` settles, then and in every later run. -/
structure Allocates (runtime : Runtime) (maxArtifactSize : ℕ) (s t : StoreSystem τ) (c : ℕ)
    (call : RegisterCall τ) (version : ℤ) : Prop where
  asked : call.registration.version = none ∨ call.registration.version = some version
  fresh : s.catalog.versions.lookup (runtime.normalizeName call.registration.modelName, version) = none
  above : call.registration.version = none → ∀ earlier, (s.catalog.versions.lookup
    (runtime.normalizeName call.registration.modelName, earlier)).isSome → earlier < version
  answers : t.Answers c { call with phase := .leaving (.ok version) } (.ok version)
  record : ∃ record, t.catalog.get runtime call.registration.modelName version = .ok record ∧
    ∀ later u, Run (Step runtime maxArtifactSize) t later u →
      ∃ status, u.catalog.get runtime call.registration.modelName version = .ok { record with status } ∧
        (lastActivation (runtime.normalizeName call.registration.modelName) later = none →
          status = record.status)
  next : ∀ later u, Run (Step runtime maxArtifactSize) t later u →
    ∀ c' call' version', u.Committing c' call' version' →
      runtime.normalizeName call'.registration.modelName = runtime.normalizeName call.registration.modelName →
      version' ≠ version ∧ (call'.registration.version = none → version < version')

theorem AllocInv.allocates (h : AllocInv runtime s) {version : ℤ} (hc : s.Committing c call version)
    (hstep : Step runtime maxArtifactSize s (.commit c) t) :
    Allocates runtime maxArtifactSize s t c call version := by
  have ht := h.step hstep
  obtain ⟨hasked, hfresh, habove⟩ := h.committing hc
  obtain ⟨hcall, record, hget, -, -⟩ := h.committed hc hstep
  have hstatus := (ht.catalog.get_status hget).2
  refine ⟨hasked, hfresh, habove, ⟨hcall, .inl rfl⟩, ⟨record, hget, ?_⟩, ?_⟩
  · intro later u hrun
    obtain ⟨status, hget', hstatus'⟩ := ht.get_run hrun hget
    refine ⟨status, hget', fun hnone => ?_⟩
    rw [hnone, Option.none_or, ← hstatus] at hstatus'
    rcases status <;> rcases hrecord : record.status <;> simp [hrecord] at hstatus' ⊢
  · intro later u hrun c' call' version' hc' hname
    obtain ⟨-, v, hv, -⟩ := Catalog.get_eq_ok_iff.1 hget
    have htaken := (ht.keeps_run hrun).lookup_isSome (Option.isSome_iff_exists.2 ⟨v, hv⟩)
    obtain ⟨-, hfresh', habove'⟩ := (ht.run hrun).committing hc'
    rw [hname] at hfresh' habove'
    refine ⟨?_, fun hnone => habove' hnone version htaken⟩
    rintro rfl
    rw [hfresh'] at htaken
    simp at htaken

/-- Versions under concurrency. A commit takes a new version, the highest one if it was not asked for, and
its record stays; `DuplicateVersionError` is exactly what the calls get that ask for a version that is there. -/
theorem version_allocation {labels : List (StoreLabel τ)} (hadmits : ∀ label ∈ labels, Admits label)
    (hrun : Run (Step runtime maxArtifactSize) init labels s) :
    (∀ c call version t, s.Committing c call version → Step runtime maxArtifactSize s (.commit c) t →
      Allocates runtime maxArtifactSize s t c call version) ∧
    (∀ c call version displayName, s.Answers c call (.error (.duplicateVersion version displayName)) →
      call.registration.version = some version ∧ displayName = strip call.registration.modelName ∧
        ∃ record, s.catalog.get runtime call.registration.modelName version = .ok record) ∧
    ∀ c call version, s.calls c = some call → Pending call.phase →
      call.registration.version = some version →
      (s.catalog.versions.lookup (runtime.normalizeName call.registration.modelName, version)).isSome →
      (∃ metadataJson, dumps true call.registration.metadata = .ok metadataJson) →
        (∀ later t, Run (Step runtime maxArtifactSize) s later t →
          (∀ label ∈ later, ∀ error, label ≠ .raise c error) →
          ∀ call' result, t.Answers c call' result →
            result = .error (.duplicateVersion version (strip call.registration.modelName))) ∧
        ∀ _ : τ, s.Unblocked call → ∃ later t call', Run (Step runtime maxArtifactSize) s later t ∧
          t.Answers c call' (.error (.duplicateVersion version (strip call.registration.modelName))) := by
  have hinv := AllocInv.init.run hrun
  refine ⟨fun c call version t hc hstep => hinv.allocates hc hstep, ?_, ?_⟩
  · intro c call version displayName hanswers
    have herror : ErrorInv runtime s.catalog call.registration (.duplicateVersion version displayName) := by
      obtain ⟨hcall, hphase | hphase⟩ := hanswers
      · exact hinv.phase_at hcall hphase
      · exact hinv.phase_at hcall hphase
    obtain ⟨hversion, hname, hrefused⟩ := herror version displayName rfl
    have hpositive := Positive.run (by rintro c call ⟨⟩) hrun hadmits c call hanswers.1 version hversion
    have htaken := hrefused.resolve_left (by omega)
    obtain ⟨v, hv⟩ := Option.isSome_iff_exists.1 htaken
    have hkey : v.key = (runtime.normalizeName call.registration.modelName, version) := Table.key_of_lookup hv
    obtain ⟨hvname, rfl⟩ := Prod.mk.inj hkey
    obtain ⟨record, hget, -⟩ :=
      hinv.catalog.exists_get runtime call.registration.modelName (Table.mem_of_lookup hv) hvname
    exact ⟨hversion, hname, record, hget⟩
  · intro c call version hcall hpending hversion htaken hmetadata
    have hlosing : LosingAt runtime c call.registration version s :=
      ⟨hinv, htaken, call, hcall, rfl, hpending.losing⟩
    refine ⟨fun later t hrun hraise call' result hanswers => ?_, fun now hfree => ?_⟩
    · obtain ⟨call₁, hcall₁, -, hphase⟩ := (hlosing.run hversion hmetadata hrun hraise).call
      obtain ⟨hcall', hresult⟩ := hanswers
      obtain rfl : call' = call₁ := Option.some.inj (hcall'.symm.trans hcall₁)
      rcases hresult with hresult | hresult
      · rwa [hresult] at hphase
      · rwa [hresult] at hphase
    · obtain ⟨later, t, call', hrun, hcall', hphase⟩ :=
        hlosing.exists_run maxArtifactSize hversion hmetadata now hcall hfree
      exact ⟨later, t, call', hrun, hcall', .inr hphase⟩

/-- Another file for version 1 of the model: the call is told that it is there. -/
theorem version_allocation_sample : ∃ (s : StoreSystem ℤ) (call : RegisterCall ℤ),
    s.calls 1 = some call ∧ call.phase = .staged sampleTwo ∧ s.catalog = sampleCatalog ∧
      ∃ later t call', Run (Step sampleRuntime 1024) s later t ∧
        t.Answers 1 call' (.error (.duplicateVersion 1 "model")) := by
  obtain ⟨s, hfirst, hcatalog, -, hcall, -, hwriter, hlock, -⟩ := sample_first
  rcases s with ⟨catalog, files, calls, writer, locks, registered, contested⟩
  simp only at hcatalog hcall hwriter hlock
  subst hcatalog hwriter
  have hstage : ∃ t : StoreSystem ℤ, Run (Step sampleRuntime 1024)
      ⟨sampleCatalog, files, calls, none, locks, registered, contested⟩
      [.start 1 0 (sampleRegistration "model"), .read 1 (.chunk sampleTwo), .read 1 (.chunk [])] t ∧
      t.calls 1 = some ⟨0, sampleRegistration "model", .staged sampleTwo⟩ ∧ t.catalog = sampleCatalog ∧
      t.locks 0 = none ∧ t.writer = none :=
    ⟨_, .cons (.start hcall) <| .cons (.read rfl rfl) <| .cons (.read rfl rfl) <| .nil _,
      rfl, rfl, hlock, rfl⟩
  obtain ⟨t, hstage, hcall, hcatalog, hlock, hwriter⟩ := hstage
  have hrun := (hfirst.mono fun _ _ _ h => h.1).append hstage
  refine ⟨t, _, hcall, rfl, hcatalog, ?_⟩
  have hadmits : ∀ label ∈ sampleFirst ++ [.start 1 0 (sampleRegistration "model"),
      .read 1 (.chunk sampleTwo), .read 1 (.chunk [])], Admits label := by
    have hvalid : ∃ modelName version description metadata,
        ModelService.validate modelName version description metadata = .ok (sampleRegistration "model") :=
      ⟨.str "model", some (.int 1), none, .dict [], rfl⟩
    simp [sampleFirst, Admits, hvalid]
  have hlate := (version_allocation hadmits hrun).2.2 1 _ 1 hcall trivial rfl (by rw [hcatalog]; rfl) ⟨_, rfl⟩
  exact hlate.2 4 ⟨hlock, hwriter⟩

end StoreSystem

end TextExtraction
