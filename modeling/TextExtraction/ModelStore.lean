import TextExtraction.Lib.Runs
import TextExtraction.ModelCatalog

/-!
# Registration

`ModelStore.register`, cut at its file operations, its statements and its locks: `RegisterPhase` is
where a call stands between two of them, and `StoreSystem.Step` interleaves any number of calls made
through any number of store instances on one database and one artifact directory. `writer` holds the
database lock of `BEGIN IMMEDIATE`, `locks` the `RLock` of each instance; a transaction works on the
catalog it found and replaces it when it commits.

`registered` and `contested` are records for the proofs, which no call reads: the bytes each version
was committed for, and the calls that found their artifact in place while another call was still to
remove it.
-/

namespace TextExtraction

open Python Relational

variable {τ : Type}

/-- The arguments of `register`, the stream aside. -/
structure Registration where
  modelName : String
  version : Option ℤ
  description : Option String
  metadata : Value

/-- What a transaction of `register` has read, and the catalog as it sees it. -/
structure RegisterTxn (τ : Type) where
  catalog : Catalog τ
  now : τ
  assignedVersion : ℤ
  artifactExists : Bool

/-- `BEGIN IMMEDIATE` up to the `SELECT` on `artifacts`. -/
def Registration.begin (runtime : Runtime) (r : Registration) (digest : String) (now : τ)
    (catalog : Catalog τ) : RegisterTxn τ :=
  let normalizedName := runtime.normalizeName r.modelName
  let catalog := catalog.insertModel ⟨normalizedName, strip r.modelName, r.description, now⟩
  { catalog, now
    assignedVersion := r.version.getD (catalog.nextVersion normalizedName)
    artifactExists := (catalog.artifacts.lookup digest).isSome }

/-- How the two `INSERT` statements after the file operations end. -/
inductive InsertResult (τ : Type)
  | inserted (catalog : Catalog τ)
  | integrityError
  | raised (error : Exc)

/-- The two `INSERT` statements. Encoding the metadata and binding the version come before the
constraints. -/
def Registration.insert (runtime : Runtime) (r : Registration) (digest : String) (size : ℕ)
    (txn : RegisterTxn τ) : InsertResult τ :=
  let catalog := txn.catalog.insertArtifact ⟨digest, digest, size⟩
  match dumps true r.metadata with
  | .error error => .raised error
  | .ok metadataJson =>
    if txn.assignedVersion < -2 ^ 63 ∨ 2 ^ 63 ≤ txn.assignedVersion then
      .raised (.raised .overflowError "Python int too large to convert to SQLite INTEGER")
    else
      match catalog.insertVersion
        { normalizedName := runtime.normalizeName r.modelName, version := txn.assignedVersion,
          status := .registered, artifactDigest := digest, metadataJson, createdAt := txn.now } with
      | some catalog => .inserted catalog
      | none => .integrityError

/-! ### Phases of a call -/

/-- Where a call stands: before the operation named in each case. -/
inductive RegisterPhase (τ : Type)
  /-- `artifact.read`, in the loop of `_stage_artifact`. -/
  | staging (written : Bytes)
  /-- Acquiring the instance's lock. -/
  | staged (temporary : Bytes)
  /-- `BEGIN IMMEDIATE`. -/
  | locked (temporary : Bytes)
  /-- `final_path.exists`. -/
  | begun (temporary : Bytes) (txn : RegisterTxn τ)
  /-- `temporary_path.unlink`. -/
  | found (temporary : Bytes) (txn : RegisterTxn τ)
  /-- `os.replace`. -/
  | missing (temporary : Bytes) (txn : RegisterTxn τ)
  /-- The `INSERT` statements. -/
  | inserting (content : Bytes) (txn : RegisterTxn τ) (placedNewArtifact : Bool)
  /-- `_commit_registration`. -/
  | committing (content : Bytes) (txn : RegisterTxn τ) (placedNewArtifact : Bool)
  /-- `final_path.unlink`, after the rollback. -/
  | compensating (content : Bytes) (error : ModelStoreError)
  /-- Leaving the `with` block. -/
  | leaving (result : Except ModelStoreError ℤ)
  /-- Nothing: the call is over. -/
  | returned (result : Except ModelStoreError ℤ)

/-- What one `artifact.read` gives: bytes, something else that is false or true, or an exception. -/
inductive ReadResult
  | chunk (bytes : Bytes)
  | falsy
  | notBytes
  | raises

/-- The end of `_stage_artifact`. -/
def finishStage (written : Bytes) : RegisterPhase τ :=
  if written.length = 0 then .returned (.error .required) else .staged written

/-- One round of the loop of `_stage_artifact`, which removes its file when it raises. -/
def stageRead (maxArtifactSize : ℕ) (written : Bytes) : ReadResult → RegisterPhase τ
  | .chunk [] => finishStage written
  | .chunk bytes =>
    if maxArtifactSize < written.length + bytes.length then
      .returned (.error (.tooLarge maxArtifactSize))
    else .staging (written ++ bytes)
  | .falsy => finishStage written
  | .notBytes => .returned (.error .notBinary)
  | .raises => .returned (.error .unreadable)

theorem stageRead_cases (maxArtifactSize : ℕ) (written : Bytes) (result : ReadResult) :
    (∃ written', stageRead (τ := τ) maxArtifactSize written result = .staging written') ∨
      stageRead (τ := τ) maxArtifactSize written result = .staged written ∨
      ∃ error, stageRead (τ := τ) maxArtifactSize written result = .returned (.error error) := by
  have hfinish : finishStage (τ := τ) written = .staged written ∨
      ∃ error, finishStage (τ := τ) written = .returned (.error error) := by
    unfold finishStage
    split
    · exact .inr ⟨_, rfl⟩
    · exact .inl rfl
  unfold stageRead
  split
  · exact .inr hfinish
  · split
    · exact .inr (.inr ⟨_, rfl⟩)
    · exact .inl ⟨_, rfl⟩
  · exact .inr hfinish
  · exact .inr (.inr ⟨_, rfl⟩)
  · exact .inr (.inr ⟨_, rfl⟩)

/-- After a rollback: `if placed_new_artifact and artifact_exists is None`. -/
def rolledBack (content : Bytes) (txn : RegisterTxn τ) (placedNewArtifact : Bool)
    (error : ModelStoreError) : RegisterPhase τ :=
  if placedNewArtifact && !txn.artifactExists then .compensating content error
  else .leaving (.error error)

structure RegisterCall (τ : Type) where
  store : ℕ
  registration : Registration
  phase : RegisterPhase τ

/-! ### The system -/

structure StoreSystem (τ : Type) where
  catalog : Catalog τ
  /-- The artifact directory: `artifact_path` names a file by its digest. -/
  files : String → Option Bytes
  calls : ℕ → Option (RegisterCall τ)
  writer : Option ℕ
  locks : ℕ → Option ℕ
  registered : String × ℤ → Option Bytes
  contested : ℕ → Prop

inductive StoreLabel (τ : Type)
  | start (c store : ℕ) (registration : Registration)
  | read (c : ℕ) (result : ReadResult)
  | acquire (c : ℕ)
  | begin (c : ℕ) (now : τ)
  | pathExists (c : ℕ)
  | discard (c : ℕ)
  | replace (c : ℕ)
  | insert (c : ℕ)
  | commit (c : ℕ)
  | commitFails (c : ℕ) (error : Exc)
  | compensate (c : ℕ)
  | leave (c : ℕ)
  | raise (c : ℕ) (error : Exc)
  | activate (normalizedName : String) (version : ℤ) (now : τ)

namespace StoreSystem

def init : StoreSystem τ :=
  { catalog := .empty
    files := fun _ => none
    calls := fun _ => none
    writer := none
    locks := fun _ => none
    registered := fun _ => none
    contested := fun _ => False }

/-- The call `c` has moved on to `phase`. -/
def goto (c : ℕ) (call : RegisterCall τ) (phase : RegisterPhase τ) (s : StoreSystem τ) : StoreSystem τ :=
  { s with calls := Function.update s.calls c (some { call with phase }) }

/-- The transaction of `c` is over, if it had one. -/
def release (c : ℕ) (s : StoreSystem τ) : StoreSystem τ :=
  { s with writer := if s.writer = some c then none else s.writer }

/-- The lock of the instance is free again, if `c` had it. -/
def unlock (c store : ℕ) (s : StoreSystem τ) : StoreSystem τ :=
  { s with
    locks := if s.locks store = some c then Function.update s.locks store none else s.locks }

def setFile (digest : String) (content : Option Bytes) (s : StoreSystem τ) : StoreSystem τ :=
  { s with files := Function.update s.files digest content }

/-- The transaction that wrote the version `key` for `content` is committed. -/
def commit (catalog : Catalog τ) (key : String × ℤ) (content : Bytes) (s : StoreSystem τ) :
    StoreSystem τ :=
  { s with catalog, registered := Function.update s.registered key (some content) }

/-- Whether `c` has found its artifact while another call was to remove it. -/
def contest (c : ℕ) (p : Prop) (s : StoreSystem τ) : StoreSystem τ :=
  { s with contested := Function.update s.contested c p }

/-- The call `c` has rolled back and is still to remove the file of `digest`. -/
def Removing (runtime : Runtime) (s : StoreSystem τ) (c : ℕ) (digest : String) : Prop :=
  ∃ call content error, s.calls c = some call ∧ call.phase = .compensating content error ∧
    runtime.sha256 content = digest

variable (runtime : Runtime) (maxArtifactSize : ℕ)

/-- What one step of any call can do. -/
inductive Step : StoreSystem τ → StoreLabel τ → StoreSystem τ → Prop
  | start {s c store registration} (hnew : s.calls c = none) :
      Step s (.start c store registration)
        { s with calls := Function.update s.calls c (some ⟨store, registration, .staging []⟩) }
  | read {s c call written result} (hcall : s.calls c = some call)
      (hphase : call.phase = .staging written) :
      Step s (.read c result) (s.goto c call (stageRead maxArtifactSize written result))
  | acquire {s c call temporary} (hcall : s.calls c = some call)
      (hphase : call.phase = .staged temporary) (hfree : s.locks call.store = none) :
      Step s (.acquire c)
        ({ s with locks := Function.update s.locks call.store (some c) }.goto c call (.locked temporary))
  | begin {s c call temporary now} (hcall : s.calls c = some call)
      (hphase : call.phase = .locked temporary) (hfree : s.writer = none) :
      Step s (.begin c now) ({ s with writer := some c }.goto c call (.begun temporary
        (call.registration.begin runtime (runtime.sha256 temporary) now s.catalog)))
  | found {s c call temporary txn} (hcall : s.calls c = some call)
      (hphase : call.phase = .begun temporary txn)
      (hfile : (s.files (runtime.sha256 temporary)).isSome = true) :
      Step s (.pathExists c)
        ((s.contest c (∃ c', c' ≠ c ∧ Removing runtime s c' (runtime.sha256 temporary))).goto c call
          (.found temporary txn))
  | missing {s c call temporary txn} (hcall : s.calls c = some call)
      (hphase : call.phase = .begun temporary txn)
      (hfile : s.files (runtime.sha256 temporary) = none) :
      Step s (.pathExists c)
        ((s.contest c False).goto c call (.missing temporary txn))
  | discard {s c call temporary txn} (hcall : s.calls c = some call)
      (hphase : call.phase = .found temporary txn) :
      Step s (.discard c) (s.goto c call (.inserting temporary txn false))
  | replace {s c call temporary txn} (hcall : s.calls c = some call)
      (hphase : call.phase = .missing temporary txn) :
      Step s (.replace c)
        ((s.setFile (runtime.sha256 temporary) (some temporary)).goto c call (.inserting temporary txn true))
  | inserted {s c call content txn placed catalog} (hcall : s.calls c = some call)
      (hphase : call.phase = .inserting content txn placed)
      (hinsert : call.registration.insert runtime (runtime.sha256 content) content.length txn =
        .inserted catalog) :
      Step s (.insert c) (s.goto c call (.committing content { txn with catalog } placed))
  | duplicate {s c call content txn placed} (hcall : s.calls c = some call)
      (hphase : call.phase = .inserting content txn placed)
      (hinsert : call.registration.insert runtime (runtime.sha256 content) content.length txn =
        .integrityError) :
      Step s (.insert c) ((s.release c).goto c call (rolledBack content txn placed
        (.duplicateVersion txn.assignedVersion (strip call.registration.modelName))))
  | refused {s c call content txn placed error} (hcall : s.calls c = some call)
      (hphase : call.phase = .inserting content txn placed)
      (hinsert : call.registration.insert runtime (runtime.sha256 content) content.length txn =
        .raised error) :
      Step s (.insert c) ((s.release c).goto c call (.leaving (.error (.raised error))))
  | commit {s c call content txn placed} (hcall : s.calls c = some call)
      (hphase : call.phase = .committing content txn placed) :
      Step s (.commit c)
        (((s.commit txn.catalog
            (runtime.normalizeName call.registration.modelName, txn.assignedVersion) content).release c).goto c
          call (.leaving (.ok txn.assignedVersion)))
  | commitFails {s c call content txn placed error} (hcall : s.calls c = some call)
      (hphase : call.phase = .committing content txn placed) :
      Step s (.commitFails c error)
        ((s.release c).goto c call (rolledBack content txn placed (.raised error)))
  | compensate {s c call content error} (hcall : s.calls c = some call)
      (hphase : call.phase = .compensating content error) :
      Step s (.compensate c)
        ((s.setFile (runtime.sha256 content) none).goto c call (.leaving (.error error)))
  | leave {s c call result} (hcall : s.calls c = some call) (hphase : call.phase = .leaving result) :
      Step s (.leave c) ((s.unlock c call.store).goto c call (.returned result))
  /-- Anything else that is raised, and the death of the process: the connection is closed and the lock
  given back. -/
  | raise {s c call error} (hcall : s.calls c = some call)
      (hlive : ∀ result, call.phase ≠ .returned result) :
      Step s (.raise c error)
        (((s.release c).unlock c call.store).goto c call (.returned (.error (.raised error))))
  | activate {s normalizedName version now catalog} (hfree : s.writer = none)
      (hactivate : s.catalog.activate normalizedName version now = some catalog) :
      Step s (.activate normalizedName version now) { s with catalog }

/-! ### Projections of the moves -/

section Moves
variable {s : StoreSystem τ} {c : ℕ} {call : RegisterCall τ} {phase : RegisterPhase τ}

@[simp] theorem goto_files : (s.goto c call phase).files = s.files := rfl
@[simp] theorem goto_calls : (s.goto c call phase).calls =
    Function.update s.calls c (some { call with phase }) := rfl
@[simp] theorem goto_contested : (s.goto c call phase).contested = s.contested := rfl

@[simp] theorem contest_contested {p : Prop} :
    (s.contest c p).contested = Function.update s.contested c p := rfl

@[simp] theorem setFile_files {digest : String} {content : Option Bytes} :
    (s.setFile digest content).files = Function.update s.files digest content := rfl

/-- Only the call that held the database lock gives it back. -/
theorem release_writer {c' : ℕ} (hne : c' ≠ c) (h : s.writer = some c') :
    (s.release c).writer = some c' := by
  unfold release
  rw [h, if_neg]
  simpa using hne

end Moves

end StoreSystem

end TextExtraction
