import TextExtraction.Requests

/-!
# The model catalog

The tables of `model_store.py` and the statements `register` and `activate` run on them, as functions
of the catalog a transaction sees. `hashlib.sha256` and `str.casefold` are parameters (`Runtime`).
Timestamps are opaque here.
-/

namespace TextExtraction

open Python Relational

abbrev Bytes := List UInt8

/-- `hashlib.sha256(…).hexdigest()` and `str.casefold`. -/
structure Runtime where
  sha256 : Bytes → String
  casefold : String → String

/-- `normalize_name`. -/
def Runtime.normalizeName (runtime : Runtime) (modelName : String) : String :=
  runtime.casefold (strip modelName)

inductive LifecycleStatus
  | registered | active
deriving DecidableEq, Repr

/-! ### Rows -/

/-- A row of `models`. -/
structure ModelRow (τ : Type) where
  normalizedName : String
  name : String
  description : Option String
  createdAt : τ

/-- A row of `artifacts`. -/
structure ArtifactRow where
  digest : String
  storageKey : String
  size : ℕ

/-- A row of `model_versions`. -/
structure ModelVersionRow (τ : Type) where
  normalizedName : String
  version : ℤ
  status : LifecycleStatus
  artifactDigest : String
  metadataJson : Json
  createdAt : τ

/-- A row of `activation_records`. -/
structure ActivationRow (τ : Type) where
  id : ℕ
  normalizedName : String
  version : ℤ
  activatedAt : τ

variable {τ : Type}

/-- `PRIMARY KEY (normalized_name, version)`. -/
def ModelVersionRow.key (v : ModelVersionRow τ) : String × ℤ := (v.normalizedName, v.version)

structure Catalog (τ : Type) where
  models : Table (ModelRow.normalizedName (τ := τ))
  artifacts : Table ArtifactRow.digest
  versions : Table (ModelVersionRow.key (τ := τ))
  activations : List (ActivationRow τ)

namespace Catalog

def empty : Catalog τ := ⟨∅, ∅, ∅, []⟩

/-! ### The statements of `register` -/

/-- `INSERT OR IGNORE INTO models`. -/
def insertModel (row : ModelRow τ) (c : Catalog τ) : Catalog τ :=
  { c with models := (c.models.insert? row).getD c.models }

/-- `SELECT COALESCE(MAX(version), 0) + 1`. -/
def nextVersion (normalizedName : String) (c : Catalog τ) : ℤ :=
  (((c.versions.select fun v => v.normalizedName = normalizedName).map ModelVersionRow.version).max?).getD 0
    + 1

/-- `INSERT OR IGNORE INTO artifacts`: ignored on a taken digest or storage key and on an empty
artifact. -/
def insertArtifact (row : ArtifactRow) (c : Catalog τ) : Catalog τ :=
  if row.size = 0 ∨ c.artifacts.rows.any fun a => a.storageKey = row.storageKey then c
  else { c with artifacts := (c.artifacts.insert? row).getD c.artifacts }

/-- `INSERT INTO model_versions`; `none` is `IntegrityError`: a version that is not positive or taken,
or a missing parent row. -/
def insertVersion (row : ModelVersionRow τ) (c : Catalog τ) : Option (Catalog τ) :=
  if row.version ≤ 0 ∨ (c.models.lookup row.normalizedName).isNone ∨
      (c.artifacts.lookup row.artifactDigest).isNone then none
  else (c.versions.insert? row).map fun versions => { c with versions }

/-- The transaction of `activate`; `none` when the version is not there. -/
def activate (normalizedName : String) (version : ℤ) (now : τ) (c : Catalog τ) : Option (Catalog τ) :=
  match c.versions.lookup (normalizedName, version) with
  | none => none
  | some _ =>
    let versions := c.versions.updateWhere
      (fun v => v.normalizedName = normalizedName ∧ v.status = .active)
      (fun v => { v with status := .registered }) fun _ => rfl
    let versions := versions.updateWhere
      (fun v => v.normalizedName = normalizedName ∧ v.version = version)
      (fun v => { v with status := .active }) fun _ => rfl
    some { c with
      versions
      activations := c.activations ++ [⟨c.activations.length + 1, normalizedName, version, now⟩] }

/-! ### What the statements keep -/

variable {c c' : Catalog τ}

theorem lookup_insertArtifact {row : ArtifactRow} {digest : String}
    (h : (c.artifacts.lookup digest).isSome) : ((c.insertArtifact row).artifacts.lookup digest).isSome := by
  unfold insertArtifact
  split
  · exact h
  · show (((c.artifacts.insert? row).getD c.artifacts).lookup digest).isSome
    rcases hins : c.artifacts.insert? row with - | artifacts
    · exact h
    · rw [Option.getD_some, Table.lookup_of_insert? hins]
      split
      · rfl
      · exact h

theorem versions_insertArtifact (row : ArtifactRow) : (c.insertArtifact row).versions = c.versions := by
  unfold insertArtifact
  split <;> rfl

/-- `insertVersion` adds one row, for an artifact that is there, and nothing else. -/
theorem of_insertVersion {row : ModelVersionRow τ} (h : c.insertVersion row = some c') :
    c'.versions.rows = c.versions.rows ++ [row] ∧ c'.artifacts = c.artifacts ∧
      (c.artifacts.lookup row.artifactDigest).isSome := by
  unfold insertVersion at h
  split at h
  · simp at h
  · rename_i hok
    obtain ⟨versions, hins, rfl⟩ := Option.map_eq_some_iff.1 h
    refine ⟨Table.rows_of_insert? hins, rfl, ?_⟩
    by_contra hnone
    exact hok (.inr (.inr (by simpa using hnone)))

/-- `activate` changes no artifact, and no version's key or digest. -/
theorem of_activate {normalizedName : String} {version : ℤ} {now : τ}
    (h : c.activate normalizedName version now = some c') :
    c'.artifacts = c.artifacts ∧ ∀ v' ∈ c'.versions.rows, ∃ v ∈ c.versions.rows,
      v.key = v'.key ∧ v.artifactDigest = v'.artifactDigest := by
  unfold activate at h
  split at h
  · simp at h
  · cases h
    refine ⟨rfl, fun v' hv' => ?_⟩
    obtain ⟨v₁, hv₁, h₁⟩ := Table.of_mem_updateWhere (by intro; rfl) hv'
    obtain ⟨v, hv, h⟩ := Table.of_mem_updateWhere (by intro; rfl) hv₁
    refine ⟨v, hv, ?_⟩
    rcases h with rfl | rfl <;> rcases h₁ with rfl | rfl <;> exact ⟨rfl, rfl⟩

end Catalog

/-! ### Errors -/

/-- What the store raises. -/
inductive ModelStoreError
  | unreadable
  | notBinary
  | required
  | tooLarge (limit : ℕ)
  | duplicateVersion (version : ℤ) (displayName : String)
  | raised (error : Exc)

def ModelStoreError.str : ModelStoreError → Except Exc String
  | unreadable => .ok "Artifact could not be read completely"
  | notBinary => .ok "Artifact content must be binary"
  | required => .ok "Model artifact content is required"
  | tooLarge limit => .ok s!"Artifact exceeds the configured limit of {limit} bytes"
  | duplicateVersion version displayName =>
    .ok s!"Version {version} already exists for model '{displayName}'"
  | raised error => error.str

end TextExtraction
