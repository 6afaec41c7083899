import Mathlib.Data.PNat.Basic
import TextExtraction.TaskService

/-!
# Settings

`settings.py`: what `from_environment` reads, checks and builds. `Settings` carries what it has checked;
the two paths are left out, which nothing here reads. `fromEnvironment_eq_ok_iff` says which environments
it accepts.
-/

namespace TextExtraction

open Python

/-- `os.getenv`, and what `int` and `float` make of the texts. -/
structure Environment where
  getenv : String → Option String
  int : String → Except Exc ℤ
  float : String → Except Exc PyFloat

def defaultMaxArtifactSize : ℕ := 50 * 1024 * 1024
def defaultMaxExtractionTexts : ℕ := 10
def defaultMaxExtractionCharacters : ℕ := 100000
def defaultAsyncExtractionMaxTexts : ℕ := 100
def defaultAsyncExtractionMaxCharacters : ℕ := 1000000
def defaultTaskRetentionSeconds : ℕ := 86400
def defaultTaskTombstoneSeconds : ℕ := 604800
def defaultTaskLeaseSeconds : ℕ := 300
def defaultTaskPollSeconds : String := "0.25"

/-- `value > 0 and math.isfinite(value)`. -/
def isPositive : PyFloat → Bool
  | .finite repr => 0 < double repr
  | _ => false

structure Settings where
  maxArtifactSize : ℕ+
  maxExtractionTexts : ℕ+
  maxExtractionCharacters : ℕ+
  asyncExtractionMaxTexts : ℕ+
  asyncExtractionMaxCharacters : ℕ+
  taskRetentionSeconds : ℕ+
  taskTombstoneSeconds : ℕ+
  taskLeaseSeconds : ℕ+
  taskPollSeconds : {value : PyFloat // isPositive value = true}

namespace Settings

/-- `raise ValueError(f"{name} must be positive")`. -/
def mustBePositive (name : String) : Exc := valueError s!"{name} must be positive"

/-- `value < 1`. -/
def checkInt (name : String) (value : ℤ) : Except Exc ℕ+ :=
  if h : value < 1 then .error (mustBePositive name) else .ok (value.toNat.toPNat (by omega))

/-- The least integer that `math.isfinite` cannot convert. -/
def floatLimit : ℤ := 2 ^ 1024 - 2 ^ 970

/-- `value <= 0 or not math.isfinite(value)`, on an integer. -/
def checkFiniteInt (name : String) (value : ℤ) : Except Exc ℕ+ :=
  if h : value ≤ 0 then .error (mustBePositive name)
  else if value < floatLimit then .ok (value.toNat.toPNat (by omega))
  else .error (.raised .overflowError "int too large to convert to float")

/-- `value <= 0 or not math.isfinite(value)`, on a float. -/
def checkFloat (name : String) (value : PyFloat) : Except Exc {value : PyFloat // isPositive value = true} :=
  if h : isPositive value = true then .ok ⟨value, h⟩ else .error (mustBePositive name)

/-- `int(os.getenv(name, str(default)))`. -/
def readInt (env : Environment) (name : String) (default : ℕ) : Except Exc ℤ :=
  env.int ((env.getenv name).getD (toString default))

def fromEnvironment (env : Environment) : Except Exc Settings := do
  let maxSize ← readInt env "MODEL_STORE_MAX_ARTIFACT_SIZE" defaultMaxArtifactSize
  let maxTexts ← readInt env "EXTRACTION_MAX_TEXTS" defaultMaxExtractionTexts
  let maxCharacters ← readInt env "EXTRACTION_MAX_CHARACTERS" defaultMaxExtractionCharacters
  let asyncMaxTexts ← readInt env "ASYNC_EXTRACTION_MAX_TEXTS" defaultAsyncExtractionMaxTexts
  let asyncMaxCharacters ← readInt env "ASYNC_EXTRACTION_MAX_CHARACTERS" defaultAsyncExtractionMaxCharacters
  let retentionSeconds ← readInt env "EXTRACTION_TASK_RETENTION_SECONDS" defaultTaskRetentionSeconds
  let tombstoneSeconds ← readInt env "EXTRACTION_TASK_TOMBSTONE_SECONDS" defaultTaskTombstoneSeconds
  let leaseSeconds ← readInt env "EXTRACTION_TASK_LEASE_SECONDS" defaultTaskLeaseSeconds
  let pollSeconds ← env.float ((env.getenv "EXTRACTION_TASK_POLL_SECONDS").getD defaultTaskPollSeconds)
  let maxArtifactSize ← checkInt "MODEL_STORE_MAX_ARTIFACT_SIZE" maxSize
  let maxExtractionTexts ← checkInt "EXTRACTION_MAX_TEXTS" maxTexts
  let maxExtractionCharacters ← checkInt "EXTRACTION_MAX_CHARACTERS" maxCharacters
  let asyncExtractionMaxTexts ← checkFiniteInt "ASYNC_EXTRACTION_MAX_TEXTS" asyncMaxTexts
  let asyncExtractionMaxCharacters ← checkFiniteInt "ASYNC_EXTRACTION_MAX_CHARACTERS" asyncMaxCharacters
  let taskRetentionSeconds ← checkFiniteInt "EXTRACTION_TASK_RETENTION_SECONDS" retentionSeconds
  let taskTombstoneSeconds ← checkFiniteInt "EXTRACTION_TASK_TOMBSTONE_SECONDS" tombstoneSeconds
  let taskLeaseSeconds ← checkFiniteInt "EXTRACTION_TASK_LEASE_SECONDS" leaseSeconds
  let taskPollSeconds ← checkFloat "EXTRACTION_TASK_POLL_SECONDS" pollSeconds
  return ⟨maxArtifactSize, maxExtractionTexts, maxExtractionCharacters, asyncExtractionMaxTexts,
    asyncExtractionMaxCharacters, taskRetentionSeconds, taskTombstoneSeconds, taskLeaseSeconds, taskPollSeconds⟩

/-! ### What is accepted -/

theorem checkInt_eq_ok_iff {name : String} {value : ℤ} {n : ℕ+} :
    checkInt name value = .ok n ↔ value = n := by
  have hpos := n.pos
  unfold checkInt
  split
  · refine iff_of_false (by rintro ⟨⟩) ?_
    omega
  · rw [Except.ok.injEq, ← PNat.coe_inj, Nat.toPNat, PNat.mk_coe]
    omega

theorem checkFiniteInt_eq_ok_iff {name : String} {value : ℤ} {n : ℕ+} :
    checkFiniteInt name value = .ok n ↔ value = n ∧ value < floatLimit := by
  have hpos := n.pos
  unfold checkFiniteInt
  split
  · refine iff_of_false (by rintro ⟨⟩) ?_
    omega
  · split
    · rw [Except.ok.injEq, ← PNat.coe_inj, Nat.toPNat, PNat.mk_coe]
      omega
    · refine iff_of_false (by rintro ⟨⟩) ?_
      omega

theorem checkFloat_eq_ok_iff {name : String} {value : PyFloat}
    {f : {value : PyFloat // isPositive value = true}} : checkFloat name value = .ok f ↔ value = f := by
  unfold checkFloat
  split
  · rw [Except.ok.injEq, Subtype.ext_iff]
  · rename_i h
    refine iff_of_false (by rintro ⟨⟩) ?_
    rintro rfl
    exact h f.2

/-- The environment spells these settings. -/
structure Spells (env : Environment) (s : Settings) : Prop where
  maxArtifactSize : readInt env "MODEL_STORE_MAX_ARTIFACT_SIZE" defaultMaxArtifactSize = .ok s.maxArtifactSize
  maxExtractionTexts : readInt env "EXTRACTION_MAX_TEXTS" defaultMaxExtractionTexts = .ok s.maxExtractionTexts
  maxExtractionCharacters :
    readInt env "EXTRACTION_MAX_CHARACTERS" defaultMaxExtractionCharacters = .ok s.maxExtractionCharacters
  asyncExtractionMaxTexts :
    readInt env "ASYNC_EXTRACTION_MAX_TEXTS" defaultAsyncExtractionMaxTexts = .ok s.asyncExtractionMaxTexts
  asyncExtractionMaxCharacters : readInt env "ASYNC_EXTRACTION_MAX_CHARACTERS"
    defaultAsyncExtractionMaxCharacters = .ok s.asyncExtractionMaxCharacters
  taskRetentionSeconds :
    readInt env "EXTRACTION_TASK_RETENTION_SECONDS" defaultTaskRetentionSeconds = .ok s.taskRetentionSeconds
  taskTombstoneSeconds :
    readInt env "EXTRACTION_TASK_TOMBSTONE_SECONDS" defaultTaskTombstoneSeconds = .ok s.taskTombstoneSeconds
  taskLeaseSeconds : readInt env "EXTRACTION_TASK_LEASE_SECONDS" defaultTaskLeaseSeconds = .ok s.taskLeaseSeconds
  taskPollSeconds : env.float ((env.getenv "EXTRACTION_TASK_POLL_SECONDS").getD defaultTaskPollSeconds) =
    .ok s.taskPollSeconds
  finite : ∀ n ∈ [s.asyncExtractionMaxTexts, s.asyncExtractionMaxCharacters, s.taskRetentionSeconds,
    s.taskTombstoneSeconds, s.taskLeaseSeconds], (n : ℤ) < floatLimit

/-- Settings are built from exactly the environments that spell them. -/
theorem fromEnvironment_eq_ok_iff {env : Environment} {s : Settings} :
    fromEnvironment env = .ok s ↔ Spells env s := by
  simp only [fromEnvironment, bind_eq_ok_iff, checkInt_eq_ok_iff, checkFiniteInt_eq_ok_iff,
    checkFloat_eq_ok_iff]
  constructor
  · rintro ⟨_, h₁, _, h₂, _, h₃, _, h₄, _, h₅, _, h₆, _, h₇, _, h₈, _, h₉, _, rfl, _, rfl, _, rfl,
      n₄, ⟨rfl, hn₄⟩, n₅, ⟨rfl, hn₅⟩, n₆, ⟨rfl, hn₆⟩, n₇, ⟨rfl, hn₇⟩, n₈, ⟨rfl, hn₈⟩, _, rfl, hs⟩
    cases hs
    refine ⟨h₁, h₂, h₃, h₄, h₅, h₆, h₇, h₈, h₉, ?_⟩
    simp only [List.mem_cons, List.not_mem_nil, or_false]
    rintro n (rfl | rfl | rfl | rfl | rfl) <;> assumption
  · intro h
    have hfinite := h.finite
    simp only [List.mem_cons, List.not_mem_nil, or_false, forall_eq_or_imp, forall_eq] at hfinite
    obtain ⟨hn₄, hn₅, hn₆, hn₇, hn₈⟩ := hfinite
    exact ⟨_, h.maxArtifactSize, _, h.maxExtractionTexts, _, h.maxExtractionCharacters, _,
      h.asyncExtractionMaxTexts, _, h.asyncExtractionMaxCharacters, _, h.taskRetentionSeconds, _,
      h.taskTombstoneSeconds, _, h.taskLeaseSeconds, _, h.taskPollSeconds, _, rfl, _, rfl, _, rfl,
      _, ⟨rfl, hn₄⟩, _, ⟨rfl, hn₅⟩, _, ⟨rfl, hn₆⟩, _, ⟨rfl, hn₇⟩, _, ⟨rfl, hn₈⟩, _, rfl, rfl⟩

end Settings

end TextExtraction
