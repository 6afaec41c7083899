import TextExtraction.ModelVersions
import TextExtraction.TaskAnswers

/-!
# The answers of `register` and `activate`

Like `create_task`, both read their answer back through `get` after their transaction, over a second
connection. In between only the status of a version can change, and only through an activation of its
model: `register` answers with what it has committed unless the last activation in between is of its own
version, `activate` unless the last one is of another version.
-/

namespace TextExtraction

open Python Relational Transition

variable {τ : Type} {runtime : Runtime} {maxArtifactSize : ℕ}

namespace StoreSystem

variable {s t u : StoreSystem τ} {c : ℕ} {call : RegisterCall τ} {version : ℤ} {gap : List (StoreLabel τ)}

/-- The record read back is the one committed when its status has not changed. -/
theorem AllocInv.get_eq_iff (h : AllocInv runtime t) (hrun : Run (Step runtime maxArtifactSize) t gap u)
    {modelName : String} {record : ModelVersion τ} (hget : t.catalog.get runtime modelName version = .ok record) :
    u.catalog.get runtime modelName version = .ok record ↔
      ((lastActivation (runtime.normalizeName modelName) gap).or
        (t.catalog.lastActivated (runtime.normalizeName modelName)) = some version ↔ record.status = .active) := by
  obtain ⟨status, hget', hstatus⟩ := h.get_run hrun hget
  rw [hget', ← hstatus, Except.ok.injEq]
  rcases record with ⟨modelName, number, status', digest, size, description, metadata, createdAt⟩
  rcases status <;> rcases status' <;> simp

/-- `register` answers as registered unless its version has been activated last. -/
theorem AllocInv.register_answer (h : AllocInv runtime s) (hc : s.Committing c call version)
    (hcommit : Step runtime maxArtifactSize s (.commit c) t) (hrun : Run (Step runtime maxArtifactSize) t gap u) :
    ∃ record, t.catalog.get runtime call.registration.modelName version = .ok record ∧
      record.version = version ∧ record.status = .registered ∧
      (u.catalog.get runtime (strip call.registration.modelName) version = .ok record ↔
        lastActivation (runtime.normalizeName call.registration.modelName) gap ≠ some version) := by
  obtain ⟨-, record, hget, hversion, hstatus⟩ := h.committed hc hcommit
  have ht := h.step hcommit
  refine ⟨record, hget, hversion, hstatus, ?_⟩
  have hlast := (ht.catalog.get_status hget).2
  rw [Catalog.get_strip, ht.get_eq_iff hrun hget]
  rw [hstatus] at hlast ⊢
  rcases lastActivation (runtime.normalizeName call.registration.modelName) gap with - | last
  · simp [← hlast]
  · simp

/-- `activate` answers as active unless another version has been activated last. -/
theorem AllocInv.activate_answer (h : AllocInv runtime s) {modelName : String} {now : τ}
    (hactivate : Step runtime maxArtifactSize s (.activate (runtime.normalizeName modelName) version now) t)
    (hrun : Run (Step runtime maxArtifactSize) t gap u) :
    ∃ record, t.catalog.get runtime modelName version = .ok record ∧
      record.version = version ∧ record.status = .active ∧
      (u.catalog.get runtime modelName version = .ok record ↔
        ∀ last, lastActivation (runtime.normalizeName modelName) gap = some last → last = version) := by
  have ht := h.step hactivate
  have hlast : t.catalog.lastActivated (runtime.normalizeName modelName) = some version := by
    have hstep := h.lastActivated_step hactivate (runtime.normalizeName modelName) []
    simpa [lastActivation] using hstep
  cases hactivate with
  | @activate name number now catalog hfree hactivate =>
    have hpresent := (Catalog.activate_spec hactivate).keeps.lookup_isSome
      (Catalog.activate_spec hactivate).present
    obtain ⟨v, hv⟩ := Option.isSome_iff_exists.1 hpresent
    have hkey : v.key = (runtime.normalizeName modelName, version) := Table.key_of_lookup hv
    obtain ⟨hname, hversion⟩ := Prod.mk.inj hkey
    obtain ⟨record, hget, -⟩ := ht.catalog.exists_get runtime modelName (Table.mem_of_lookup hv) hname
    rw [hversion] at hget
    obtain ⟨hnumber, hstatus⟩ := ht.catalog.get_status hget
    have hactive := hstatus.2 hlast
    refine ⟨record, hget, hnumber, hactive, ?_⟩
    rw [ht.get_eq_iff hrun hget, hlast, hactive]
    rcases lastActivation (runtime.normalizeName modelName) gap with - | last
    · simp
    · simp

end StoreSystem

open StoreSystem

/-! ### Two versions of a model -/

/-- The catalog of the runs above with a second version. -/
def sampleBoth : Catalog ℤ where
  models := sampleCatalog.models
  artifacts := ⟨[⟨digestOne, digestOne, 3⟩, ⟨digestTwo, digestTwo, 3⟩], by decide⟩
  versions := ⟨[⟨"model", 1, .registered, digestOne, .obj [], 1⟩, ⟨"model", 2, .registered, digestTwo, .obj [], 2⟩],
    by decide⟩
  activations := []

def sampleAutomatic : Registration := { sampleRegistration "model" with version := none }

theorem sample_automatic : sampleAutomatic.insert sampleRuntime (sampleRuntime.sha256 sampleTwo) sampleTwo.length
    (sampleAutomatic.begin sampleRuntime (sampleRuntime.sha256 sampleTwo) 2 sampleCatalog) =
      .inserted sampleBoth := rfl

def sampleNext : List (StoreLabel ℤ) :=
  [.start 1 0 sampleAutomatic, .read 1 (.chunk sampleTwo), .read 1 (.chunk []), .acquire 1, .begin 1 2,
    .pathExists 1, .replace 1, .insert 1]

/-- A call that is about to commit version 2 of the model. -/
theorem sample_next : ∃ (labels : List (StoreLabel ℤ)) (s t : StoreSystem ℤ) (call : RegisterCall ℤ),
    Run (Step sampleRuntime 1024) init labels s ∧ s.Committing 1 call 2 ∧
      Step sampleRuntime 1024 s (.commit 1) t ∧ t.catalog = sampleBoth ∧ t.writer = none ∧
      call.registration.modelName = "model" := by
  obtain ⟨s, hfirst, hcatalog, hfiles, hcall, -, hwriter, hlock, -⟩ := sample_first
  rcases s with ⟨catalog, files, calls, writer, locks, registered, contested⟩
  simp only at hcatalog hfiles hcall hwriter hlock
  subst hcatalog hfiles hwriter
  have hnext : ∃ (t u : StoreSystem ℤ) (call : RegisterCall ℤ), Run (Step sampleRuntime 1024)
      ⟨sampleCatalog, Function.update (fun _ => none) digestOne (some sampleOne), calls, none, locks,
        registered, contested⟩ sampleNext t ∧ t.Committing 1 call 2 ∧
        Step sampleRuntime 1024 t (.commit 1) u ∧ u.catalog = sampleBoth ∧ u.writer = none ∧
        call.registration.modelName = "model" :=
    ⟨_, _, _, .cons (.start hcall) <| .cons (.read rfl rfl) <| .cons (.read rfl rfl) <|
      .cons (.acquire rfl rfl hlock) <| .cons (.begin rfl rfl rfl) <| .cons (.missing rfl rfl rfl) <|
      .cons (.replace rfl rfl) <| .cons (.inserted rfl rfl sample_automatic) <| .nil _,
      ⟨rfl, _, _, _, rfl, rfl⟩, .commit rfl rfl, rfl, rfl, rfl⟩
  obtain ⟨t, u, call, hnext, hrest⟩ := hnext
  exact ⟨_, t, u, call, (hfirst.mono fun _ _ _ h => h.1).append hnext, hrest⟩

/-! ### The law -/

/-- `create_task`, `register` and `activate` answer with the state their own transaction has committed
exactly when nothing else that reaches it is committed before they read it back. -/
theorem mutators_answer_iff [LinearOrder τ] [VAdd ℤ τ] (runtime : Runtime) (maxArtifactSize : ℕ) :
    (∀ (before gap : List (Call τ)) (taskId ownerId : String) (criteria model : List (Key × Value))
      (items : List (String × String)) (createdAt expiresAt : τ),
      (insertTask taskId ownerId criteria model items createdAt expiresAt (Db.run before)).1 = .ok () →
      (∀ c ∈ gap, c.created ≠ some taskId) →
        (createTaskAcross taskId ownerId criteria model items createdAt expiresAt gap (Db.run before) =
            .ok (acceptedRecord taskId ownerId items.length createdAt expiresAt) ↔
          Undisturbed taskId expiresAt gap
            (insertTask taskId ownerId criteria model items createdAt expiresAt (Db.run before)).2)) ∧
    ∀ (labels gap : List (StoreLabel τ)) (s t u : StoreSystem τ),
      Run (Step runtime maxArtifactSize) init labels s → Run (Step runtime maxArtifactSize) t gap u →
      (∀ c call version, s.Committing c call version → Step runtime maxArtifactSize s (.commit c) t →
        ∃ record, t.catalog.get runtime call.registration.modelName version = .ok record ∧
          record.version = version ∧ record.status = .registered ∧
          (u.catalog.get runtime (strip call.registration.modelName) version = .ok record ↔
            lastActivation (runtime.normalizeName call.registration.modelName) gap ≠ some version)) ∧
      ∀ modelName version now,
        Step runtime maxArtifactSize s (.activate (runtime.normalizeName modelName) version now) t →
        ∃ record, t.catalog.get runtime modelName version = .ok record ∧
          record.version = version ∧ record.status = .active ∧
          (u.catalog.get runtime modelName version = .ok record ↔
            ∀ last, lastActivation (runtime.normalizeName modelName) gap = some last → last = version) := by
  refine ⟨fun before gap taskId ownerId criteria model items createdAt expiresAt hcommit hids => ?_, ?_⟩
  · exact createTaskAcross_eq_iff before gap taskId ownerId criteria model items createdAt expiresAt hcommit hids
  · intro labels gap s t u hs hgap
    have hinv := AllocInv.init.run hs
    refine ⟨fun c call version hc hcommit => ?_, fun modelName version now hactivate => ?_⟩
    · exact hinv.register_answer hc hcommit hgap
    · exact hinv.activate_answer hactivate hgap

/-- In between another worker claims an older task, and another process maintains before the expiry; and
the other version of the model is activated. None of that touches the answers. -/
theorem mutators_answer_sample :
    createTaskAcross "t" "o" [] [] [("a", "x")] (1 : ℤ) 11 [.claimTask "w" 2 60, .maintainRetention 9 0]
        (Db.run [.createTask "s" "p" [] [] [("b", "y")] 0 10]) = .ok (acceptedRecord "t" "o" 1 1 11) ∧
      ∃ (s t u : StoreSystem ℤ) (record : ModelVersion ℤ), Step sampleRuntime 1024 s (.commit 1) t ∧
        Step sampleRuntime 1024 t (.activate "model" 1 5) u ∧
        u.catalog.get sampleRuntime "model" 2 = .ok record ∧ record.status = .registered := by
  obtain ⟨hcreate, hregister⟩ := mutators_answer_iff (τ := ℤ) sampleRuntime 1024
  constructor
  · refine (hcreate _ [.claimTask "w" 2 60, .maintainRetention 9 0] "t" "o" [] [] [("a", "x")] 1 11 rfl ?_).2
      ⟨?_, ?_, trivial⟩
    · simp [Call.created]
    · show ¬ (_ = some "t")
      decide
    · show ¬ (11 : ℤ) ≤ 9
      decide
  · obtain ⟨labels, s, t, call, hs, hc, hcommit, hcatalog, hwriter, hname⟩ := sample_next
    rcases t with ⟨catalog, files, calls, writer, locks, registered, contested⟩
    simp only at hcatalog hwriter
    subst hcatalog hwriter
    have hactivate : ∃ u, Step sampleRuntime 1024 ⟨sampleBoth, files, calls, none, locks, registered, contested⟩
        (.activate "model" 1 5) u := ⟨_, .activate rfl rfl⟩
    obtain ⟨u, hu⟩ := hactivate
    obtain ⟨record, -, -, hstatus, hiff⟩ :=
      (hregister labels [.activate "model" 1 5] s _ u hs (.single hu)).1 1 call 2 hc hcommit
    rw [hname] at hiff
    exact ⟨s, _, u, record, hcommit, hu, hiff.2 (by decide), hstatus⟩

/-! ### Answers about the transactions of others -/

/-- Each of the three has answered about the transaction of another connection: `create_task` has raised
after its commit, or found the task processing; version 2 was answered as active by its `register`, and
version 1 as registered by its `activate`. -/
theorem mutators_misreport :
    createTaskAcross "t" "o" [] [] [("a", "x")] (0 : ℤ) 10 [.maintainRetention 10 0] (Db.run []) =
        .error (.raised .runtimeError "Accepted task could not be reloaded") ∧
    (∃ task, createTaskAcross "t" "o" [] [] [("a", "x")] (0 : ℤ) 10 [.claimTask "w" 1 60] (Db.run []) =
        .ok task ∧ task.status = .processing) ∧
    ∃ (labels : List (StoreLabel ℤ)) (s t u v : StoreSystem ℤ) (call : RegisterCall ℤ),
      Run (Step sampleRuntime 1024) init labels s ∧ s.Committing 1 call 2 ∧
        call.registration.modelName = "model" ∧ Step sampleRuntime 1024 s (.commit 1) t ∧
        Step sampleRuntime 1024 t (.activate "model" 1 5) u ∧
        Step sampleRuntime 1024 u (.activate "model" 2 6) v ∧
        (∃ record, v.catalog.get sampleRuntime "model" 2 = .ok record ∧ record.status = .active) ∧
        ∃ record, v.catalog.get sampleRuntime "model" 1 = .ok record ∧ record.status = .registered := by
  refine ⟨rfl, ⟨_, rfl, rfl⟩, ?_⟩
  obtain ⟨labels, s, t, call, hs, hc, hcommit, hcatalog, hwriter, hname⟩ := sample_next
  rcases t with ⟨catalog, files, calls, writer, locks, registered, contested⟩
  simp only at hcatalog hwriter
  subst hcatalog hwriter
  exact ⟨labels, s, _, _, _, call, hs, hc, hname, hcommit, .activate rfl rfl, .activate rfl rfl, ⟨_, rfl, rfl⟩,
    ⟨_, rfl, rfl⟩⟩

end TextExtraction
