import TextExtraction.ModelStore

/-!
# Committed versions and their artifacts

`register` decides inside its transaction whether the artifact file is there, and a call that rolls
back removes the file it placed after the transaction is over. A second call can find the file in
between, commit a version that counts on it, and lose it. That is the only way to lose one: in a run
where no call commits that found its artifact while another call was still to remove it, every
committed version keeps its bytes.

The invariant says what each phase of a call may count on. A call that holds the database lock and is
not contested has its file `Secure`: it is there, and no call is about to remove it. A call about to
remove a file is `Doomed` to: it is the only one, and no committed version has that digest.
-/

namespace TextExtraction

open Relational Transition

variable {τ : Type} {runtime : Runtime} {maxArtifactSize : ℕ}

/-! ### Transactions -/

/-- The transaction has written no version yet. -/
structure RegisterTxn.Before (catalog : Catalog τ) (digest : String) (txn : RegisterTxn τ) : Prop where
  versions : txn.catalog.versions = catalog.versions
  artifacts : txn.catalog.artifacts = catalog.artifacts
  artifactExists : txn.artifactExists = (catalog.artifacts.lookup digest).isSome

/-- The transaction has written its version. -/
structure RegisterTxn.After (catalog : Catalog τ) (digest : String) (key : String × ℤ)
    (txn : RegisterTxn τ) : Prop where
  versions : ∃ row : ModelVersionRow τ, txn.catalog.versions.rows = catalog.versions.rows ++ [row] ∧
    row.key = key ∧ row.artifactDigest = digest
  artifacts : ∀ d, (catalog.artifacts.lookup d).isSome → (txn.catalog.artifacts.lookup d).isSome
  artifact : (txn.catalog.artifacts.lookup digest).isSome
  artifactExists : txn.artifactExists = (catalog.artifacts.lookup digest).isSome

theorem Registration.begin_before (r : Registration) (digest : String) (now : τ) (catalog : Catalog τ) :
    (r.begin runtime digest now catalog).Before catalog digest :=
  ⟨rfl, rfl, rfl⟩

theorem RegisterTxn.Before.insert {catalog catalog' : Catalog τ} {r : Registration} {digest : String}
    {size : ℕ} {txn : RegisterTxn τ} (h : txn.Before catalog digest)
    (hinsert : r.insert runtime digest size txn = .inserted catalog') :
    RegisterTxn.After catalog digest (runtime.normalizeName r.modelName, txn.assignedVersion)
      { txn with catalog := catalog' } := by
  unfold Registration.insert at hinsert
  rcases hjson : Python.dumps true r.metadata with error | metadataJson
  · simp [hjson] at hinsert
  · simp only [hjson] at hinsert
    split at hinsert
    · simp at hinsert
    · split at hinsert
      · rename_i hversion
        cases hinsert
        obtain ⟨hrows, hartifacts, hartifact⟩ := Catalog.of_insertVersion hversion
        rw [Catalog.versions_insertArtifact, h.versions] at hrows
        refine ⟨⟨_, hrows, rfl, rfl⟩, fun d hd => ?_, ?_, h.artifactExists⟩
        · show (catalog'.artifacts.lookup d).isSome
          rw [hartifacts]
          exact Catalog.lookup_insertArtifact (by rwa [h.artifacts])
        · show (catalog'.artifacts.lookup digest).isSome
          rw [hartifacts]
          exact hartifact
      · simp at hinsert

theorem RegisterTxn.After.fresh {catalog : Catalog τ} {digest : String} {key : String × ℤ}
    {txn : RegisterTxn τ} (h : txn.After catalog digest key) :
    ∀ v ∈ catalog.versions.rows, v.key ≠ key := by
  intro v hv hkey
  obtain ⟨row, hrows, hrow, -⟩ := h.versions
  have hnodup := txn.catalog.versions.nodup
  rw [hrows, List.map_append, List.nodup_append] at hnodup
  exact hnodup.2.2 v.key (List.mem_map_of_mem hv) row.key (by simp) (hkey.trans hrow.symm)

namespace StoreSystem

variable {s t : StoreSystem τ} {c c' : ℕ} {call call' : RegisterCall τ} {digest : String}

/-! ### What a call may count on -/

/-- Every committed version has a file with the bytes it was registered for. -/
def Safe (s : StoreSystem τ) : Prop :=
  ∀ v ∈ s.catalog.versions.rows, ∃ content,
    s.registered v.key = some content ∧ s.files v.artifactDigest = some content

/-- No call that commits has found its artifact while another call was still to remove it. -/
def Uncontested (s : StoreSystem τ) : StoreLabel τ → Prop
  | .commit c => ¬ s.contested c
  | _ => True

/-- No call is to remove the file of `digest`. -/
def Quiet (runtime : Runtime) (s : StoreSystem τ) (digest : String) : Prop :=
  ∀ c, ¬ Removing runtime s c digest

structure Secure (runtime : Runtime) (s : StoreSystem τ) (digest : String) : Prop where
  file : (s.files digest).isSome
  quiet : s.Quiet runtime digest

structure Doomed (runtime : Runtime) (s : StoreSystem τ) (c : ℕ) (digest : String) : Prop where
  file : (s.files digest).isSome
  unused : ∀ v ∈ s.catalog.versions.rows, v.artifactDigest ≠ digest
  sole : ∀ c', Removing runtime s c' digest → c' = c

/-- A call past its file operations: it is not contested when it placed the file itself. -/
structure Kept (runtime : Runtime) (s : StoreSystem τ) (c : ℕ) (digest : String) (placed : Bool) :
    Prop where
  placed : placed = true → ¬ s.contested c
  secure : ¬ s.contested c → s.Secure runtime digest

/-- What holds of a call in each phase. -/
def CallInv (runtime : Runtime) (s : StoreSystem τ) (c : ℕ) (call : RegisterCall τ) : Prop :=
  match call.phase with
  | .begun temporary txn =>
    s.writer = some c ∧ txn.Before s.catalog (runtime.sha256 temporary)
  | .found temporary txn =>
    s.writer = some c ∧ txn.Before s.catalog (runtime.sha256 temporary) ∧
      s.Kept runtime c (runtime.sha256 temporary) false
  | .missing temporary txn =>
    s.writer = some c ∧ txn.Before s.catalog (runtime.sha256 temporary) ∧
      ¬ s.contested c ∧ s.Quiet runtime (runtime.sha256 temporary)
  | .inserting content txn placed =>
    s.writer = some c ∧ txn.Before s.catalog (runtime.sha256 content) ∧
      s.Kept runtime c (runtime.sha256 content) placed
  | .committing content txn placed =>
    s.writer = some c ∧
      txn.After s.catalog (runtime.sha256 content)
        (runtime.normalizeName call.registration.modelName, txn.assignedVersion) ∧
      s.Kept runtime c (runtime.sha256 content) placed
  | .compensating content _ => s.Doomed runtime c (runtime.sha256 content)
  | _ => True

structure ArtifactInv (runtime : Runtime) (s : StoreSystem τ) : Prop where
  hashed : ∀ digest content, s.files digest = some content → runtime.sha256 content = digest
  recorded : ∀ v ∈ s.catalog.versions.rows, ∃ content,
    s.registered v.key = some content ∧ runtime.sha256 content = v.artifactDigest
  stored : ∀ v ∈ s.catalog.versions.rows, (s.files v.artifactDigest).isSome
  parents : ∀ v ∈ s.catalog.versions.rows, (s.catalog.artifacts.lookup v.artifactDigest).isSome
  calls : ∀ c call, s.calls c = some call → CallInv runtime s c call

/-- With a hash without collisions, the file of a digest has the one content of that digest. -/
theorem ArtifactInv.safe (h : ArtifactInv runtime s) (hinj : Function.Injective runtime.sha256) :
    s.Safe := by
  intro v hv
  obtain ⟨content, hcontent, hdigest⟩ := h.recorded v hv
  obtain ⟨content', hfile⟩ := Option.isSome_iff_exists.1 (h.stored v hv)
  have heq : content' = content := hinj ((h.hashed _ _ hfile).trans hdigest.symm)
  exact ⟨content, hcontent, heq ▸ hfile⟩

theorem ArtifactInv.init : ArtifactInv runtime (init : StoreSystem τ) where
  hashed := by intro digest content h; cases h
  recorded := by intro v hv; cases hv
  stored := by intro v hv; cases hv
  parents := by intro v hv; cases hv
  calls := by intro c call h; cases h

theorem ArtifactInv.doomed (h : ArtifactInv runtime s) (hr : Removing runtime s c digest) :
    s.Doomed runtime c digest := by
  obtain ⟨call, content, error, hcall, hphase, rfl⟩ := hr
  have hinv := h.calls c call hcall
  simp only [CallInv, hphase] at hinv
  exact hinv

/-! ### Moves of one call -/

/-- `t` is `s` after `c` has moved on: the other calls are where they were and keep their locks. -/
structure Moves (s t : StoreSystem τ) (c : ℕ) (call : RegisterCall τ) : Prop where
  calls : t.calls = Function.update s.calls c (some call)
  contested : ∀ c' ≠ c, t.contested c' = s.contested c'
  writer : ∀ c' ≠ c, s.writer = some c' → t.writer = some c'

theorem Moves.calls_self (hm : Moves s t c call) : t.calls c = some call := by
  rw [hm.calls, Function.update_self]

theorem Moves.calls_of_ne (hm : Moves s t c call) (hne : c' ≠ c) : t.calls c' = s.calls c' := by
  rw [hm.calls, Function.update_of_ne hne]

/-- A call removes a file after the move if it did before, or if it is the one that moved. -/
theorem Moves.removing (hm : Moves s t c call) (hr : Removing runtime t c' digest) :
    (c' ≠ c ∧ Removing runtime s c' digest) ∨
      (c' = c ∧ ∃ content error, call.phase = .compensating content error ∧
        runtime.sha256 content = digest) := by
  obtain ⟨call', content, error, hcall, hphase, hdigest⟩ := hr
  by_cases hne : c' = c
  · rw [hne, hm.calls_self] at hcall
    cases hcall
    exact .inr ⟨hne, content, error, hphase, hdigest⟩
  · rw [hm.calls_of_ne hne] at hcall
    exact .inl ⟨hne, call', content, error, hcall, hphase, hdigest⟩

theorem Moves.quiet (hm : Moves s t c call) (hq : s.Quiet runtime digest)
    (hphase : ∀ content error, call.phase = .compensating content error →
      runtime.sha256 content ≠ digest) : t.Quiet runtime digest := by
  intro c' hr
  rcases hm.removing hr with ⟨-, hr⟩ | ⟨-, content, error, hcomp, hdigest⟩
  · exact hq c' hr
  · exact hphase content error hcomp hdigest

/-- A call keeps its file through a move that touches no file. -/
theorem Moves.kept {placed : Bool} (hm : Moves s t c call) (hcontested : t.contested c = s.contested c)
    (hfiles : t.files = s.files) (hphase : ∀ content error, call.phase ≠ .compensating content error)
    (hk : s.Kept runtime c digest placed) : t.Kept runtime c digest placed where
  placed := by rw [hcontested]; exact hk.placed
  secure := by
    rw [hcontested]
    intro hn
    refine ⟨by rw [hfiles]; exact (hk.secure hn).file, hm.quiet (hk.secure hn).quiet ?_⟩
    exact fun content error hcomp => absurd hcomp (hphase content error)

/-- A step leaves a call what it counts on, when it leaves a call with the database lock the catalog and
its secure file, and keeps the others doomed. -/
theorem CallInv.frame (hcall : s.calls c = some call) (h : CallInv runtime s c call)
    (hcontested : t.contested c = s.contested c) (hwriter : s.writer = some c → t.writer = some c)
    (hcatalog : s.writer = some c → t.catalog = s.catalog)
    (hquiet : ∀ d, s.writer = some c → s.Quiet runtime d → t.Quiet runtime d)
    (hfile : ∀ d, s.writer = some c → s.Secure runtime d → (t.files d).isSome)
    (hdoomed : ∀ d, Removing runtime s c d → s.Doomed runtime c d → t.Doomed runtime c d) :
    CallInv runtime t c call := by
  have hkept : ∀ d placed, s.writer = some c → s.Kept runtime c d placed →
      t.Kept runtime c d placed := fun d placed hw hk =>
    ⟨by rw [hcontested]; exact hk.placed, by
      rw [hcontested]
      exact fun hn => ⟨hfile d hw (hk.secure hn), hquiet d hw (hk.secure hn).quiet⟩⟩
  unfold CallInv at h ⊢
  split
  case h_1 temporary txn hphase =>
    simp only [hphase] at h
    rw [hcatalog h.1]
    exact ⟨hwriter h.1, h.2⟩
  case h_2 temporary txn hphase =>
    simp only [hphase] at h
    rw [hcatalog h.1]
    exact ⟨hwriter h.1, h.2.1, hkept _ _ h.1 h.2.2⟩
  case h_3 temporary txn hphase =>
    simp only [hphase] at h
    rw [hcatalog h.1, hcontested]
    exact ⟨hwriter h.1, h.2.1, h.2.2.1, hquiet _ h.1 h.2.2.2⟩
  case h_4 content txn placed hphase =>
    simp only [hphase] at h
    rw [hcatalog h.1]
    exact ⟨hwriter h.1, h.2.1, hkept _ _ h.1 h.2.2⟩
  case h_5 content txn placed hphase =>
    simp only [hphase] at h
    rw [hcatalog h.1]
    exact ⟨hwriter h.1, h.2.1, hkept _ _ h.1 h.2.2⟩
  case h_6 content error hphase =>
    simp only [hphase] at h
    exact hdoomed _ ⟨call, content, error, hcall, hphase, rfl⟩ h
  case h_7 => trivial

/-- The invariant of all calls, from that of the call that moved and what it leaves to the others. -/
theorem ArtifactInv.callInv (h : ArtifactInv runtime s) (hm : Moves s t c call)
    (hself : CallInv runtime t c call)
    (hcatalog : ∀ c' ≠ c, s.writer = some c' → t.catalog = s.catalog)
    (hquiet : ∀ c' ≠ c, s.writer = some c' →
      ∀ content error, call.phase ≠ .compensating content error)
    (hfile : ∀ c' ≠ c, s.writer = some c' → ∀ d, s.Secure runtime d → (t.files d).isSome)
    (hdoomed : ∀ c' ≠ c, ∀ d, Removing runtime s c' d → s.Doomed runtime c' d →
      (t.files d).isSome ∧ (∀ v ∈ t.catalog.versions.rows, v.artifactDigest ≠ d) ∧
        ∀ content error, call.phase = .compensating content error → runtime.sha256 content ≠ d) :
    ∀ c' call', t.calls c' = some call' → CallInv runtime t c' call' := by
  intro c' call' hcall
  by_cases hne : c' = c
  · rw [hne, hm.calls_self] at hcall
    cases hcall
    exact hne ▸ hself
  · rw [hm.calls_of_ne hne] at hcall
    refine (h.calls c' call' hcall).frame hcall (hm.contested c' hne) (hm.writer c' hne)
      (hcatalog c' hne) (fun d hw hq => ?_) (fun d hw => hfile c' hne hw d) fun d hr hd => ?_
    · exact hm.quiet hq fun content error hcomp => absurd hcomp (hquiet c' hne hw content error)
    · obtain ⟨hfile, hunused, hphase⟩ := hdoomed c' hne d hr hd
      refine ⟨hfile, hunused, fun c'' hr' => ?_⟩
      rcases hm.removing hr' with ⟨-, hr'⟩ | ⟨-, content, error, hcomp, hdigest⟩
      · exact hd.sole c'' hr'
      · exact absurd hdigest (hphase content error hcomp)

/-- The moves that touch no file and no table and do not end before a removal. -/
theorem ArtifactInv.tame (h : ArtifactInv runtime s) (hm : Moves s t c call)
    (hcatalog : t.catalog = s.catalog) (hfiles : t.files = s.files)
    (hregistered : t.registered = s.registered)
    (hphase : ∀ content error, call.phase ≠ .compensating content error)
    (hself : CallInv runtime t c call) : ArtifactInv runtime t where
  hashed := hfiles ▸ h.hashed
  recorded := by rw [hcatalog, hregistered]; exact h.recorded
  stored := by rw [hcatalog, hfiles]; exact h.stored
  parents := by rw [hcatalog]; exact h.parents
  calls := by
    refine h.callInv hm hself (fun _ _ _ => hcatalog) (fun _ _ _ => hphase)
      (fun _ _ _ d hs => by rw [hfiles]; exact hs.file) fun _ _ d _ hd => ?_
    exact ⟨by rw [hfiles]; exact hd.file, by rw [hcatalog]; exact hd.unused,
      fun content error hcomp => absurd hcomp (hphase content error)⟩

/-! ### The moves that matter -/

theorem moves_goto {s₀ : StoreSystem τ} {phase : RegisterPhase τ} (hcalls : s₀.calls = s.calls)
    (hcontested : ∀ c' ≠ c, s₀.contested c' = s.contested c')
    (hwriter : ∀ c' ≠ c, s.writer = some c' → s₀.writer = some c') :
    Moves s (s₀.goto c call phase) c { call with phase } :=
  ⟨by rw [goto_calls, hcalls], hcontested, hwriter⟩

theorem not_writer (hwriter : s.writer = some c) (hne : c' ≠ c) : s.writer ≠ some c' := by
  rw [hwriter, ne_eq, Option.some.injEq]
  exact hne.symm

theorem ArtifactInv.replace (h : ArtifactInv runtime s) {temporary : Bytes} {txn : RegisterTxn τ}
    (hcall : s.calls c = some call) (hphase : call.phase = .missing temporary txn) :
    ArtifactInv runtime
      ((s.setFile (runtime.sha256 temporary) (some temporary)).goto c call
        (.inserting temporary txn true)) := by
  have hinv := h.calls c call hcall
  simp only [CallInv, hphase] at hinv
  obtain ⟨hwriter, hbefore, hcontested, hquiet⟩ := hinv
  have hm : Moves s ((s.setFile (runtime.sha256 temporary) (some temporary)).goto c call
      (.inserting temporary txn true)) c { call with phase := .inserting temporary txn true } :=
    moves_goto rfl (fun _ _ => rfl) fun _ _ => id
  have hgrow : ∀ d, (s.files d).isSome →
      ((s.setFile (runtime.sha256 temporary) (some temporary)).files d).isSome := by
    intro d hd
    by_cases heq : d = runtime.sha256 temporary
    · rw [setFile_files, heq, Function.update_self]; rfl
    · rwa [setFile_files, Function.update_of_ne heq]
  refine ⟨fun d content hfile => ?_, h.recorded, fun v hv => hgrow _ (h.stored v hv), h.parents, ?_⟩
  · by_cases heq : d = runtime.sha256 temporary
    · rw [goto_files, setFile_files, heq, Function.update_self] at hfile
      cases hfile
      exact heq.symm
    · rw [goto_files, setFile_files, Function.update_of_ne heq] at hfile
      exact h.hashed d content hfile
  · have hplaced : ((s.setFile (runtime.sha256 temporary) (some temporary)).files
        (runtime.sha256 temporary)).isSome := by
      rw [setFile_files, Function.update_self]; rfl
    refine h.callInv hm ⟨hwriter, hbefore, fun _ => hcontested, fun _ => ⟨hplaced,
      hm.quiet hquiet (by rintro content error ⟨⟩)⟩⟩ (fun _ _ _ => rfl)
      (fun _ _ _ => by rintro content error ⟨⟩) (fun _ _ _ d hs => hgrow d hs.file) fun _ _ d _ hd => ?_
    exact ⟨hgrow d hd.file, hd.unused, by rintro content error ⟨⟩⟩

/-- A rollback. The call that is then to remove its file placed it and had the database lock, so no
other is to remove it; and no version has its digest, since no artifact row did. -/
theorem ArtifactInv.rollback (h : ArtifactInv runtime s) {content : Bytes} {txn : RegisterTxn τ}
    {placed : Bool} {error : ModelStoreError} (hwriter : s.writer = some c)
    (hexists : txn.artifactExists = (s.catalog.artifacts.lookup (runtime.sha256 content)).isSome)
    (hkept : s.Kept runtime c (runtime.sha256 content) placed) :
    ArtifactInv runtime ((s.release c).goto c call (rolledBack content txn placed error)) := by
  have hm : ∀ phase, Moves s ((s.release c).goto c call phase) c { call with phase } := fun phase =>
    moves_goto rfl (fun _ _ => rfl) fun _ => release_writer
  have hother : ∀ c' ≠ c, s.writer ≠ some c' := fun c' hne => not_writer hwriter hne
  unfold rolledBack
  split
  · rename_i hremove
    rw [Bool.and_eq_true, Bool.not_eq_true', hexists] at hremove
    obtain ⟨hplaced, hnone⟩ := hremove
    have hsecure := hkept.secure (hkept.placed hplaced)
    have hunused : ∀ v ∈ s.catalog.versions.rows, v.artifactDigest ≠ runtime.sha256 content := by
      intro v hv heq
      have hparent := h.parents v hv
      rw [heq, hnone] at hparent
      simp at hparent
    refine ⟨h.hashed, h.recorded, h.stored, h.parents, ?_⟩
    refine h.callInv (hm _) ⟨hsecure.file, hunused, fun c' hr => ?_⟩
      (fun c' hne hc' => absurd hc' (hother c' hne)) (fun c' hne hc' => absurd hc' (hother c' hne))
      (fun c' hne hc' => absurd hc' (hother c' hne)) fun c' _ d hr hd => ⟨hd.file, hd.unused, ?_⟩
    · rcases (hm _).removing hr with ⟨-, hr⟩ | ⟨heq, -⟩
      · exact absurd hr (hsecure.quiet c')
      · exact heq
    · rintro content' error' ⟨⟩ rfl
      exact hsecure.quiet c' hr
  · exact h.tame (hm _) rfl rfl rfl (by rintro content' error' ⟨⟩) trivial

/-- A commit. An uncontested call still has its file, and no call that is to remove one has the same
digest. -/
theorem ArtifactInv.commit (h : ArtifactInv runtime s) {content : Bytes} {txn : RegisterTxn τ}
    {placed : Bool} (hcall : s.calls c = some call) (hphase : call.phase = .committing content txn placed)
    (hcontested : ¬ s.contested c) :
    ArtifactInv runtime (((s.commit txn.catalog
      (runtime.normalizeName call.registration.modelName, txn.assignedVersion) content).release c).goto c call
        (.leaving (.ok txn.assignedVersion))) := by
  have hinv := h.calls c call hcall
  simp only [CallInv, hphase] at hinv
  obtain ⟨hwriter, hafter, hkept⟩ := hinv
  have hsecure := hkept.secure hcontested
  have hfresh := hafter.fresh
  obtain ⟨row, hrows, hkey, hdigest⟩ := hafter.versions
  have hother : ∀ c' ≠ c, s.writer ≠ some c' := fun c' hne => not_writer hwriter hne
  refine ⟨h.hashed, fun v hv => ?_, fun v hv => ?_, fun v hv => ?_, ?_⟩
  · rcases List.mem_append.1 (hrows ▸ hv) with hv | hv
    · obtain ⟨content', hcontent', hdigest'⟩ := h.recorded v hv
      refine ⟨content', ?_, hdigest'⟩
      show Function.update s.registered _ _ v.key = some content'
      rwa [Function.update_of_ne (hfresh v hv)]
    · rw [List.mem_singleton.1 hv]
      refine ⟨content, ?_, hdigest.symm⟩
      show Function.update s.registered _ _ row.key = some content
      rw [hkey, Function.update_self]
  · rcases List.mem_append.1 (hrows ▸ hv) with hv | hv
    · exact h.stored v hv
    · rw [List.mem_singleton.1 hv, hdigest]
      exact hsecure.file
  · rcases List.mem_append.1 (hrows ▸ hv) with hv | hv
    · exact hafter.artifacts _ (h.parents v hv)
    · rw [List.mem_singleton.1 hv, hdigest]
      exact hafter.artifact
  · refine h.callInv (moves_goto rfl (fun _ _ => rfl) fun _ => release_writer) trivial
      (fun c' hne hc' => absurd hc' (hother c' hne)) (fun c' hne hc' => absurd hc' (hother c' hne))
      (fun c' hne hc' => absurd hc' (hother c' hne)) fun c' _ d hr hd => ⟨hd.file, fun v hv => ?_, ?_⟩
    · rcases List.mem_append.1 (hrows ▸ hv) with hv | hv
      · exact hd.unused v hv
      · rw [List.mem_singleton.1 hv, hdigest]
        rintro rfl
        exact hsecure.quiet c' hr
    · rintro content' error' ⟨⟩

/-- A removal. What is removed no version counts on, nor a call with the database lock. -/
theorem ArtifactInv.compensate (h : ArtifactInv runtime s) {content : Bytes} {error : ModelStoreError}
    (hcall : s.calls c = some call) (hphase : call.phase = .compensating content error) :
    ArtifactInv runtime ((s.setFile (runtime.sha256 content) none).goto c call (.leaving (.error error))) := by
  have hremoving : Removing runtime s c (runtime.sha256 content) :=
    ⟨call, content, error, hcall, hphase, rfl⟩
  have hself := h.doomed hremoving
  have hkeep : ∀ d, d ≠ runtime.sha256 content → (s.files d).isSome →
      ((s.setFile (runtime.sha256 content) none).files d).isSome := by
    intro d hd hfile
    rwa [setFile_files, Function.update_of_ne hd]
  refine ⟨fun d content' hfile => ?_, h.recorded, fun v hv => ?_, h.parents, ?_⟩
  · by_cases heq : d = runtime.sha256 content
    · rw [goto_files, setFile_files, heq, Function.update_self] at hfile
      simp at hfile
    · rw [goto_files, setFile_files, Function.update_of_ne heq] at hfile
      exact h.hashed d content' hfile
  · exact hkeep _ (hself.unused v hv) (h.stored v hv)
  · refine h.callInv (moves_goto rfl (fun _ _ => rfl) fun _ _ => id) trivial (fun _ _ _ => rfl)
      (fun _ _ _ => by rintro content' error' ⟨⟩) (fun _ _ _ d hs => hkeep d ?_ hs.file)
      fun c' hne d hr hd => ⟨hkeep d ?_ hd.file, hd.unused, by rintro content' error' ⟨⟩⟩
    · rintro rfl
      exact hs.quiet c hremoving
    · rintro rfl
      exact hne (hself.sole c' hr)

/-- `activate` has the database lock to itself and changes no digest. -/
theorem ArtifactInv.activate (h : ArtifactInv runtime s) {normalizedName : String} {version : ℤ}
    {now : τ} {catalog : Catalog τ} (hfree : s.writer = none)
    (hactivate : s.catalog.activate normalizedName version now = some catalog) :
    ArtifactInv runtime { s with catalog } := by
  obtain ⟨hartifacts, hversions⟩ := Catalog.of_activate hactivate
  have hidle : ∀ c', s.writer ≠ some c' := by simp [hfree]
  refine ⟨h.hashed, fun v' hv' => ?_, fun v' hv' => ?_, fun v' hv' => ?_, fun c call hcall => ?_⟩
  · obtain ⟨v, hv, hkey, hdigest⟩ := hversions v' hv'
    rw [← hkey, ← hdigest]
    exact h.recorded v hv
  · obtain ⟨v, hv, -, hdigest⟩ := hversions v' hv'
    rw [← hdigest]
    exact h.stored v hv
  · obtain ⟨v, hv, -, hdigest⟩ := hversions v' hv'
    show (catalog.artifacts.lookup v'.artifactDigest).isSome
    rw [← hdigest, hartifacts]
    exact h.parents v hv
  · have hcall' : s.calls c = some call := hcall
    refine (h.calls c call hcall').frame hcall' rfl id (fun hw => absurd hw (hidle c))
      (fun _ hw => absurd hw (hidle c)) (fun _ hw => absurd hw (hidle c)) fun d hr hd =>
      ⟨hd.file, fun v' hv' => ?_, hd.sole⟩
    obtain ⟨v, hv, -, hdigest⟩ := hversions v' hv'
    rw [← hdigest]
    exact hd.unused v hv

/-! ### Steps and runs -/

/-- What is not contested is quiet, since the call itself is not removing. -/
theorem quiet_of_uncontested (hcall : s.calls c = some call)
    (hphase : ∀ content error, call.phase ≠ .compensating content error)
    (h : ¬ ∃ c', c' ≠ c ∧ Removing runtime s c' digest) : s.Quiet runtime digest := by
  intro c' hr
  by_cases hne : c' = c
  · obtain ⟨call', content, error, hcall', hcomp, -⟩ := hr
    rw [hne, hcall] at hcall'
    cases hcall'
    exact hphase content error hcomp
  · exact h ⟨c', hne, hr⟩

theorem ArtifactInv.quiet_of_missing (h : ArtifactInv runtime s) (hfile : s.files digest = none) :
    s.Quiet runtime digest := by
  intro c hr
  have hsome := (h.doomed hr).file
  rw [hfile] at hsome
  simp at hsome

theorem ArtifactInv.step {label : StoreLabel τ} (h : ArtifactInv runtime s)
    (hstep : Step runtime maxArtifactSize s label t) (huncontested : s.Uncontested label) :
    ArtifactInv runtime t := by
  cases hstep with
  | @start c store registration hnew =>
    refine h.tame (c := c) ⟨rfl, fun _ _ => rfl, fun _ _ => id⟩ rfl rfl rfl ?_ trivial
    rintro content error ⟨⟩
  | @read c call written result hcall hphase =>
    have hm : Moves s (s.goto c call (stageRead maxArtifactSize written result)) c
        { call with phase := stageRead maxArtifactSize written result } :=
      moves_goto rfl (fun _ _ => rfl) fun _ _ => id
    rcases stageRead_cases (τ := τ) maxArtifactSize written result with
      ⟨written', heq⟩ | heq | ⟨error, heq⟩ <;> rw [heq] at hm ⊢ <;>
      exact h.tame hm rfl rfl rfl (by rintro content error ⟨⟩) trivial
  | @acquire c call temporary hcall hphase hfree =>
    exact h.tame (moves_goto rfl (fun _ _ => rfl) fun _ _ => id) rfl rfl rfl
      (by rintro content error ⟨⟩) trivial
  | @begin c call temporary now hcall hphase hfree =>
    refine h.tame (moves_goto rfl (fun _ _ => rfl) fun c' _ hc' => ?_) rfl rfl rfl
      (by rintro content error ⟨⟩) ⟨rfl, call.registration.begin_before _ _ _⟩
    rw [hfree] at hc'
    simp at hc'
  | @found c call temporary txn hcall hphase hfile =>
    have hinv := h.calls c call hcall
    simp only [CallInv, hphase] at hinv
    have hm : Moves s ((s.contest c
        (∃ c', c' ≠ c ∧ Removing runtime s c' (runtime.sha256 temporary))).goto c call
          (.found temporary txn)) c { call with phase := .found temporary txn } :=
      moves_goto rfl (fun _ hne => Function.update_of_ne hne _ _) fun _ _ => id
    refine h.tame hm rfl rfl rfl (by rintro content error ⟨⟩)
      ⟨hinv.1, hinv.2, by rintro ⟨⟩, fun hn => ⟨hfile, ?_⟩⟩
    rw [goto_contested, contest_contested, Function.update_self] at hn
    exact hm.quiet (quiet_of_uncontested hcall (by simp [hphase]) hn) (by rintro content error ⟨⟩)
  | @missing c call temporary txn hcall hphase hfile =>
    have hinv := h.calls c call hcall
    simp only [CallInv, hphase] at hinv
    have hm : Moves s ((s.contest c False).goto c call (.missing temporary txn)) c
        { call with phase := .missing temporary txn } :=
      moves_goto rfl (fun _ hne => Function.update_of_ne hne _ _) fun _ _ => id
    refine h.tame hm rfl rfl rfl (by rintro content error ⟨⟩) ⟨hinv.1, hinv.2, ?_, ?_⟩
    · rw [goto_contested, contest_contested, Function.update_self]
      exact id
    · exact hm.quiet (h.quiet_of_missing hfile) (by rintro content error ⟨⟩)
  | @discard c call temporary txn hcall hphase =>
    have hinv := h.calls c call hcall
    simp only [CallInv, hphase] at hinv
    have hm : Moves s (s.goto c call (.inserting temporary txn false)) c
        { call with phase := .inserting temporary txn false } :=
      moves_goto rfl (fun _ _ => rfl) fun _ _ => id
    exact h.tame hm rfl rfl rfl (by rintro content error ⟨⟩)
      ⟨hinv.1, hinv.2.1, hm.kept rfl rfl (by rintro content error ⟨⟩) hinv.2.2⟩
  | replace hcall hphase => exact h.replace hcall hphase
  | @inserted c call content txn placed catalog hcall hphase hinsert =>
    have hinv := h.calls c call hcall
    simp only [CallInv, hphase] at hinv
    have hm : Moves s (s.goto c call (.committing content { txn with catalog } placed)) c
        { call with phase := .committing content { txn with catalog } placed } :=
      moves_goto rfl (fun _ _ => rfl) fun _ _ => id
    exact h.tame hm rfl rfl rfl (by rintro content error ⟨⟩)
      ⟨hinv.1, hinv.2.1.insert hinsert, hm.kept rfl rfl (by rintro content error ⟨⟩) hinv.2.2⟩
  | @duplicate c call content txn placed hcall hphase hinsert =>
    have hinv := h.calls c call hcall
    simp only [CallInv, hphase] at hinv
    exact h.rollback hinv.1 hinv.2.1.artifactExists hinv.2.2
  | @refused c call content txn placed error hcall hphase hinsert =>
    exact h.tame (moves_goto rfl (fun _ _ => rfl) fun _ => release_writer) rfl rfl rfl
      (by rintro content error ⟨⟩) trivial
  | @commit c call content txn placed hcall hphase => exact h.commit hcall hphase huncontested
  | @commitFails c call content txn placed error hcall hphase =>
    have hinv := h.calls c call hcall
    simp only [CallInv, hphase] at hinv
    exact h.rollback hinv.1 hinv.2.1.artifactExists hinv.2.2
  | compensate hcall hphase => exact h.compensate hcall hphase
  | @leave c call result hcall hphase =>
    exact h.tame (moves_goto rfl (fun _ _ => rfl) fun _ _ => id) rfl rfl rfl
      (by rintro content error ⟨⟩) trivial
  | @raise c call error hcall hlive =>
    exact h.tame (moves_goto rfl (fun _ _ => rfl) fun _ => release_writer) rfl rfl rfl
      (by rintro content error ⟨⟩) trivial
  | activate hfree hactivate => exact h.activate hfree hactivate

theorem ArtifactInv.run {labels : List (StoreLabel τ)} (h : ArtifactInv runtime s)
    (hrun : Run (fun s label t => Step runtime maxArtifactSize s label t ∧ s.Uncontested label) s
      labels t) : ArtifactInv runtime t :=
  hrun.invariant (fun _ _ _ h hstep => h.step hstep.1 hstep.2) h

/-- A call that commits while another is still to remove its file loses it when that one goes on. -/
theorem ArtifactInv.loses (h : ArtifactInv runtime s) {content : Bytes} {txn : RegisterTxn τ} {placed : Bool}
    (hcall : s.calls c = some call) (hphase : call.phase = .committing content txn placed)
    (hr : Removing runtime s c' (runtime.sha256 content)) :
    ∃ t, Run (Step runtime maxArtifactSize) s [.commit c, .compensate c'] t ∧ ¬ t.Safe := by
  have hinv := h.calls c call hcall
  simp only [CallInv, hphase] at hinv
  obtain ⟨row, hrows, -, hdigest⟩ := hinv.2.1.versions
  obtain ⟨call', content', error, hcall', hphase', hsame⟩ := hr
  have hne : c' ≠ c := by
    rintro rfl
    rw [hcall] at hcall'
    cases hcall'
    rw [hphase] at hphase'
    simp at hphase'
  refine ⟨_, .cons (.commit hcall hphase) (.cons (.compensate ?_ hphase') (.nil _)), ?_⟩
  · rw [goto_calls, Function.update_of_ne hne]
    exact hcall'
  · intro hsafe
    obtain ⟨content'', -, hfile⟩ := hsafe row (by
      show row ∈ txn.catalog.versions.rows
      rw [hrows]
      simp)
    rw [goto_files, setFile_files, hdigest, hsame, Function.update_self] at hfile
    simp at hfile

/-- In a run where no call commits that found its artifact while another was still to remove it, every
committed version has the bytes it was registered for. -/
theorem artifacts_kept (hinj : Function.Injective runtime.sha256) {labels : List (StoreLabel τ)}
    (hrun : Run (fun s label t => Step runtime maxArtifactSize s label t ∧ s.Uncontested label) init
      labels s) : s.Safe :=
  (ArtifactInv.init.run hrun).safe hinj

/-! ### Two instances and one artifact -/

/-- The two contents of the runs below. -/
def sampleOne : Bytes := [111, 110, 101]
def sampleTwo : Bytes := [116, 119, 111]

def digestOne : String := "7692c3ad3540bb803c020b3aee66cd8887123234ea0c6e7143c0add73ff431ed"
def digestTwo : String := "3fc4ccfe745870e2c0d99f71f30ff0656c8dedd41cc1d7d3d376b0dbe685e2f3"

/-- The digests of the two samples, and some digest without collisions for everything else. -/
def sampleSha256 (content : Bytes) : String :=
  if content = sampleOne then digestOne
  else if content = sampleTwo then digestTwo
  else String.ofList ('#' :: content.map fun byte => Char.ofNat byte.toNat)

def sampleContent (digest : String) : Bytes :=
  if digest = digestOne then sampleOne
  else if digest = digestTwo then sampleTwo
  else digest.toList.tail.map fun char => UInt8.ofNat char.toNat

def sampleRuntime : Runtime := ⟨sampleSha256, id⟩

theorem ofNat_toNat_ofNat (byte : UInt8) : UInt8.ofNat (Char.ofNat byte.toNat).toNat = byte := by
  have hvalid : byte.toNat.isValidChar := .inl (by have := byte.toNat_lt; omega)
  have hchar : (Char.ofNat byte.toNat).toNat = byte.toNat := by
    unfold Char.ofNat
    rw [dif_pos hvalid]
    rfl
  rw [hchar, UInt8.ofNat_toNat]

theorem sampleContent_sampleSha256 (content : Bytes) : sampleContent (sampleSha256 content) = content := by
  unfold sampleSha256
  split
  · rename_i hone
    rw [hone]
    rfl
  · split
    · rename_i htwo
      rw [htwo]
      rfl
    · have hone : ∀ l, String.ofList ('#' :: l) ≠ digestOne := by
        intro l heq
        have hhead := congrArg (fun digest : String => digest.toList.head?) heq
        simp [digestOne] at hhead
      have htwo : ∀ l, String.ofList ('#' :: l) ≠ digestTwo := by
        intro l heq
        have hhead := congrArg (fun digest : String => digest.toList.head?) heq
        simp [digestTwo] at hhead
      unfold sampleContent
      rw [if_neg (hone _), if_neg (htwo _), String.toList_ofList]
      simp [Function.comp_def, ofNat_toNat_ofNat]

theorem sampleRuntime_injective : Function.Injective sampleRuntime.sha256 :=
  Function.LeftInverse.injective sampleContent_sampleSha256

def sampleRegistration (modelName : String) : Registration :=
  { modelName, version := some 1, description := none, metadata := .dict [] }

def sampleCatalog : Catalog ℤ where
  models := ⟨[⟨"model", "model", none, 1⟩], by decide⟩
  artifacts := ⟨[⟨digestOne, digestOne, 3⟩], by decide⟩
  versions := ⟨[⟨"model", 1, .registered, digestOne, .obj [], 1⟩], by decide⟩
  activations := []

def sampleFirst : List (StoreLabel ℤ) :=
  [.start 0 0 (sampleRegistration "model"), .read 0 (.chunk sampleOne), .read 0 (.chunk []), .acquire 0,
    .begin 0 1, .pathExists 0, .replace 0, .insert 0, .commit 0, .leave 0]

def sampleSecond : List (StoreLabel ℤ) :=
  [.start 1 0 (sampleRegistration "model"), .read 1 (.chunk sampleTwo), .read 1 (.chunk []), .acquire 1,
    .begin 1 2, .pathExists 1, .replace 1, .insert 1]

def sampleThird : List (StoreLabel ℤ) :=
  [.start 2 1 (sampleRegistration "other"), .read 2 (.chunk sampleTwo), .read 2 (.chunk []), .acquire 2,
    .begin 2 3, .pathExists 2, .discard 2, .insert 2]

theorem sample_first : ∃ s, Run (fun s label t => Step sampleRuntime 1024 s label t ∧ s.Uncontested label)
      init sampleFirst s ∧
    s.catalog = sampleCatalog ∧ s.files = Function.update (fun _ => none) digestOne (some sampleOne) ∧
    s.calls 1 = none ∧ s.calls 2 = none ∧ s.writer = none ∧ s.locks 0 = none ∧ s.locks 1 = none :=
  ⟨_, .cons ⟨.start rfl, trivial⟩ <| .cons ⟨.read rfl rfl, trivial⟩ <|
    .cons ⟨.read rfl rfl, trivial⟩ <|
    .cons ⟨.acquire rfl rfl rfl, trivial⟩ <| .cons ⟨.begin rfl rfl rfl, trivial⟩ <|
    .cons ⟨.missing rfl rfl rfl, trivial⟩ <| .cons ⟨.replace rfl rfl, trivial⟩ <|
    .cons ⟨.inserted rfl rfl rfl, trivial⟩ <| .cons ⟨.commit rfl rfl, id⟩ <|
    .cons ⟨.leave rfl rfl, trivial⟩ <| .nil _, rfl, rfl, rfl, rfl, rfl, rfl, rfl⟩

theorem sample_duplicate : (sampleRegistration "model").insert sampleRuntime (sampleRuntime.sha256 sampleTwo)
    sampleTwo.length ((sampleRegistration "model").begin sampleRuntime (sampleRuntime.sha256 sampleTwo) 2
      sampleCatalog) = .integrityError := rfl

theorem sample_second {s : StoreSystem ℤ} (hcatalog : s.catalog = sampleCatalog)
    (hfile : s.files digestTwo = none) (hcall : s.calls 1 = none) (hother : s.calls 2 = none)
    (hwriter : s.writer = none) (hlock : s.locks 0 = none) (hlock' : s.locks 1 = none) :
    ∃ t, Run (fun s label t => Step sampleRuntime 1024 s label t ∧ s.Uncontested label) s sampleSecond t ∧
      t.catalog = sampleCatalog ∧ (t.files digestTwo).isSome = true ∧
      Removing sampleRuntime t 1 digestTwo ∧ t.calls 2 = none ∧ t.writer = none ∧ t.locks 1 = none := by
  rcases s with ⟨catalog, files, calls, writer, locks, registered, contested⟩
  simp only at hcatalog hfile hcall hother hwriter hlock hlock'
  subst hcatalog hwriter
  exact ⟨_, .cons ⟨.start hcall, trivial⟩ <| .cons ⟨.read rfl rfl, trivial⟩ <|
    .cons ⟨.read rfl rfl, trivial⟩ <|
    .cons ⟨.acquire rfl rfl hlock, trivial⟩ <| .cons ⟨.begin rfl rfl rfl, trivial⟩ <|
    .cons ⟨.missing rfl rfl hfile, trivial⟩ <| .cons ⟨.replace rfl rfl, trivial⟩ <|
    .cons ⟨.duplicate rfl rfl sample_duplicate, trivial⟩ <| .nil _,
    rfl, rfl, ⟨_, _, _, rfl, rfl, rfl⟩, hother, rfl, hlock'⟩

theorem sample_inserted : ∃ catalog, (sampleRegistration "other").insert sampleRuntime
    (sampleRuntime.sha256 sampleTwo) sampleTwo.length ((sampleRegistration "other").begin sampleRuntime
      (sampleRuntime.sha256 sampleTwo) 3 sampleCatalog) = .inserted catalog ∧
    catalog.versions.rows.map (fun v => (v.normalizedName, v.artifactDigest)) =
      [("model", digestOne), ("other", digestTwo)] :=
  ⟨_, rfl, rfl⟩

theorem sample_third {s : StoreSystem ℤ} (hcatalog : s.catalog = sampleCatalog)
    (hfile : (s.files digestTwo).isSome = true) (hcall : s.calls 2 = none)
    (hremoving : Removing sampleRuntime s 1 digestTwo) (hwriter : s.writer = none) (hlock : s.locks 1 = none) :
    ∃ t, Run (fun s label t => Step sampleRuntime 1024 s label t ∧ s.Uncontested label) s sampleThird t ∧
      Removing sampleRuntime t 1 digestTwo ∧ ∃ call txn, t.calls 2 = some call ∧
        call.phase = .committing sampleTwo txn false := by
  rcases s with ⟨catalog, files, calls, writer, locks, registered, contested⟩
  simp only at hcatalog hfile hcall hwriter hlock
  subst hcatalog hwriter
  obtain ⟨catalog, hinsert, -⟩ := sample_inserted
  refine ⟨_, .cons ⟨.start hcall, trivial⟩ <| .cons ⟨.read rfl rfl, trivial⟩ <|
    .cons ⟨.read rfl rfl, trivial⟩ <|
    .cons ⟨.acquire rfl rfl hlock, trivial⟩ <| .cons ⟨.begin rfl rfl rfl, trivial⟩ <|
    .cons ⟨.found rfl rfl hfile, trivial⟩ <| .cons ⟨.discard rfl rfl, trivial⟩ <|
    .cons ⟨.inserted rfl rfl hinsert, trivial⟩ <| .nil _, ?_, _, _, rfl, rfl⟩
  exact hremoving

/-- The second call takes its file back, and only then another instance registers the same content. -/
def sampleSettled : List (StoreLabel ℤ) :=
  [.compensate 1, .leave 1, .start 2 1 (sampleRegistration "other"), .read 2 (.chunk sampleTwo),
    .read 2 (.chunk []), .acquire 2, .begin 2 3, .pathExists 2, .replace 2, .insert 2, .commit 2, .leave 2]

theorem sample_settled {s : StoreSystem ℤ} (hcatalog : s.catalog = sampleCatalog)
    (hremoving : Removing sampleRuntime s 1 digestTwo) (hcall : s.calls 2 = none) (hwriter : s.writer = none)
    (hlock : s.locks 1 = none) :
    ∃ t, Run (fun s label t => Step sampleRuntime 1024 s label t ∧ s.Uncontested label) s sampleSettled t ∧
      t.catalog.versions.rows.map (fun v => (v.normalizedName, v.artifactDigest)) =
        [("model", digestOne), ("other", digestTwo)] ∧
      ∃ call error, t.calls 1 = some call ∧ call.phase = .returned (.error error) := by
  rcases s with ⟨catalog, files, calls, writer, locks, registered, contested⟩
  obtain ⟨call, content, error, hcall₁, hphase, hdigest⟩ := hremoving
  obtain rfl : content = sampleTwo := sampleRuntime_injective hdigest
  simp only at hcatalog hcall hcall₁ hwriter hlock
  subst hcatalog hwriter
  have hremoved : Function.update files (sampleRuntime.sha256 sampleTwo) none digestTwo = none := rfl
  have hfree : (if locks call.store = some 1 then Function.update locks call.store none else locks) 1 = none := by
    split
    · by_cases hstore : call.store = 1
      · rw [hstore, Function.update_self]
      · rw [Function.update_of_ne (Ne.symm hstore), hlock]
    · exact hlock
  obtain ⟨catalog, hinsert, hversions⟩ := sample_inserted
  exact ⟨_, .cons ⟨.compensate hcall₁ hphase, trivial⟩ <| .cons ⟨.leave rfl rfl, trivial⟩ <|
    .cons ⟨.start hcall, trivial⟩ <| .cons ⟨.read rfl rfl, trivial⟩ <| .cons ⟨.read rfl rfl, trivial⟩ <|
    .cons ⟨.acquire rfl rfl hfree, trivial⟩ <| .cons ⟨.begin rfl rfl rfl, trivial⟩ <|
    .cons ⟨.missing rfl rfl hremoved, trivial⟩ <| .cons ⟨.replace rfl rfl, trivial⟩ <|
    .cons ⟨.inserted rfl rfl hinsert, trivial⟩ <| .cons ⟨.commit rfl rfl, id⟩ <|
    .cons ⟨.leave rfl rfl, trivial⟩ <| .nil _, hversions, _, _, rfl, rfl⟩

/-- A call that failed and took its file away, and the registration of the same content by another
instance after it. -/
theorem artifacts_kept_sample : ∃ s : StoreSystem ℤ,
    s.catalog.versions.rows.map (fun v => (v.normalizedName, v.artifactDigest)) =
      [("model", digestOne), ("other", digestTwo)] ∧
    (∃ call error, s.calls 1 = some call ∧ call.phase = .returned (.error error)) ∧ s.Safe := by
  obtain ⟨s₁, hrun₁, hcatalog, hfiles, hcall₁, hcall₂, hwriter, hlock₀, hlock₁⟩ := sample_first
  obtain ⟨s₂, hrun₂, hcatalog, -, hremoving, hcall₂, hwriter, hlock₁⟩ :=
    sample_second hcatalog (by rw [hfiles]; rfl) hcall₁ hcall₂ hwriter hlock₀ hlock₁
  obtain ⟨s₃, hrun₃, hversions, hfailed⟩ := sample_settled hcatalog hremoving hcall₂ hwriter hlock₁
  exact ⟨s₃, hversions, hfailed, artifacts_kept sampleRuntime_injective ((hrun₁.append hrun₂).append hrun₃)⟩

/-- A committed version loses its artifact to the call of another instance that failed to register the
same content. -/
theorem artifacts_lost : ¬ ∀ (runtime : Runtime) (maxArtifactSize : ℕ) (labels : List (StoreLabel ℤ))
    (s : StoreSystem ℤ), Function.Injective runtime.sha256 →
      Run (Step runtime maxArtifactSize) init labels s → s.Safe := by
  intro hclaim
  obtain ⟨s₁, hrun₁, hcatalog, hfiles, hcall₁, hcall₂, hwriter, hlock₀, hlock₁⟩ := sample_first
  obtain ⟨s₂, hrun₂, hcatalog, hfile, hremoving, hcall₂, hwriter, hlock₁⟩ :=
    sample_second hcatalog (by rw [hfiles]; rfl) hcall₁ hcall₂ hwriter hlock₀ hlock₁
  obtain ⟨s₃, hrun₃, hremoving, call, txn, hcall, hphase⟩ :=
    sample_third hcatalog hfile hcall₂ hremoving hwriter hlock₁
  have hrun := (hrun₁.append hrun₂).append hrun₃
  have hlost : ∃ t, Run (Step sampleRuntime 1024) s₃ [.commit 2, .compensate 1] t ∧ ¬ t.Safe :=
    (ArtifactInv.init.run hrun).loses hcall hphase hremoving
  obtain ⟨t, hlost, hunsafe⟩ := hlost
  exact hunsafe (hclaim sampleRuntime 1024 _ t sampleRuntime_injective
    ((hrun.mono fun _ _ _ h => h.1).append hlost))

end StoreSystem

end TextExtraction
