import TextExtraction.ModelStore

/-!
# Staging an artifact

`_stage_artifact`: the loop that reads, checks, counts, hashes and writes an upload, and what it leaves
in the data directory. A stream is the sequence of its `read` results and need not end; the loop takes
at most `max_artifact_size + 1` of them.
-/

namespace TextExtraction

open Python Relational Transition

/-- `hashlib.sha256()`: what it has been fed. -/
structure Hasher where
  fed : Bytes

def Hasher.update (chunk : Bytes) (digest : Hasher) : Hasher := ⟨digest.fed ++ chunk⟩

def Hasher.hexdigest (runtime : Runtime) (digest : Hasher) : String := runtime.sha256 digest.fed

/-- The files of `data_dir`, by name. -/
abbrev Directory := String → Option Bytes

/-- What `_stage_artifact` returns. -/
structure StagedArtifact where
  temporaryPath : String
  digest : String
  size : ℕ

/-- The variables of the loop, and what it has written to `output`. -/
structure StageState where
  digest : Hasher
  size : ℕ
  output : Bytes

/-- The loop from the `n`-th `artifact.read` on. `none` means out of fuel. -/
def stageLoop (maxArtifactSize : ℕ) (stream : ℕ → ReadResult) :
    ℕ → ℕ → StageState → Option (Except ModelStoreError Unit × StageState)
  | 0, _, _ => none
  | fuel + 1, n, s =>
    match stream n with
    | .raises => some (.error .unreadable, s)
    | .falsy | .chunk [] => some (.ok (), s)
    | .notBytes => some (.error .notBinary, s)
    | .chunk bytes =>
      let size := s.size + bytes.length
      if maxArtifactSize < size then some (.error (.tooLarge maxArtifactSize), { s with size })
      else stageLoop maxArtifactSize stream fuel (n + 1)
        { digest := s.digest.update bytes, size, output := s.output ++ bytes }

/-- `_stage_artifact`, with `temporary` the name `mkstemp` has picked. -/
def stageArtifact (runtime : Runtime) (maxArtifactSize : ℕ) (temporary : String)
    (stream : ℕ → ReadResult) (fuel : ℕ) (data : Directory) :
    Option (Except ModelStoreError StagedArtifact × Directory) :=
  match stageLoop maxArtifactSize stream fuel 0 ⟨⟨[]⟩, 0, []⟩ with
  | none => none
  | some (.error error, _) => some (.error error, Function.update data temporary none)
  | some (.ok (), s) =>
    if s.size = 0 then some (.error .required, Function.update data temporary none)
    else some (.ok ⟨temporary, s.digest.hexdigest runtime, s.size⟩,
      Function.update data temporary (some s.output))

/-! ### The stream as its chunks -/

/-- The first `n` reads are non-empty chunks, `content` their concatenation. -/
inductive Reads (stream : ℕ → ReadResult) : ℕ → Bytes → Prop
  | zero : Reads stream 0 []
  | succ {n : ℕ} {content bytes : Bytes} : Reads stream n content → stream n = .chunk bytes →
      bytes ≠ [] → Reads stream (n + 1) (content ++ bytes)

/-- A read that ends the stream: a falsy result, such as the empty chunk. -/
def Ends (result : ReadResult) : Prop := result = .falsy ∨ result = .chunk []

/-- How the loop ends at a read that follows `content`. -/
inductive StageEnd (maxArtifactSize : ℕ) (content : Bytes) : ReadResult → Except ModelStoreError Unit → Prop
  | ends {result : ReadResult} : Ends result → StageEnd maxArtifactSize content result (.ok ())
  | unreadable : StageEnd maxArtifactSize content .raises (.error .unreadable)
  | notBinary : StageEnd maxArtifactSize content .notBytes (.error .notBinary)
  | tooLarge {bytes : Bytes} : bytes ≠ [] → maxArtifactSize < content.length + bytes.length →
      StageEnd maxArtifactSize content (.chunk bytes) (.error (.tooLarge maxArtifactSize))

namespace Reads

variable {stream : ℕ → ReadResult} {n m : ℕ} {content content' : Bytes}

theorem unique (h : Reads stream n content) (h' : Reads stream n content') : content = content' := by
  induction h generalizing content' with
  | zero => rcases h' with - | -; rfl
  | succ _ hbytes _ ih =>
    rcases h' with - | ⟨hreads', hbytes', -⟩
    rw [hbytes] at hbytes'
    injection hbytes' with hbytes'
    rw [ih hreads', hbytes']

/-- A read before the `n`-th was a chunk, and the concatenation only grows from there. -/
theorem of_lt (h : Reads stream n content) (hm : m < n) : ∃ before bytes, Reads stream m before ∧
    stream m = .chunk bytes ∧ bytes ≠ [] ∧ before.length + bytes.length ≤ content.length := by
  induction h with
  | zero => omega
  | @succ k before bytes hreads hbytes hne ih =>
    rcases Nat.lt_succ_iff_lt_or_eq.1 hm with hlt | rfl
    · obtain ⟨before', bytes', hreads', hbytes', hne', hlen⟩ := ih hlt
      refine ⟨before', bytes', hreads', hbytes', hne', ?_⟩
      rw [List.length_append]
      omega
    · exact ⟨before, bytes, hreads, hbytes, hne, by simp⟩

theorem le_of_ends (h : Reads stream n content) (hends : Ends (stream m)) : n ≤ m := by
  by_contra hlt
  obtain ⟨-, bytes, -, hbytes, hne, -⟩ := h.of_lt (not_le.1 hlt)
  simp [Ends, hbytes, hne] at hends

theorem unique_of_ends (h : Reads stream n content) (hends : Ends (stream n))
    (h' : Reads stream m content') (hends' : Ends (stream m)) : content = content' := by
  obtain rfl : n = m := le_antisymm (h.le_of_ends hends') (h'.le_of_ends hends)
  exact h.unique h'

end Reads

/-! ### Where the loop stops -/

namespace StageEnd

variable {maxArtifactSize n m : ℕ} {stream : ℕ → ReadResult} {content content' : Bytes}
  {result : ReadResult} {outcome outcome' : Except ModelStoreError Unit}

theorem unique (h : StageEnd maxArtifactSize content result outcome)
    (h' : StageEnd maxArtifactSize content result outcome') : outcome = outcome' := by
  rcases h with hends | - | - | ⟨hne, -⟩ <;> rcases h' with hends' | - | - | ⟨hne', -⟩ <;>
    simp_all [Ends]

theorem ends_of_ok (h : StageEnd maxArtifactSize content result (.ok ())) : Ends result := by
  rcases h with ⟨hends⟩
  exact hends

theorem exists_chunk {limit : ℕ} (h : StageEnd maxArtifactSize content result (.error (.tooLarge limit))) :
    ∃ bytes, result = .chunk bytes ∧ bytes ≠ [] ∧ maxArtifactSize < content.length + bytes.length := by
  rcases h with - | - | - | ⟨hne, hlarge⟩
  exact ⟨_, rfl, hne, hlarge⟩

theorem not_chunk {bytes : Bytes} (hne : bytes ≠ [])
    (hfits : content.length + bytes.length ≤ maxArtifactSize) :
    ¬StageEnd maxArtifactSize content (.chunk bytes) outcome := by
  rintro (hends | - | - | ⟨-, hlarge⟩)
  · simp [Ends, hne] at hends
  · omega

theorem not_before (h : StageEnd maxArtifactSize content (stream n) outcome)
    (hreads : Reads stream n content) (hreads' : Reads stream m content')
    (hfits : content'.length ≤ maxArtifactSize) : m ≤ n := by
  by_contra hlt
  obtain ⟨before, bytes, hbefore, hbytes, hne, hlen⟩ := hreads'.of_lt (not_le.1 hlt)
  obtain rfl := hbefore.unique hreads
  rw [hbytes] at h
  exact not_chunk hne (by omega) h

theorem unique_of_reads (h : StageEnd maxArtifactSize content (stream n) outcome)
    (h' : StageEnd maxArtifactSize content' (stream m) outcome') (hreads : Reads stream n content)
    (hreads' : Reads stream m content') (hfits : content.length ≤ maxArtifactSize)
    (hfits' : content'.length ≤ maxArtifactSize) : content = content' ∧ outcome = outcome' := by
  obtain rfl : n = m :=
    le_antisymm (h'.not_before hreads' hreads hfits) (h.not_before hreads hreads' hfits')
  obtain rfl := hreads.unique hreads'
  exact ⟨rfl, h.unique h'⟩

end StageEnd

section Loop

variable {maxArtifactSize : ℕ} {stream : ℕ → ReadResult}

/-- The loop has read, hashed and written `content`. -/
def StageState.after (content : Bytes) : StageState := ⟨⟨content⟩, content.length, content⟩

theorem StageState.after_append (content bytes : Bytes) :
    { digest := (StageState.after content).digest.update bytes, size := content.length + bytes.length,
      output := (StageState.after content).output ++ bytes } = StageState.after (content ++ bytes) := by
  rw [StageState.after, StageState.after, List.length_append]
  rfl

/-- From `content` on the loop comes to the place where it ends, within `maxArtifactSize` bytes; only
the count of a chunk that is too large goes beyond what has been written. -/
theorem stageLoop_spec (fuel n : ℕ) {content : Bytes} (hreads : Reads stream n content)
    (hfits : content.length ≤ maxArtifactSize) (hfuel : maxArtifactSize < fuel + content.length) :
    ∃ m content' outcome s, Reads stream m content' ∧ content'.length ≤ maxArtifactSize ∧
      StageEnd maxArtifactSize content' (stream m) outcome ∧
      stageLoop maxArtifactSize stream fuel n (.after content) = some (outcome, s) ∧
      s.output = content' ∧ (outcome = .ok () → s = .after content') := by
  induction fuel generalizing n content with
  | zero => omega
  | succ fuel ih =>
    rcases hread : stream n with bytes | - | - | -
    · rcases eq_or_ne bytes [] with rfl | hne
      · exact ⟨n, content, .ok (), .after content, hreads, hfits, hread ▸ .ends (.inr rfl),
          by rw [stageLoop, hread], rfl, fun _ => rfl⟩
      · obtain ⟨b, bs, rfl⟩ := List.exists_cons_of_ne_nil hne
        rcases lt_or_ge maxArtifactSize (content.length + (b :: bs).length) with hlarge | hsmall
        · refine ⟨n, content, .error (.tooLarge maxArtifactSize), { StageState.after content with
            size := content.length + (b :: bs).length }, hreads, hfits, hread ▸ .tooLarge hne hlarge, ?_, rfl, ?_⟩
          · rw [stageLoop, hread]
            exact if_pos hlarge
          · rintro ⟨⟩
        · have hlen : (content ++ b :: bs).length = content.length + (b :: bs).length :=
            List.length_append
          obtain ⟨m, content', outcome, s, hreads', hfits', hend, hloop, hs⟩ :=
            ih (n + 1) (hreads.succ hread hne) (by omega)
              (by rw [hlen, List.length_cons]; omega)
          refine ⟨m, content', outcome, s, hreads', hfits', hend, ?_, hs⟩
          rw [stageLoop, hread, ← hloop]
          show (if maxArtifactSize < content.length + (b :: bs).length then _ else _) = _
          rw [if_neg (not_lt.2 hsmall), ← StageState.after_append]
          rfl
    · exact ⟨n, content, .ok (), .after content, hreads, hfits, hread ▸ .ends (.inl rfl),
        by rw [stageLoop, hread], rfl, fun _ => rfl⟩
    · exact ⟨n, content, .error .notBinary, .after content, hreads, hfits, hread ▸ .notBinary,
        by rw [stageLoop, hread], rfl, by rintro ⟨⟩⟩
    · exact ⟨n, content, .error .unreadable, .after content, hreads, hfits, hread ▸ .unreadable,
        by rw [stageLoop, hread], rfl, by rintro ⟨⟩⟩

/-- Nothing is written beyond the limit. -/
theorem stageLoop_output_le {fuel n : ℕ} {s s' : StageState} {outcome : Except ModelStoreError Unit}
    (hsize : s.output.length = s.size) (hfits : s.size ≤ maxArtifactSize)
    (h : stageLoop maxArtifactSize stream fuel n s = some (outcome, s')) :
    s'.output.length ≤ maxArtifactSize := by
  fun_induction stageLoop maxArtifactSize stream fuel n s with
  | case1 => simp at h
  | case2 | case3 | case4 | case5 =>
    simp only [Option.some.injEq, Prod.mk.injEq] at h
    obtain ⟨-, rfl⟩ := h
    omega
  | case6 _ _ s =>
    simp only [Option.some.injEq, Prod.mk.injEq] at h
    obtain ⟨-, rfl⟩ := h
    show s.output.length ≤ maxArtifactSize
    omega
  | case7 fuel n s bytes hread hne size hfits' ih =>
    refine ih ?_ (not_lt.1 hfits') h
    rw [List.length_append, hsize]

end Loop

/-! ### What staging leaves -/

section Staging

variable {runtime : Runtime} {maxArtifactSize : ℕ} {stream : ℕ → ReadResult} {temporary : String}
  {data : Directory} {fuel : ℕ}

/-- The result of a loop that ended after `content`, and the directory with it. -/
def stageResult (runtime : Runtime) (temporary : String) (data : Directory) (content : Bytes) :
    Except ModelStoreError Unit → Except ModelStoreError StagedArtifact × Directory
  | .error error => (.error error, Function.update data temporary none)
  | .ok () =>
    if content.length = 0 then (.error .required, Function.update data temporary none)
    else (.ok ⟨temporary, runtime.sha256 content, content.length⟩,
      Function.update data temporary (some content))

/-- `maxArtifactSize + 1` reads are enough: the loop comes to its end and gives the result for it. -/
theorem exists_stageEnd (runtime : Runtime) (maxArtifactSize : ℕ) (stream : ℕ → ReadResult)
    (temporary : String) (data : Directory) :
    ∃ n content outcome, Reads stream n content ∧ content.length ≤ maxArtifactSize ∧
      StageEnd maxArtifactSize content (stream n) outcome ∧ ∀ fuel, maxArtifactSize < fuel →
        stageArtifact runtime maxArtifactSize temporary stream fuel data =
          some (stageResult runtime temporary data content outcome) := by
  have hzero : Reads stream 0 [] := .zero
  obtain ⟨n, content, outcome, -, hreads, hfits, hend, -⟩ :=
    stageLoop_spec (maxArtifactSize + 1) 0 hzero (Nat.zero_le maxArtifactSize) (by omega)
  refine ⟨n, content, outcome, hreads, hfits, hend, fun fuel hfuel => ?_⟩
  obtain ⟨m, content', outcome', s, hreads', hfits', hend', hloop, -, hok⟩ :=
    stageLoop_spec fuel 0 hzero (Nat.zero_le maxArtifactSize) (by simpa using hfuel)
  obtain ⟨rfl, rfl⟩ := hend.unique_of_reads hend' hreads hreads' hfits hfits'
  rw [stageArtifact, show (⟨⟨[]⟩, 0, []⟩ : StageState) = .after [] from rfl, hloop]
  rcases outcome with error | ⟨⟩
  · rfl
  · obtain rfl := hok rfl
    show (if content.length = 0 then _ else _) = _
    rw [stageResult]
    split <;> rfl

/-- The result that belongs to the place where the loop ends is the one that comes. -/
theorem stageArtifact_of_stageEnd {n : ℕ} {content : Bytes} {outcome : Except ModelStoreError Unit}
    (hreads : Reads stream n content) (hfits : content.length ≤ maxArtifactSize)
    (hend : StageEnd maxArtifactSize content (stream n) outcome) (hfuel : maxArtifactSize < fuel) :
    stageArtifact runtime maxArtifactSize temporary stream fuel data =
      some (stageResult runtime temporary data content outcome) := by
  obtain ⟨m, content', outcome', hreads', hfits', hend', hresult⟩ :=
    exists_stageEnd runtime maxArtifactSize stream temporary data
  obtain ⟨rfl, rfl⟩ := hend.unique_of_reads hend' hreads hreads' hfits hfits'
  exact hresult fuel hfuel

/-- More than the limit has been read: the loop ends at the chunk that passes it. -/
theorem Reads.exists_tooLarge {n : ℕ} {content : Bytes} (hreads : Reads stream n content)
    (hlarge : maxArtifactSize < content.length) : ∃ m before, Reads stream m before ∧
      before.length ≤ maxArtifactSize ∧
      StageEnd maxArtifactSize before (stream m) (.error (.tooLarge maxArtifactSize)) := by
  induction hreads with
  | zero => simp at hlarge
  | @succ n content bytes hreads hbytes hne ih =>
    rcases lt_or_ge maxArtifactSize content.length with hlt | hfits
    · exact ih hlt
    · rw [List.length_append] at hlarge
      exact ⟨n, content, hreads, hfits, hbytes ▸ .tooLarge hne hlarge⟩

/-- `stageResult` is a success only after a loop that ended with something in the file. -/
theorem stageResult_ok_iff {content : Bytes} {outcome : Except ModelStoreError Unit}
    {staged : StagedArtifact} :
    (stageResult runtime temporary data content outcome).1 = .ok staged ↔
      outcome = .ok () ∧ content.length ≠ 0 ∧
        staged = ⟨temporary, runtime.sha256 content, content.length⟩ := by
  rcases outcome with error | ⟨⟩
  · simp [stageResult]
  · rw [stageResult]
    split
    · simp_all
    · simp_all [eq_comm]

theorem stageResult_tooLarge_iff {content : Bytes} {outcome : Except ModelStoreError Unit} {limit : ℕ} :
    (stageResult runtime temporary data content outcome).1 = .error (.tooLarge limit) ↔
      outcome = .error (.tooLarge limit) := by
  rcases outcome with error | ⟨⟩
  · simp [stageResult]
  · rw [stageResult]
    split <;> simp

theorem stageResult_error {content : Bytes} {outcome : Except ModelStoreError Unit}
    {error : ModelStoreError} (h : (stageResult runtime temporary data content outcome).1 = .error error) :
    (stageResult runtime temporary data content outcome).2 = Function.update data temporary none := by
  rcases outcome with error | ⟨⟩
  · rfl
  · rw [stageResult] at h ⊢
    split
    · rfl
    · rename_i hne
      rw [if_neg hne] at h
      simp at h

end Staging

/-! ### Exactness -/

section Exactness

variable {runtime : Runtime} {maxArtifactSize : ℕ} {stream stream' : ℕ → ReadResult} {temporary : String}
  {data : Directory}

/-- Streams with one concatenation are staged alike, however they are split. -/
theorem stageArtifact_congr {n n' fuel fuel' : ℕ} {content : Bytes} (hreads : Reads stream n content)
    (hends : Ends (stream n)) (hreads' : Reads stream' n' content) (hends' : Ends (stream' n'))
    (hfuel : maxArtifactSize < fuel) (hfuel' : maxArtifactSize < fuel') :
    stageArtifact runtime maxArtifactSize temporary stream fuel data =
      stageArtifact runtime maxArtifactSize temporary stream' fuel' data := by
  rcases le_or_gt content.length maxArtifactSize with hfits | hlarge
  · rw [stageArtifact_of_stageEnd hreads hfits (.ends hends) hfuel,
      stageArtifact_of_stageEnd hreads' hfits (.ends hends') hfuel']
  · obtain ⟨m, before, hbefore, hfits, hend⟩ := hreads.exists_tooLarge hlarge
    obtain ⟨m', before', hbefore', hfits', hend'⟩ := hreads'.exists_tooLarge hlarge
    rw [stageArtifact_of_stageEnd hbefore hfits hend hfuel,
      stageArtifact_of_stageEnd hbefore' hfits' hend' hfuel']
    rfl

/-- `_stage_artifact` ends on every stream, and is exact: it succeeds on a stream of 1 to
`max_artifact_size` bytes, however it is cut, and leaves exactly these; it reports a stream as too large
when the limit is passed before anything else is wrong; it never writes more than the limit, and a
failure leaves the directory as it was. -/
theorem stage_artifact_exact (runtime : Runtime) (maxArtifactSize : ℕ) (stream : ℕ → ReadResult)
    (temporary : String) (data : Directory) (hfresh : data temporary = none) :
    ∃ result data',
      (∀ fuel, maxArtifactSize < fuel →
        stageArtifact runtime maxArtifactSize temporary stream fuel data = some (result, data')) ∧
      ((∃ staged, result = .ok staged) ↔ ∃ n content, Reads stream n content ∧ Ends (stream n) ∧
        1 ≤ content.length ∧ content.length ≤ maxArtifactSize) ∧
      (∀ staged n content, result = .ok staged → Reads stream n content → Ends (stream n) →
        staged = ⟨temporary, runtime.sha256 content, content.length⟩ ∧
          data' = Function.update data temporary (some content)) ∧
      ((∃ limit, result = .error (.tooLarge limit)) ↔
        ∃ n content, Reads stream n content ∧ maxArtifactSize < content.length) ∧
      (∀ fuel outcome s, stageLoop maxArtifactSize stream fuel 0 ⟨⟨[]⟩, 0, []⟩ = some (outcome, s) →
        s.output.length ≤ maxArtifactSize) ∧
      (∀ error, result = .error error → data' = data) ∧
      ∀ stream' n n' content fuel, Reads stream n content → Ends (stream n) →
        Reads stream' n' content → Ends (stream' n') → maxArtifactSize < fuel →
        stageArtifact runtime maxArtifactSize temporary stream' fuel data = some (result, data') := by
  obtain ⟨n, content, outcome, hreads, hfits, hend, hresult⟩ :=
    exists_stageEnd runtime maxArtifactSize stream temporary data
  refine ⟨(stageResult runtime temporary data content outcome).1,
    (stageResult runtime temporary data content outcome).2, hresult, ?_, ?_, ?_, ?_, ?_, ?_⟩
  · constructor
    · rintro ⟨staged, hstaged⟩
      obtain ⟨rfl, hlen, -⟩ := stageResult_ok_iff.1 hstaged
      exact ⟨n, content, hreads, hend.ends_of_ok, by omega, hfits⟩
    · rintro ⟨m, content', hreads', hends, hlen, hfits'⟩
      obtain ⟨rfl, rfl⟩ := hend.unique_of_reads (.ends hends) hreads hreads' hfits hfits'
      exact ⟨_, stageResult_ok_iff.2 ⟨rfl, by omega, rfl⟩⟩
  · intro staged m content' hstaged hreads' hends
    obtain ⟨rfl, hlen, rfl⟩ := stageResult_ok_iff.1 hstaged
    obtain rfl := hreads.unique_of_ends hend.ends_of_ok hreads' hends
    exact ⟨rfl, by rw [stageResult, if_neg hlen]⟩
  · constructor
    · rintro ⟨limit, hlimit⟩
      obtain rfl := stageResult_tooLarge_iff.1 hlimit
      obtain ⟨bytes, hbytes, hne, hlarge⟩ := hend.exists_chunk
      exact ⟨n + 1, content ++ bytes, hreads.succ hbytes hne, by rwa [List.length_append]⟩
    · rintro ⟨m, content', hreads', hlarge⟩
      obtain ⟨m, before, hbefore, hfits', hend'⟩ := hreads'.exists_tooLarge hlarge
      obtain ⟨rfl, rfl⟩ := hend.unique_of_reads hend' hreads hbefore hfits hfits'
      exact ⟨maxArtifactSize, rfl⟩
  · intro fuel outcome s hloop
    exact stageLoop_output_le rfl (Nat.zero_le _) hloop
  · intro error herror
    rw [stageResult_error herror, ← hfresh, Function.update_eq_self]
  · intro stream' m m' content' fuel hreads' hends hreads'' hends' hfuel
    rw [← stageArtifact_congr hreads' hends hreads'' hends' hfuel hfuel]
    exact hresult fuel hfuel

/-- `b"two"` in two reads. -/
def splitStream : ℕ → ReadResult
  | 0 => .chunk [116]
  | 1 => .chunk [119, 111]
  | _ => .chunk []

theorem reads_splitStream : Reads splitStream 2 [116, 119, 111] := by
  have hone : Reads splitStream 1 [116] := Reads.zero.succ rfl (List.cons_ne_nil 116 [])
  exact hone.succ rfl (List.cons_ne_nil 119 [111])

theorem stage_artifact_exact_split : ∃ data' staged, ∀ fuel, 1024 < fuel →
    stageArtifact ⟨fun _ => "3fc4ccfe745870e2c0d99f71f30ff0656c8dedd41cc1d7d3d376b0dbe685e2f3", id⟩ 1024
      "upload-1" splitStream fuel (fun _ => none) = some (.ok staged, data') := by
  obtain ⟨result, data', hresult, hok, -⟩ := stage_artifact_exact
    ⟨fun _ => "3fc4ccfe745870e2c0d99f71f30ff0656c8dedd41cc1d7d3d376b0dbe685e2f3", id⟩ 1024 splitStream
    "upload-1" (fun _ => none) rfl
  obtain ⟨staged, rfl⟩ := hok.2 ⟨2, _, reads_splitStream, .inr rfl, by decide, by decide⟩
  exact ⟨data', staged, hresult⟩

end Exactness

/-! ### The rounds of `StoreSystem` -/

namespace StoreSystem

variable {τ : Type} {runtime : Runtime} {maxArtifactSize : ℕ} {stream : ℕ → ReadResult}
  {s : StoreSystem τ} {c : ℕ} {call : RegisterCall τ}

theorem goto_goto (phase phase' : RegisterPhase τ) :
    (s.goto c call phase).goto c { call with phase } phase' = s.goto c call phase' := by
  simp [goto]

theorem stageRead_of_chunk {content bytes : Bytes} (hne : bytes ≠ [])
    (hfits : content.length + bytes.length ≤ maxArtifactSize) :
    stageRead (τ := τ) maxArtifactSize content (.chunk bytes) = .staging (content ++ bytes) := by
  obtain ⟨b, bs, rfl⟩ := List.exists_cons_of_ne_nil hne
  exact if_neg (not_lt.2 hfits)

/-- The phase after a loop that ended after `content`. -/
def stagePhase (content : Bytes) : Except ModelStoreError Unit → RegisterPhase τ
  | .ok () => finishStage content
  | .error error => .returned (.error error)

theorem stageRead_of_stageEnd {content : Bytes} {result : ReadResult}
    {outcome : Except ModelStoreError Unit} (h : StageEnd maxArtifactSize content result outcome) :
    stageRead (τ := τ) maxArtifactSize content result = stagePhase content outcome := by
  rcases h with ⟨rfl | rfl⟩ | - | - | ⟨hne, hlarge⟩
  · rfl
  · rfl
  · rfl
  · rfl
  · obtain ⟨b, bs, rfl⟩ := List.exists_cons_of_ne_nil hne
    exact if_pos hlarge

theorem run_reads {n : ℕ} {content : Bytes} (hreads : Reads stream n content)
    (hfits : content.length ≤ maxArtifactSize) (hcall : s.calls c = some call)
    (hphase : call.phase = .staging []) :
    Run (Step runtime maxArtifactSize) s ((List.range n).map fun k => .read c (stream k))
      (s.goto c call (.staging content)) := by
  induction hreads with
  | zero =>
    rw [← hphase, goto, ← hcall, Function.update_eq_self]
    exact .nil s
  | @succ n content bytes hreads hbytes hne ih =>
    rw [List.length_append] at hfits
    rw [List.range_succ, List.map_append]
    refine (ih (by omega)).append ?_
    have hstep : Step runtime maxArtifactSize (s.goto c call (.staging content))
        (.read c (stream n)) _ := .read (Function.update_self ..) rfl
    rw [hbytes, stageRead_of_chunk hne hfits, goto_goto] at hstep
    simpa [hbytes] using Run.single hstep

theorem stagePhase_stageResult (temporary : String) (data : Directory) (content : Bytes)
    (outcome : Except ModelStoreError Unit) :
    ((stageResult runtime temporary data content outcome).1 =
        .ok ⟨temporary, runtime.sha256 content, content.length⟩ ∧
      stagePhase (τ := τ) content outcome = .staged content) ∨
      ∃ error, (stageResult runtime temporary data content outcome).1 = .error error ∧
        stagePhase (τ := τ) content outcome = .returned (.error error) := by
  rcases outcome with error | ⟨⟩
  · exact .inr ⟨error, rfl, rfl⟩
  · rcases eq_or_ne content.length 0 with hempty | hne
    · exact .inr ⟨.required, by rw [stageResult, if_pos hempty], if_pos hempty⟩
    · exact .inl ⟨by rw [stageResult, if_neg hne], if_neg hne⟩

/-- A call that stages alone goes the way of `_stage_artifact`. -/
theorem run_staging (temporary : String) (data : Directory) (hcall : s.calls c = some call)
    (hphase : call.phase = .staging []) : ∃ n phase result data',
      stageArtifact runtime maxArtifactSize temporary stream (maxArtifactSize + 1) data =
        some (result, data') ∧
      Run (Step runtime maxArtifactSize) s ((List.range n).map fun k => .read c (stream k))
        (s.goto c call phase) ∧
      ((∃ content, result = .ok ⟨temporary, runtime.sha256 content, content.length⟩ ∧
          phase = .staged content) ∨
        ∃ error, result = .error error ∧ phase = .returned (.error error)) := by
  obtain ⟨n, content, outcome, hreads, hfits, hend, hresult⟩ :=
    exists_stageEnd runtime maxArtifactSize stream temporary data
  have hstep : Step runtime maxArtifactSize (s.goto c call (.staging content)) (.read c (stream n)) _ :=
    .read (Function.update_self ..) rfl
  rw [stageRead_of_stageEnd hend, goto_goto] at hstep
  have hrun := (run_reads hreads hfits hcall hphase).snoc hstep
  rw [← List.map_singleton (f := fun k => StoreLabel.read c (stream k)), ← List.map_append,
    ← List.range_succ] at hrun
  refine ⟨n + 1, _, _, _, hresult _ (Nat.lt_succ_self _), hrun, ?_⟩
  rcases stagePhase_stageResult temporary data content outcome with hok | herror
  · exact .inl ⟨content, hok⟩
  · exact .inr herror

end StoreSystem

end TextExtraction
