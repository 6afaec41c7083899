import TextExtraction.Lib.PyEq
import TextExtraction.ModelFailures

/-!
# What becomes of metadata

`ModelService.register` lets metadata through that `json.dumps` takes; the store writes it with sorted
keys, and `get` reads what was written. The two encodings do not refuse the same dicts, and the decoder
is no inverse of either: what is read equals what was registered exactly for plain metadata, which is
all that `parse_metadata` returns.
-/

namespace TextExtraction

open Python Relational Transition

variable {τ : Type} {runtime : Runtime} {maxArtifactSize : ℕ}

/-! ### `parse_metadata` -/

/-- The text of a form field, as `json.loads` takes it. -/
inductive FieldText
  | empty
  /-- No JSON: `JSONDecodeError`. -/
  | malformed
  /-- JSON that is not read for another reason: a number with too many digits, too many brackets. -/
  | refused (error : Exc)
  | document (doc : Json)

/-- `parse_metadata`. -/
def parseMetadata : Option FieldText → Except Exc Value
  | none | some .empty => .ok (.dict [])
  | some .malformed => .error (.raised .valueError "metadata must be a valid JSON object")
  | some (.refused error) => .error error
  | some (.document doc) =>
    match loads doc with
    | .dict items => .ok (.dict items)
    | _ => .error (.raised .valueError "metadata must be a JSON object")

theorem parseMetadata_plain {text : Option FieldText} {metadata : Value} (h : parseMetadata text = .ok metadata) :
    metadata.Plain true ∧ ∃ items, metadata = .dict items := by
  unfold parseMetadata at h
  split at h
  · obtain rfl : Value.dict [] = metadata := Except.ok.inj h
    exact ⟨⟨.nil, trivial⟩, _, rfl⟩
  · obtain rfl : Value.dict [] = metadata := Except.ok.inj h
    exact ⟨⟨.nil, trivial⟩, _, rfl⟩
  · simp at h
  · simp at h
  · rename_i doc
    split at h
    · rename_i items hdoc
      obtain rfl : Value.dict items = metadata := Except.ok.inj h
      rw [← hdoc]
      exact ⟨plain_loads doc, items, hdoc⟩
    · simp at h

/-! ### Registering -/

theorem ModelService.checkMetadata_eq_ok_iff {items : List (Key × Value)} :
    checkMetadata (.dict items) = .ok (.dict items) ↔ ∃ j, dumps false (.dict items) = .ok j := by
  rw [checkMetadata]
  rcases hdumps : dumps false (.dict items) with error | j
  · simp only [reduceCtorEq, exists_false, iff_false]
    split <;> simp
  · simp

/-- The arguments of `ModelService.register` other than the metadata, with what its surroundings do. -/
structure RegisterArgs (τ : Type) where
  modelName : String
  version : Option VersionArg
  description : Option String
  stream : ℕ → ReadResult
  temporary : String
  now : τ
  faults : RegisterPoint → Option Exc

namespace RegisterArgs

variable {args : RegisterArgs τ} {w : World τ} {metadata : Value}

def call (args : RegisterArgs τ) (metadata : Value) : ServiceCall τ :=
  .register (.str args.modelName) args.version args.description metadata args.stream args.temporary args.now
    args.faults

/-- The registration succeeds with this metadata and, whatever is called afterwards, `get` gives the
version with metadata of which `P` holds. -/
def Returns (runtime : Runtime) (maxArtifactSize : ℕ) (args : RegisterArgs τ) (w : World τ)
    (metadata : Value) (P : Value → Prop) : Prop :=
  ∃ record w', (args.call metadata).perform runtime maxArtifactSize w = some (.ok record, w') ∧
    ∀ calls later, Run (World.Step runtime maxArtifactSize) w' calls later →
      ∃ read, later.catalog.get runtime args.modelName record.version = .ok read ∧ P read.metadata

theorem Returns.mono {P Q : Value → Prop} (h : args.Returns runtime maxArtifactSize w metadata P)
    (hpq : ∀ read, P read → Q read) : args.Returns runtime maxArtifactSize w metadata Q := by
  obtain ⟨record, w', hperform, hget⟩ := h
  refine ⟨record, w', hperform, ?_⟩
  intro calls later hrun
  obtain ⟨read, hread, hp⟩ := hget calls later hrun
  exact ⟨read, hread, hpq _ hp⟩

theorem exists_validate {record : ModelVersion τ} {w' : World τ}
    (h : (args.call metadata).perform runtime maxArtifactSize w = some (.ok record, w')) :
    ∃ r, ModelService.validate (.str args.modelName) args.version args.description metadata = .ok r := by
  rw [call, ServiceCall.perform] at h
  rcases hvalid : ModelService.validate (.str args.modelName) args.version args.description metadata with error | r
  · rw [hvalid] at h
    simp at h
  · exact ⟨r, rfl⟩

/-- A registration that succeeds without metadata succeeds with any that is accepted and that can be
written with sorted keys; what was written is what is read. -/
theorem returns_of_dumps (hinv : World.Inv runtime w)
    (hwithout : ∃ record w', (args.call (.dict [])).perform runtime maxArtifactSize w = some (.ok record, w'))
    (haccepted : ModelService.checkMetadata metadata = .ok metadata) {j : Json}
    (hj : dumps true metadata = .ok j) : args.Returns runtime maxArtifactSize w metadata (· = loads j) := by
  obtain ⟨record₀, w₀, hperform₀⟩ := hwithout
  obtain ⟨r₀, hvalid₀⟩ := exists_validate hperform₀
  have hsubmits₀ : (args.call (.dict [])).Submits r₀ args.stream args.now args.faults := .intro hvalid₀
  obtain ⟨result₀, w₁, hperforms₀, hregisters₀⟩ := hinv.perform_submits maxArtifactSize hsubmits₀
  obtain ⟨rfl, rfl⟩ := Prod.mk.inj (Option.some.inj (hperform₀.symm.trans hperforms₀))
  obtain ⟨huploads, hfaults, haccepts⟩ := (hregisters₀.ok_iff hinv.catalog hsubmits₀.valid).1 ⟨record₀, rfl⟩
  -- only the metadata differs, on which neither the version nor its freshness depends
  obtain ⟨hname, hversion, -, hdescription⟩ := ModelService.validate_eq_ok_iff.1 hvalid₀
  have hsubmits : (args.call metadata).Submits { r₀ with metadata } args.stream args.now args.faults :=
    .intro (ModelService.validate_eq_ok_iff.2 ⟨hname, hversion, haccepted, hdescription⟩)
  obtain ⟨result, w', hperform, hregisters⟩ := hinv.perform_submits maxArtifactSize hsubmits
  obtain ⟨record, rfl⟩ := (hregisters.ok_iff hinv.catalog hsubmits.valid).2
    ⟨huploads, hfaults, ⟨j, hj⟩, haccepts.version, haccepts.fresh⟩
  obtain ⟨-, -, hget, metadataJson, hjson, hmetadata⟩ := hregisters.answers hinv.catalog rfl
  refine ⟨record, w', hperform, ?_⟩
  intro calls later hrun
  have hinv' : World.Inv runtime w' := hinv.performs (.registers hsubmits hregisters)
  obtain ⟨status, hkept⟩ := (World.Keeps.run hinv' hrun).catalog.get hget
  have hmodel : r₀.modelName = args.modelName := by
    rw [ModelService.checkName] at hname
    split at hname
    · simp at hname
    · exact (Except.ok.inj hname).symm
  rw [← hmodel]
  refine ⟨_, hkept, hmetadata.trans (congrArg loads ?_)⟩
  exact Except.ok.inj (hjson.symm.trans hj)

end RegisterArgs

/-- Metadata survives registration as JSON. A registration that succeeds without metadata succeeds with
any that is accepted and whose keys compare, and `get` gives from then on what the stored text spells,
which is equal to the metadata if and only if the metadata is plain; and what `parse_metadata` returns is
accepted and comes back equal. -/
theorem metadata_survives_as_json {calls : List (ServiceCall τ × Except ModelError (ModelVersion τ))}
    {w : World τ} (hrun : Run (World.Step runtime maxArtifactSize) World.init calls w) (args : RegisterArgs τ)
    (hwithout : ∃ record w', (args.call (.dict [])).perform runtime maxArtifactSize w = some (.ok record, w')) :
    (∀ metadata, ModelService.checkMetadata metadata = .ok metadata → metadata.Sortable →
      args.Returns runtime maxArtifactSize w metadata fun read =>
        (∃ j, dumps true metadata = .ok j ∧ read = loads j) ∧
          ∀ shared, metadata.eq shared read = true ↔ metadata.Plain shared) ∧
    (∀ text metadata, parseMetadata text = .ok metadata →
      ModelService.checkMetadata metadata = .ok metadata ∧
        args.Returns runtime maxArtifactSize w metadata fun read => metadata.eq true read = true) := by
  have hinv : World.Inv runtime w := World.Inv.init.run hrun
  constructor
  · intro metadata haccepted hsort
    obtain ⟨items, rfl⟩ : ∃ items, metadata = .dict items := by
      cases metadata <;> simp [ModelService.checkMetadata] at haccepted ⊢
    obtain ⟨j, hj⟩ := (exists_dumps_sorted_iff _).2 ⟨hsort, ModelService.checkMetadata_eq_ok_iff.1 haccepted⟩
    refine (RegisterArgs.returns_of_dumps hinv hwithout haccepted hj).mono ?_
    rintro read rfl
    exact ⟨⟨j, hj, rfl⟩, fun shared => eq_loads_iff shared _ j hj⟩
  · intro text metadata htext
    obtain ⟨hplain, items, rfl⟩ := parseMetadata_plain htext
    obtain ⟨j, hj, -⟩ := loads_dumps_of_plain _ hplain
    have haccepted := ModelService.checkMetadata_eq_ok_iff.2 ((exists_dumps_sorted_iff _).1 ⟨j, hj⟩).2
    refine ⟨haccepted, (RegisterArgs.returns_of_dumps hinv hwithout haccepted hj).mono ?_⟩
    rintro read rfl
    exact (eq_loads_iff true _ j hj).2 hplain

/-! ### Four dicts -/

def sampleArgs : RegisterArgs ℤ where
  modelName := " model"
  version := none
  description := none
  stream := splitStream
  temporary := "upload-1"
  now := 1
  faults _ := none

/-- `{"a": {1: "x", "b": "y"}}` -/
def mixedKeys : Value := .dict [(.str "a", .dict [(.int 1, .str "x"), (.str "b", .str "y")])]

/-- `{"a": {1: "x"}}` -/
def numberedKeys : Value := .dict [(.str "a", .dict [(.int 1, .str "x")])]

/-- `{"a": (1, 2)}` -/
def withTuple : Value := .dict [(.str "a", .tuple [.int 1, .int 2])]

/-- `{"a": math.nan}` -/
def withNaN : Value := .dict [(.str "a", .float .nan)]

/-- `{"b": [true, null], "a": {"c": 1}}` -/
def sampleDocument : Json := .obj [("b", .arr [.bool true, .null]), ("a", .obj [("c", .int 1)])]

theorem metadata_survives_as_json_sample :
    (sampleArgs.Returns StoreSystem.sampleRuntime 4 World.init numberedKeys fun read =>
      read = .dict [(.str "a", .dict [(.str "1", .str "x")])]) ∧
    sampleArgs.Returns StoreSystem.sampleRuntime 4 World.init (loads sampleDocument) fun read =>
      (loads sampleDocument).eq true read = true := by
  have hrun : Run (World.Step StoreSystem.sampleRuntime 4) World.init [] (World.init : World ℤ) := .nil _
  obtain ⟨hstored, hparsed⟩ := metadata_survives_as_json hrun sampleArgs ⟨_, _, rfl⟩
  constructor
  · refine (hstored numberedKeys rfl ?_).mono ?_
    · simp [numberedKeys, Value.Sortable, SortableItems, Comparable]
    · rintro read ⟨⟨j, hj, rfl⟩, -⟩
      cases hj
      rfl
  · exact (hparsed (some (.document sampleDocument)) _ rfl).2

/-- Accepted metadata that makes the registration fail, and accepted metadata that comes back as
something else. -/
theorem metadata_does_not_survive :
    (ModelService.checkMetadata mixedKeys = .ok mixedKeys ∧ ∃ message w',
      (sampleArgs.call mixedKeys).perform StoreSystem.sampleRuntime 4 World.init =
        some (.error (.store (.raised (.raised .typeError message))), w')) ∧
    (ModelService.checkMetadata numberedKeys = .ok numberedKeys ∧ ∃ record w',
      (sampleArgs.call numberedKeys).perform StoreSystem.sampleRuntime 4 World.init = some (.ok record, w') ∧
        numberedKeys.eq true record.metadata = false) ∧
    (ModelService.checkMetadata withTuple = .ok withTuple ∧ ∃ record w',
      (sampleArgs.call withTuple).perform StoreSystem.sampleRuntime 4 World.init = some (.ok record, w') ∧
        withTuple.eq true record.metadata = false) ∧
    (ModelService.checkMetadata withNaN = .ok withNaN ∧ ∃ record w',
      (sampleArgs.call withNaN).perform StoreSystem.sampleRuntime 4 World.init = some (.ok record, w') ∧
        withNaN.eq false record.metadata = false) := by
  refine ⟨⟨rfl, _, _, rfl⟩, ⟨rfl, _, _, rfl, ?_⟩, ⟨rfl, _, _, rfl, ?_⟩, ⟨rfl, _, _, rfl, ?_⟩⟩
  · rfl
  · rfl
  · rfl

end TextExtraction
