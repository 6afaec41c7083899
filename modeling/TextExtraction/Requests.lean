import Mathlib.Algebra.GroupWithZero.Nat
import Mathlib.Data.List.DropRight
import TextExtraction.Extraction

/-!
# Validated requests

The request types of `schemas.py` after validation: each structure carries what its validators
establish, so a request that holds blank identifiers or repeated names cannot be built. `extract`
is the synchronous path over them.
-/

namespace TextExtraction

open Python

/-- The characters `str.strip` removes. -/
def isSpace (c : Char) : Bool :=
  (9 ≤ c.toNat && c.toNat ≤ 13) || (28 ≤ c.toNat && c.toNat ≤ 32) || c.toNat == 0x85 ||
  c.toNat == 0xa0 || c.toNat == 0x1680 || (0x2000 ≤ c.toNat && c.toNat ≤ 0x200a) ||
  c.toNat == 0x2028 || c.toNat == 0x2029 || c.toNat == 0x202f || c.toNat == 0x205f ||
  c.toNat == 0x3000

/-- `str.strip()`. -/
def strip (s : String) : String :=
  String.ofList (((s.toList.dropWhile isSpace).reverse.dropWhile isSpace).reverse)

theorem strip_strip (s : String) : strip (strip s) = strip s := by
  have hfront : ∀ l : List Char, ((l.dropWhile isSpace).reverse.dropWhile isSpace).reverse.dropWhile isSpace =
      ((l.dropWhile isSpace).reverse.dropWhile isSpace).reverse := by
    intro l
    have hprefix : ((l.dropWhile isSpace).reverse.dropWhile isSpace).reverse <+: l.dropWhile isSpace :=
      List.reverse_suffix.1 (by simpa using List.dropWhile_suffix isSpace)
    rcases hl : ((l.dropWhile isSpace).reverse.dropWhile isSpace).reverse with - | ⟨c, cs⟩
    · rfl
    · rw [hl] at hprefix
      obtain ⟨rest, hrest⟩ := hprefix
      have hc : isSpace c = false := by
        have hhead := List.head?_dropWhile_not isSpace l
        rw [← hrest] at hhead
        simpa using hhead
      rw [List.dropWhile_cons_of_neg (by simp [hc])]
  unfold strip
  rw [String.toList_ofList, hfront s.toList, List.reverse_reverse]
  exact congrArg (fun l => String.ofList l.reverse) (List.dropWhile_idempotent isSpace _)

/-- What `require_non_blank` returns: stripped and not empty. -/
def Normalized (s : String) : Prop := strip s = s ∧ s ≠ ""

instance (s : String) : Decidable (Normalized s) := inferInstanceAs (Decidable (_ ∧ _))

structure SourceText where
  id : String
  text : String
  id_normalized : Normalized id
  text_normalized : Normalized text

inductive PropertyType
  | string | number | boolean | stringList
deriving DecidableEq

def PropertyType.value : PropertyType → String
  | string => "string"
  | number => "number"
  | boolean => "boolean"
  | stringList => "string_list"

structure PropertyDefinition where
  name : String
  type : PropertyType
  required : Bool := false
  description : Option String := none
  name_normalized : Normalized name

structure ExtractionSchema where
  properties : List PropertyDefinition
  properties_ne : properties ≠ []
  names_nodup : (properties.map PropertyDefinition.name).Nodup

structure ModelSelection where
  name : String
  version : Option String := none
  name_normalized : Normalized name

/-- A validated batch of at most `maxLength` sources. -/
structure Batch (maxLength : ℕ) where
  texts : List SourceText
  schema : ExtractionSchema
  model : Option ModelSelection := none
  texts_ne : texts ≠ []
  texts_length : texts.length ≤ maxLength
  ids_nodup : (texts.map SourceText.id).Nodup

abbrev ExtractionRequest := Batch 10

abbrev ExtractionTaskRequest := Batch 100

namespace ExtractionSchema

/-- `tuple(definition.name for definition in schema.properties)`. -/
def propertyNames (schema : ExtractionSchema) : List Value :=
  schema.properties.map fun definition => .str definition.name

theorem propertyNames_eq (schema : ExtractionSchema) :
    schema.propertyNames = (schema.properties.map PropertyDefinition.name).map .str := by
  rw [propertyNames, List.map_map]; rfl

/-- `schema.model_dump(mode="json")`. -/
def modelDump (schema : ExtractionSchema) : List (Key × Value) :=
  [(.str "properties", .list (schema.properties.map fun definition =>
    .dict [(.str "name", .str definition.name), (.str "type", .str definition.type.value),
      (.str "required", .bool definition.required),
      (.str "description", definition.description.elim .none .str)]))]

end ExtractionSchema

/-! ### Service errors and the synchronous path -/

/-- `sum(len(source.text) for source in request.texts)`. -/
def characterCount (texts : List SourceText) : ℕ := (texts.map fun source => source.text.length).sum

/-- `ExtractionRequestError` and its subclass `ExtractionVolumeError`, or anything else raised. -/
inductive ExtractionError
  | request (detail : String) (limit : ℕ)
  | volume (limit : ℕ)
  | raised (error : Exc)

def ExtractionError.detail : ExtractionError → Except Exc String
  | request detail _ => .ok detail
  | volume limit =>
    .ok s!"Combined text content exceeds the configured limit of {limit} characters"
  | raised error => error.str

/-- The limit checks of `extract` and `submit`. -/
def checkLimits (maxTexts maxCharacters : ℕ) (texts : List SourceText) :
    Except ExtractionError Unit :=
  if maxTexts < texts.length then
    .error (.request s!"Text count exceeds the configured limit of {maxTexts}" maxTexts)
  else if maxCharacters < characterCount texts then .error (.volume maxCharacters)
  else .ok ()

structure ExtractionResult where
  executionMode : ExecutionMode
  model : ResolvedModelReference
  outcomes : List ExtractionOutcome

namespace ExtractionService

variable (service : ExtractionService)

def validateLimits {n : ℕ} (request : Batch n) : Except ExtractionError Unit :=
  checkLimits service.maxTexts service.maxCharacters request.texts

def resolveModel {n : ℕ} (request : Batch n) : Except Exc ResolvedModelReference :=
  service.modelCatalog.resolve (request.model.map ModelSelection.name)
    (request.model.bind ModelSelection.version)

/-- The list comprehension of `extract`. -/
def processSources (propertyNames : List Value) (model : ResolvedModelReference) :
    List SourceText → Except Exc (List ExtractionOutcome)
  | [] => .ok []
  | source :: sources =>
    match service.processSourceWithModel source.id source.text propertyNames model with
    | .error error => .error error
    | .ok outcome =>
      match processSources propertyNames model sources with
      | .error error => .error error
      | .ok outcomes => .ok (outcome :: outcomes)

def extract {n : ℕ} (request : Batch n) : Except ExtractionError ExtractionResult :=
  match service.validateLimits request with
  | .error error => .error error
  | .ok _ =>
    match service.resolveModel request with
    | .error error => .error (.raised error)
    | .ok model =>
      match service.processSources request.schema.propertyNames model request.texts with
      | .error error => .error (.raised error)
      | .ok outcomes => .ok ⟨service.inferenceProvider.executionMode, model, outcomes⟩

end ExtractionService

end TextExtraction
