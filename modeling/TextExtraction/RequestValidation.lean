import Mathlib.Data.Vector.Basic
import TextExtraction.Requests

/-!
# Request validation

`ExtractionRequest` and `ExtractionTaskRequest` as validators: from a body of well-typed fields to a
validated `Batch`, or to the errors of every field that fails. The constant `max_length` of `texts` is
the parameter. `validate_eq_ok_iff` says which batch comes out, `exists_validate_iff` which bodies pass.
-/

namespace TextExtraction

open Python

/-! ### Errors -/

inductive Loc
  | field (name : String)
  | index (i : ℕ)
deriving DecidableEq

structure ValidationError where
  loc : List Loc
  message : String
deriving DecidableEq

abbrev Validated (α : Type) := Except (List ValidationError) α

namespace Validated

variable {α β γ : Type}

/-- The errors of a field, seen from the object it is in. -/
def within (loc : Loc) : Validated α → Validated α
  | .ok a => .ok a
  | .error errors => .error (errors.map fun error => { error with loc := loc :: error.loc })

/-- Two fields: both are validated, and the errors of both are kept. -/
def both : Validated α → Validated β → Validated (α × β)
  | .ok a, .ok b => .ok (a, b)
  | .ok _, .error errors => .error errors
  | .error errors, .ok _ => .error errors
  | .error errors, .error errors' => .error (errors ++ errors')

/-- The items of a list, the first at index `i`. -/
def items (validate : α → Validated β) : ℕ → (l : List α) → Validated (List.Vector β l.length)
  | _, [] => .ok .nil
  | i, a :: l => (both (within (.index i) (validate a)) (items validate (i + 1) l)).map fun (b, bs) => b ::ᵥ bs

/-- What a `ValueError` raised in a validator becomes. -/
def valueError (message : String) : List ValidationError := [⟨[], "Value error, " ++ message⟩]

@[simp] theorem within_eq_ok_iff {loc : Loc} {x : Validated α} {a : α} : within loc x = .ok a ↔ x = .ok a := by
  rcases x with errors | b <;> simp [Validated.within]

@[simp] theorem both_eq_ok_iff {x : Validated α} {y : Validated β} {a : α} {b : β} :
    both x y = .ok (a, b) ↔ x = .ok a ∧ y = .ok b := by
  rcases x with errors | a' <;> rcases y with errors' | b' <;> simp [both]

theorem items_eq_ok_iff {validate : α → Validated β} {i : ℕ} {l : List α} {bs : List.Vector β l.length} :
    items validate i l = .ok bs ↔ List.Forall₂ (fun a b => validate a = .ok b) l bs.toList := by
  induction l generalizing i with
  | nil => simp [items, bs.eq_nil]
  | cons a l ih =>
    rw [items, map_eq_ok_iff]
    constructor
    · rintro ⟨⟨b, bs⟩, hboth, rfl⟩
      rw [both_eq_ok_iff, within_eq_ok_iff, ih] at hboth
      rw [List.Vector.toList_cons]
      exact .cons hboth.1 hboth.2
    · obtain ⟨b, bs, rfl⟩ := bs.exists_eq_cons
      rw [List.Vector.toList_cons, List.forall₂_cons]
      rintro ⟨hb, hbs⟩
      exact ⟨(b, bs), both_eq_ok_iff.2 ⟨within_eq_ok_iff.2 hb, ih.2 hbs⟩, rfl⟩

end Validated

open Validated

/-! ### Bodies of well-typed fields -/

structure SourceTextInput where
  id : String
  text : String

structure PropertyDefinitionInput where
  name : String
  type : PropertyType
  required : Bool := false
  description : Option String := none

structure ExtractionSchemaInput where
  properties : List PropertyDefinitionInput

structure ModelSelectionInput where
  name : String
  version : Option String := none

structure BatchInput where
  texts : List SourceTextInput
  schema : ExtractionSchemaInput
  model : Option ModelSelectionInput := none

/-! ### Validators -/

/-- `require_non_blank` and its siblings, which differ in the message. -/
def requireNonBlank (message value : String) : Validated {s : String // Normalized s} :=
  let normalized := strip value
  if h : normalized = "" then .error (valueError message)
  else .ok ⟨normalized, strip_strip value, h⟩

/-- `Field(min_length=1)`, checked after the items. -/
def requireItem {α : Type} {n : ℕ} (l : List.Vector α n) : Validated {l : List α // l ≠ [] ∧ l.length = n} :=
  if h : l.toList = [] then .error [⟨[], "List should have at least 1 item after validation, not 0"⟩]
  else .ok ⟨l.toList, h, l.toList_length⟩

def SourceTextInput.validate (input : SourceTextInput) : Validated SourceText :=
  (both (within (.field "id") (requireNonBlank "must not be blank" input.id))
    (within (.field "text") (requireNonBlank "must not be blank" input.text))).map
      fun (⟨id, hid⟩, ⟨text, htext⟩) => ⟨id, text, hid, htext⟩

def PropertyDefinitionInput.validate (input : PropertyDefinitionInput) : Validated PropertyDefinition :=
  (within (.field "name") (requireNonBlank "property name must not be blank" input.name)).map
    fun ⟨name, hname⟩ => ⟨name, input.type, input.required, input.description, hname⟩

/-- The properties, then `require_unique_names`. -/
def ExtractionSchemaInput.validate (input : ExtractionSchemaInput) : Validated ExtractionSchema :=
  within (.field "properties") (items PropertyDefinitionInput.validate 0 input.properties >>= requireItem) >>=
    fun properties =>
      if h : (properties.1.map PropertyDefinition.name).Nodup then .ok ⟨properties.1, properties.2.1, h⟩
      else .error (valueError "property names must be unique")

def ModelSelectionInput.validate (input : ModelSelectionInput) : Validated ModelSelection :=
  (within (.field "name") (requireNonBlank "model name must not be blank" input.name)).map
    fun ⟨name, hname⟩ => ⟨name, input.version, hname⟩

/-- `Optional[ModelSelection]`. -/
def validateModel : Option ModelSelectionInput → Validated (Option ModelSelection)
  | none => .ok none
  | some input => input.validate.map some

/-- `texts`: an item beyond `max_length` ends the validation of the list. -/
def validateTexts (maxLength : ℕ) (texts : List SourceTextInput) :
    Validated {l : List SourceText // l ≠ [] ∧ l.length ≤ maxLength} :=
  if h : texts.length ≤ maxLength then
    (items SourceTextInput.validate 0 texts >>= requireItem).map fun l => ⟨l.1, l.2.1, l.2.2.trans_le h⟩
  else .error [⟨[], s!"List should have at most {maxLength} items after validation, not {texts.length}"⟩]

/-- The three fields, then `require_unique_source_ids`. -/
def BatchInput.validate (maxLength : ℕ) (input : BatchInput) : Validated (Batch maxLength) :=
  both (within (.field "texts") (validateTexts maxLength input.texts))
    (both (within (.field "schema") input.schema.validate)
      (within (.field "model") (validateModel input.model))) >>=
    fun (texts, schema, model) =>
      if h : (texts.1.map SourceText.id).Nodup then .ok ⟨texts.1, schema, model, texts.2.1, texts.2.2, h⟩
      else .error (valueError "source identifiers must be unique")

/-! ### What comes out -/

/-- `source` is what validation keeps of the input. -/
structure SourceTextInput.Normalizes (input : SourceTextInput) (source : SourceText) : Prop where
  id : strip input.id = source.id
  text : strip input.text = source.text

structure PropertyDefinitionInput.Normalizes (input : PropertyDefinitionInput) (property : PropertyDefinition) :
    Prop where
  name : strip input.name = property.name
  type : input.type = property.type
  required : input.required = property.required
  description : input.description = property.description

structure ModelSelectionInput.Normalizes (input : ModelSelectionInput) (model : ModelSelection) : Prop where
  name : strip input.name = model.name
  version : input.version = model.version

structure BatchInput.Normalizes {n : ℕ} (input : BatchInput) (batch : Batch n) : Prop where
  texts : List.Forall₂ SourceTextInput.Normalizes input.texts batch.texts
  properties : List.Forall₂ PropertyDefinitionInput.Normalizes input.schema.properties batch.schema.properties
  model : Option.Rel ModelSelectionInput.Normalizes input.model batch.model

theorem requireNonBlank_eq_ok_iff {message value : String} {s : {s : String // Normalized s}} :
    requireNonBlank message value = .ok s ↔ strip value = s := by
  unfold requireNonBlank
  dsimp only
  split
  · rename_i hblank
    refine iff_of_false (by rintro ⟨⟩) ?_
    intro hs
    exact s.2.2 (hs.symm.trans hblank)
  · rw [Except.ok.injEq, Subtype.ext_iff]

theorem requireItem_eq_ok_iff {α : Type} {n : ℕ} {l : List.Vector α n}
    {l' : {l : List α // l ≠ [] ∧ l.length = n}} : requireItem l = .ok l' ↔ l.toList = l' := by
  unfold requireItem
  split
  · rename_i hnil
    refine iff_of_false (by rintro ⟨⟩) ?_
    intro hl
    exact l'.2.1 (hl.symm.trans hnil)
  · rw [Except.ok.injEq, Subtype.ext_iff]

theorem SourceTextInput.validate_eq_ok_iff {input : SourceTextInput} {source : SourceText} :
    input.validate = .ok source ↔ input.Normalizes source := by
  rw [validate, map_eq_ok_iff]
  constructor
  · rintro ⟨⟨id, text⟩, hboth, rfl⟩
    rw [both_eq_ok_iff, within_eq_ok_iff, within_eq_ok_iff, requireNonBlank_eq_ok_iff,
      requireNonBlank_eq_ok_iff] at hboth
    exact ⟨hboth.1, hboth.2⟩
  · rintro ⟨hid, htext⟩
    refine ⟨(⟨source.id, source.id_normalized⟩, ⟨source.text, source.text_normalized⟩), ?_, rfl⟩
    rw [both_eq_ok_iff, within_eq_ok_iff, within_eq_ok_iff, requireNonBlank_eq_ok_iff, requireNonBlank_eq_ok_iff]
    exact ⟨hid, htext⟩

theorem PropertyDefinitionInput.validate_eq_ok_iff {input : PropertyDefinitionInput}
    {property : PropertyDefinition} : input.validate = .ok property ↔ input.Normalizes property := by
  simp only [validate, map_eq_ok_iff, within_eq_ok_iff, requireNonBlank_eq_ok_iff]
  constructor
  · rintro ⟨name, hname, rfl⟩
    exact ⟨hname, rfl, rfl, rfl⟩
  · rcases property with ⟨name, type, required, description, normalized⟩
    rintro ⟨hname, rfl, rfl, rfl⟩
    exact ⟨⟨name, normalized⟩, hname, rfl⟩

theorem ModelSelectionInput.validate_eq_ok_iff {input : ModelSelectionInput} {model : ModelSelection} :
    input.validate = .ok model ↔ input.Normalizes model := by
  simp only [validate, map_eq_ok_iff, within_eq_ok_iff, requireNonBlank_eq_ok_iff]
  constructor
  · rintro ⟨name, hname, rfl⟩
    exact ⟨hname, rfl⟩
  · rcases model with ⟨name, version, normalized⟩
    rintro ⟨hname, rfl⟩
    exact ⟨⟨name, normalized⟩, hname, rfl⟩

theorem validateModel_eq_ok_iff {input : Option ModelSelectionInput} {model : Option ModelSelection} :
    validateModel input = .ok model ↔ Option.Rel ModelSelectionInput.Normalizes input model := by
  rcases input with - | input
  · rcases model with - | model
    · exact iff_of_true rfl .none
    · exact iff_of_false (by rintro ⟨⟩) (by rintro ⟨⟩)
  · simp only [validateModel, map_eq_ok_iff, ModelSelectionInput.validate_eq_ok_iff]
    constructor
    · rintro ⟨model, hmodel, rfl⟩
      exact .some hmodel
    · rintro ⟨hmodel⟩
      exact ⟨_, hmodel, rfl⟩

theorem ExtractionSchemaInput.validate_eq_ok_iff {input : ExtractionSchemaInput} {schema : ExtractionSchema} :
    input.validate = .ok schema ↔
      List.Forall₂ PropertyDefinitionInput.Normalizes input.properties schema.properties := by
  simp only [validate, bind_eq_ok_iff, within_eq_ok_iff, items_eq_ok_iff, requireItem_eq_ok_iff,
    PropertyDefinitionInput.validate_eq_ok_iff]
  constructor
  · rintro ⟨⟨properties, hne⟩, ⟨items, hitems, rfl⟩, hunique⟩
    split at hunique
    · cases hunique
      exact hitems
    · simp at hunique
  · intro h
    have hlength := h.length_eq.symm
    refine ⟨⟨schema.properties, schema.properties_ne, hlength⟩, ⟨⟨schema.properties, hlength⟩, h, rfl⟩, ?_⟩
    rw [dif_pos schema.names_nodup]

theorem validateTexts_eq_ok_iff {maxLength : ℕ} {texts : List SourceTextInput}
    {l : {l : List SourceText // l ≠ [] ∧ l.length ≤ maxLength}} :
    validateTexts maxLength texts = .ok l ↔ List.Forall₂ SourceTextInput.Normalizes texts l := by
  unfold validateTexts
  split
  · simp only [map_eq_ok_iff, bind_eq_ok_iff, items_eq_ok_iff, requireItem_eq_ok_iff,
      SourceTextInput.validate_eq_ok_iff]
    constructor
    · rintro ⟨⟨sources, hne⟩, ⟨items, hitems, rfl⟩, rfl⟩
      exact hitems
    · intro h
      exact ⟨⟨l, l.2.1, h.length_eq.symm⟩, ⟨⟨l, h.length_eq.symm⟩, h, rfl⟩, rfl⟩
  · rename_i hlong
    refine iff_of_false (by rintro ⟨⟩) ?_
    intro h
    exact hlong (h.length_eq.trans_le l.2.2)

/-- A body validates to the batch of its normalized fields. -/
theorem BatchInput.validate_eq_ok_iff {n : ℕ} {input : BatchInput} {batch : Batch n} :
    input.validate n = .ok batch ↔ input.Normalizes batch := by
  simp only [validate, bind_eq_ok_iff, Prod.exists, both_eq_ok_iff, within_eq_ok_iff, validateTexts_eq_ok_iff,
    ExtractionSchemaInput.validate_eq_ok_iff, validateModel_eq_ok_iff]
  constructor
  · rintro ⟨⟨texts, hne, hlength⟩, schema, model, ⟨htexts, hschema, hmodel⟩, hunique⟩
    split at hunique
    · cases hunique
      exact ⟨htexts, hschema, hmodel⟩
    · simp at hunique
  · rintro ⟨htexts, hschema, hmodel⟩
    refine ⟨⟨batch.texts, batch.texts_ne, batch.texts_length⟩, batch.schema, batch.model,
      ⟨htexts, hschema, hmodel⟩, ?_⟩
    rw [dif_pos batch.ids_nodup]

/-! ### Which bodies pass -/

/-- What the validators ask of a body, the constant `max_length` apart. -/
structure BatchInput.WellFormed (input : BatchInput) : Prop where
  texts : input.texts ≠ []
  sources : ∀ source ∈ input.texts, strip source.id ≠ "" ∧ strip source.text ≠ ""
  ids : (input.texts.map fun source => strip source.id).Nodup
  properties : input.schema.properties ≠ []
  names : ∀ property ∈ input.schema.properties, strip property.name ≠ ""
  names_nodup : (input.schema.properties.map fun property => strip property.name).Nodup
  model : ∀ model ∈ input.model, strip model.name ≠ ""

theorem normalized_strip {s : String} (h : strip s ≠ "") : Normalized (strip s) := ⟨strip_strip s, h⟩

namespace BatchInput.Normalizes

variable {n : ℕ} {input : BatchInput} {batch : Batch n}

theorem ids (h : input.Normalizes batch) :
    (input.texts.map fun source => strip source.id) = batch.texts.map SourceText.id :=
  Relational.map_eq_map_of_forall₂ (h.texts.imp fun _ _ hs => hs.id)

theorem names (h : input.Normalizes batch) :
    (input.schema.properties.map fun property => strip property.name) =
      batch.schema.properties.map PropertyDefinition.name :=
  Relational.map_eq_map_of_forall₂ (h.properties.imp fun _ _ hp => hp.name)

theorem characterCount (h : input.Normalizes batch) :
    (input.texts.map fun source => (strip source.text).length).sum = characterCount batch.texts :=
  congrArg List.sum (Relational.map_eq_map_of_forall₂ (h.texts.imp fun _ _ hs => congrArg String.length hs.text))

theorem wellFormed (h : input.Normalizes batch) : input.WellFormed where
  texts hnil := batch.texts_ne (List.forall₂_nil_left_iff.1 (hnil ▸ h.texts))
  sources source hsource := by
    obtain ⟨validated, -, hs⟩ := Relational.exists_right_of_forall₂ h.texts hsource
    rw [hs.id, hs.text]
    exact ⟨validated.id_normalized.2, validated.text_normalized.2⟩
  ids := h.ids ▸ batch.ids_nodup
  properties hnil := batch.schema.properties_ne (List.forall₂_nil_left_iff.1 (hnil ▸ h.properties))
  names property hproperty := by
    obtain ⟨validated, -, hp⟩ := Relational.exists_right_of_forall₂ h.properties hproperty
    rw [hp.name]
    exact validated.name_normalized.2
  names_nodup := h.names ▸ batch.schema.names_nodup
  model model hmodel := by
    have hrel := h.model
    rw [hmodel] at hrel
    generalize batch.model = selection at hrel
    rcases hrel with @⟨_, validated, hm⟩
    rw [hm.name]
    exact validated.name_normalized.2

end BatchInput.Normalizes

theorem BatchInput.WellFormed.exists_batch {input : BatchInput} {n : ℕ} (h : input.WellFormed)
    (hlength : input.texts.length ≤ n) : ∃ batch : Batch n, input.Normalizes batch := by
  have hsources : ∀ source ∈ input.texts, ∃ validated, SourceTextInput.Normalizes source validated := by
    intro source hsource
    obtain ⟨hid, htext⟩ := h.sources source hsource
    exact ⟨⟨_, _, normalized_strip hid, normalized_strip htext⟩, rfl, rfl⟩
  have hproperties : ∀ property ∈ input.schema.properties,
      ∃ validated, PropertyDefinitionInput.Normalizes property validated := by
    intro property hproperty
    exact ⟨⟨_, property.type, property.required, property.description,
      normalized_strip (h.names property hproperty)⟩, rfl, rfl, rfl, rfl⟩
  have hmodel : ∃ model, Option.Rel ModelSelectionInput.Normalizes input.model model := by
    rcases hm : input.model with - | model
    · exact ⟨none, .none⟩
    · exact ⟨some ⟨_, model.version, normalized_strip (h.model model hm)⟩, .some ⟨rfl, rfl⟩⟩
  obtain ⟨sources, htexts⟩ := Relational.exists_forall₂_iff.2 hsources
  obtain ⟨properties, hprops⟩ := Relational.exists_forall₂_iff.2 hproperties
  obtain ⟨model, hmodel⟩ := hmodel
  have hids := h.ids
  rw [Relational.map_eq_map_of_forall₂ (htexts.imp fun _ _ hs => hs.id)] at hids
  have hnames := h.names_nodup
  rw [Relational.map_eq_map_of_forall₂ (hprops.imp fun _ _ hp => hp.name)] at hnames
  refine ⟨⟨sources, ⟨properties, ?_, hnames⟩, model, ?_, ?_, hids⟩, htexts, hprops, hmodel⟩
  · rintro rfl
    exact h.properties (List.forall₂_nil_right_iff.1 hprops)
  · rintro rfl
    exact h.texts (List.forall₂_nil_right_iff.1 htexts)
  · exact htexts.length_eq.symm.trans_le hlength

theorem BatchInput.exists_validate_iff {n : ℕ} {input : BatchInput} :
    (∃ batch, input.validate n = .ok batch) ↔ input.WellFormed ∧ input.texts.length ≤ n := by
  simp only [validate_eq_ok_iff]
  constructor
  · rintro ⟨batch, h⟩
    exact ⟨h.wellFormed, h.texts.length_eq.trans_le batch.texts_length⟩
  · rintro ⟨h, hlength⟩
    exact h.exists_batch hlength

end TextExtraction
