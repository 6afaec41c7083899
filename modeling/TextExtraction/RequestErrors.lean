import TextExtraction.RequestValidation

/-!
# Validation errors

The errors of a refused body are true of it: each names a field that breaks a rule and the rule it breaks
(`BatchInput.Complaint`), and there is at least one (`BatchInput.validate_errs`).
-/

namespace TextExtraction

open Python

namespace Validated
variable {α β γ : Type} {P : ValidationError → Prop}

/-- If it fails, then with at least one error, and every error is a `P`. -/
def Errs (P : ValidationError → Prop) (x : Validated α) : Prop :=
  ∀ errors, x = .error errors → errors ≠ [] ∧ ∀ error ∈ errors, P error

theorem Errs.ok (a : α) : Errs P (.ok a) := by
  intro errors h
  cases h

theorem Errs.error {e : ValidationError} (h : P e) : Errs P (.error [e] : Validated α) := by
  intro errors herrors
  cases herrors
  exact ⟨by simp, by simpa using h⟩

theorem Errs.map {x : Validated α} (h : Errs P x) (f : α → β) : Errs P (x.map f) := by
  cases x with
  | ok a => exact .ok _
  | error es =>
    intro errors herrors
    cases herrors
    exact h es rfl

theorem Errs.bind {x : Validated α} {f : α → Validated β} (h : Errs P x) (hf : ∀ a, x = .ok a → Errs P (f a)) :
    Errs P (x >>= f) := by
  cases x with
  | ok a => exact hf a rfl
  | error es =>
    intro errors herrors
    cases herrors
    exact h es rfl

theorem Errs.within {loc : Loc} {x : Validated α} (h : Errs (fun e => P { e with loc := loc :: e.loc }) x) :
    Errs P (within loc x) := by
  cases x with
  | ok a => exact .ok a
  | error es =>
    obtain ⟨hne, hall⟩ := h es rfl
    intro errors herrors
    cases herrors
    refine ⟨by simpa using hne, fun error herror => ?_⟩
    obtain ⟨e, he, rfl⟩ := List.mem_map.1 herror
    exact hall e he

theorem Errs.both {x : Validated α} {y : Validated β} (hx : Errs P x) (hy : Errs P y) : Errs P (both x y) := by
  cases x with
  | ok a =>
    cases y with
    | ok b => exact .ok _
    | error es =>
      intro errors herrors
      cases herrors
      exact hy es rfl
  | error es =>
    cases y with
    | ok b =>
      intro errors herrors
      cases herrors
      exact hx es rfl
    | error es' =>
      obtain ⟨hne, hall⟩ := hx es rfl
      obtain ⟨-, hall'⟩ := hy es' rfl
      intro errors herrors
      cases herrors
      refine ⟨by simp [hne], fun error herror => ?_⟩
      exact (List.mem_append.1 herror).elim (hall error) (hall' error)

/-- Each item is at fault under its own index. -/
theorem Errs.items {validate : α → Validated β} {i : ℕ} {l : List α}
    (h : ∀ k a, l[k]? = some a → Errs (fun e => P { e with loc := .index (i + k) :: e.loc }) (validate a)) :
    Errs P (items validate i l) := by
  induction l generalizing i with
  | nil => exact .ok _
  | cons a l ih =>
    have hhead := h 0 a rfl
    rw [Nat.add_zero] at hhead
    refine (Errs.both hhead.within (ih fun k b hb => ?_)).map _
    have hrest := h (k + 1) b hb
    rw [show i + (k + 1) = i + 1 + k by omega] at hrest
    exact hrest

end Validated

open Validated

theorem requireNonBlank_errs {P : ValidationError → Prop} {message value : String}
    (h : strip value = "" → P ⟨[], "Value error, " ++ message⟩) : Errs P (requireNonBlank message value) := by
  unfold requireNonBlank
  dsimp only
  split
  · rename_i hblank
    exact .error (h hblank)
  · exact .ok _

theorem requireItem_errs {α : Type} {P : ValidationError → Prop} {n : ℕ} {l : List.Vector α n}
    (h : n = 0 → P ⟨[], "List should have at least 1 item after validation, not 0"⟩) : Errs P (requireItem l) := by
  unfold requireItem
  split
  · rename_i hnil
    exact .error (h (by rw [← l.toList_length, hnil]; rfl))
  · exact .ok _

namespace BatchInput

/-- An error that is true of the body, at the place it is about; `n` is the `max_length` of its texts. -/
inductive Complaint (n : ℕ) (input : BatchInput) : ValidationError → Prop
  | tooManyTexts : n < input.texts.length → Complaint n input ⟨[.field "texts"],
      s!"List should have at most {n} items after validation, not {input.texts.length}"⟩
  | noTexts : input.texts = [] → Complaint n input ⟨[.field "texts"],
      "List should have at least 1 item after validation, not 0"⟩
  | blankId {i : ℕ} {source : SourceTextInput} : input.texts[i]? = some source → strip source.id = "" →
      Complaint n input ⟨[.field "texts", .index i, .field "id"], "Value error, must not be blank"⟩
  | blankText {i : ℕ} {source : SourceTextInput} : input.texts[i]? = some source → strip source.text = "" →
      Complaint n input ⟨[.field "texts", .index i, .field "text"], "Value error, must not be blank"⟩
  | noProperties : input.schema.properties = [] → Complaint n input ⟨[.field "schema", .field "properties"],
      "List should have at least 1 item after validation, not 0"⟩
  | blankProperty {i : ℕ} {property : PropertyDefinitionInput} : input.schema.properties[i]? = some property →
      strip property.name = "" → Complaint n input
        ⟨[.field "schema", .field "properties", .index i, .field "name"], "Value error, property name must not be blank"⟩
  | sameProperties : ¬(input.schema.properties.map fun property => strip property.name).Nodup →
      Complaint n input ⟨[.field "schema"], "Value error, property names must be unique"⟩
  | blankModel {model : ModelSelectionInput} : input.model = some model → strip model.name = "" →
      Complaint n input ⟨[.field "model", .field "name"], "Value error, model name must not be blank"⟩
  | sameIds : ¬(input.texts.map fun source => strip source.id).Nodup →
      Complaint n input ⟨[], "Value error, source identifiers must be unique"⟩

variable {n : ℕ} {input : BatchInput}

theorem validateTexts_errs : Errs (fun e => Complaint n input { e with loc := .field "texts" :: e.loc })
    (validateTexts n input.texts) := by
  unfold validateTexts
  split
  · refine (Errs.bind (.items fun k source hsource => ?_) fun texts _ => requireItem_errs fun hnil => ?_).map _
    · rw [Nat.zero_add]
      refine (Errs.both (.within (requireNonBlank_errs fun hblank => ?_))
        (.within (requireNonBlank_errs fun hblank => ?_))).map _
      · exact .blankId hsource hblank
      · exact .blankText hsource hblank
    · exact .noTexts (List.length_eq_zero_iff.1 hnil)
  · rename_i hlong
    exact .error (.tooManyTexts (by omega))

theorem validateSchema_errs : Errs (fun e => Complaint n input { e with loc := .field "schema" :: e.loc })
    input.schema.validate := by
  refine .bind (.within (.bind (.items fun k property hproperty => ?_) fun properties _ => ?_)) fun properties hok => ?_
  · rw [Nat.zero_add]
    exact (Errs.within (requireNonBlank_errs fun hblank => .blankProperty hproperty hblank)).map _
  · exact requireItem_errs fun hnil => .noProperties (List.length_eq_zero_iff.1 hnil)
  · split
    · exact .ok _
    · rename_i hdup
      simp only [within_eq_ok_iff, bind_eq_ok_iff, items_eq_ok_iff, requireItem_eq_ok_iff,
        PropertyDefinitionInput.validate_eq_ok_iff] at hok
      obtain ⟨items, hitems, hsame⟩ := hok
      rw [hsame] at hitems
      have hnames : (input.schema.properties.map fun property => strip property.name) =
          properties.1.map PropertyDefinition.name :=
        Relational.map_eq_map_of_forall₂ (hitems.imp fun _ _ h => h.name)
      exact .error (.sameProperties fun hnodup => hdup (hnames ▸ hnodup))

theorem validateModel_errs : Errs (fun e => Complaint n input { e with loc := .field "model" :: e.loc })
    (validateModel input.model) := by
  cases hmodel : input.model with
  | none => exact .ok _
  | some model =>
    exact ((Errs.within (requireNonBlank_errs fun hblank => .blankModel hmodel hblank)).map _).map _

/-- A body is refused with errors that are true of it. -/
theorem validate_errs : Errs (Complaint n input) (input.validate n) := by
  refine .bind (.both (.within validateTexts_errs) (.both (.within validateSchema_errs) (.within validateModel_errs)))
    fun fields hok => ?_
  obtain ⟨texts, schema, model⟩ := fields
  dsimp only
  split
  · exact .ok _
  · rename_i hdup
    rw [both_eq_ok_iff, within_eq_ok_iff, validateTexts_eq_ok_iff] at hok
    have hids : (input.texts.map fun source => strip source.id) = texts.1.map SourceText.id :=
      Relational.map_eq_map_of_forall₂ (hok.1.imp fun _ _ h => h.id)
    exact .error (.sameIds fun hnodup => hdup (hids ▸ hnodup))

end BatchInput

end TextExtraction
