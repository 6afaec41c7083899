import TextExtraction.TaskInvariant

/-!
# Lifecycle and monotonic progress

`Aggregate.Evolves` is the two-state relation between a task before and after a call: which fields
may change, and in which direction. A purge (`purging`) may only null payloads. Deletion is
`maintain_retention`'s alone, takes the items along, and a call that names a task leaves the rows of
every other task alone.
-/

namespace TextExtraction

open Python Relational

variable {τ : Type}

/-- What may become of an item row. -/
structure ItemRow.Evolves (purging : Bool) (i i' : ItemRow τ) : Prop where
  taskId : i'.taskId = i.taskId
  position : i'.position = i.position
  sourceId : i'.sourceId = i.sourceId
  startedAt : i.startedAt.isSome = true → i'.startedAt = i.startedAt
  completedAt : i.completedAt.isSome = true → i'.completedAt = i.completedAt
  text : i'.sourceText = if purging then none else i.sourceText
  terminal : i.status.isTerminal = true → i'.status = i.status ∧
    i'.outcomeJson = (if purging then none else i.outcomeJson) ∧
    i'.errorJson = if purging then none else i.errorJson

namespace ItemRow.Evolves

theorem refl (i : ItemRow τ) : i.Evolves false i :=
  ⟨rfl, rfl, rfl, fun _ => rfl, fun _ => rfl, rfl, fun _ => ⟨rfl, rfl, rfl⟩⟩

variable {i : ItemRow τ} {now : τ}

theorem take (hpending : i.status.isTerminal = false) : i.Evolves false (i.take now) where
  taskId := rfl
  position := rfl
  sourceId := rfl
  startedAt hs := by
    obtain ⟨t, ht⟩ := Option.isSome_iff_exists.1 hs
    simp [ItemRow.take, ht]
  completedAt _ := rfl
  text := rfl
  terminal ht := by rw [hpending] at ht; simp at ht

theorem finalize {purged : Bool} (h : i.Inv purged) (hpending : i.status.isTerminal = false)
    (status : ExtractionTaskItemStatus) (oj ej : Option Json) :
    i.Evolves false (i.finalize status oj ej now) where
  taskId := rfl
  position := rfl
  sourceId := rfl
  startedAt _ := rfl
  completedAt hc := by rw [h.completedAt, hpending] at hc; simp at hc
  text := rfl
  terminal ht := by rw [hpending] at ht; simp at ht

theorem abort {purged : Bool} (h : i.Inv purged) (hpending : i.status.isTerminal = false) (ej : Json) :
    i.Evolves false (i.abort ej now) where
  taskId := rfl
  position := rfl
  sourceId := rfl
  startedAt _ := rfl
  completedAt hc := by rw [h.completedAt, hpending] at hc; simp at hc
  text := rfl
  terminal ht := by rw [hpending] at ht; simp at ht

theorem purge (i : ItemRow τ) : i.Evolves true i.purge :=
  ⟨rfl, rfl, rfl, fun _ => rfl, fun _ => rfl, rfl, fun _ => ⟨rfl, rfl, rfl⟩⟩

end ItemRow.Evolves

/-- The status moves of the lifecycle. -/
inductive ExtractionTaskStatus.Moves : ExtractionTaskStatus → ExtractionTaskStatus → Prop
  | stay {s} : Moves s s
  | start : Moves .queued .processing
  | finish {s} (h : s.isTerminal = true) : Moves .processing s

namespace Aggregate

/-- What may become of a task with its items. -/
structure Evolves (purging : Bool) (a a' : Aggregate τ) : Prop where
  status : a.row.status.Moves a'.row.status
  processed : a.row.processedCount ≤ a'.row.processedCount
  successful : a.row.successfulCount ≤ a'.row.successfulCount
  failed : a.row.failedCount ≤ a'.row.failedCount
  taskId : a'.row.taskId = a.row.taskId
  ownerId : a'.row.ownerId = a.row.ownerId
  accepted : a'.row.acceptedCount = a.row.acceptedCount
  createdAt : a'.row.createdAt = a.row.createdAt
  expiresAt : a'.row.expiresAt = a.row.expiresAt
  startedAt : a.row.startedAt.isSome = true → a'.row.startedAt = a.row.startedAt
  completedAt : a.row.completedAt.isSome = true → a'.row.completedAt = a.row.completedAt
  criteria : a'.row.criteriaJson = if purging then none else a.row.criteriaJson
  model : a'.row.modelJson = if purging then none else a.row.modelJson
  terminal : a.row.status.isTerminal = true → a'.row.status = a.row.status ∧
    a'.row.processedCount = a.row.processedCount ∧ a'.row.successfulCount = a.row.successfulCount ∧
    a'.row.failedCount = a.row.failedCount ∧ a'.row.completedAt = a.row.completedAt
  items : List.Forall₂ (ItemRow.Evolves purging) a.items a'.items

theorem Evolves.refl (a : Aggregate τ) : a.Evolves false a where
  status := .stay
  processed := le_rfl
  successful := le_rfl
  failed := le_rfl
  taskId := rfl
  ownerId := rfl
  accepted := rfl
  createdAt := rfl
  expiresAt := rfl
  startedAt _ := rfl
  completedAt _ := rfl
  criteria := rfl
  model := rfl
  terminal _ := ⟨rfl, rfl, rfl, rfl, rfl⟩
  items := List.forall₂_same.2 fun i _ => .refl i

section Step
variable {a : Aggregate τ}

theorem forall₂_map {purging : Bool} {items : List (ItemRow τ)} {g : ItemRow τ → ItemRow τ}
    (h : ∀ i ∈ items, i.Evolves purging (g i)) :
    List.Forall₂ (ItemRow.Evolves purging) items (items.map g) := by
  rw [List.forall₂_map_right_iff, List.forall₂_same]
  exact h

theorem Inv.processing (h : a.Inv) {w : String} (how : a.row.leaseOwner = some w) :
    a.row.status = .processing := (h.leased.1 (by simp [how])).1

theorem Inv.completedAt_none (h : a.Inv) (hrun : a.row.status.isTerminal = false) :
    a.row.completedAt = none := by
  rw [← Option.not_isSome_iff_eq_none, h.completedAt, hrun]
  exact Bool.false_ne_true

variable [LinearOrder τ]

theorem Step.evolves (h : a.Inv) {act : Action τ} {a' : Aggregate τ} (hstep : a.Step act a')
    {purging : Bool} (hpurging : purging = true ↔ ∃ now, act = .purge now) : a.Evolves purging a' := by
  cases hstep with
  | @claim w now expiry hclaim =>
    have hrun := (TaskRow.claimable_iff.1 hclaim).1
    have hp : purging = false := by simpa using hpurging
    subst hp
    refine { Evolves.refl a with status := ?_, startedAt := ?_, terminal := ?_ }
    · cases hs : a.row.status with
      | queued => exact .start
      | processing => exact .stay
      | _ => rw [hs] at hrun; simp at hrun
    · intro hs
      obtain ⟨t, ht⟩ := Option.isSome_iff_exists.1 hs
      simp [Aggregate.claim, TaskRow.claim, ht]
    · intro ht; rw [hrun] at ht; simp at ht
  | renew =>
    have hp : purging = false := by simpa using hpurging
    subst hp
    exact { Evolves.refl a with }
  | @take w now i how _ hstatus _ hfirst =>
    have hp : purging = false := by simpa using hpurging
    subst hp
    refine { Evolves.refl a with items := forall₂_map fun j hj => ?_ }
    have hi := List.mem_of_find?_eq_some hfirst
    have hpending : i.status.isTerminal = false := by simpa using List.find?_some hfirst
    split
    · rename_i hpos
      rw [h.eq_of_position hj hi hpos]
      exact .take hpending
    · exact .refl j
  | @finalize w now i oj ej how hrun hi hpending hone =>
    have hp : purging = false := by simpa using hpurging
    subst hp
    have hsucc : a.row.successfulCount ≤ (TaskRow.advance a.row ej.isNone w now a.row).successfulCount :=
      Nat.le_add_right ..
    have hfail : a.row.failedCount ≤ (TaskRow.advance a.row ej.isNone w now a.row).failedCount :=
      Nat.le_add_right ..
    refine { Evolves.refl a with
      status := ?_, processed := Nat.le_succ _, successful := hsucc, failed := hfail,
      completedAt := ?_, terminal := ?_, items := forall₂_map fun j hj => ?_ }
    · rw [h.processing how, finalize_row]
      rcases a.row.advance_cases ej.isNone w now with ⟨-, hs, -⟩ |
        ⟨-, -, -, -, ⟨hs, -⟩ | ⟨hs, -⟩ | ⟨hs, -⟩⟩ <;> rw [hs]
      · exact .stay
      all_goals exact .finish rfl
    · intro hc
      rw [h.completedAt_none hrun] at hc; simp at hc
    · intro ht; rw [hrun] at ht; simp at ht
    · split
      · rename_i hpos
        rw [h.eq_of_position hj hi hpos]
        exact .finalize (h.items i hi) hpending _ _ _
      · exact .refl j
  | @abort w now ej how hrun =>
    have hp : purging = false := by simpa using hpurging
    subst hp
    refine { Evolves.refl a with
      status := ?_, processed := h.processed_le, failed := Nat.le_add_right ..,
      completedAt := ?_, terminal := ?_, items := forall₂_map fun j hj => ?_ }
    · rw [h.processing how]; exact .finish rfl
    · intro hc
      rw [h.completedAt_none hrun] at hc; simp at hc
    · intro ht; rw [hrun] at ht; simp at ht
    · split
      · rename_i hpending
        exact .abort (h.items j hj) (by simpa using hpending) ej
      · exact .refl j
  | purge =>
    have hp : purging = true := by simpa using hpurging
    subst hp
    exact { Evolves.refl a with
      criteria := rfl, model := rfl, items := forall₂_map fun j _ => .purge j }

end Step

end Aggregate

section Run
variable [LinearOrder τ] [VAdd ℤ τ]

/-- Maintenance deletes a task and its items. -/
def Deletes (c : Call τ) (a : Aggregate τ) : Prop :=
  ∃ now tombstone, c = .maintainRetention now tombstone ∧ a.row.expiresAt ≤ -tombstone +ᵥ now ∧
    (a.row.expiresAt ≤ now ∨ a.row.purgedAt.isSome = true)

/-- Maintenance purges a task. -/
def Purges (c : Call τ) (a a' : Aggregate τ) : Prop :=
  ∃ now tombstone, c = .maintainRetention now tombstone ∧ a.row.expiresAt ≤ now ∧
    a.row.purgedAt = none ∧ a'.row.purgedAt = some now

/-- What one call may do to each task of a reachable store. -/
theorem run_evolves (calls : List (Call τ)) (c : Call τ) (id : String) :
    (∀ a, (Db.run calls).view id = some a →
      (∃ purging a', (Db.run (calls ++ [c])).view id = some a' ∧ a.Evolves purging a' ∧
        (purging = true → Purges c a a')) ∨
      (Deletes c a ∧ (Db.run (calls ++ [c])).view id = none ∧
        (Db.run (calls ++ [c])).itemRows id = [])) ∧
    ((∀ now tombstone, c ≠ .maintainRetention now tombstone) → c.target (Db.run calls) ≠ some id →
      (Db.run (calls ++ [c])).tasks.lookup id = (Db.run calls).tasks.lookup id ∧
        (Db.run (calls ++ [c])).itemRows id = (Db.run calls).itemRows id) := by
  refine ⟨fun a hv => ?_, fun hmaintain hid => ?_⟩
  · have haff := (Db.change_run calls c).affects id
    have hinv := Db.run_inv hv
    rw [hv] at haff
    generalize hv' : (Db.run (calls ++ [c])).view id = v at haff
    cases haff with
    | same => exact .inl ⟨false, a, rfl, .refl a, by rintro ⟨⟩⟩
    | stepped hstep hdoes =>
      refine .inl ⟨false, _, rfl, hstep.evolves hinv ?_, by rintro ⟨⟩⟩
      simp only [Bool.false_eq_true, false_iff, not_exists]
      rintro now rfl
      cases hdoes
    | purged hc hstep =>
      refine .inl ⟨true, _, rfl, hstep.evolves hinv (by simp), fun _ => ⟨_, _, hc, ?_⟩⟩
      cases hstep with
      | purge hexp => exact ⟨(TaskRow.expired_iff.1 hexp).1, (TaskRow.expired_iff.1 hexp).2, rfl⟩
    | deleted hc hgone =>
      refine .inr ⟨⟨_, _, hc, Aggregate.maintain_eq_none.1 hgone⟩, rfl, ?_⟩
      exact Db.closed_run (calls ++ [c]) id (Db.view_eq_none.1 hv')
  · exact (Db.change_run calls c).frame hmaintain hid

end Run

end TextExtraction
