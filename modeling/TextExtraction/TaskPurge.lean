import TextExtraction.Stubs
import TextExtraction.TaskSystem

/-!
# Purge is final

A purged task has no lease, so no transaction but deletion changes it again (`Aggregate.Inv.frozen`),
wherever the workers that were at it have been stopped. Before the purge every item still has its
text, and what a provider is called with is what was submitted.
-/

namespace TextExtraction

open Python Relational Transition

variable {τ : Type} [LinearOrder τ]

theorem Aggregate.Inv.frozen {a a' : Aggregate τ} (h : a.Inv) (hpurged : a.row.purgedAt.isSome = true)
    {act : Action τ} : ¬ a.Step act a' := by
  intro hstep
  cases hstep with
  | claim hclaim => rw [(TaskRow.claimable_iff.1 hclaim).2.1] at hpurged; simp at hpurged
  | renew how => rw [h.unpurged_of_leased how] at hpurged; simp at hpurged
  | take how => rw [h.unpurged_of_leased how] at hpurged; simp at hpurged
  | finalize how => rw [h.unpurged_of_leased how] at hpurged; simp at hpurged
  | abort how => rw [h.unpurged_of_leased how] at hpurged; simp at hpurged
  | purge hexp => rw [(TaskRow.expired_iff.1 hexp).2] at hpurged; simp at hpurged

/-- Nothing of what was submitted or computed is left, and nobody has the lease. -/
structure Aggregate.Nulled (a : Aggregate τ) : Prop where
  criteria : a.row.criteriaJson = none
  model : a.row.modelJson = none
  error : a.row.taskErrorJson = none
  leaseOwner : a.row.leaseOwner = none
  leaseExpiresAt : a.row.leaseExpiresAt = none
  items : ∀ i ∈ a.items, i.sourceText = none ∧ i.outcomeJson = none ∧ i.errorJson = none

omit [LinearOrder τ] in
theorem Aggregate.Inv.nulled {a : Aggregate τ} (h : a.Inv) (hpurged : a.row.purgedAt.isSome = true) :
    a.Nulled := by
  have howner : a.row.leaseOwner.isSome = false := by
    rw [Bool.eq_false_iff, ne_eq, h.leased]
    rintro ⟨-, hnone⟩
    rw [hnone] at hpurged; simp at hpurged
  have hnone : a.row.purgedAt.isNone = false := by
    rw [← Option.not_isSome, hpurged]; rfl
  refine ⟨?_, ?_, ?_, by simpa using howner, by simpa using h.leaseExpiry.trans howner, fun i hi => ?_⟩
  · simpa using h.criteria.trans hnone
  · simpa using h.model.trans hnone
  · rw [← Option.not_isSome_iff_eq_none]
    intro he
    rw [(h.error he).2] at hpurged; simp at hpurged
  · have hitem := h.items i hi
    have htext := hitem.text
    rw [hpurged] at htext
    exact ⟨by simpa using htext, hitem.purged hpurged⟩

/-- What the worker passes to the provider: source id, text and property names. -/
def WorkerState.providerCall : WorkerState τ → Option (String × String × List Value)
  | .inferring context item =>
    some (item.sourceId, orElse (item.sourceText.getD "") "", context.propertyNames)
  | _ => none

namespace System
variable [VAdd ℤ τ] {service : ExtractionTaskService} {s s' : System τ}

/-- One step leaves a purged task exactly as it is, or deletes it. -/
theorem Step.purged {l : Label τ} (h : Step service s l s') (hinv : s.Inv service) {id : String}
    {a : Aggregate τ} (hpurged : a.row.purgedAt.isSome = true) {sub : Submission τ}
    (hsub : s.accepted id = some sub) (hv : s.db.view id = none ∨ s.db.view id = some a) :
    s'.db.view id = none ∨ s'.db.view id = some a := by
  rcases hv with hv | hv
  · exact .inl (h.absent hinv hsub hv)
  · rcases h.affects hinv id with he | ⟨c, hmakes, haff⟩
    · exact .inr (he.trans hv)
    · have ha := hinv.aggregate hv
      rw [hv] at haff
      generalize s'.db.view id = v at haff
      cases haff with
      | same => exact .inr rfl
      | stepped hstep => exact absurd hstep (ha.frozen hpurged)
      | purged _ hstep => exact absurd hstep (ha.frozen hpurged)
      | deleted => exact .inl rfl

theorem Run.purged {labels : List (Label τ)} (h : Run (Step service) s labels s')
    (hinv : s.Inv service) {id : String} {a : Aggregate τ} (hpurged : a.row.purgedAt.isSome = true)
    (hv : s.db.view id = some a) : s'.db.view id = none ∨ s'.db.view id = some a := by
  obtain ⟨sub, hsub, -⟩ := hinv.tasks id a hv
  have hstep : ∀ (t : System τ) (l : Label τ) (u : System τ),
      (t.Inv service ∧ t.accepted id = some sub ∧
        (t.db.view id = none ∨ t.db.view id = some a)) → Step service t l u →
      u.Inv service ∧ u.accepted id = some sub ∧ (u.db.view id = none ∨ u.db.view id = some a) :=
    fun t l u ⟨ht, hacc, hview⟩ hstep =>
      ⟨hstep.inv ht, hstep.accepted hacc, hstep.purged ht hpurged hacc hview⟩
  exact (h.invariant hstep ⟨hinv, hsub, .inr hv⟩).2.2

/-- What retention guarantees in a state of the system. -/
structure PurgeSafety (service : ExtractionTaskService) (s : System τ) : Prop where
  /-- A purged task keeps nothing, and stays as it is until it is deleted. -/
  final : ∀ id a, s.db.view id = some a → a.row.purgedAt.isSome = true → a.Nulled ∧
    ∀ labels s', Run (Step service) s labels s' →
      (s'.db.view id = none ∨ s'.db.view id = some a) ∧
      ∀ w now lease r, (claimTask w now lease s'.db).1 = .ok (some r) → r.taskId ≠ id
  /-- Every item handed to a worker has its text. -/
  text : ∀ id w now item, (claimNextItem id w now s.db).1 = some item → item.sourceText.isSome = true
  /-- A provider is called about the item the worker was handed of the task it has claimed, with exactly
  what was submitted there, and never with the empty text in place of a missing one. -/
  provider : ∀ w sourceId text names,
    (s.workers w).providerCall = some (sourceId, text, names) →
      ∃ context item sub source, ∃ n : ℕ, s.workers w = .inferring context item ∧
        s.accepted context.taskId = some sub ∧ item.position = n ∧ sub.request.texts[n]? = some source ∧
        item.sourceText = some text ∧ sourceId = source.id ∧ text = source.text ∧ names = sub.propertyNames

/-- Purge is final in every reachable state, and no provider ever sees purged data. -/
theorem purge_safety (h : Reachable service s) : PurgeSafety service s where
  final id a hv hpurged := by
    have hinv := h.inv
    refine ⟨(hinv.aggregate hv).nulled hpurged, fun labels s' hrun => ?_⟩
    have hview := Run.purged hrun hinv hpurged hv
    refine ⟨hview, fun w now lease r hr hid => ?_⟩
    obtain ⟨b, hb, hclaim, rfl, -⟩ := claimTask_answer hr
    rw [show b.row.taskId = id from hid] at hb
    rcases hview with hnone | hsome
    · rw [hnone] at hb; simp at hb
    · rw [hsome] at hb
      cases hb
      rw [(TaskRow.claimable_iff.1 hclaim).2.1] at hpurged; simp at hpurged
  text id w now item hitem := by
    rcases claimNextItem_cases id w now s.db with ⟨-, he⟩ | ⟨a, i, hv, hi, hstep, hanswer, -⟩
    · rw [he] at hitem; simp at hitem
    · rw [hanswer] at hitem
      cases hitem
      have htext := ((h.inv.aggregate hv).items i hi).text
      rw [hstep.of_take.2.2.2.1] at htext
      exact htext
  provider w sourceId text names hcall := by
    have hfaithful := h.inv.workers w
    generalize s.workers w = state at hfaithful hcall
    cases hfaithful with
    | @inferring context sub item n source hsub hnames hsource hposition hid htext =>
      cases hcall
      have hor : orElse source.text "" = source.text := by
        rw [orElse]; split <;> simp_all
      refine ⟨context, item, sub, source, n, rfl, hsub, hposition, hsource, ?_, hid, ?_, hnames⟩
      · rw [htext, Option.getD_some, hor]
      · rw [htext, Option.getD_some, hor]
    | _ => cases hcall

/-- A task purged under a worker that is with the provider for its first source. -/
theorem purge_safety_example : ∃ s : System ℤ, Reachable (stubService []) s ∧
    (∃ a, s.db.view "t" = some a ∧ a.row.purgedAt = some 11) ∧
    (s.workers "w").providerCall = some ("a", "x", [.str "p"]) ∧ PurgeSafety (stubService []) s :=
  have h : Reachable (stubService []) (((((init (τ := ℤ)).submit (stubService []) "t" "o" sampleRequest 0
      |>.work (stubService []) "w" 1) |>.work (stubService []) "w" 2) |>.work (stubService []) "w" 3)
      |>.maintain (stubService []) 11) :=
    ⟨_, .cons (.submit rfl) (.cons .work (.cons .work (.cons .work (.cons .maintain (.nil _)))))⟩
  ⟨_, h, ⟨_, rfl, rfl⟩, rfl, purge_safety h⟩

end System

end TextExtraction
