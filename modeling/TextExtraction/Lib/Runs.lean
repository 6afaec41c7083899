import Mathlib.Order.Defs.Unbundled
import Mathlib.Data.List.Basic

/-!
# Runs of a labelled transition system

`Run step s as t`: the system goes from `s` to `t` through the labels `as`. A step lemma lifts to
runs in three ways: an invariant (`Run.invariant`), a rank that counts down to zero
(`Run.countdown`), and one that counts down to a state on the way (`Run.passes`). `Run.simulated`
carries a run over to another system, and `Run.unique` compares two runs with the same labels.
-/

namespace Transition

variable {σ α : Type} {step : σ → α → σ → Prop}

inductive Run (step : σ → α → σ → Prop) : σ → List α → σ → Prop
  | nil (s : σ) : Run step s [] s
  | cons {s t u : σ} {a : α} {as : List α} : step s a t → Run step t as u → Run step s (a :: as) u

namespace Run

variable {s t u : σ} {as bs : List α} {a : α}

theorem single (h : step s a t) : Run step s [a] t := .cons h (.nil t)

theorem append (h₁ : Run step s as t) (h₂ : Run step t bs u) : Run step s (as ++ bs) u := by
  induction h₁ with
  | nil => exact h₂
  | cons hs _ ih => exact .cons hs (ih h₂)

theorem snoc (h : Run step s as t) (hs : step t a u) : Run step s (as ++ [a]) u :=
  h.append (.single hs)

theorem mono {step' : σ → α → σ → Prop} (hstep : ∀ s a t, step s a t → step' s a t)
    (h : Run step s as t) : Run step' s as t := by
  induction h with
  | nil => exact .nil _
  | cons hs _ ih => exact .cons (hstep _ _ _ hs) ih

theorem invariant {P : σ → Prop} (hstep : ∀ s a t, P s → step s a t → P t)
    (h : Run step s as t) (hs : P s) : P t := by
  induction h with
  | nil => exact hs
  | cons hst _ ih => exact ih (hstep _ _ _ hs hst)

/-- A rank that every step keeps or lowers, and a counted one lowers until it is `0`, is `0` after as
many counted steps. -/
theorem countdown {P : ℕ → σ → Prop} {counted : α → Bool} {allowed : α → Prop}
    (hstep : ∀ n s a t, allowed a → P n s → step s a t →
      ∃ m, P m t ∧ (m = 0 ∨ m + (if counted a then 1 else 0) ≤ n))
    (h : Run step s as t) (hallowed : ∀ a ∈ as, allowed a) {n : ℕ} (hs : P n s)
    (hn : n ≤ as.countP counted) : P 0 t := by
  have hrank : ∃ m, P m t ∧ (m = 0 ∨ m + as.countP counted ≤ n) := by
    clear hn
    induction h generalizing n with
    | nil => exact ⟨n, hs, .inr (Nat.le_refl n)⟩
    | @cons s u t a as hst _ ih =>
      obtain ⟨m, hu, hm⟩ := hstep n s a u (hallowed a (by simp)) hs hst
      obtain ⟨k, ht, hk⟩ := ih (fun b hb => hallowed b (by simp [hb])) hu
      refine ⟨k, ht, ?_⟩
      rw [List.countP_cons]
      omega
  obtain ⟨m, ht, hm⟩ := hrank
  obtain rfl : m = 0 := by omega
  exact ht

/-- While a rank goes down with every counted step until `Q` holds, more counted steps than the rank
pass through `Q`. -/
theorem passes {P Q : σ → Prop} {rank : σ → ℕ} {counted : α → Bool} {allowed : α → Prop}
    (hstep : ∀ s a t, allowed a → P s → step s a t → P t)
    (hrank : ∀ s a t, allowed a → P s → ¬ Q s → step s a t → rank t + (if counted a then 1 else 0) ≤ rank s)
    (h : Run step s as t) (hallowed : ∀ a ∈ as, allowed a) (hs : P s) (hn : rank s < as.countP counted) :
    ∃ before after u, as = before ++ after ∧ Run step s before u ∧ P u ∧ Q u ∧ Run step u after t ∧
      before.countP counted ≤ rank s := by
  induction h with
  | nil => simp at hn
  | @cons s u t a as hst hrest ih =>
    by_cases hq : Q s
    · exact ⟨[], a :: as, s, rfl, .nil s, hs, hq, .cons hst hrest, by simp⟩
    · have hdown := hrank s a u (hallowed a (by simp)) hs hq hst
      have hu := hstep s a u (hallowed a (by simp)) hs hst
      have hcount : rank u < as.countP counted := by
        rw [List.countP_cons] at hn
        omega
      obtain ⟨before, after, v, rfl, hbefore, hv, hqv, hafter, hle⟩ :=
        ih (fun b hb => hallowed b (by simp [hb])) hu hcount
      refine ⟨a :: before, after, v, rfl, .cons hst hbefore, hv, hqv, hafter, ?_⟩
      rw [List.countP_cons]
      omega

/-- A relation that every step can follow is followed by runs. -/
theorem simulated {σ' : Type} {step' : σ' → α → σ' → Prop} {R : σ → σ' → Prop}
    (hstep : ∀ s a t s', R s s' → step s a t → ∃ t', step' s' a t' ∧ R t t')
    (h : Run step s as t) {s' : σ'} (hs : R s s') : ∃ t', Run step' s' as t' ∧ R t t' := by
  induction h generalizing s' with
  | nil => exact ⟨s', .nil s', hs⟩
  | cons hst _ ih =>
    obtain ⟨u', hst', hu⟩ := hstep _ _ _ _ hs hst
    obtain ⟨t', hrest', ht⟩ := ih hu
    exact ⟨t', .cons hst' hrest', ht⟩

theorem unique (hstep : ∀ s a t t', step s a t → step s a t' → t = t') (h : Run step s as t) {t' : σ}
    (h' : Run step s as t') : t = t' := by
  induction h with
  | nil => cases h'; rfl
  | cons hst _ ih =>
    cases h' with
    | cons hst' hrest' =>
      obtain rfl := hstep _ _ _ _ hst hst'
      exact ih hrest'

end Run

end Transition
