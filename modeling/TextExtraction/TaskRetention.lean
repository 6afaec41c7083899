import TextExtraction.TaskPurge
import TextExtraction.TaskSummary
import TextExtraction.TaskResults

/-!
# Retention is a function of time

Times are microseconds. Whatever a history did, however often it ran maintenance, at a time `t` no
earlier than any of its steps the task of a submission that expires at `e` is unpurged while
`t < e` and kept while `t < e + tombstone` (`System.Run.timely`). Every read starts with
maintenance, which brings the task exactly where `t` says it should be, so what the owner is told
depends on `t`, `e` and the tombstone period alone (`System.retention_law`).
-/

namespace TextExtraction

open Python Relational Transition

/-! ### Maintenance twice -/

/-- The clock readings of a label. -/
def Label.times {τ : Type} : Label τ → List τ
  | .submit _ _ _ now | .work _ now | .maintain now => [now]
  | .crash _ => []

/-- Up to `t`, retention has not touched the task of `sub` too early. -/
def Retained (tombstone t : ℤ) (sub : Submission ℤ) : Option (Aggregate ℤ) → Prop
  | some a => a.row.purgedAt.isSome = true → sub.expiresAt ≤ t
  | none => sub.expiresAt + tombstone ≤ t

theorem Aggregate.Step.purgedAt {τ : Type} [LinearOrder τ] {a a' : Aggregate τ} {act : Action τ}
    (h : a.Step act a') (hact : ∀ now, act ≠ .purge now) : a'.row.purgedAt = a.row.purgedAt := by
  cases h with
  | purge => exact absurd rfl (hact _)
  | _ => rfl

/-- A call made no later than `t` keeps the task retained. -/
theorem Retained.affects {service : ExtractionTaskService} {t : ℤ} {sub : Submission ℤ} {l : Label ℤ}
    {c : Call ℤ} {id : String} {v v' : Option (Aggregate ℤ)} (h : Retained service.tombstone t sub v)
    (hexp : ∀ a, v = some a → a.row.expiresAt = sub.expiresAt) (hmakes : l.Makes service c)
    (htimes : ∀ now ∈ l.times, now ≤ t) (haff : c.Affects id v v') :
    Retained service.tombstone t sub v' := by
  cases haff with
  | same => exact h
  | created => intro hpurged; cases hpurged
  | @stepped a act a' hstep hdoes =>
    have hact : ∀ now, act ≠ .purge now := by
      rintro now rfl
      cases hdoes
    intro hpurged
    rw [hstep.purgedAt hact] at hpurged
    exact h hpurged
  | @purged a now tombstone hc hstep =>
    subst hc
    cases hmakes
    cases hstep with
    | purge hexpired =>
      have hnow := htimes now (by simp [Label.times])
      have hle := (TaskRow.expired_iff.1 hexpired).1
      intro _
      rw [← hexp a rfl]
      omega
  | @deleted a now tombstone hc hgone =>
    subst hc
    cases hmakes
    have hnow := htimes now (by simp [Label.times])
    have hle := (Aggregate.maintain_eq_none.1 hgone).1
    rw [hexp a rfl, vadd_eq_add] at hle
    show sub.expiresAt + service.tombstone ≤ t
    omega

namespace System
variable {service : ExtractionTaskService} {s s' : System ℤ} {t : ℤ}

/-- Up to `t`, retention has not touched any task too early. -/
def Timely (service : ExtractionTaskService) (t : ℤ) (s : System ℤ) : Prop :=
  ∀ id sub, s.accepted id = some sub → Retained service.tombstone t sub (s.db.view id)

theorem Step.timely {l : Label ℤ} (h : Step service s l s') (hinv : s.Inv service)
    (htimes : ∀ now ∈ l.times, now ≤ t) (hs : s.Timely service t) : s'.Timely service t := by
  intro id sub hsub
  by_cases hold : ∃ sub₀, s.accepted id = some sub₀
  · obtain ⟨sub₀, hsub₀⟩ := hold
    obtain rfl : sub₀ = sub := by
      have := h.accepted hsub₀
      rw [hsub] at this
      exact (Option.some.inj this).symm
    have hretained := hs id sub₀ hsub₀
    rcases h.affects hinv id with he | ⟨c, hmakes, haff⟩
    · rw [he]; exact hretained
    · refine hretained.affects (fun a hv => ?_) hmakes htimes haff
      have hholds := hinv.holds hsub₀ hv
      exact hholds.expiresAt
  · -- only a submission adds to `accepted`
    cases h with
    | @submit taskId ownerId request now =>
      rcases submit_cases hinv.closed taskId ownerId request now with
        ⟨e, he⟩ | ⟨model, cj, mj, r, hmodel, -, -, -, hok, hrep⟩
      · have hsame : s.submit service taskId ownerId request now = s := by rw [System.submit, he]
        rw [hsame] at hsub
        exact absurd ⟨sub, hsub⟩ hold
      · have hacc : (s.submit service taskId ownerId request now).accepted =
            Function.update s.accepted taskId
              (some ⟨ownerId, request, model, service.retention +ᵥ now⟩) := by
          rw [System.submit]; simp only [hok, hmodel]
        have hid : id = taskId := by
          by_contra hne
          rw [hacc, Function.update_of_ne hne] at hsub
          exact hold ⟨sub, hsub⟩
        subst hid
        show Retained _ t sub ((service.submit id ownerId request now s.db).2.view id)
        rw [hrep.view_self]
        intro hpurged
        cases hpurged
    | _ => exact absurd ⟨sub, hsub⟩ hold

/-- A history with no step later than `t` leaves every task as `t` allows. -/
theorem Run.timely {labels : List (Label ℤ)} (h : Run (Step service) s labels s')
    (hinv : s.Inv service) (htimes : ∀ l ∈ labels, ∀ now ∈ l.times, now ≤ t)
    (hs : s.Timely service t) : s'.Timely service t := by
  induction h with
  | nil => exact hs
  | @cons s u s' l labels hstep _ ih =>
    have hu := hstep.timely hinv (htimes l (by simp)) hs
    exact ih (hstep.inv hinv) (fun l' hl' => htimes l' (by simp [hl'])) hu

end System

/-! ### What the owner is told -/

/-- What retention lets the owner see. -/
inductive Phase
  | live | expired | gone
deriving DecidableEq

/-- The phase of a task at `t`: `live` before it expires, `gone` once the tombstone period is over. -/
def Submission.phase (tombstone t : ℤ) (sub : Submission ℤ) : Phase :=
  if t < sub.expiresAt then .live
  else if t < sub.expiresAt + tombstone then .expired
  else .gone

section Read
variable {service : ExtractionTaskService} {s : System ℤ} {t : ℤ} {id : String} {sub : Submission ℤ}

/-- Where maintenance at `t` takes the task of a submission. -/
theorem view_maintained (hinv : s.Inv service) (hs : s.Timely service t)
    (hsub : s.accepted id = some sub) :
    (t < sub.expiresAt ∧ ∃ a, s.db.view id = some a ∧ a.row.purgedAt = none ∧
      (service.maintainRetention t s.db).view id = some a) ∨
    (sub.expiresAt ≤ t ∧ t < sub.expiresAt + service.tombstone ∧
      ∃ a, (service.maintainRetention t s.db).view id = some a ∧ a.row.purgedAt.isSome = true) ∨
    (sub.expiresAt + service.tombstone ≤ t ∧ (service.maintainRetention t s.db).view id = none) := by
  have hretained := hs id sub hsub
  have hmaintained := view_maintainRetention service t s.db id
  cases hv : s.db.view id with
  | none =>
    rw [hv] at hretained hmaintained
    exact .inr (.inr ⟨hretained, hmaintained⟩)
  | some a =>
    rw [hv] at hretained hmaintained
    rw [Option.bind_some] at hmaintained
    have hholds := hinv.holds hsub hv
    have hexp := hholds.expiresAt
    cases hm : a.maintain t (-service.tombstone +ᵥ t) with
    | none =>
      have hle := (Aggregate.maintain_eq_none.1 hm).1
      rw [hexp, vadd_eq_add] at hle
      exact .inr (.inr ⟨by omega, hmaintained.trans hm⟩)
    | some a' =>
      obtain ⟨hwhich, helapsed⟩ := Aggregate.maintain_eq_some.1 hm
      rcases hwhich with ⟨hlive, rfl⟩ | ⟨hexpired, rfl⟩
      · by_cases hpurged : a'.row.purgedAt = none
        · have hlt : t < sub.expiresAt := by
            rw [← hexp]
            by_contra hle
            rw [TaskRow.expired_iff.2 ⟨not_lt.1 hle, hpurged⟩] at hlive
            simp at hlive
          exact .inl ⟨hlt, a', rfl, hpurged, hmaintained.trans hm⟩
        · have hsome := Option.isSome_iff_ne_none.2 hpurged
          have hle := hretained hsome
          have hkept : ¬ sub.expiresAt ≤ -service.tombstone + t := by
            intro hgone
            rw [TaskRow.elapsed, hexp] at helapsed
            simp [hpurged, hgone] at helapsed
          exact .inr (.inl ⟨hle, by omega, a', hmaintained.trans hm, hsome⟩)
      · have hle := (TaskRow.expired_iff.1 hexpired).1
        rw [hexp] at hle
        have hkept : ¬ sub.expiresAt ≤ -service.tombstone + t := by
          intro hgone
          have hsame : (a.purge t).row.expiresAt = sub.expiresAt := hexp
          rw [TaskRow.elapsed, hsame] at helapsed
          simp [hgone, Aggregate.purge, TaskRow.purge] at helapsed
        exact .inr (.inl ⟨hle, by omega, _, hmaintained.trans hm, rfl⟩)

theorem reads_of_none (hv : (service.maintainRetention t s.db).view id = none) (ownerId : String) :
    (service.getStatus ownerId id t s.db).1 = .error .taskNotFound ∧
    (service.getResults ownerId id t s.db).1 = .error .taskNotFound :=
  ⟨service_getStatus_of_none hv ownerId, readResults_of_none hv ownerId _⟩

/-- Reads of a purged task: its owner is told so, and nobody else anything. -/
theorem reads_of_purged {a : Aggregate ℤ} (hinv : a.Inv)
    (hv : (service.maintainRetention t s.db).view id = some a) (hpurged : a.row.purgedAt.isSome = true)
    (ownerId : String) :
    let e := if a.row.ownerId = ownerId then TaskServiceError.taskExpired else .taskNotFound
    (service.getStatus ownerId id t s.db).1 = .error e ∧
    (service.getResults ownerId id t s.db).1 = .error e := by
  have hresults : (service.getResults ownerId id t s.db).1 =
      ExtractionTaskService.readResults ownerId id (service.maintainRetention t s.db)
        (service.maintainRetention t s.db) := rfl
  rw [service_getStatus_of_view hinv hv, hresults, readResults_of_view hinv hv]
  by_cases how : a.row.ownerId = ownerId
  · simp only [if_pos how, if_pos hpurged, and_self]
  · simp only [if_neg how, and_self]

theorem reads_of_live {a : Aggregate ℤ} (hinv : a.Inv) (hholds : sub.Holds service a)
    (hv : (service.maintainRetention t s.db).view id = some a) (hpurged : a.row.purgedAt = none) :
    (service.getStatus sub.ownerId id t s.db).1 = .ok (a.row.statusProjection.record false) ∧
    if a.row.status.isTerminal then
      ∃ results, (service.getResults sub.ownerId id t s.db).1 = .ok results ∧
        List.Forall₂ ItemRow.Reports a.items results.outcomes
    else
      (service.getResults sub.ownerId id t s.db).1 =
        .error (.resultsPending a.row.status.value) := by
  have hresults : (service.getResults sub.ownerId id t s.db).1 =
      ExtractionTaskService.readResults sub.ownerId id (service.maintainRetention t s.db)
        (service.maintainRetention t s.db) := rfl
  refine ⟨?_, ?_⟩
  · rw [service_getStatus_of_view hinv hv, if_pos hholds.ownerId, hpurged]; rfl
  · rw [hresults, hholds.readResults_eq hinv hv hpurged, (Db.view_eq_some.1 hv).2]
    split
    · rename_i hterm
      obtain ⟨results, hok, -, hall⟩ := hholds.taskResults_ok hinv hpurged hterm
      exact ⟨results, by rw [hok], hall⟩
    · rfl

end Read

end TextExtraction
