import TextExtraction.TaskPersistence

/-!
# Steady workers

Whoever holds the lease of a task and works on an item finds it pending (`Pending`). So for a
submission whose sources all persist no worker that still holds the lease ever fails the task
(`System.Steady`), under any interleaving, crash or takeover.
-/

namespace TextExtraction

open Python Relational Transition

variable {τ : Type}

/-- If `w` has the lease of the task, its item at `p` is pending. -/
def Pending (db : Db τ) (id w : String) (p : ℤ) : Prop :=
  ∀ a, db.view id = some a → a.row.leaseOwner = some w →
    ∃ i ∈ a.items, i.position = p ∧ i.status.isTerminal = false

/-- What a worker may rely on: the item it works on is pending as long as it has the lease, and it
only fails a task that persists after losing the lease. -/
def WorkerState.Steady (service : ExtractionTaskService) (accepted : String → Option (Submission τ))
    (db : Db τ) (w : String) : WorkerState τ → Prop
  | .inferring context item => Pending db context.taskId w item.position
  | .finalizing context p _ _ => Pending db context.taskId w p
  | .failing id _ => ∀ sub, accepted id = some sub → sub.Persists service → Displaced db id w
  | _ => True

/-- Unless the task was failed as a whole, its failed items failed by themselves. -/
def Submission.OwnErrors (service : ExtractionTaskService) (sub : Submission τ) (a : Aggregate τ) : Prop :=
  a.row.purgedAt = none → a.row.taskErrorJson = none → ∀ (n : ℕ) source i,
    sub.request.texts[n]? = some source → a.items[n]? = some i → i.status = .failed → ∃ error j,
      service.itemOutcome sub source = .ok (none, some error) ∧
      canonicalJson (strDict error) = .ok j ∧ i.errorJson = some j

/-! ### One task -/

namespace Submission.OwnErrors
variable {service : ExtractionTaskService} {sub : Submission τ} {a a' : Aggregate τ}

theorem newAggregate (id owner : String) (cj mj : Json) (items : List (String × String))
    (created expires : τ) :
    sub.OwnErrors service (TextExtraction.newAggregate id owner cj mj items created expires) := by
  intro _ _ n source i _ hi hs
  have hmem := List.mem_of_getElem? hi
  rw [(Aggregate.newItems_status id items 0 i hmem).2.1] at hs
  cases hs

/-- Every transaction leaves failed items with errors of their own; `fail_task` leaves its error on
the task. -/
theorem step [LinearOrder τ] (h : sub.OwnErrors service a) (hinv : a.Inv) {act : Action τ}
    (hstep : a.Step act a') (hact : sub.Allows service act) : sub.OwnErrors service a' := by
  intro hpurged herror n source j hs hj hfailed
  cases hstep with
  | claim => exact h hpurged herror n source j hs hj hfailed
  | renew => exact h hpurged herror n source j hs hj hfailed
  | @take w now i howner =>
    obtain ⟨k, hk, rfl⟩ := Option.map_eq_some_iff.1 ((List.getElem?_map ..).symm.trans hj)
    split at hfailed
    · cases hfailed
    · rename_i hne
      rw [if_neg hne]
      exact h hpurged herror n source k hs hk hfailed
  | @finalize w now i oj ej howner hrun hi hpending hone =>
    obtain ⟨m, source', outcome, error, hm, hs', hok, hoj, hej⟩ := hact
    obtain ⟨k, hk, rfl⟩ := Option.map_eq_some_iff.1 ((List.getElem?_map ..).symm.trans hj)
    by_cases hpos : k.position = i.position
    · rw [if_pos hpos] at hfailed ⊢
      have hnm : n = m := by
        have hkn := hinv.position_getElem? hk
        rw [hpos, hm] at hkn
        exact_mod_cast hkn.symm
      subst hnm
      rw [hs] at hs'
      cases hs'
      cases error with
      | none =>
        cases hej
        cases hfailed
      | some error =>
        obtain ⟨j, hj', rfl⟩ := canonicalJson?_some_iff.1 hej
        cases outcome with
        | some payload => exact absurd rfl (itemOutcome_one hok)
        | none => exact ⟨error, j, hok, hj', rfl⟩
    · rw [if_neg hpos] at hfailed ⊢
      exact h hpurged herror n source k hs hk hfailed
  | abort => cases herror
  | purge => cases hpurged

end Submission.OwnErrors

/-! ### Workers -/

section Worker
variable [LinearOrder τ] [VAdd ℤ τ] {service : ExtractionTaskService}
  {accepted : String → Option (Submission τ)} {db db' : Db τ} {w : String} {now : τ}
  {state state' : WorkerState τ}

omit [LinearOrder τ] [VAdd ℤ τ] in
theorem steady_handleFailure {id : String} {e : Exc}
    (h : ∀ sub, accepted id = some sub → sub.Persists service → Displaced db id w) :
    (handleFailure id e : WorkerState τ).Steady service accepted db w := by
  rw [handleFailure]
  split
  · exact h
  · trivial

omit [LinearOrder τ] [VAdd ℤ τ] in
/-- Under the lease, what a source persists can be written for its pending item. -/
theorem finalizable_of_pending {id : String} {p : ℤ} (hpending : Pending db id w p)
    {sub : Submission τ} {source : SourceText} (hpersists : service.PersistsItem sub source)
    {outcome : Option (List (Key × Value))} {error : Option (List (String × String))}
    (hok : service.itemOutcome sub source = .ok (outcome, error)) {a : Aggregate τ} (hinv : a.Inv)
    (hv : db.view id = some a) (how : a.row.leaseOwner = some w) :
    Finalizable db id w p outcome error := by
  obtain ⟨outcome', error', oj, ej, hok', hoj, hej⟩ := hpersists
  rw [hok] at hok'
  cases hok'
  obtain ⟨i, hi, hp, hrest⟩ := hpending a hv how
  have hrun : a.row.status.isTerminal = false := by rw [hinv.processing how]; rfl
  exact ⟨a, i, oj, ej, hv, how, hrun, hi, hp, hrest, itemOutcome_one hok, hoj, hej⟩

theorem WorkerMove.steady (h : WorkerMove service w now db state state' db')
    (hstate : state.Faithful service accepted) (hsteady : state.Steady service accepted db w)
    (hinv : ∀ id a, db.view id = some a → a.Inv)
    (htasks : ∀ id a, db.view id = some a → ∃ sub, accepted id = some sub ∧ sub.Holds service a) :
    state'.Steady service accepted db' w := by
  cases h with
  | rest => trivial
  | @claim a _ _ hv hclaim hrep =>
    have hstep : a.Step (.claim w now (service.lease +ᵥ now)) (a.claim w (service.lease +ᵥ now) now) :=
      .claim hclaim
    obtain ⟨sub, hsub, hholds⟩ := htasks _ a hv
    obtain ⟨reference, he⟩ := claimedState_eq (hholds.step (hinv _ a hv) hstep trivial)
      (TaskRow.claimable_iff.1 hclaim).2.1
    show (claimedState (a.claim w (service.lease +ᵥ now) now).row).Steady service accepted db' w
    rw [he]
    trivial
  | renew => trivial
  | lost hlost => exact fun _ _ _ => hlost
  | @take context t a i _ hv hi hstep hrep =>
    intro b hb _
    rw [hrep.view_self] at hb
    cases hb
    refine ⟨i.take t, List.mem_map.2 ⟨i, hi, if_pos rfl⟩, rfl, rfl⟩
  | stop => trivial
  | infer => exact hsteady
  | @inferError context item e herror =>
    cases hstate with
    | @inferring _ sub _ n source hsub hnames hsource _ hid htext =>
      refine steady_handleFailure fun sub' hsub' hpersists => ?_
      rw [hsub] at hsub'
      cases hsub'
      obtain ⟨outcome, error, -, -, hok, -⟩ := hpersists source (List.mem_of_getElem? hsource)
      rw [processItem_eq hnames hid htext, hok] at herror
      simp at herror
  | finalize =>
    split <;> trivial
  | @refuse context p outcome error e hno =>
    cases hstate with
    | @finalizing _ sub _ _ n source hsub hnames hsource hok =>
      refine steady_handleFailure fun sub' hsub' hpersists a hv how => ?_
      rw [hsub] at hsub'
      cases hsub'
      have hpersisted := hpersists source (List.mem_of_getElem? hsource)
      exact hno (finalizable_of_pending hsteady hpersisted hok (hinv _ a hv) hv how)
  | abort => trivial
  | giveUp => trivial

end Worker

namespace System
variable [LinearOrder τ] [VAdd ℤ τ] {service : ExtractionTaskService} {s s' : System τ} {l : Label τ}

/-- A task that `w` has after a step of others is as it was. -/
theorem Step.held (h : Step service s l s') (hinv : s.Inv service) {w : String}
    (hl : ∀ now, l ≠ .work w now) {id : String} {a : Aggregate τ} (hv : s'.db.view id = some a)
    (how : a.row.leaseOwner = some w) : s.db.view id = some a := by
  rcases h.affects hinv id with he | ⟨c, hmakes, haff⟩
  · rw [← he]; exact hv
  · rw [hv] at haff
    generalize hv₀ : s.db.view id = v at haff
    cases haff with
    | same => rfl
    | created => cases how
    | @stepped b act _ hstep hdoes =>
      exfalso
      -- the other worker has the lease it acts under
      cases hmakes with
      | @claim u now =>
        cases hdoes
        cases hstep
        cases how
        exact hl now rfl
      | @renew u now =>
        cases hdoes
        cases hstep with
        | renew hu =>
          have hsame : b.row.leaseOwner = some w := how
          rw [hu] at hsame
          cases hsame
          exact hl now rfl
      | @take u now t =>
        cases hdoes
        have hu := hstep.of_take.1
        have hsame : b.row.leaseOwner = some w := by
          generalize hact : Action.take u t _ = act at hstep
          cases hstep <;> cases hact
          exact how
        rw [hu] at hsame
        cases hsame
        exact hl now rfl
      | @finalize u now =>
        cases hdoes
        generalize hact : Action.finalize u now _ _ _ = act at hstep
        cases hstep <;> cases hact
        rename_i i hi _ hu _ hpending _
        rw [Aggregate.finalize_row] at how
        rcases TaskRow.advance_cases b.row _ u now with ⟨-, -, -, ho, -⟩ | ⟨-, -, ho, -⟩
        · rw [ho] at how
          cases how
          exact hl now rfl
        · rw [ho] at how; simp at how
      | abort =>
        cases hdoes
        cases hstep
        cases how
      | submit => cases hdoes
      | maintain => cases hdoes
    | purged => cases how

/-- A worker holds on to pending items, a task whose sources persist is never failed as a whole, and
one that was says so. -/
structure Steady (service : ExtractionTaskService) (s : System τ) : Prop where
  workers : ∀ w, (s.workers w).Steady service s.accepted s.db w
  own : ∀ id sub a, s.accepted id = some sub → s.db.view id = some a → sub.OwnErrors service a
  unfailed : ∀ id sub a, s.accepted id = some sub → sub.Persists service → s.db.view id = some a →
    a.row.taskErrorJson = none
  fatal : ∀ id sub a j, s.accepted id = some sub → s.db.view id = some a →
    a.row.taskErrorJson = some j → ∃ detail, canonicalJson (strDict (taskFailure detail)) = .ok j

omit [LinearOrder τ] [VAdd ℤ τ] in
theorem steady_init : (init : System τ).Steady service where
  workers _ := trivial
  own _ _ _ h := by cases h
  unfailed _ _ _ h := by cases h
  fatal _ _ _ _ h := by cases h

theorem Inv.accepted_of_view (hinv : s.Inv service) {id : String}
    {a : Aggregate τ} (hv : s.db.view id = some a) (h : Step service s l s') {sub : Submission τ}
    (hsub : s'.accepted id = some sub) : s.accepted id = some sub := by
  obtain ⟨sub₀, hsub₀, -⟩ := hinv.tasks id a hv
  have hkept := h.accepted hsub₀
  rw [hsub] at hkept
  rw [hsub₀, hkept]

theorem Step.steady_other (h : Step service s l s') (hinv : s.Inv service) {w : String}
    (hl : ∀ now, l ≠ .work w now) {state : WorkerState τ} (hs : state.Steady service s.accepted s.db w) :
    state.Steady service s'.accepted s'.db w := by
  have hpending : ∀ {id p}, Pending s.db id w p → Pending s'.db id w p :=
    fun hp a hv how => hp a (h.held hinv hl hv how) how
  cases state with
  | inferring context item => exact hpending hs
  | finalizing context p outcome error => exact hpending hs
  | failing id detail =>
    intro sub hsub hpersists a hv how
    have hv₀ := h.held hinv hl hv how
    exact hs sub (hinv.accepted_of_view hv₀ h hsub) hpersists a hv₀ how
  | idle | renewing | selecting => trivial

theorem Step.worker (h : Step service s l s') {w : String} (hl : ∀ now, l ≠ .work w now) :
    s'.workers w = s.workers w ∨ s'.workers w = .idle := by
  cases h with
  | submit => exact .inl rfl
  | @work u now =>
    have hne : w ≠ u := by
      rintro rfl
      exact hl now rfl
    exact .inl (Function.update_of_ne hne _ _)
  | @crash u =>
    by_cases hw : w = u
    · subst hw
      exact .inr (Function.update_self _ _ _)
    · exact .inl (Function.update_of_ne hw _ _)
  | maintain => exact .inl rfl

theorem Step.move (hinv : s.Inv service) (w : String) (now : τ) :
    WorkerMove service w now s.db (s.workers w) ((s.work service w now).workers w)
      (s.work service w now).db := by
  have hmove : WorkerMove service w now s.db (s.workers w) _ _ :=
    workerStep_move (fun id a hv => hinv.aggregate hv) (s.workers w)
  have hself : (s.work service w now).workers w = (service.workerStep w now (s.workers w) s.db).1 :=
    Function.update_self _ _ _
  rw [hself]
  exact hmove

/-- Where a task comes from: it was as it is, or is new, or took a step its submission allows, and
only a worker that was failing it has failed it. -/
theorem Step.task_cases (h : Step service s l s') (hinv : s.Inv service) {id : String}
    {sub : Submission τ} {a' : Aggregate τ} (hsub : s'.accepted id = some sub)
    (hv : s'.db.view id = some a') :
    (s.accepted id = some sub ∧ s.db.view id = some a') ∨
    (∃ owner cj mj items created expires, a' = newAggregate id owner cj mj items created expires) ∨
    ∃ a act, s.accepted id = some sub ∧ s.db.view id = some a ∧ a.Step act a' ∧
      sub.Allows service act ∧
      ∀ u t ej, act = .abort u t ej → ∃ detail, s.workers u = .failing id detail := by
  by_cases hl : ∃ w now, l = .work w now
  · obtain ⟨w, now, rfl⟩ := hl
    cases h with
    | work =>
      have hold : s.accepted id = some sub := hsub
      rcases (Step.move hinv w now).effect (hinv.workers w) with
        hsame | ⟨id₀, b, act, b', hb, hstep, hrep, hallows, habort⟩
      · rw [hsame] at hv
        exact .inl ⟨hold, hv⟩
      · rw [hrep.view id] at hv
        split at hv
        · rename_i hid
          subst hid
          cases hv
          refine .inr (.inr ⟨b, act, hold, hb, hstep, hallows sub hold, ?_⟩)
          intro u t ej hact
          obtain ⟨rfl, hstate⟩ := habort u t ej hact
          exact hstate
        · exact .inl ⟨hold, hv⟩
  · rcases h.affects hinv id with he | ⟨c, hmakes, haff⟩
    · rw [he] at hv
      exact .inl ⟨hinv.accepted_of_view hv h hsub, hv⟩
    · rw [hv] at haff
      generalize hv₀ : s.db.view id = v at haff
      cases haff with
      | same => exact .inl ⟨hinv.accepted_of_view hv₀ h hsub, rfl⟩
      | created => exact .inr (.inl ⟨_, _, _, _, _, _, rfl⟩)
      | stepped hstep hdoes =>
        -- of the labels left only submission and maintenance call, and they take no such step
        cases hmakes with
        | submit => cases hdoes
        | maintain => cases hdoes
        | _ => exact absurd ⟨_, _, rfl⟩ hl
      | purged _ hstep =>
        refine .inr (.inr ⟨_, _, hinv.accepted_of_view hv₀ h hsub, rfl, hstep, trivial, ?_⟩)
        rintro u t ej ⟨⟩

theorem Step.steady (h : Step service s l s') (hinv : s.Inv service) (hs : s.Steady service) :
    s'.Steady service := by
  constructor
  · intro w
    by_cases hl : ∃ now, l = .work w now
    · obtain ⟨now, rfl⟩ := hl
      cases h with
      | work =>
        exact (Step.move hinv w now).steady (hinv.workers w) (hs.workers w)
          (fun _ _ hv => hinv.aggregate hv) hinv.tasks
    · have hne : ∀ now, l ≠ .work w now := fun now he => hl ⟨now, he⟩
      rcases h.worker hne with he | he
      · rw [he]; exact h.steady_other hinv hne (hs.workers w)
      · rw [he]; trivial
  · intro id sub a hsub hv
    rcases h.task_cases hinv hsub hv with ⟨hold, hv₀⟩ | ⟨owner, cj, mj, items, created, expires, rfl⟩ |
      ⟨b, act, hold, hv₀, hstep, hallows, -⟩
    · exact hs.own id sub a hold hv₀
    · exact .newAggregate _ _ _ _ _ _ _
    · exact (hs.own id sub b hold hv₀).step (hinv.aggregate hv₀) hstep hallows
  · intro id sub a hsub hpersists hv
    rcases h.task_cases hinv hsub hv with ⟨hold, hv₀⟩ | ⟨owner, cj, mj, items, created, expires, rfl⟩ |
      ⟨b, act, hold, hv₀, hstep, -, habort⟩
    · exact hs.unfailed id sub a hold hpersists hv₀
    · rfl
    · have hb := hs.unfailed id sub b hold hpersists hv₀
      cases hstep with
      | @abort u t ej how =>
        obtain ⟨detail, hstate⟩ := habort u t ej rfl
        have hdisplaced := hs.workers u
        rw [hstate] at hdisplaced
        exact absurd how (hdisplaced sub hold hpersists b hv₀)
      | purge => rfl
      | _ => exact hb
  · intro id sub a j hsub hv hj
    rcases h.task_cases hinv hsub hv with ⟨hold, hv₀⟩ | ⟨owner, cj, mj, items, created, expires, rfl⟩ |
      ⟨b, act, hold, hv₀, hstep, hallows, -⟩
    · exact hs.fatal id sub a j hold hv₀ hj
    · cases hj
    · cases hstep with
      | abort =>
        obtain ⟨detail, hej⟩ := hallows
        cases hj
        exact ⟨detail, hej⟩
      | purge => cases hj
      | _ => exact hs.fatal id sub b j hold hv₀ hj

theorem Reachable.steady (h : Reachable service s) : s.Steady service := by
  obtain ⟨labels, hrun⟩ := h
  have hstep : ∀ (t : System τ) (l : Label τ) (u : System τ),
      (t.Inv service ∧ t.Steady service) → Step service t l u → u.Inv service ∧ u.Steady service := by
    rintro t l u ⟨hinv, hsteady⟩ hst
    exact ⟨hst.inv hinv, hst.steady hinv hsteady⟩
  exact (hrun.invariant hstep ⟨inv_init, steady_init⟩).2

end System

end TextExtraction
