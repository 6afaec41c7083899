import TextExtraction.TaskSteady

/-!
# A worker left alone finishes

One worker that nothing interrupts, a submission that finds no task unfinished, and maintenance
before the expiry: if every source persists, each item takes the worker four calls, and after one
more for the claim the task is finished (`System.SoloRun.finishes`). `Stage` is where worker and task
stand, with the number of calls left.
-/

namespace TextExtraction

open Python Relational Transition

variable {τ : Type}

/-- The items still to be finished. -/
def Aggregate.remaining (a : Aggregate τ) : ℕ := a.row.acceptedCount - a.row.processedCount

theorem Aggregate.Inv.remaining_pos {a : Aggregate τ} (h : a.Inv) (hrun : a.row.status.isTerminal = false) :
    0 < a.remaining := by
  have hlt := h.processed_lt hrun
  unfold remaining
  omega

/-- Where the worker `w` stands with the task `a` of id `id`, and the calls it has left. -/
inductive Stage [LT τ] (w id : String) (a : Aggregate τ) : WorkerState τ → ℕ → Prop
  | queued (hfree : a.row.leaseOwner = none) (hpurged : a.row.purgedAt = none)
      (hrun : a.row.status.isTerminal = false) : Stage w id a .idle (4 * a.remaining + 1)
  | renewing {context} (hid : context.taskId = id) (how : a.row.leaseOwner = some w) :
      Stage w id a (.renewing context) (4 * a.remaining)
  | selecting {context t} (hid : context.taskId = id) (how : a.row.leaseOwner = some w)
      (hlease : ∃ expiry, a.row.leaseExpiresAt = some expiry ∧ t < expiry) :
      Stage w id a (.selecting context t) (4 * a.remaining - 1)
  | inferring {context item} (hid : context.taskId = id) (how : a.row.leaseOwner = some w) :
      Stage w id a (.inferring context item) (4 * a.remaining - 2)
  | finalizing {context p outcome error} (hid : context.taskId = id)
      (how : a.row.leaseOwner = some w) :
      Stage w id a (.finalizing context p outcome error) (4 * a.remaining - 3)
  | done (hpurged : a.row.purgedAt = none) (hterm : a.row.status.isTerminal = true) :
      Stage w id a .idle 0

/-- No other task is unfinished. -/
def Alone (db : Db τ) (id : String) : Prop :=
  ∀ id' b, db.view id' = some b → b.row.status.isTerminal = false → id' = id

section Worker
variable [LinearOrder τ] {w id : String} {a : Aggregate τ} {state : WorkerState τ} {n : ℕ}

theorem Stage.purgedAt (h : Stage w id a state n) (hinv : a.Inv) : a.row.purgedAt = none := by
  cases h with
  | queued _ hpurged => exact hpurged
  | renewing _ how | selecting _ how | inferring _ how | finalizing _ how =>
    exact hinv.unpurged_of_leased how
  | done hpurged => exact hpurged

theorem Stage.terminal (h : Stage w id a state n) (hinv : a.Inv) (hn : n = 0) :
    a.row.status.isTerminal = true := by
  have hpos : ∀ u, a.row.leaseOwner = some u → 0 < a.remaining := by
    intro u hu
    refine hinv.remaining_pos ?_
    rw [hinv.processing hu]; rfl
  cases h with
  | queued _ _ hrun => omega
  | renewing _ how | selecting _ how | inferring _ how | finalizing _ how =>
    have := hpos w how
    omega
  | done _ hterm => exact hterm

theorem Aggregate.Inv.finalize_stage (h : a.Inv) (how : a.row.leaseOwner = some w) {i : ItemRow τ}
    {oj ej : Option Json} {now : τ} {context : WorkerContext} (hid : context.taskId = id) :
    ∃ m, Stage w id (a.finalize w i.position oj ej now)
        (if (a.finalize w i.position oj ej now).row.status.isTerminal then .idle else .renewing context)
        m ∧ (m = 0 ∨ m + 1 ≤ 4 * a.remaining - 3) := by
  have hpurged := h.unpurged_of_leased how
  have hrun : a.row.status.isTerminal = false := by rw [h.processing how]; rfl
  have hremaining : (a.finalize w i.position oj ej now).remaining = a.remaining - 1 := by
    unfold Aggregate.remaining
    rw [Aggregate.finalize_row, TaskRow.advance_acceptedCount, TaskRow.advance_processedCount]
    omega
  rcases TaskRow.advance_cases a.row ej.isNone w now with
    ⟨hmore, hstatus, -, how', -⟩ | ⟨hlast, -, -, -, hstatus⟩
  · rw [← Aggregate.finalize_row a w i.position oj ej now] at hstatus how'
    rw [hstatus, if_neg (by decide)]
    refine ⟨_, .renewing hid how', .inr ?_⟩
    have hlt := h.processed_lt hrun
    rw [hremaining]
    unfold Aggregate.remaining
    omega
  · have hterm : (a.finalize w i.position oj ej now).row.status.isTerminal = true := by
      rw [Aggregate.finalize_row]
      rcases hstatus with ⟨hs, -⟩ | ⟨hs, -⟩ | ⟨hs, -⟩ <;> rw [hs] <;> rfl
    rw [if_pos hterm]
    exact ⟨0, .done hpurged hterm, .inl rfl⟩

variable [VAdd ℤ τ] {service : ExtractionTaskService} {accepted : String → Option (Submission τ)}
  {db db' : Db τ} {now : τ} {state' : WorkerState τ}

omit [VAdd ℤ τ] in
/-- Only the task that is left to finish can be claimed. -/
theorem Alone.of_claimable {b : Aggregate τ} (halone : Alone db id) (hv : db.view id = some a)
    (hb : db.view b.row.taskId = some b) (hclaim : b.row.claimable now = true) :
    b.row.taskId = id ∧ b = a := by
  have hid : b.row.taskId = id := halone _ b hb (TaskRow.claimable_iff.1 hclaim).1
  rw [hid, hv] at hb
  exact ⟨hid, (Option.some.inj hb).symm⟩

/-- Each call of the worker takes it on, one call fewer to go. -/
theorem WorkerMove.stage (h : WorkerMove service w now db state state' db')
    (hstage : Stage w id a state n) (hv : db.view id = some a) (halone : Alone db id)
    (hstate : state.Faithful service accepted) (hsteady : state.Steady service accepted db w)
    (hinv : ∀ id a, db.view id = some a → a.Inv)
    (htasks : ∀ id a, db.view id = some a → ∃ sub, accepted id = some sub ∧ sub.Holds service a)
    (hpersists : ∀ sub, accepted id = some sub → sub.Persists service)
    (hlease : ∀ t : τ, t < service.lease +ᵥ t) (hnow : now < a.row.expiresAt) :
    ∃ a' m, db'.view id = some a' ∧ Stage w id a' state' m ∧ (m = 0 ∨ m + 1 ≤ n) := by
  have ha := hinv id a hv
  cases hstage with
  | queued hfree hpurged hrun =>
    have hclaimable : a.row.claimable now = true :=
      TaskRow.claimable_iff.2 ⟨hrun, hpurged, hnow, .inl hfree⟩
    cases h with
    | rest hnone =>
      rw [oldestClaimable_eq_none hnone hv] at hclaimable
      simp at hclaimable
    | @claim b _ hold hb hclaim hrep =>
      obtain ⟨rfl, rfl⟩ := halone.of_claimable hv hb hclaim
      obtain ⟨sub, hsub, hholds⟩ := htasks _ b hv
      have hstep : b.Step (.claim w now (service.lease +ᵥ now)) (b.claim w (service.lease +ᵥ now) now) :=
        .claim hclaim
      obtain ⟨reference, he⟩ := claimedState_eq (hholds.step ha hstep trivial) hpurged
      have hstate' : claimedState (b.row.claim w (service.lease +ᵥ now) now) =
          .renewing ⟨b.row.taskId, sub.propertyNames, reference⟩ := he
      rw [hstate']
      exact ⟨_, _, hrep.view_self, .renewing rfl rfl, .inr (Nat.le_refl _)⟩
  | renewing hid how =>
    subst hid
    cases h with
    | @renew _ b _ hb _ _ hrep =>
      rw [hv] at hb
      cases hb
      refine ⟨_, _, hrep.view_self, .selecting rfl how ⟨_, rfl, hlease now⟩, .inr ?_⟩
      have hpos := ha.remaining_pos (by rw [ha.processing how]; rfl)
      show 4 * a.remaining - 1 + 1 ≤ 4 * a.remaining
      omega
    | lost hlost => exact absurd how (hlost a hv)
  | selecting hid how hheld =>
    subst hid
    cases h with
    | @take _ t b i _ hb hi hstep hrep =>
      rw [hv] at hb
      cases hb
      refine ⟨_, _, hrep.view_self, .inferring rfl how, .inr ?_⟩
      have hpos := ha.remaining_pos (by rw [ha.processing how]; rfl)
      show 4 * a.remaining - 2 + 1 ≤ 4 * a.remaining - 1
      omega
    | stop hno =>
      obtain ⟨expiry, hexpiry, hlt⟩ := hheld
      have hprocessing := ha.processing how
      obtain ⟨i, hi⟩ := ha.exists_pending (by rw [hprocessing]; rfl)
      refine absurd ?_ (hno a i.position hv)
      exact .take how (by rw [hexpiry]; simpa using hlt) hprocessing (ha.unpurged_of_leased how) hi
  | inferring hid how =>
    subst hid
    cases h with
    | infer =>
      refine ⟨a, _, hv, .finalizing rfl how, .inr ?_⟩
      have hpos := ha.remaining_pos (by rw [ha.processing how]; rfl)
      omega
    | inferError herror =>
      cases hstate with
      | @inferring _ sub _ k source hsub hnames hsource _ hid htext =>
        obtain ⟨outcome, error, -, -, hok, -⟩ :=
          hpersists sub hsub source (List.mem_of_getElem? hsource)
        rw [processItem_eq hnames hid htext, hok] at herror
        simp at herror
  | finalizing hid how =>
    subst hid
    cases h with
    | @finalize _ _ _ b i _ _ _ hb _ _ _ _ hrep =>
      rw [hv] at hb
      cases hb
      obtain ⟨m, hstage, hm⟩ := ha.finalize_stage how rfl
      exact ⟨_, m, hrep.view_self, hstage, hm⟩
    | refuse hno =>
      cases hstate with
      | @finalizing _ sub _ _ k source hsub hnames hsource hok =>
        have hpersisted := hpersists sub hsub source (List.mem_of_getElem? hsource)
        exact absurd (finalizable_of_pending hsteady hpersisted hok ha hv how) hno
  | done hpurged hterm =>
    cases h with
    | rest => exact ⟨a, 0, hv, .done hpurged hterm, .inl rfl⟩
    | @claim b _ hold hb hclaim hrep =>
      obtain ⟨rfl, rfl⟩ := halone.of_claimable hv hb hclaim
      have hrun := (TaskRow.claimable_iff.1 hclaim).1
      rw [hterm] at hrun
      simp at hrun

theorem WorkerMove.alone (h : WorkerMove service w now db state state' db')
    (hstate : state.Faithful service accepted) (halone : Alone db id) : Alone db' id := by
  rcases h.effect hstate with rfl | ⟨id₀, b, act, b', hb, hstep, hrep, -⟩
  · exact halone
  intro id' c hc hrun
  rw [hrep.view id'] at hc
  split at hc
  · rename_i hid
    cases hc
    rcases hstep.not_terminal with hbrun | ⟨t, -, rfl⟩
    · rw [hid]
      exact halone id₀ b hb hbrun
    · rw [hid]
      exact halone id₀ b hb hrun
  · exact halone id' c hc hrun

end Worker

/-! ### Runs of one worker -/

/-- One worker and maintenance, before `deadline`. -/
def Label.Solo [LT τ] (w : String) (deadline : τ) : Label τ → Prop
  | .work u now => u = w ∧ now < deadline
  | .maintain now => now < deadline
  | .submit .. | .crash _ => False

def Label.isWork : Label τ → Bool
  | .work .. => true
  | _ => false

namespace System
variable [LinearOrder τ] [VAdd ℤ τ] {service : ExtractionTaskService} {s s' : System τ}
  {w id : String} {sub : Submission τ}

/-- The submission has been accepted, its task is the only unfinished one, and `w` has `n` calls to
go. -/
structure Left (service : ExtractionTaskService) (w id : String) (sub : Submission τ) (n : ℕ)
    (s : System τ) : Prop where
  reachable : Reachable service s
  accepted : s.accepted id = some sub
  alone : Alone s.db id
  stage : ∃ a, s.db.view id = some a ∧ Stage w id a (s.workers w) n

/-- A run of the worker `w` alone: it finds the submission `sub` as task `id` in a store without
unfinished tasks, is never interrupted, and makes as many calls as the sources take, all before the
task expires. -/
inductive SoloRun (service : ExtractionTaskService) (w id : String) (sub : Submission τ) (s : System τ) :
    Prop
  | intro {s₀ ownerId request now labels} (hreachable : Reachable service s₀)
      (hidle : s₀.workers w = .idle)
      (hfinished : ∀ id' b, s₀.db.view id' = some b → b.row.status.isTerminal = true)
      (hfresh : s₀.accepted id = none)
      (haccepted : (s₀.submit service id ownerId request now).accepted id = some sub)
      (hrun : Run (Step service) (s₀.submit service id ownerId request now) labels s)
      (hsolo : ∀ l ∈ labels, l.Solo w sub.expiresAt)
      (hcalls : 4 * sub.request.texts.length + 1 ≤ labels.countP Label.isWork) :
      SoloRun service w id sub s

/-- The submission waits to be claimed. -/
theorem left_submit {s₀ : System τ} {ownerId : String} {request : ExtractionTaskRequest} {now : τ}
    (hreachable : Reachable service s₀) (hidle : s₀.workers w = .idle)
    (hfinished : ∀ id' b, s₀.db.view id' = some b → b.row.status.isTerminal = true)
    (hfresh : s₀.accepted id = none)
    (haccepted : (s₀.submit service id ownerId request now).accepted id = some sub) :
    Left service w id sub (4 * sub.request.texts.length + 1) (s₀.submit service id ownerId request now) := by
  have hreachable' : Reachable service (s₀.submit service id ownerId request now) := by
    obtain ⟨labels, hrun⟩ := hreachable
    exact ⟨_, hrun.snoc (.submit hfresh)⟩
  rcases @submit_cases τ _ service s₀.db hreachable.inv.closed id ownerId request now with
    ⟨e, he⟩ | ⟨model, cj, mj, r, hmodel, -, -, -, hok, hrep⟩
  · rw [System.submit, he] at haccepted
    rw [hfresh] at haccepted
    simp at haccepted
  · have hsub : sub = ⟨ownerId, request, model, service.retention +ᵥ now⟩ := by
      rw [System.submit] at haccepted
      simp only [hok, hmodel, Function.update_self, Option.some.injEq] at haccepted
      exact haccepted.symm
    refine ⟨hreachable', haccepted, ?_, ?_⟩
    · intro id' b hb hrun
      have hview := hrep.view id'
      rw [show (s₀.submit service id ownerId request now).db =
        (service.submit id ownerId request now s₀.db).2 from rfl, hview] at hb
      split at hb
      · assumption
      · rw [hfinished id' b hb] at hrun
        simp at hrun
    · refine ⟨_, hrep.view_self, ?_⟩
      have hworkers : (s₀.submit service id ownerId request now).workers w = .idle := hidle
      have hremaining : sub.request.texts.length = (newAggregate id ownerId cj mj
          (request.texts.map fun source => (source.id, source.text)) now
          (service.retention +ᵥ now)).remaining := by
        rw [hsub]
        simp [Aggregate.remaining, newAggregate, newTask]
      rw [hworkers, hremaining]
      exact .queued rfl rfl rfl

/-- A step of the lone worker takes it on; maintenance changes nothing for it. -/
theorem Left.step {n : ℕ} (h : Left service w id sub n s) (hpersists : sub.Persists service)
    (hlease : ∀ t : τ, t < service.lease +ᵥ t) {l : Label τ} (hl : l.Solo w sub.expiresAt)
    (hstep : Step service s l s') :
    ∃ m, Left service w id sub m s' ∧ (m = 0 ∨ m + (if l.isWork then 1 else 0) ≤ n) := by
  obtain ⟨hreachable, haccepted, halone, a, hv, hstage⟩ := h
  have hinv := hreachable.inv
  have hreachable' : Reachable service s' := by
    obtain ⟨labels, hrun⟩ := hreachable
    exact ⟨_, hrun.snoc hstep⟩
  have haccepted' := hstep.accepted haccepted
  have hholds := hinv.holds haccepted hv
  cases hstep with
  | submit => cases hl
  | crash => cases hl
  | @work u now =>
    obtain ⟨rfl, hnow⟩ := hl
    have hmove := Step.move hinv u now
    obtain ⟨a', m, hv', hstage', hm⟩ := hmove.stage hstage hv halone (hinv.workers u)
      (hreachable.steady.workers u) (fun _ _ hb => hinv.aggregate hb) hinv.tasks
      (fun sub' hsub' => by rw [haccepted] at hsub'; cases hsub'; exact hpersists)
      hlease (by rw [hholds.expiresAt]; exact hnow)
    exact ⟨m, ⟨hreachable', haccepted', hmove.alone (hinv.workers u) halone, a', hv', hstage'⟩, hm⟩
  | @maintain now =>
    have hnow : now < a.row.expiresAt := by rw [hholds.expiresAt]; exact hl
    have hv' := view_maintainRetention_of_live service hv (hstage.purgedAt (hinv.aggregate hv)) hnow
    refine ⟨n, ⟨hreachable', haccepted', fun id' c hc hrun => ?_, a, hv', hstage⟩, .inr (Nat.le_refl n)⟩
    have hview := view_maintainRetention service now s.db id'
    rw [show (s.maintain service now).db = service.maintainRetention now s.db from rfl, hview] at hc
    obtain ⟨b, hb, hmaintain⟩ := Option.bind_eq_some_iff.1 hc
    refine halone id' b hb ?_
    rcases (Aggregate.maintain_eq_some.1 hmaintain).1 with ⟨-, rfl⟩ | ⟨-, rfl⟩
    · exact hrun
    · exact hrun

/-- If every source persists, the worker finishes the task. -/
theorem SoloRun.finishes (h : SoloRun service w id sub s) (hpersists : sub.Persists service)
    (hlease : ∀ t : τ, t < service.lease +ᵥ t) :
    ∃ a, s.db.view id = some a ∧ a.row.status.isTerminal = true ∧ a.row.purgedAt = none := by
  obtain ⟨hreachable, hidle, hfinished, hfresh, haccepted, hrun, hsolo, hcalls⟩ := h
  have hleft := hrun.countdown (fun n t l u hl hn hst => Left.step hn hpersists hlease hl hst) hsolo
    (left_submit hreachable hidle hfinished hfresh haccepted) hcalls
  obtain ⟨a, hv, hstage⟩ := hleft.stage
  have ha := hleft.reachable.inv.aggregate hv
  exact ⟨a, hv, hstage.terminal ha rfl, hstage.purgedAt ha⟩

theorem SoloRun.reachable (h : SoloRun service w id sub s) :
    Reachable service s ∧ s.accepted id = some sub := by
  obtain ⟨⟨before, hbefore⟩, -, -, hfresh, haccepted, hrun, -, -⟩ := h
  refine ⟨⟨_, (hbefore.snoc (.submit hfresh)).append hrun⟩, ?_⟩
  refine hrun.invariant (P := fun t => t.accepted id = some sub) ?_ haccepted
  intro t l u hsub hst
  exact hst.accepted hsub

end System

end TextExtraction
