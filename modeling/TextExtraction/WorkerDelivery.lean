import Mathlib.Algebra.BigOperators.Group.Finset.Basic
import Mathlib.Algebra.Order.BigOperators.Group.Finset
import TextExtraction.TaskQueue
import TextExtraction.WorkerShutdown

/-!
# No accepted task starves

One worker loop, submissions that keep coming, and leases left by workers that died. Tasks are claimed
by age, so what a task waits for is the work on the tasks no younger than it (`Db.backlog`) and on the
task in hand (`LoopState.rank`): a claim moves a task from the one to the other, every other move of the
loop takes something off the rank, and nobody else adds to either.
-/

namespace TextExtraction

open Python Relational Transition

variable {τ : Type}

/-! ### The work ahead -/

section Backlog
variable [LinearOrder τ]

/-- No younger than `age`, unfinished, and not in the hands of `w`. -/
def Aggregate.Ahead (w : String) (age : Lex (τ × String)) (a : Aggregate τ) : Prop :=
  toLex (a.row.createdAt, a.row.taskId) ≤ age ∧ a.row.status.isTerminal = false ∧ a.row.purgedAt = none ∧
    a.row.leaseOwner ≠ some w

instance (w : String) (age : Lex (τ × String)) (a : Aggregate τ) : Decidable (a.Ahead w age) :=
  inferInstanceAs (Decidable (_ ∧ _))

/-- The calls a task ahead costs: four for each unfinished item, and those around them. -/
def Db.work (db : Db τ) (w : String) (age : Lex (τ × String)) (id : String) : ℕ :=
  match db.view id with
  | some a => if a.Ahead w age then 4 * a.remaining + 8 else 0
  | none => 0

def Db.taskIds (db : Db τ) : Finset String := (db.tasks.rows.map TaskRow.taskId).toFinset

/-- The calls that the tasks ahead cost. -/
def Db.backlog (db : Db τ) (w : String) (age : Lex (τ × String)) : ℕ := ∑ id ∈ db.taskIds, db.work w age id

variable {db db' : Db τ} {w id : String} {age : Lex (τ × String)} {a a' : Aggregate τ}

omit [LinearOrder τ] in
theorem Db.mem_taskIds (hv : db.view id = some a) : id ∈ db.taskIds := by
  rw [taskIds, List.mem_toFinset, List.mem_map]
  exact ⟨a.row, Table.mem_of_lookup (Db.view_eq_some.1 hv).1, Db.view_taskId hv⟩

theorem work_of_view (hv : db.view id = some a) :
    db.work w age id = if a.Ahead w age then 4 * a.remaining + 8 else 0 := by
  unfold Db.work
  rw [hv]

theorem mem_taskIds_of_work (h : db.work w age id ≠ 0) : id ∈ db.taskIds := by
  cases hv : db.view id with
  | none =>
    unfold Db.work at h
    rw [hv] at h
    exact absurd rfl h
  | some a => exact Db.mem_taskIds hv

/-- The backlog as a sum over the tasks of an earlier store. -/
theorem backlog_le_sum (h : ∀ id, db'.work w age id ≤ db.work w age id) :
    db'.backlog w age ≤ ∑ id ∈ db.taskIds, db'.work w age id := by
  refine Finset.sum_le_sum_of_ne_zero fun id _ hne => ?_
  have hle := h id
  have hbefore : db.work w age id ≠ 0 := by omega
  exact mem_taskIds_of_work hbefore

theorem backlog_mono (h : ∀ id, db'.work w age id ≤ db.work w age id) : db'.backlog w age ≤ db.backlog w age :=
  (backlog_le_sum h).trans (Finset.sum_le_sum fun id _ => h id)

/-- Taking a task from the line takes its work off the backlog. -/
theorem backlog_taken (h : ∀ id, db'.work w age id ≤ db.work w age id) (htaken : db'.work w age id = 0) :
    db'.backlog w age + db.work w age id ≤ db.backlog w age := by
  by_cases hid : id ∈ db.taskIds
  · have hbefore := Finset.add_sum_erase db.taskIds (db.work w age) hid
    have hafter := Finset.add_sum_erase db.taskIds (db'.work w age) hid
    have hrest : ∑ id' ∈ db.taskIds.erase id, db'.work w age id' ≤ ∑ id' ∈ db.taskIds.erase id, db.work w age id' :=
      Finset.sum_le_sum fun id' _ => h id'
    have hle := backlog_le_sum h
    unfold Db.backlog at hle ⊢
    omega
  · have hzero : db.work w age id = 0 := by
      by_contra hne
      exact hid (mem_taskIds_of_work hne)
    rw [hzero]
    exact backlog_mono h

end Backlog

/-! ### What a worker and the others do to the store -/

section Effect
variable [LinearOrder τ] {db db' : Db τ} {w id : String} {age : Lex (τ × String)} {a a' : Aggregate τ}

/-- What a transaction of the worker `w` does to the task it is about. -/
structure Aggregate.Worked (w : String) (a a' : Aggregate τ) : Prop where
  running : a.row.status.isTerminal = false
  lease : a'.row.leaseOwner = some w ∨ a'.row.leaseOwner = none ∧ a'.row.status.isTerminal = true
  createdAt : a'.row.createdAt = a.row.createdAt
  expiresAt : a'.row.expiresAt = a.row.expiresAt
  purgedAt : a'.row.purgedAt = a.row.purgedAt

theorem Aggregate.Step.worked {act : Action τ} (h : a.Step act a') (hact : act.worker = some w) : a.Worked w a' := by
  cases h with
  | claim hclaim =>
    cases hact
    exact ⟨(TaskRow.claimable_iff.1 hclaim).1, .inl rfl, rfl, rfl, rfl⟩
  | renew how hrun =>
    cases hact
    exact ⟨hrun, .inl how, rfl, rfl, rfl⟩
  | take how hlease hstatus =>
    cases hact
    exact ⟨by rw [hstatus]; rfl, .inl how, rfl, rfl, rfl⟩
  | @finalize w' now i oj ej how hrun hi hpending hone =>
    cases hact
    refine ⟨hrun, ?_, rfl, rfl, rfl⟩
    rw [Aggregate.finalize_row]
    rcases a.row.advance_cases ej.isNone w now with ⟨-, -, -, howner, -⟩ | ⟨-, -, howner, -, hs⟩
    · exact .inl howner
    · refine .inr ⟨howner, ?_⟩
      rcases hs with ⟨hs, -⟩ | ⟨hs, -⟩ | ⟨hs, -⟩ <;> rw [hs] <;> rfl
  | abort how hrun => exact ⟨hrun, .inr ⟨rfl, rfl⟩, rfl, rfl, rfl⟩
  | purge => cases hact

/-- A lease of anybody but `w` is over at `start`. -/
def Db.Lapsed (w : String) (start : τ) (db : Db τ) : Prop :=
  ∀ id a w', db.view id = some a → a.row.leaseOwner = some w' → w' ≠ w → a.row.leaseExpiresAt.any (· ≤ start) = true

/-- The task of that age and expiry is there, finished if `done` is asked for. -/
def Db.Keeps (done : Bool) (age : Lex (τ × String)) (expiresAt : τ) (db : Db τ) : Prop :=
  ∃ a, db.view (ofLex age).2 = some a ∧ a.row.createdAt = (ofLex age).1 ∧ a.row.expiresAt = expiresAt ∧
    a.row.purgedAt = none ∧ (done = true → a.row.status.isTerminal = true)

variable {start expiresAt : τ} {done : Bool}

theorem Db.Lapsed.replace (h : db.Lapsed w start) (hworked : a.Worked w a') (hrep : db.Replaces db' id a') :
    db'.Lapsed w start := by
  intro id' b w' hv how hne
  by_cases hid : id' = id
  · rw [hid, hrep.view_self] at hv
    cases hv
    rcases hworked.lease with hself | ⟨hnone, -⟩
    · rw [hself] at how
      exact absurd (Option.some.inj how).symm hne
    · rw [hnone] at how
      cases how
  · rw [hrep.view_ne hid] at hv
    exact h id' b w' hv how hne

omit [LinearOrder τ] in
theorem Db.Keeps.replace (h : db.Keeps done age expiresAt) (hv : db.view id = some a) (hworked : a.Worked w a')
    (hrep : db.Replaces db' id a') : db'.Keeps done age expiresAt := by
  obtain ⟨b, hb, hcreated, hexpires, hpurged, hdone⟩ := h
  by_cases hid : (ofLex age).2 = id
  · rw [hid, hv] at hb
    cases hb
    refine ⟨a', by rw [hid, hrep.view_self], ?_, ?_, ?_, fun htrue => ?_⟩
    · rw [hworked.createdAt, hcreated]
    · rw [hworked.expiresAt, hexpires]
    · rw [hworked.purgedAt, hpurged]
    · have hterm := hdone htrue
      rw [hworked.running] at hterm
      simp at hterm
  · exact ⟨b, by rw [hrep.view_ne hid, hb], hcreated, hexpires, hpurged, hdone⟩

/-- A transaction of the worker takes the task out of the line. -/
theorem backlog_replace (age : Lex (τ × String)) (hworked : a.Worked w a') (hrep : db.Replaces db' id a') :
    db'.backlog w age + db.work w age id ≤ db.backlog w age := by
  have htaken : db'.work w age id = 0 := by
    rw [work_of_view hrep.view_self, if_neg]
    rintro ⟨-, hrun, -, howner⟩
    rcases hworked.lease with hself | ⟨-, hterm⟩
    · exact howner hself
    · rw [hrun] at hterm
      simp at hterm
  refine backlog_taken (fun id' => ?_) htaken
  by_cases hid : id' = id
  · rw [hid, htaken]
    exact Nat.zero_le _
  · unfold Db.work
    rw [hrep.view_ne hid]

variable [VAdd ℤ τ] {c : Call τ}

/-- A submission later than `created`, or maintenance before `expiresAt`. -/
def Call.Later (created expiresAt : τ) : Call τ → Prop
  | createTask _ _ _ _ _ createdAt _ => created < createdAt
  | maintainRetention now _ => now < expiresAt
  | _ => False

omit [VAdd ℤ τ] in
theorem Call.Later.worker {created : τ} (h : c.Later created expiresAt) : c.worker = none := by
  cases c <;> first | rfl | exact absurd h id

theorem Db.Lapsed.foreign (h : db.Lapsed w start) (hc : db.Closed) (hworker : c.worker = none) :
    (c.exec db).Lapsed w start := by
  intro id a' w' hv how hne
  obtain ⟨a, hbefore, hown, hexpiry⟩ := Call.lease_kept hc (by rw [hworker]; rintro ⟨⟩) hv how
  rw [hexpiry]
  exact h id a w' hbefore hown hne

theorem Call.Later.not_does {created : τ} (h : c.Later created expiresAt) {act : Action τ} : ¬ c.Does id act := by
  intro hdoes
  cases hdoes <;> exact h

theorem Db.Keeps.later {created : τ} (h : db.Keeps done age expiresAt) (hc : db.Closed)
    (hlater : c.Later created expiresAt) : (c.exec db).Keeps done age expiresAt := by
  obtain ⟨a, hv, hcreated, hexpires, hpurged, hdone⟩ := h
  have haffects := (c.change hc).affects (ofLex age).2
  rw [hv] at haffects
  generalize hafter : (c.exec db).view (ofLex age).2 = after at haffects
  cases haffects with
  | same => exact ⟨a, hafter, hcreated, hexpires, hpurged, hdone⟩
  | stepped _ hdoes => exact absurd hdoes hlater.not_does
  | purged hcall hstep =>
    subst hcall
    cases hstep with
    | purge hexp =>
      refine absurd (TaskRow.expired_iff.1 hexp).1 (not_le.2 ?_)
      rw [hexpires]
      exact hlater
  | deleted hcall hgone =>
    subst hcall
    rcases (Aggregate.maintain_eq_none.1 hgone).2 with hle | hsome
    · rw [hexpires] at hle
      exact absurd hle (not_le.2 hlater)
    · rw [hpurged] at hsome
      cases hsome

theorem backlog_later (hc : db.Closed) (hlater : c.Later (ofLex age).1 expiresAt) :
    (c.exec db).backlog w age ≤ db.backlog w age := by
  refine backlog_mono fun id => ?_
  have haffects := (c.change hc).affects id
  unfold Db.work
  generalize db.view id = before at haffects ⊢
  generalize (c.exec db).view id = after at haffects ⊢
  cases haffects with
  | same => exact Nat.le_refl _
  | @created _ _ _ _ createdAt _ _ _ hcall =>
    subst hcall
    refine le_of_eq (if_neg ?_)
    rintro ⟨hage, -⟩
    have hlt : age < toLex (createdAt, id) := Prod.Lex.lt_iff.2 (.inl hlater)
    exact absurd hage (not_le.2 hlt)
  | stepped _ hdoes => exact absurd hdoes hlater.not_does
  | purged =>
    refine le_of_eq_of_le (if_neg ?_) (Nat.zero_le _)
    rintro ⟨-, -, hpurged, -⟩
    cases hpurged
  | deleted => exact Nat.zero_le _

end Effect

/-! ### The moves of the loop -/

section Move
variable [LinearOrder τ] [VAdd ℤ τ] {service : ExtractionTaskService} {w : String} {now : τ} {db db' : Db τ}

/-- What a move of the loop does to the store. -/
inductive OwnEffect (service : ExtractionTaskService) (w : String) (now : τ) (db : Db τ) : Db τ → Prop
  | nothing : OwnEffect service w now db db
  | maintained : OwnEffect service w now db ((Call.maintainRetention now service.tombstone).exec db)
  | worked {id a a' db'} (hv : db.view id = some a) (hworked : a.Worked w a') (hrep : db.Replaces db' id a') :
      OwnEffect service w now db db'

theorem WorkerMove.ownEffect {state state' : WorkerState τ} (h : WorkerMove service w now db state state' db')
    (hstate : state ≠ .idle) : OwnEffect service w now db db' := by
  cases h with
  | rest => exact absurd rfl hstate
  | claim => exact absurd rfl hstate
  | @renew context a _ hv how hrun hrep =>
    have hstep : a.Step (.renew w now (service.lease +ᵥ now)) (a.renew (service.lease +ᵥ now) now) := .renew how hrun
    exact .worked hv (hstep.worked rfl) hrep
  | take hv _ hstep hrep => exact .worked hv (hstep.worked rfl) hrep
  | finalize hv _ _ _ hstep hrep => exact .worked hv (hstep.worked rfl) hrep
  | abort hv _ hstep hrep => exact .worked hv (hstep.worked rfl) hrep
  | lost => exact .nothing
  | stop => exact .nothing
  | infer => exact .nothing
  | inferError => exact .nothing
  | refuse => exact .nothing
  | giveUp => exact .nothing

end Move

namespace LoopSystem
variable [LinearOrder τ] [VAdd ℤ τ] {service : ExtractionTaskService} {w : String} {s t : LoopSystem τ}
  {l : LoopLabel τ} {start expiresAt : τ} {age : Lex (τ × String)} {done : Bool}

/-- What a claim does, and what it leaves to do. -/
theorem claim_effect (service : ExtractionTaskService) (w : String) (hinv : ∀ id a, s.db.view id = some a → a.Inv)
    (hloop : s.loop = .claiming) (now : τ) :
    (oldestClaimable now s.db = none ∧ (s.act service w now).db = s.db) ∨
    ∃ a a', oldestClaimable now s.db = some a.row ∧ s.db.view a.row.taskId = some a ∧ a.row.claimable now = true ∧
      a.Worked w a' ∧ s.db.Replaces (s.act service w now).db a.row.taskId a' ∧
      (s.act service w now).loop.rank w (s.act service w now).db ≤ 4 * a.remaining + 7 := by
  obtain ⟨db, loop, shutdown⟩ := s
  obtain rfl : loop = .claiming := hloop
  simp only [act, ExtractionTaskService.loopStep]
  rcases claimTask_cases w now service.lease db with ⟨hnone, he⟩ | ⟨a, hold, hv, hstep, hr, hrep⟩
  · rw [he]
    exact .inl ⟨hnone, rfl⟩
  · have hrow := ((hinv _ a hv).step hstep).taskFromRow_eq true
    rw [hrow] at hr
    have hclaim := (oldestClaimable_eq_some hold).2
    refine .inr ⟨a, a.claim w (service.lease +ᵥ now) now, hold, hv, hclaim, hstep.worked rfl, ?_⟩
    generalize claimTask w now service.lease db = answer at hr hrep ⊢
    obtain ⟨result, db'⟩ := answer
    obtain rfl : result = .ok (some ((a.claim w (service.lease +ᵥ now) now).row.record true)) := hr
    dsimp only
    rcases beginProcessing_cases ((a.claim w (service.lease +ᵥ now) now).row.record true) with
      ⟨e, he, hprints⟩ | ⟨context, hc, hid⟩
    · obtain ⟨detail, hfailing, -⟩ := LoopState.caught_of_prints (τ := τ) a.row.taskId hprints
      simp only [he]
      refine ⟨hrep, ?_⟩
      have hcaught : LoopState.caught ((a.claim w (service.lease +ᵥ now) now).row.record true).taskId e =
          LoopState.processing (.failing a.row.taskId detail) := hfailing
      rw [hcaught]
      show 2 ≤ _
      omega
    · simp only [hc]
      refine ⟨hrep, ?_⟩
      have hview : db'.view context.taskId = some (a.claim w (service.lease +ᵥ now) now) := by
        rw [show context.taskId = a.row.taskId from hid]
        exact hrep.view_self
      have hunfinished : db'.unfinished context.taskId w = a.remaining := by
        rw [unfinished_of_view hview]
        exact if_pos rfl
      show 4 * db'.unfinished context.taskId w + 6 ≤ _
      omega

theorem act_effect (hrenders : service.extractionService.Renders) (hinv : s.Inv) (now : τ) :
    OwnEffect service w now s.db (s.act service w now).db := by
  have hviews := hinv.view_inv
  have hrunning := (act_spec (w := w) hrenders hinv now).1
  by_cases hclaiming : s.loop = .claiming
  · rcases claim_effect service w hviews hclaiming now with ⟨-, hsame⟩ | ⟨a, a', -, hv, -, hworked, hrep, -⟩
    · rw [hsame]
      exact .nothing
    · exact .worked hv hworked hrep
  · obtain ⟨db, loop, shutdown⟩ := s
    cases loop with
    | claiming => exact absurd rfl hclaiming
    | waiting => exact .nothing
    | returned => exact .nothing
    | raised e => exact .nothing
    | checking =>
      simp only [act, ExtractionTaskService.loopStep]
      split
      · exact .nothing
      · exact .maintained
    | processing state =>
      by_cases hidle : state = .idle
      · subst hidle
        exact .nothing
      · have heq := loopStep_processing service w now shutdown hidle db (hrunning.2 (running_processing state))
        have hmove : WorkerMove service w now db state (service.workerStep w now state db).1
            (service.workerStep w now state db).2 := workerStep_move hviews state
        simp only [act]
        rw [heq]
        exact hmove.ownEffect hidle

end LoopSystem

/-! ### Runs of one worker -/

namespace LoopLabel
variable [LinearOrder τ]

/-- Calls raise only where they are handled, and nobody else works on tasks. -/
structure Solo (l : LoopLabel τ) : Prop where
  transient : l.Transient
  guarded : l.unguarded = false
  alone : ∀ c, l = .other c → c.worker = none

/-- Besides, the loop goes on, between `start` and `expiresAt`, and submissions are later than `created`. -/
structure Undisturbed (start created expiresAt : τ) (l : LoopLabel τ) : Prop where
  transient : l.Transient
  guarded : l.unguarded = false
  running : l ≠ .shutdown
  timely : ∀ now, l = .act now → start ≤ now ∧ now < expiresAt
  later : ∀ c, l = .other c → c.Later created expiresAt

variable {l : LoopLabel τ} {start created expiresAt : τ}

omit [LinearOrder τ] in
theorem Solo.orderly (h : l.Solo) (w : String) : l.Orderly w where
  transient := h.transient
  foreign := by
    cases l with
    | other c =>
      show c.worker ≠ some w
      rw [h.alone c rfl]
      rintro ⟨⟩
    | _ => trivial
  handled e heq := by
    have hguarded := h.guarded
    rw [heq] at hguarded
    cases hguarded

theorem Undisturbed.solo (h : l.Undisturbed start created expiresAt) : l.Solo :=
  ⟨h.transient, h.guarded, fun c hc => (h.later c hc).worker⟩

end LoopLabel

namespace LoopSystem
variable [LinearOrder τ] [VAdd ℤ τ] {service : ExtractionTaskService} {w : String} {s t : LoopSystem τ}
  {l : LoopLabel τ} {start expiresAt : τ} {age : Lex (τ × String)} {done : Bool}

/-- The loop is alive, and every lease in the store is its own or over. -/
structure Alone (service : ExtractionTaskService) (w : String) (start : τ) (s : LoopSystem τ) : Prop where
  inv : s.Inv
  running : s.loop.Running
  holds : s.loop.Holds service.lease w s.db
  lapsed : s.db.Lapsed w start

theorem Alone.step (h : s.Alone service w start) (hstep : Step service w s l t)
    (hlease : ∀ t : τ, t < service.lease +ᵥ t) (hrenders : service.extractionService.Renders) (hl : l.Solo) :
    t.Alone service w start := by
  obtain ⟨hrunning, hinv⟩ := hstep.spec hrenders h.inv hl.transient
  refine ⟨hinv, hrunning.2 ⟨h.running, hl.guarded⟩, hstep.holds hlease hrenders h.inv (hl.orderly w) h.holds, ?_⟩
  cases hstep with
  | shutdown => exact h.lapsed
  | fault => exact h.lapsed
  | @other c => exact h.lapsed.foreign h.inv.closed (hl.alone c rfl)
  | @act now =>
    have heffect := act_effect (w := w) hrenders h.inv now
    generalize (s.act service w now).db = db' at heffect ⊢
    cases heffect with
    | nothing => exact h.lapsed
    | maintained => exact h.lapsed.foreign h.inv.closed rfl
    | worked hv hworked hrep => exact h.lapsed.replace hworked hrep

theorem Run.alone {labels : List (LoopLabel τ)} (hrun : Run (Step service w) s labels t)
    (h : s.Alone service w start) (hlease : ∀ t : τ, t < service.lease +ᵥ t)
    (hrenders : service.extractionService.Renders) (hlabels : ∀ l ∈ labels, l.Solo) : t.Alone service w start := by
  induction hrun with
  | nil => exact h
  | @cons s u t l labels hstep _ ih =>
    exact ih (h.step hstep hlease hrenders (hlabels l (by simp))) fun l hmem => hlabels l (by simp [hmem])

/-! ### The task served -/

theorem Keeps.step (h : s.db.Keeps done age expiresAt) (hinv : s.Inv) (hstep : Step service w s l t)
    (hrenders : service.extractionService.Renders) (hl : l.Undisturbed start (ofLex age).1 expiresAt) :
    t.db.Keeps done age expiresAt := by
  cases hstep with
  | shutdown => exact h
  | fault => exact h
  | @other c => exact h.later hinv.closed (hl.later c rfl)
  | @act now =>
    have heffect := act_effect (w := w) hrenders hinv now
    generalize (s.act service w now).db = db' at heffect ⊢
    cases heffect with
    | nothing => exact h
    | maintained =>
      have hlater : (Call.maintainRetention now service.tombstone).Later (ofLex age).1 expiresAt := (hl.timely now rfl).2
      exact h.later hinv.closed hlater
    | worked hv hworked hrep => exact h.replace hv hworked hrep

theorem backlog_act (hrenders : service.extractionService.Renders) (hinv : s.Inv) {now : τ} (hlive : now < expiresAt) :
    (s.act service w now).db.backlog w age ≤ s.db.backlog w age := by
  have heffect := act_effect (w := w) hrenders hinv now
  generalize (s.act service w now).db = db' at heffect ⊢
  cases heffect with
  | nothing => exact Nat.le_refl _
  | maintained =>
    have hlater : (Call.maintainRetention now service.tombstone).Later (ofLex age).1 expiresAt := hlive
    exact backlog_later hinv.closed hlater
  | worked hv hworked hrep => exact (Nat.le_add_right _ _).trans (backlog_replace age hworked hrep)

/-- A claim takes the oldest task, which is ahead of the one served. -/
theorem claim_work (h : s.Alone service w start) (hloop : s.loop = .claiming)
    (hkeeps : s.db.Keeps false age expiresAt) (hopen : ¬ s.db.Keeps true age expiresAt) {now : τ}
    (hstart : start ≤ now) (hlive : now < expiresAt) :
    (s.act service w now).loop.rank w (s.act service w now).db + (s.act service w now).db.backlog w age + 1 ≤
      s.db.backlog w age := by
  obtain ⟨b, hb, hcreated, hexpires, hpurged, -⟩ := hkeeps
  have hrun : b.row.status.isTerminal = false := by
    rw [Bool.eq_false_iff]
    exact fun hterm => hopen ⟨b, hb, hcreated, hexpires, hpurged, fun _ => hterm⟩
  have hfree : ∀ id, Displaced s.db id w := by
    intro id
    refine h.holds.held id ?_
    rw [hloop]
    rintro ⟨⟩
  have hclaimable : b.row.claimable now = true := by
    refine TaskRow.claimable_iff.2 ⟨hrun, hpurged, by rw [hexpires]; exact hlive, ?_⟩
    cases howner : b.row.leaseOwner with
    | none => exact .inl rfl
    | some w' =>
      have hover := h.lapsed _ b w' hb howner fun heq => hfree _ b hb (by rw [howner, heq])
      obtain ⟨e, he, hle⟩ := (Option.any_eq_true _ _).1 hover
      have hle' : e ≤ start := by simpa using hle
      exact .inr ((Option.any_eq_true _ _).2 ⟨e, he, by simpa using hle'.trans hstart⟩)
  rcases claim_effect service w h.inv.view_inv hloop now with
    ⟨hnone, -⟩ | ⟨a, a', hold, hv, hclaim, hworked, hrep, hrank⟩
  · rw [oldestClaimable_eq_none hnone hb] at hclaimable
    cases hclaimable
  · have hage : toLex (a.row.createdAt, a.row.taskId) ≤ age := by
      have hle := oldestClaimable_le hold hb hclaimable
      rw [hcreated, Db.view_taskId hb] at hle
      exact hle
    obtain ⟨hopen', hunpurged, -⟩ := TaskRow.claimable_iff.1 hclaim
    have hahead : a.Ahead w age := ⟨hage, hopen', hunpurged, hfree _ a hv⟩
    have hwork : s.db.work w age a.row.taskId = 4 * a.remaining + 8 := by
      rw [work_of_view hv, if_pos hahead]
    have htaken := backlog_replace age hworked hrep
    omega

/-- What the served task waits for, in moves of the loop. -/
def load (w : String) (age : Lex (τ × String)) (s : LoopSystem τ) : ℕ := s.loop.rank w s.db + s.db.backlog w age

/-- Until the task is served, every move of the loop takes something off its load. -/
theorem Step.load (hstep : Step service w s l t) (hrenders : service.extractionService.Renders)
    (h : s.Alone service w start) (hshutdown : s.shutdown = false)
    (hkeeps : s.db.Keeps false age expiresAt) (hopen : ¬ s.db.Keeps true age expiresAt)
    (hl : l.Undisturbed start (ofLex age).1 expiresAt) :
    t.load w age + (if l.own then 1 else 0) ≤ s.load w age := by
  have horderly := hl.solo.orderly w
  by_cases hclaiming : s.loop = .claiming
  · have hrank : s.loop.rank w s.db = 0 := by
      rw [hclaiming]
      rfl
    cases hstep with
    | shutdown => exact absurd rfl hl.running
    | @fault call e hcall =>
      have hguarded := hl.guarded
      rw [hclaiming] at hcall
      cases hcall
      cases hguarded
    | @other c =>
      have hbacklog := backlog_later (w := w) h.inv.closed (hl.later c rfl)
      have hafter : s.loop.rank w (c.exec s.db) = 0 := by
        rw [hclaiming]
        rfl
      show s.loop.rank w (c.exec s.db) + (c.exec s.db).backlog w age + 0 ≤ s.loop.rank w s.db + s.db.backlog w age
      omega
    | @act now =>
      obtain ⟨hstart, hlive⟩ := hl.timely now rfl
      have hwork := claim_work h hclaiming hkeeps hopen hstart hlive
      unfold LoopSystem.load
      rw [hrank, Nat.zero_add]
      exact hwork
  · have hclaims : ¬ s.Claims := by
      rintro (hclaim | hreturned)
      · exact hclaiming hclaim
      · rw [h.inv.returned hreturned] at hshutdown
        cases hshutdown
    have hrank := hstep.rank hrenders h.inv hl.transient horderly.foreign hl.guarded h.running hclaims
    have hbacklog : t.db.backlog w age ≤ s.db.backlog w age := by
      cases hstep with
      | shutdown => exact Nat.le_refl _
      | fault => exact Nat.le_refl _
      | @other c => exact backlog_later h.inv.closed (hl.later c rfl)
      | @act now => exact backlog_act hrenders h.inv (hl.timely now rfl).2
    unfold LoopSystem.load
    omega

/-- More moves of the loop than the load serve the task. -/
theorem Run.serves {labels : List (LoopLabel τ)} (hrun : Run (Step service w) s labels t)
    (hlease : ∀ t : τ, t < service.lease +ᵥ t) (hrenders : service.extractionService.Renders)
    (h : s.Alone service w start) (hshutdown : s.shutdown = false) (hkeeps : s.db.Keeps false age expiresAt)
    (hlabels : ∀ l ∈ labels, l.Undisturbed start (ofLex age).1 expiresAt)
    (hown : s.load w age < labels.countP LoopLabel.own) : t.db.Keeps true age expiresAt := by
  -- the load counts down while the task is open, and being served lasts
  have hdown : ∀ (n : ℕ) (s : LoopSystem τ) (l : LoopLabel τ) (t : LoopSystem τ),
      l.Undisturbed start (ofLex age).1 expiresAt →
      (s.Alone service w start ∧ s.shutdown = false ∧ s.db.Keeps false age expiresAt) ∧
        (s.db.Keeps true age expiresAt ∨ s.load w age < n) →
      Step service w s l t →
      ∃ m, ((t.Alone service w start ∧ t.shutdown = false ∧ t.db.Keeps false age expiresAt) ∧
        (t.db.Keeps true age expiresAt ∨ t.load w age < m)) ∧ (m = 0 ∨ m + (if l.own then 1 else 0) ≤ n) := by
    rintro n s l t hl ⟨⟨halone, hgoing, hkept⟩, hserved⟩ hstep
    have hnext : t.shutdown = false := by
      cases hstep with
      | shutdown => exact absurd rfl hl.running
      | act => exact hgoing
      | fault => exact hgoing
      | other => exact hgoing
    have hnow := And.intro (halone.step hstep hlease hrenders hl.solo)
      (And.intro hnext (Keeps.step hkept halone.inv hstep hrenders hl))
    by_cases hdone : s.db.Keeps true age expiresAt
    · exact ⟨0, ⟨hnow, .inl (Keeps.step hdone halone.inv hstep hrenders hl)⟩, .inl rfl⟩
    · have hload := hstep.load hrenders halone hgoing hkept hdone hl
      have hlt := hserved.resolve_left hdone
      generalize (if l.own then 1 else 0) = cost at hload ⊢
      exact ⟨n - cost, ⟨hnow, .inr (by omega)⟩, .inr (by omega)⟩
  obtain ⟨-, hserved | hlt⟩ := hrun.countdown hdown hlabels ⟨⟨h, hshutdown, hkeeps⟩, .inr (Nat.lt_succ_self _)⟩ hown
  · exact hserved
  · exact absurd hlt (Nat.not_lt_zero _)

end LoopSystem

/-! ### No task starves -/

section Delivery
variable [LinearOrder τ] [VAdd ℤ τ]

/-- A worker loop alone on a store in which whatever leases other workers left are over at `start`: every
task accepted and not expired is finished after boundedly many moves of the loop, while submissions and
maintenance go on and calls of the loop raise where its handler covers them. The bound counts the task in
hand and the open tasks no younger than this one. -/
theorem no_task_starves (service : ExtractionTaskService) (hlease : ∀ t : τ, t < service.lease +ᵥ t)
    (hrenders : service.extractionService.Renders) (w : String) (calls : List (Call τ)) {start : τ}
    (hfree : ∀ id, Displaced (Db.run calls) id w) (hlapsed : (Db.run calls).Lapsed w start)
    {labels : List (LoopLabel τ)} {s : LoopSystem τ}
    (hrun : Run (LoopSystem.Step service w) (.start (Db.run calls)) labels s) (hlabels : ∀ l ∈ labels, l.Solo)
    (hshutdown : s.shutdown = false) {id : String} {a : Aggregate τ} (hv : s.db.view id = some a)
    (hpurged : a.row.purgedAt = none) {more : List (LoopLabel τ)} {t : LoopSystem τ}
    (hmore : Run (LoopSystem.Step service w) s more t)
    (hundisturbed : ∀ l ∈ more, l.Undisturbed start a.row.createdAt a.row.expiresAt)
    (hown : s.loop.rank w s.db + s.db.backlog w (toLex (a.row.createdAt, id)) < more.countP LoopLabel.own) :
    ∃ a', t.db.view id = some a' ∧ a'.row.status.isTerminal = true ∧ a'.row.purgedAt = none := by
  have hstart : (LoopSystem.start (Db.run calls)).Alone service w start :=
    ⟨LoopSystem.inv_start calls, by rintro e ⟨⟩, LoopSystem.holds_start hfree, hlapsed⟩
  have halone := LoopSystem.Run.alone hrun hstart hlease hrenders hlabels
  have hkeeps : s.db.Keeps false (toLex (a.row.createdAt, id)) a.row.expiresAt :=
    ⟨a, hv, rfl, rfl, hpurged, by rintro ⟨⟩⟩
  obtain ⟨a', hv', -, -, hpurged', hterm⟩ :=
    LoopSystem.Run.serves hmore hlease hrenders halone hshutdown hkeeps hundisturbed hown
  exact ⟨a', hv', hterm rfl, hpurged'⟩

end Delivery

/-- A run of moves of the loop alone. -/
theorem LoopSystem.Run.acts (service : ExtractionTaskService) (w : String) (times : List ℤ) (s : LoopSystem ℤ) :
    ∃ t, Run (LoopSystem.Step service w) s (times.map .act) t := by
  induction times generalizing s with
  | nil => exact ⟨s, .nil s⟩
  | cons now times ih =>
    obtain ⟨t, ht⟩ := ih (s.act service w now)
    exact ⟨t, .cons .act ht⟩

/-- The sample task, left under the lease of a worker that died. -/
def orphanedTask : List (Call ℤ) := [sampleTask, .claimTask "dead" 63850000000000001 5]

/-- Eighteen moves, after the lease is over. -/
theorem no_task_starves_example : ∃ t, Run (LoopSystem.Step (stubService []) "w") (.start (Db.run orphanedTask))
      ((List.replicate 18 63850000000000007).map .act) t ∧
    ∃ a', t.db.view "t" = some a' ∧ a'.row.status.isTerminal = true ∧ a'.row.purgedAt = none := by
  obtain ⟨t, ht⟩ := LoopSystem.Run.acts (stubService []) "w" (List.replicate 18 63850000000000007)
    (.start (Db.run orphanedTask))
  have hlease : ∀ t : ℤ, t < (stubService []).lease +ᵥ t := by
    intro t
    show t < 5 + t
    omega
  have hfree : ∀ id, Displaced (Db.run orphanedTask) id "w" :=
    displaced_of_foreign (by simp [orphanedTask, sampleTask, Call.worker])
  have hids : (Db.run orphanedTask).taskIds = {"t"} := rfl
  have hlapsed : (Db.run orphanedTask).Lapsed "w" 63850000000000007 := by
    intro id a w' hv _ _
    have hid := Db.mem_taskIds hv
    rw [hids, Finset.mem_singleton] at hid
    subst hid
    cases hv
    rfl
  obtain ⟨a, hv, hpurged, hcreated, hexpires⟩ : ∃ a, (Db.run orphanedTask).view "t" = some a ∧ a.row.purgedAt = none ∧
      a.row.createdAt = 63850000000000000 ∧ a.row.expiresAt = 63850086400000000 := ⟨_, rfl, rfl, rfl, rfl⟩
  have hundisturbed : ∀ l ∈ (List.replicate 18 63850000000000007).map LoopLabel.act,
      l.Undisturbed 63850000000000007 a.row.createdAt a.row.expiresAt := by
    intro l hl
    obtain ⟨now, hnow, rfl⟩ := List.mem_map.1 hl
    obtain rfl := (List.mem_replicate.1 hnow).2
    rw [hexpires]
    refine ⟨trivial, rfl, by rintro ⟨⟩, ?_, by rintro c ⟨⟩⟩
    rintro now ⟨⟩
    omega
  refine ⟨t, ht, no_task_starves (stubService []) hlease (stub_renders []) "w" orphanedTask hfree hlapsed (.nil _)
    (by simp) rfl hv hpurged ht hundisturbed ?_⟩
  rw [hcreated]
  decide

end TextExtraction
