import TextExtraction.WorkerLoop

/-!
# Stopping the worker

`lifespan` sets the event of `worker_loop` and awaits the loop. Whatever the worker holds in the store
is the task in hand (`LoopState.Holds`): a lease lost to another worker is not missed, an item that
`claim_next_item` does not find means that the lease is gone, since it was renewed at the same reading
of the clock, and the handler of `_process_claimed_task` gives the lease up. So the loop rests with
nothing leased to it, and a loop told to stop comes to rest without another claim.
-/

namespace TextExtraction

open Python Relational Transition

variable {τ : Type}

namespace LoopState

/-- The task in hand. -/
def task : LoopState τ → Option String
  | processing (.renewing context) => some context.taskId
  | processing (.selecting context _) => some context.taskId
  | processing (.inferring context _) => some context.taskId
  | processing (.finalizing context ..) => some context.taskId
  | processing (.failing taskId _) => some taskId
  | _ => none

/-- The clock reading of a renewal that `claim_next_item` shares. -/
def renewedAt : LoopState τ → Option τ
  | processing (.selecting _ now) => some now
  | _ => none

/-- What `w` holds is the task in hand, renewed when the loop says so. -/
structure Holds [VAdd ℤ τ] (lease : ℤ) (w : String) (loop : LoopState τ) (db : Db τ) : Prop where
  held : ∀ id, loop.task ≠ some id → Displaced db id w
  fresh : ∀ now, loop.renewedAt = some now → ∀ id a, db.view id = some a → a.row.leaseOwner = some w →
    a.row.leaseExpiresAt = some (lease +ᵥ now)

end LoopState

/-! ### The transactions of others -/

section Foreign
variable [LinearOrder τ] {w : String} {a a' : Aggregate τ} {db : Db τ} {id : String}

/-- A lease that is `w`'s after a transaction of somebody else was so before, up to the same time. -/
theorem Aggregate.Step.lease_kept {act : Action τ} (h : a.Step act a') (hforeign : act.worker ≠ some w)
    (how : a'.row.leaseOwner = some w) :
    a.row.leaseOwner = some w ∧ a'.row.leaseExpiresAt = a.row.leaseExpiresAt := by
  cases h with
  | claim => exact absurd how hforeign
  | renew howner => exact absurd (howner.symm.trans how) hforeign
  | take => exact ⟨how, rfl⟩
  | finalize howner hrun hi hpending hone =>
    refine absurd how ((Aggregate.Step.finalize howner hrun hi hpending hone).displaced ?_ ?_)
    · rw [howner]
      exact hforeign
    · rintro now expiry ⟨⟩
  | abort => simp [Aggregate.abort, TaskRow.abort] at how
  | purge => simp [Aggregate.purge, TaskRow.purge] at how

variable [VAdd ℤ τ] {c : Call τ}

theorem Call.lease_kept (hc : db.Closed) (hforeign : c.worker ≠ some w) (hv : (c.exec db).view id = some a')
    (how : a'.row.leaseOwner = some w) :
    ∃ a, db.view id = some a ∧ a.row.leaseOwner = some w ∧ a'.row.leaseExpiresAt = a.row.leaseExpiresAt := by
  have haffects := (c.change hc).affects id
  rw [hv] at haffects
  generalize db.view id = before at haffects ⊢
  cases haffects with
  | same => exact ⟨a', rfl, how, rfl⟩
  | created => cases how
  | @stepped a act _ hstep hdoes =>
    obtain ⟨hbefore, hexpiry⟩ := hstep.lease_kept (by rwa [hdoes.worker]) how
    exact ⟨a, rfl, hbefore, hexpiry⟩
  | purged => cases how

/-- A fresh id holds nothing. -/
theorem displaced_of_foreign {calls : List (Call τ)} (hforeign : ∀ c ∈ calls, c.worker ≠ some w) :
    ∀ id, Displaced (Db.run calls) id w := by
  induction calls using List.reverseRecOn with
  | nil => rintro id a ⟨⟩
  | append_singleton calls c ih =>
    intro id a hv how
    rw [Db.run_snoc] at hv
    obtain ⟨a', hbefore, hown, -⟩ := Call.lease_kept (Db.closed_run calls) (hforeign c (by simp)) hv how
    exact ih (fun c hc => hforeign c (by simp [hc])) id a' hbefore hown

end Foreign

namespace LoopState.Holds
variable [LinearOrder τ] [VAdd ℤ τ] {lease : ℤ} {w id : String} {loop loop' : LoopState τ} {db db' : Db τ}
  {a' : Aggregate τ} {c : Call τ}

theorem foreign (h : loop.Holds lease w db) (hc : db.Closed) (hforeign : c.worker ≠ some w) :
    loop.Holds lease w (c.exec db) where
  held id htask a' hv how := by
    obtain ⟨a, hbefore, hown, -⟩ := Call.lease_kept hc hforeign hv how
    exact h.held id htask a hbefore hown
  fresh now hnow id a' hv how := by
    obtain ⟨a, hbefore, hown, hexpiry⟩ := Call.lease_kept hc hforeign hv how
    rw [hexpiry]
    exact h.fresh now hnow id a hbefore hown

omit [LinearOrder τ] in
/-- The loop moves on with the task in hand. -/
theorem keep (h : loop.Holds lease w db) (htask : loop'.task = loop.task) (hnow : loop'.renewedAt = none) :
    loop'.Holds lease w db where
  held id hid := h.held id (by rwa [← htask])
  fresh now hsome := by
    rw [hnow] at hsome
    simp at hsome

omit [LinearOrder τ] in
/-- The loop drops a task that `w` does not hold. -/
theorem drop (h : loop.Holds lease w db) (htask : loop.task = some id) (hlost : Displaced db id w)
    (hnow : loop'.renewedAt = none) : loop'.Holds lease w db where
  held id' _ := by
    by_cases hid : id' = id
    · rw [hid]
      exact hlost
    · refine h.held id' ?_
      rw [htask]
      exact fun heq => hid (Option.some.inj heq).symm
  fresh now hsome := by
    rw [hnow] at hsome
    simp at hsome

omit [LinearOrder τ] in
/-- The loop changes the task in hand, and keeps it or gives it up. -/
theorem replace (h : loop.Holds lease w db) (hrep : db.Replaces db' id a')
    (htask : ∀ id', loop.task = some id' → id' = id)
    (hnext : loop'.task = some id ∨ a'.row.leaseOwner ≠ some w)
    (hnow : ∀ now, loop'.renewedAt = some now → a'.row.leaseExpiresAt = some (lease +ᵥ now)) :
    loop'.Holds lease w db' := by
  have hothers (id' : String) (hne : id' ≠ id) : Displaced db' id' w := by
    intro a hv
    rw [hrep.view_ne hne] at hv
    exact h.held id' (fun heq => hne (htask id' heq)) a hv
  constructor
  · intro id' hid
    by_cases hself : id' = id
    · subst hself
      intro a hv
      rw [hrep.view_self] at hv
      cases hv
      exact hnext.resolve_left hid
    · exact hothers id' hself
  · intro now hsome id' a hv how
    by_cases hself : id' = id
    · subst hself
      rw [hrep.view_self] at hv
      cases hv
      exact hnow now hsome
    · exact absurd how (hothers id' hself a hv)

end LoopState.Holds

/-! ### The moves of the loop -/

section Move
variable [LinearOrder τ] [VAdd ℤ τ] {service : ExtractionTaskService} {w : String} {now : τ} {db db' : Db τ}

omit [LinearOrder τ] [VAdd ℤ τ] in
theorem task_handleFailure (id : String) {e : Exc} (h : Prints e) :
    (LoopState.ofWorker (handleFailure (τ := τ) id e)).task = some id ∧
      (LoopState.ofWorker (handleFailure (τ := τ) id e)).renewedAt = none := by
  obtain ⟨detail, -, hfailing⟩ := LoopState.caught_of_prints (τ := τ) id h
  rw [hfailing]
  exact ⟨rfl, rfl⟩

omit [LinearOrder τ] [VAdd ℤ τ] in
theorem task_caught (id : String) {e : Exc} (h : Prints e) :
    (LoopState.caught id e : LoopState τ).task = some id ∧
      (LoopState.caught id e : LoopState τ).renewedAt = none := by
  obtain ⟨detail, hfailing, -⟩ := LoopState.caught_of_prints (τ := τ) id h
  rw [hfailing]
  exact ⟨rfl, rfl⟩

/-- No item to take under a lease renewed just now means that the lease is gone. -/
theorem displaced_of_stop {context : WorkerContext} {t : τ} (hlease : ∀ t : τ, t < service.lease +ᵥ t)
    (hinv : ∀ id a, db.view id = some a → a.Inv)
    (h : (LoopState.processing (.selecting context t)).Holds service.lease w db)
    (hno : ∀ a p, db.view context.taskId = some a → ¬ a.Step (.take w t p) (a.take p t)) :
    Displaced db context.taskId w := by
  intro a hv how
  have hexpiry := h.fresh t rfl context.taskId a hv how
  have hrun : a.row.status.isTerminal = false := by
    rw [(hinv _ a hv).processing how]
    rfl
  obtain ⟨i, hi⟩ := (hinv _ a hv).exists_pending hrun
  refine hno a i.position hv (.take how ?_ ((hinv _ a hv).processing how) ?_ hi)
  · rw [hexpiry]
    simpa using hlease t
  · exact (hinv _ a hv).unpurged_of_leased how

/-- A call of `_process_claimed_task` drops the task only with its lease. -/
theorem WorkerMove.holds {state state' : WorkerState τ} (hmove : WorkerMove service w now db state state' db')
    (hstate : state ≠ .idle) (hlease : ∀ t : τ, t < service.lease +ᵥ t)
    (hrenders : service.extractionService.Renders) (hinv : ∀ id a, db.view id = some a → a.Inv)
    (hencodes : (LoopState.processing state).Renders)
    (h : (LoopState.processing state).Holds service.lease w db) :
    (LoopState.ofWorker state').Holds service.lease w db' := by
  have hself {id : String} : ∀ id', some id = some id' → id' = id := fun _ heq => (Option.some.inj heq).symm
  cases hmove with
  | rest => exact absurd rfl hstate
  | claim => exact absurd rfl hstate
  | @renew context a _ hv how hrun hrep =>
    refine h.replace hrep hself (.inl rfl) ?_
    rintro t ⟨⟩
    rfl
  | lost => exact h.keep rfl rfl
  | take hv hi hstep hrep => exact h.replace hrep hself (.inl rfl) (by rintro t ⟨⟩)
  | stop hno => exact h.drop rfl (displaced_of_stop hlease hinv h hno) rfl
  | infer => exact h.keep rfl rfl
  | @inferError context item e herror =>
    have hprints := (processItem_renders hrenders context item).1 e herror
    obtain ⟨htask, hnow⟩ := task_handleFailure (τ := τ) context.taskId hprints
    exact h.keep htask hnow
  | @finalize context outcome error a i oj ej _ hv hi hoj hej hstep hrep =>
    by_cases hterm : (a.finalize w i.position oj ej now).row.status.isTerminal = true
    · rw [if_pos hterm]
      have hunleased := ((hinv _ a hv).step hstep).unleased hterm
      refine h.replace hrep hself (.inr ?_) (by rintro t ⟨⟩)
      rw [hunleased.1]
      rintro ⟨⟩
    · rw [if_neg hterm]
      exact h.replace hrep hself (.inl rfl) (by rintro t ⟨⟩)
  | @refuse context p outcome error e hno hraise =>
    obtain ⟨htask, hnow⟩ := task_handleFailure (τ := τ) context.taskId (prints_of_finalizeItem hencodes hraise)
    exact h.keep htask hnow
  | abort hv hej hstep hrep => exact h.replace hrep hself (.inr (by rintro ⟨⟩)) (by rintro t ⟨⟩)
  | giveUp hlost => exact h.drop rfl hlost rfl

/-- What `claim_task` hands out is the task in hand. -/
theorem holds_claim (hinv : ∀ id a, db.view id = some a → a.Inv) (shutdown : Bool)
    (h : (LoopState.claiming : LoopState τ).Holds service.lease w db) :
    (service.loopStep w now shutdown .claiming db).1.Holds service.lease w
      (service.loopStep w now shutdown .claiming db).2 := by
  simp only [ExtractionTaskService.loopStep]
  rcases claimTask_cases w now service.lease db with ⟨-, he⟩ | ⟨a, -, hv, hstep, hr, hrep⟩
  · rw [he]
    exact h.keep rfl rfl
  · have hrow := ((hinv _ a hv).step hstep).taskFromRow_eq true
    rw [hrow] at hr
    generalize claimTask w now service.lease db = answer at hr hrep ⊢
    obtain ⟨result, db'⟩ := answer
    obtain rfl : result = .ok (some ((a.claim w (service.lease +ᵥ now) now).row.record true)) := hr
    have hnone : ∀ id', (LoopState.claiming : LoopState τ).task = some id' → id' = a.row.taskId := by
      rintro id' ⟨⟩
    dsimp only
    rcases beginProcessing_cases ((a.claim w (service.lease +ᵥ now) now).row.record true) with
      ⟨e, he, hprints⟩ | ⟨context, hc, hid⟩
    · obtain ⟨htask, hnow⟩ := task_caught (τ := τ) a.row.taskId hprints
      simp only [he]
      exact h.replace hrep hnone (.inl htask) fun t ht => absurd (hnow.symm.trans ht) (by simp)
    · simp only [hc]
      exact h.replace hrep hnone (.inl (congrArg some hid)) (by rintro t ⟨⟩)

end Move

/-! ### Runs of the loop -/

namespace LoopLabel

/-- Nobody else works under the id `w`, what a repository call raises is transient, and the call of the
handler itself does not raise. -/
structure Orderly (w : String) (l : LoopLabel τ) : Prop where
  transient : l.Transient
  foreign : l.Foreign w
  handled : ∀ e, l ≠ .fault .failTask e

end LoopLabel

/-- A call that raises leaves the task in hand. -/
theorem task_fault {state : LoopState τ} {shutdown : Bool} {call : RepositoryCall} {e : Exc}
    (hcall : state.nextCall shutdown = some call) (hhandled : call ≠ .failTask) (he : Transient e) :
    (state.fault e).task = state.task ∧ (state.fault e).renewedAt = none := by
  have hprints := prints_of_transient he
  cases state with
  | checking => exact ⟨rfl, rfl⟩
  | claiming => exact ⟨rfl, rfl⟩
  | waiting => simp [LoopState.nextCall] at hcall
  | returned => simp [LoopState.nextCall] at hcall
  | raised => simp [LoopState.nextCall] at hcall
  | processing state =>
    cases state with
    | idle => simp [LoopState.nextCall] at hcall
    | inferring => simp [LoopState.nextCall] at hcall
    | renewing context => exact task_caught context.taskId hprints
    | selecting context t => exact task_caught context.taskId hprints
    | finalizing context p outcome error => exact task_caught context.taskId hprints
    | failing id detail =>
      cases hcall
      exact absurd rfl hhandled

namespace LoopSystem
variable [LinearOrder τ] [VAdd ℤ τ] {service : ExtractionTaskService} {w : String} {s t : LoopSystem τ}
  {l : LoopLabel τ}

theorem Inv.closed (hinv : s.Inv) : s.db.Closed := by
  obtain ⟨calls, hdb⟩ := hinv.reachable
  rw [hdb]
  exact Db.closed_run calls

theorem Inv.view_inv (hinv : s.Inv) : ∀ id a, s.db.view id = some a → a.Inv := by
  obtain ⟨calls, hdb⟩ := hinv.reachable
  rw [hdb]
  intro id a hv
  exact Db.run_inv hv

theorem act_holds (hlease : ∀ t : τ, t < service.lease +ᵥ t) (hrenders : service.extractionService.Renders)
    (hinv : s.Inv) (now : τ) (h : s.loop.Holds service.lease w s.db) :
    (s.act service w now).loop.Holds service.lease w (s.act service w now).db := by
  have hviews := hinv.view_inv
  have hclosed := hinv.closed
  have hrunning := (act_spec (w := w) hrenders hinv now).1
  have hencodes := hinv.renders
  obtain ⟨db, loop, shutdown⟩ := s
  cases loop with
  | waiting => exact h.keep rfl rfl
  | returned => exact h
  | raised e => exact h
  | checking =>
    simp only [act, ExtractionTaskService.loopStep]
    split
    · exact h.keep rfl rfl
    · have hmaintained := h.foreign (c := .maintainRetention now service.tombstone) hclosed (by rintro ⟨⟩)
      exact hmaintained.keep rfl rfl
  | claiming => exact holds_claim hviews shutdown h
  | processing state =>
    by_cases hidle : state = .idle
    · subst hidle
      exact h.keep rfl rfl
    · have heq := loopStep_processing service w now shutdown hidle db (hrunning.2 (running_processing state))
      have hmove : WorkerMove service w now db state (service.workerStep w now state db).1
          (service.workerStep w now state db).2 := workerStep_move hviews state
      simp only [act]
      rw [heq]
      exact hmove.holds hidle hlease hrenders hviews hencodes h

theorem Step.holds (hstep : Step service w s l t) (hlease : ∀ t : τ, t < service.lease +ᵥ t)
    (hrenders : service.extractionService.Renders) (hinv : s.Inv) (hl : l.Orderly w)
    (h : s.loop.Holds service.lease w s.db) : t.loop.Holds service.lease w t.db := by
  cases hstep with
  | @act now => exact act_holds hlease hrenders hinv now h
  | @other call => exact h.foreign hinv.closed hl.foreign
  | shutdown => exact h
  | @fault call e hcall =>
    obtain ⟨htask, hnow⟩ := task_fault hcall (fun heq => hl.handled e (by rw [heq])) hl.transient
    exact h.keep htask hnow

theorem Run.holds {labels : List (LoopLabel τ)} (hrun : Run (Step service w) s labels t)
    (hlease : ∀ t : τ, t < service.lease +ᵥ t) (hrenders : service.extractionService.Renders) (hinv : s.Inv)
    (hlabels : ∀ l ∈ labels, l.Orderly w) (h : s.loop.Holds service.lease w s.db) :
    t.loop.Holds service.lease w t.db := by
  induction hrun with
  | nil => exact h
  | @cons s u t l labels hstep _ ih =>
    have hl := hlabels l (by simp)
    exact ih (hstep.spec hrenders hinv hl.transient).2 (fun l hmem => hlabels l (by simp [hmem]))
      (hstep.holds hlease hrenders hinv hl h)

omit [LinearOrder τ] in
theorem holds_start {lease : ℤ} {db : Db τ} (h : ∀ id, Displaced db id w) :
    (start db).loop.Holds lease w (start db).db where
  held id _ := h id
  fresh now hnow := by cases hnow

/-! ### After the event is set -/

/-- The loop is told to stop, and past the claim. -/
structure Stopping (s : LoopSystem τ) : Prop where
  inv : s.Inv
  running : s.loop.Running
  shutdown : s.shutdown = true
  unclaimed : s.loop ≠ .claiming

theorem Stopping.guarded (h : s.Stopping) (hstep : Step service w s l t) (hl : l.Orderly w) :
    l.unguarded = false := by
  cases hstep with
  | act => rfl
  | other => rfl
  | shutdown => rfl
  | @fault call e hcall =>
    rcases fault_cases (w := w) hcall hl.transient with ⟨hunguarded, hraised⟩ | ⟨hguarded, -, -⟩
    · rw [h.shutdown] at hcall
      cases hloop : s.loop with
      | claiming => exact absurd hloop h.unclaimed
      | checking => simp [hloop, LoopState.nextCall] at hcall
      | waiting => simp [hloop, LoopState.nextCall] at hcall
      | returned => simp [hloop, LoopState.nextCall] at hcall
      | raised => simp [hloop, LoopState.nextCall] at hcall
      | processing state =>
        rw [hloop] at hcall
        cases state <;> simp [LoopState.nextCall] at hcall <;> subst hcall
        case failing => exact absurd rfl (hl.handled e)
        all_goals rfl
    · exact hguarded

/-- The loop claims nothing more. -/
theorem Stopping.step (h : s.Stopping) (hstep : Step service w s l t)
    (hrenders : service.extractionService.Renders) (hl : l.Orderly w) : t.Stopping := by
  have hguarded := h.guarded hstep hl
  obtain ⟨hrunning, hinv⟩ := hstep.spec hrenders h.inv hl.transient
  have hrun := hrunning.2 ⟨h.running, hguarded⟩
  cases hstep with
  | @other call => exact ⟨hinv, hrun, h.shutdown, h.unclaimed⟩
  | shutdown => exact ⟨hinv, hrun, rfl, h.unclaimed⟩
  | @fault call e hcall =>
    refine ⟨hinv, hrun, h.shutdown, ?_⟩
    rcases fault_cases (w := w) hcall hl.transient with ⟨hunguarded, -⟩ | ⟨-, ⟨id, detail, hfailing⟩, -⟩
    · rw [hguarded] at hunguarded
      simp at hunguarded
    · show s.loop.fault e ≠ _
      rw [hfailing]
      rintro ⟨⟩
  | @act now =>
    refine ⟨hinv, hrun, h.shutdown, ?_⟩
    obtain ⟨-, hrunBefore, hshutdown, hunclaimed⟩ := h
    obtain ⟨db, loop, shutdown⟩ := s
    obtain rfl : shutdown = true := hshutdown
    cases loop with
    | claiming => exact absurd rfl hunclaimed
    | checking => rintro ⟨⟩
    | waiting => rintro ⟨⟩
    | returned => rintro ⟨⟩
    | raised e => exact absurd rfl (hrunBefore e)
    | processing state =>
      by_cases hidle : state = .idle
      · subst hidle
        rintro ⟨⟩
      · have heq := loopStep_processing service w now true hidle db hrun
        show (service.loopStep w now true (.processing state) db).1 ≠ _
        rw [heq]
        cases (service.workerStep w now state db).1 <;> rintro ⟨⟩

theorem Stopping.returned (h : s.Stopping) (hrank : s.loop.rank w s.db = 0) : s.loop = .returned := by
  cases hloop : s.loop with
  | returned => rfl
  | claiming => exact absurd hloop h.unclaimed
  | raised e => exact absurd hloop (h.running e)
  | checking => simp [hloop, LoopState.rank] at hrank
  | waiting => simp [hloop, LoopState.rank] at hrank
  | processing state => cases state <;> simp [hloop, LoopState.rank] at hrank

/-- Each move of its own takes a stopping loop closer to its end. -/
theorem Stopping.rank (h : s.Stopping) (hstep : Step service w s l t)
    (hrenders : service.extractionService.Renders) (hl : l.Orderly w) :
    t.loop.rank w t.db = 0 ∨ t.loop.rank w t.db + (if l.own then 1 else 0) ≤ s.loop.rank w s.db := by
  by_cases hreturned : s.loop = .returned
  · refine .inl ?_
    have hsame : t.loop = .returned := by
      cases hstep with
      | @act now =>
        show (service.loopStep w now s.shutdown s.loop s.db).1 = .returned
        rw [hreturned]
        rfl
      | other => exact hreturned
      | shutdown => exact hreturned
      | fault hcall => simp [hreturned, LoopState.nextCall] at hcall
    rw [hsame]
    rfl
  · refine .inr (hstep.rank hrenders h.inv hl.transient hl.foreign (h.guarded hstep hl) h.running ?_)
    rintro (hclaiming | hdone)
    · exact h.unclaimed hclaiming
    · exact hreturned hdone

theorem Stopping.run {labels : List (LoopLabel τ)} (h : s.Stopping) (hrun : Run (Step service w) s labels t)
    (hrenders : service.extractionService.Renders) (hlabels : ∀ l ∈ labels, l.Orderly w) : t.Stopping := by
  induction hrun with
  | nil => exact h
  | @cons s u t l labels hstep _ ih =>
    exact ih (h.step hstep hrenders (hlabels l (by simp))) fun l hmem => hlabels l (by simp [hmem])

theorem Stopping.countdown {labels : List (LoopLabel τ)} (h : s.Stopping) (hrun : Run (Step service w) s labels t)
    (hrenders : service.extractionService.Renders) (hlabels : ∀ l ∈ labels, l.Orderly w)
    (hown : s.loop.rank w s.db ≤ labels.countP LoopLabel.own) : t.loop = .returned := by
  have hdown : ∀ (n : ℕ) (s : LoopSystem τ) (l : LoopLabel τ) (t : LoopSystem τ), l.Orderly w →
      s.Stopping ∧ s.loop.rank w s.db = n → Step service w s l t →
      ∃ m, (t.Stopping ∧ t.loop.rank w t.db = m) ∧ (m = 0 ∨ m + (if l.own then 1 else 0) ≤ n) := by
    rintro n s l t hl ⟨hs, rfl⟩ hstep
    exact ⟨_, ⟨hs.step hstep hrenders hl, rfl⟩, hs.rank hstep hrenders hl⟩
  obtain ⟨hstopping, hrank⟩ := hrun.countdown hdown hlabels ⟨h, rfl⟩ hown
  exact hstopping.returned hrank

end LoopSystem

/-! ### Stopping cleanly -/

section Stops
variable [LinearOrder τ] [VAdd ℤ τ]

/-- In every run in which nobody else uses the worker's id and the handler's own call does not raise:
the worker holds no lease but that of the task in hand, so an unpurged task that is `processing` is in hand
or leased to another worker; and once the loop is told to stop, past a claim it claims nothing more, no
exception leaves it, and after boundedly many moves of its own it has returned with nothing leased. -/
theorem worker_loop_shuts_down (service : ExtractionTaskService) (hlease : ∀ t : τ, t < service.lease +ᵥ t)
    (hrenders : service.extractionService.Renders) (w : String) (calls : List (Call τ))
    (hfree : ∀ id, Displaced (Db.run calls) id w) {labels : List (LoopLabel τ)} {s : LoopSystem τ}
    (hrun : Run (LoopSystem.Step service w) (.start (Db.run calls)) labels s)
    (hlabels : ∀ l ∈ labels, l.Orderly w) :
    (∀ id, s.loop.task ≠ some id → Displaced s.db id w) ∧
    (∀ id a, s.db.view id = some a → a.row.status = .processing → a.row.purgedAt = none →
      s.loop.task = some id ∨ ∃ w', w' ≠ w ∧ a.row.leaseOwner = some w') ∧
    (s.shutdown = true → s.loop ≠ .claiming → (∀ e, s.loop ≠ .raised e) →
      ∀ more t, Run (LoopSystem.Step service w) s more t → (∀ l ∈ more, l.Orderly w) →
        t.loop ≠ .claiming ∧ (∀ e, t.loop ≠ .raised e) ∧
        (s.loop.rank w s.db ≤ more.countP LoopLabel.own → t.loop = .returned ∧ ∀ id, Displaced t.db id w)) := by
  have hstart := LoopSystem.inv_start calls
  have hinv := (LoopSystem.Run.spec hrun hrenders hstart fun l hl => (hlabels l hl).transient).2
  have hholds := LoopSystem.Run.holds hrun hlease hrenders hstart hlabels (LoopSystem.holds_start hfree)
  refine ⟨hholds.held, fun id a hv hstatus hpurged => ?_, fun hshutdown hunclaimed hrunning more t hmore horderly => ?_⟩
  · by_cases htask : s.loop.task = some id
    · exact .inl htask
    · obtain ⟨w', hw'⟩ := Option.isSome_iff_exists.1 ((hinv.view_inv id a hv).leased.2 ⟨hstatus, hpurged⟩)
      refine .inr ⟨w', fun heq => hholds.held id htask a hv ?_, hw'⟩
      rw [hw', heq]
  · have hstopping : s.Stopping := ⟨hinv, hrunning, hshutdown, hunclaimed⟩
    have hlast := hstopping.run hmore hrenders horderly
    refine ⟨hlast.unclaimed, hlast.running, fun hown => ?_⟩
    have hreturned := hstopping.countdown hmore hrenders horderly hown
    have hrest := LoopSystem.Run.holds hmore hlease hrenders hinv horderly hholds
    refine ⟨hreturned, fun id => hrest.held id ?_⟩
    rw [hreturned]
    rintro ⟨⟩

end Stops

/-- Told to stop after a lock timeout, the loop fails the task in hand, returns, and holds nothing. -/
theorem worker_loop_shuts_down_example : ∃ s t,
    Run (LoopSystem.Step (stubService []) "w") (.start (Db.run [sampleTask])) (guardedLabels ++ [.shutdown]) s ∧
    Run (LoopSystem.Step (stubService []) "w") s [.act 63850000000000003, .act 63850000000000004] t ∧
    t.loop = .returned ∧ ∀ id, Displaced t.db id "w" := by
  obtain ⟨s, hrun, -, hloop⟩ := guarded_run
  have hstopped := hrun.snoc (LoopSystem.Step.shutdown)
  have hlabels : ∀ l ∈ guardedLabels ++ [.shutdown], l.Orderly "w" := by
    intro l hl
    have hguarded : l.Transient ∧ l.Foreign "w" ∧ ∀ e, l ≠ .fault .failTask e := by
      simp only [guardedLabels, List.cons_append, List.nil_append, List.mem_cons, List.not_mem_nil, or_false] at hl
      rcases hl with rfl | rfl | rfl | rfl <;>
        simp [LoopLabel.Transient, LoopLabel.Foreign, databaseLocked_transient]
    exact ⟨hguarded.1, hguarded.2.1, hguarded.2.2⟩
  have hmore : Run (LoopSystem.Step (stubService []) "w") { s with shutdown := true }
      [.act 63850000000000003, .act 63850000000000004] _ := .cons .act (.cons .act (.nil _))
  have hfree : ∀ id, Displaced (Db.run [sampleTask]) id "w" :=
    displaced_of_foreign (by simp [sampleTask, Call.worker])
  have hlease : ∀ t : ℤ, t < (stubService []).lease +ᵥ t := by
    intro t
    show t < 5 + t
    omega
  obtain ⟨-, -, hstops⟩ := worker_loop_shuts_down (stubService []) hlease (stub_renders []) "w"
    [sampleTask] hfree hstopped hlabels
  have horderly (now : ℤ) : (LoopLabel.act now).Orderly "w" := ⟨trivial, trivial, by rintro e ⟨⟩⟩
  obtain ⟨-, -, hends⟩ := hstops rfl (by simp [hloop]) (by simp [hloop]) _ _ hmore (by simp [horderly])
  have hrank : LoopState.rank "w" s.db s.loop ≤ 2 := by
    rw [hloop]
    exact Nat.le_refl 2
  obtain ⟨hreturned, hnothing⟩ := hends hrank
  exact ⟨_, _, hstopped, hmore, hreturned, hnothing⟩

end TextExtraction
