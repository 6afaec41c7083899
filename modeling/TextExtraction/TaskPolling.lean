import TextExtraction.TaskRetention

/-!
# Polling a task

A client reads the status and the results of its task again and again, while workers, crashes, other
submissions and maintenance go on in between. `Aggregate.Since` is what may have become of a task between
two reads; it composes, so one step gives it for a whole run. The answers then only move forward: queued,
processing, finished, expired, unknown; a finished answer is repeated word for word until it expires.
-/

namespace TextExtraction

open Python Relational Transition

/-- How far a status is along the lifecycle. -/
def ExtractionTaskStatus.rank : ExtractionTaskStatus → ℕ
  | queued => 0
  | processing => 1
  | completed | partiallyCompleted | failed => 2

theorem ExtractionTaskStatus.Moves.rank_le {s s' : ExtractionTaskStatus} (h : s.Moves s') : s.rank ≤ s'.rank := by
  cases h with
  | stay => exact le_rfl
  | start => decide
  | finish h => cases s' <;> simp_all [ExtractionTaskStatus.rank]

/-! ### Between two states of a task -/

/-- What may become of a task from `since` on. -/
structure Aggregate.Since (since : ℤ) (a a' : Aggregate ℤ) : Prop where
  taskId : a'.row.taskId = a.row.taskId
  ownerId : a'.row.ownerId = a.row.ownerId
  accepted : a'.row.acceptedCount = a.row.acceptedCount
  createdAt : a'.row.createdAt = a.row.createdAt
  expiresAt : a'.row.expiresAt = a.row.expiresAt
  rank : a.row.status.rank ≤ a'.row.status.rank
  processed : a.row.processedCount ≤ a'.row.processedCount
  successful : a.row.successfulCount ≤ a'.row.successfulCount
  failed : a.row.failedCount ≤ a'.row.failedCount
  startedAt : a.row.startedAt.isSome = true → a'.row.startedAt = a.row.startedAt
  updatedAt : a'.row.updatedAt = a.row.updatedAt ∨ since ≤ a'.row.updatedAt
  purged : a.row.purgedAt.isSome = true → a'.row.purgedAt.isSome = true
  /-- A finished task stays as it is until it is purged. -/
  finished : a.row.status.isTerminal = true → a'.row.purgedAt = none → a' = a

namespace Aggregate.Since

variable {since : ℤ} {a a' a'' : Aggregate ℤ}

theorem refl (a : Aggregate ℤ) : a.Since since a where
  taskId := rfl
  ownerId := rfl
  accepted := rfl
  createdAt := rfl
  expiresAt := rfl
  rank := le_rfl
  processed := le_rfl
  successful := le_rfl
  failed := le_rfl
  startedAt _ := rfl
  updatedAt := .inl rfl
  purged h := h
  finished _ _ := rfl

theorem trans (h : a.Since since a') (h' : a'.Since since a'') : a.Since since a'' where
  taskId := h'.taskId.trans h.taskId
  ownerId := h'.ownerId.trans h.ownerId
  accepted := h'.accepted.trans h.accepted
  createdAt := h'.createdAt.trans h.createdAt
  expiresAt := h'.expiresAt.trans h.expiresAt
  rank := h.rank.trans h'.rank
  processed := h.processed.trans h'.processed
  successful := h.successful.trans h'.successful
  failed := h.failed.trans h'.failed
  startedAt hs := by
    have hs' := h.startedAt hs
    rw [h'.startedAt (hs' ▸ hs), hs']
  updatedAt := by
    rcases h'.updatedAt with heq | hle
    · rw [heq]
      exact h.updatedAt
    · exact .inr hle
  purged hp := h'.purged (h.purged hp)
  finished hterm hpurged := by
    have hpurged' : a'.row.purgedAt = none := by
      rw [← Option.not_isSome_iff_eq_none]
      intro hsome
      have := h'.purged hsome
      rw [hpurged] at this
      cases this
    obtain rfl := h.finished hterm hpurged'
    exact h'.finished hterm hpurged

end Aggregate.Since

/-! ### One step -/

theorem Aggregate.Evolves.since {purging : Bool} {since : ℤ} {a a' : Aggregate ℤ} (h : a.Evolves purging a')
    (htime : a'.row.updatedAt = a.row.updatedAt ∨ since ≤ a'.row.updatedAt)
    (hpurged : a.row.purgedAt.isSome = true → a'.row.purgedAt.isSome = true)
    (hfinished : a.row.status.isTerminal = true → a'.row.purgedAt = none → a' = a) : a.Since since a' where
  taskId := h.taskId
  ownerId := h.ownerId
  accepted := h.accepted
  createdAt := h.createdAt
  expiresAt := h.expiresAt
  rank := h.status.rank_le
  processed := h.processed
  successful := h.successful
  failed := h.failed
  startedAt := h.startedAt
  updatedAt := htime
  purged := hpurged
  finished := hfinished

theorem Aggregate.Step.since {a a' : Aggregate ℤ} {act : Action ℤ} (h : a.Step act a') (hinv : a.Inv) {since : ℤ}
    (htime : a'.row.updatedAt = a.row.updatedAt ∨ since ≤ a'.row.updatedAt) : a.Since since a' := by
  have hpurged : a.row.purgedAt.isSome = true → a'.row.purgedAt.isSome = true := by
    intro hp
    cases h with
    | purge => rfl
    | _ => exact hp
  have hfinished : a.row.status.isTerminal = true → a'.row.purgedAt = none → a' = a := by
    intro hterm hnone
    rcases h.not_terminal with hrun | ⟨now, -, rfl⟩
    · rw [hterm] at hrun
      cases hrun
    · cases hnone
  by_cases hpurging : ∃ now, act = .purge now
  · have hevolves : a.Evolves true a' := h.evolves hinv (by simpa using hpurging)
    exact hevolves.since htime hpurged hfinished
  · have hevolves : a.Evolves false a' := h.evolves hinv (by simpa using hpurging)
    exact hevolves.since htime hpurged hfinished

/-- A row is stamped with the time of the step, or not at all. -/
theorem Aggregate.Step.updatedAt {a a' : Aggregate ℤ} {act : Action ℤ} (h : a.Step act a')
    {service : ExtractionTaskService} {l : Label ℤ} {c : Call ℤ} {id : String} (hdoes : c.Does id act)
    (hmakes : l.Makes service c) : a'.row.updatedAt = a.row.updatedAt ∨ a'.row.updatedAt ∈ l.times := by
  cases hdoes with
  | claim =>
    cases hmakes
    cases h
    exact .inr (by simp [Label.times, Aggregate.claim, TaskRow.claim])
  | renew =>
    cases hmakes
    cases h
    exact .inr (by simp [Label.times, Aggregate.renew, TaskRow.renew])
  | take =>
    cases h
    exact .inl rfl
  | finalize =>
    cases hmakes
    cases h
    exact .inr (by simp [Label.times, Aggregate.finalize, TaskRow.advance])
  | abort =>
    cases hmakes
    cases h
    exact .inr (by simp [Label.times, Aggregate.abort, TaskRow.abort])

namespace System
variable {service : ExtractionTaskService} {s s' : System ℤ} {id : String} {sub : Submission ℤ} {t since : ℤ}

/-- No task carries a stamp later than `t`. -/
def Stamped (t : ℤ) (s : System ℤ) : Prop := ∀ id a, s.db.view id = some a → a.row.updatedAt ≤ t

theorem Step.stamped {l : Label ℤ} (h : Step service s l s') (hinv : s.Inv service)
    (htimes : ∀ now ∈ l.times, now ≤ t) (hs : s.Stamped t) : s'.Stamped t := by
  intro id a' hv'
  rcases h.affects hinv id with he | ⟨c, hmakes, haff⟩
  · rw [he] at hv'
    exact hs id a' hv'
  · rw [hv'] at haff
    generalize hv : s.db.view id = v at haff
    cases haff with
    | same => exact hs id a' hv
    | created hc =>
      subst hc
      cases hmakes
      exact htimes _ (by simp [Label.times, newAggregate, newTask])
    | stepped hstep hdoes =>
      rcases hstep.updatedAt hdoes hmakes with heq | hmem
      · rw [heq]
        exact hs id _ hv
      · exact htimes _ hmem
    | purged hc =>
      subst hc
      cases hmakes
      exact htimes _ (by simp [Label.times, Aggregate.purge, TaskRow.purge])

/-- What may have become of an accepted task. -/
inductive Succeeds (since : ℤ) : Option (Aggregate ℤ) → Option (Aggregate ℤ) → Prop
  | gone {v} : Succeeds since v none
  | since {a a'} (h : a.Since since a') : Succeeds since (some a) (some a')

theorem Succeeds.trans {v v' v'' : Option (Aggregate ℤ)} (h : Succeeds since v v') (h' : Succeeds since v' v'') :
    Succeeds since v v'' := by
  cases h' with
  | gone => exact .gone
  | since h' =>
    cases h with
    | since h => exact .since (h.trans h')

theorem Step.succeeds {l : Label ℤ} (h : Step service s l s') (hinv : s.Inv service)
    (htimes : ∀ now ∈ l.times, since ≤ now) (hsub : s.accepted id = some sub) :
    Succeeds since (s.db.view id) (s'.db.view id) := by
  cases hv : s.db.view id with
  | none =>
    rw [h.absent hinv hsub hv]
    exact .gone
  | some a =>
    rcases h.affects hinv id with he | ⟨c, hmakes, haff⟩
    · rw [he, hv]
      exact .since (.refl a)
    · rw [hv] at haff
      have hainv := hinv.aggregate hv
      generalize s'.db.view id = v' at haff
      cases haff with
      | same => exact .since (.refl a)
      | stepped hstep hdoes =>
        refine .since (hstep.since hainv ?_)
        rcases hstep.updatedAt hdoes hmakes with heq | hmem
        · exact .inl heq
        · exact .inr (htimes _ hmem)
      | purged hc hstep =>
        subst hc
        cases hmakes
        exact .since (hstep.since hainv (.inr (htimes _ (by simp [Label.times, Aggregate.purge, TaskRow.purge]))))
      | deleted => exact .gone

theorem Run.succeeds {labels : List (Label ℤ)} (h : Run (Step service) s labels s') (hinv : s.Inv service)
    (htimes : ∀ l ∈ labels, ∀ now ∈ l.times, since ≤ now) (hsub : s.accepted id = some sub) :
    Succeeds since (s.db.view id) (s'.db.view id) := by
  induction h with
  | nil s =>
    cases s.db.view id with
    | none => exact .gone
    | some a => exact .since (.refl a)
  | @cons s u s' l labels hstep _ ih =>
    have hfirst := hstep.succeeds hinv (htimes l (by simp)) hsub
    exact hfirst.trans (ih (hstep.inv hinv) (fun l' hl' => htimes l' (by simp [hl'])) (hstep.accepted hsub))

/-- A submission is never forgotten. -/
theorem Run.accepted {labels : List (Label ℤ)} (h : Run (Step service) s labels s')
    (hsub : s.accepted id = some sub) : s'.accepted id = some sub := by
  induction h with
  | nil => exact hsub
  | cons hstep _ ih => exact ih (hstep.accepted hsub)

theorem Run.stamped {labels : List (Label ℤ)} (h : Run (Step service) s labels s') (hinv : s.Inv service)
    (htimes : ∀ l ∈ labels, ∀ now ∈ l.times, now ≤ t) (hs : s.Stamped t) : s'.Stamped t := by
  induction h with
  | nil => exact hs
  | @cons s u s' l labels hstep _ ih =>
    exact ih (hstep.inv hinv) (fun l' hl' => htimes l' (by simp [hl']))
      (hstep.stamped hinv (htimes l (by simp)) hs)

end System

/-! ### Between two reads -/

/-- A later status record of the same task. -/
structure ExtractionTaskRecord.Precedes (r r' : ExtractionTaskRecord ℤ) : Prop where
  taskId : r'.taskId = r.taskId
  ownerId : r'.ownerId = r.ownerId
  accepted : r'.acceptedCount = r.acceptedCount
  createdAt : r'.createdAt = r.createdAt
  expiresAt : r'.expiresAt = r.expiresAt
  rank : r.status.rank ≤ r'.status.rank
  processed : r.processedCount ≤ r'.processedCount
  successful : r.successfulCount ≤ r'.successfulCount
  failed : r.failedCount ≤ r'.failedCount
  startedAt : r.startedAt.isSome = true → r'.startedAt = r.startedAt
  updatedAt : r.updatedAt ≤ r'.updatedAt
  finished : r.status.isTerminal = true → r' = r

/-- What a status read may answer after an earlier one. -/
inductive StatusFollows : Except TaskServiceError (ExtractionTaskRecord ℤ) →
    Except TaskServiceError (ExtractionTaskRecord ℤ) → Prop
  | progress {r r'} (h : r.Precedes r') : StatusFollows (.ok r) (.ok r')
  | expired {r} : StatusFollows (.ok r) (.error .taskExpired)
  | purged : StatusFollows (.error .taskExpired) (.error .taskExpired)
  | gone {x} : StatusFollows x (.error .taskNotFound)

/-- What a results read may answer after an earlier one. -/
inductive ResultsFollows : Except TaskServiceError (TaskResultsRecord ℤ) →
    Except TaskServiceError (TaskResultsRecord ℤ) → Prop
  | same {results} : ResultsFollows (.ok results) (.ok results)
  | pending {status status' : ExtractionTaskStatus} (h : status.rank ≤ status'.rank)
      (hrun : status'.isTerminal = false) :
      ResultsFollows (.error (.resultsPending status.value)) (.error (.resultsPending status'.value))
  | ready {status : ExtractionTaskStatus} {results} (hrun : status.isTerminal = false)
      (hterm : results.task.status.isTerminal = true) :
      ResultsFollows (.error (.resultsPending status.value)) (.ok results)
  | expired {results} : ResultsFollows (.ok results) (.error .taskExpired)
  | missed {status : ExtractionTaskStatus} :
      ResultsFollows (.error (.resultsPending status.value)) (.error .taskExpired)
  | purged : ResultsFollows (.error .taskExpired) (.error .taskExpired)
  | gone {x} : ResultsFollows x (.error .taskNotFound)

/-- The part of a record `get_status` answers. -/
def ExtractionTaskRecord.statusPart (r : ExtractionTaskRecord ℤ) : ExtractionTaskRecord ℤ :=
  { r with criteria := .none, model := .none, leaseOwner := none, leaseExpiresAt := none }

/-- What a results read may answer after a status read. -/
inductive ResultsKeep : Except TaskServiceError (ExtractionTaskRecord ℤ) →
    Except TaskServiceError (TaskResultsRecord ℤ) → Prop
  | ready {r results} (h : r.Precedes results.task.statusPart) (hterm : results.task.status.isTerminal = true) :
      ResultsKeep (.ok r) (.ok results)
  | pending {r} {status : ExtractionTaskStatus} (h : r.status.rank ≤ status.rank)
      (hrun : status.isTerminal = false) : ResultsKeep (.ok r) (.error (.resultsPending status.value))
  | expired {r} : ResultsKeep (.ok r) (.error .taskExpired)
  | purged : ResultsKeep (.error .taskExpired) (.error .taskExpired)
  | gone {x} : ResultsKeep x (.error .taskNotFound)

/-- What the owner is told about a live task. -/
structure Aggregate.Told (a : Aggregate ℤ) (status : Except TaskServiceError (ExtractionTaskRecord ℤ))
    (results : Except TaskServiceError (TaskResultsRecord ℤ)) : Prop where
  status : status = .ok (a.row.statusProjection.record false)
  pending : a.row.status.isTerminal = false → results = .error (.resultsPending a.row.status.value)
  ready : a.row.status.isTerminal = true → ∃ r, r.task = a.row.record true ∧ results = .ok r ∧
    taskResults (a.row.record true) (a.items.map itemFromRow) = .ok r

section Told
variable {a a' : Aggregate ℤ} {since t : ℤ} {status status' : Except TaskServiceError (ExtractionTaskRecord ℤ)}
  {results results' : Except TaskServiceError (TaskResultsRecord ℤ)}

theorem Aggregate.Since.precedes (h : a.Since t a') (hlive : a'.row.purgedAt = none) (hold : a.row.updatedAt ≤ t) :
    (a.row.statusProjection.record false).Precedes (a'.row.statusProjection.record false) where
  taskId := h.taskId
  ownerId := h.ownerId
  accepted := h.accepted
  createdAt := h.createdAt
  expiresAt := h.expiresAt
  rank := h.rank
  processed := h.processed
  successful := h.successful
  failed := h.failed
  startedAt := h.startedAt
  updatedAt := by
    show a.row.updatedAt ≤ a'.row.updatedAt
    rcases h.updatedAt with heq | hle
    · exact heq.ge
    · exact hold.trans hle
  finished hterm := by rw [h.finished hterm hlive]

theorem Aggregate.Told.statusFollows (ht : a.Told status results) (ht' : a'.Told status' results') (h : a.Since t a')
    (hlive : a'.row.purgedAt = none) (hold : a.row.updatedAt ≤ t) : StatusFollows status status' := by
  rw [ht.status, ht'.status]
  exact .progress (h.precedes hlive hold)

theorem Aggregate.Told.resultsFollow (ht : a.Told status results) (ht' : a'.Told status' results') (h : a.Since t a')
    (hlive : a'.row.purgedAt = none) : ResultsFollows results results' := by
  cases hterm : a.row.status.isTerminal with
  | true =>
    obtain rfl := h.finished hterm hlive
    obtain ⟨r, -, hr, hread⟩ := ht.ready hterm
    obtain ⟨r', -, hr', hread'⟩ := ht'.ready hterm
    rw [hread] at hread'
    cases hread'
    rw [hr, hr']
    exact .same
  | false =>
    rw [ht.pending hterm]
    cases hterm' : a'.row.status.isTerminal with
    | true =>
      obtain ⟨r', htask, hr', -⟩ := ht'.ready hterm'
      rw [hr']
      exact .ready hterm (by rw [htask]; exact hterm')
    | false =>
      rw [ht'.pending hterm']
      exact .pending h.rank hterm'

theorem Aggregate.Told.resultsKeep (ht : a.Told status results) (ht' : a'.Told status' results') (h : a.Since t a')
    (hlive : a'.row.purgedAt = none) (hold : a.row.updatedAt ≤ t) : ResultsKeep status results' := by
  rw [ht.status]
  cases hterm' : a'.row.status.isTerminal with
  | true =>
    obtain ⟨r', htask, hr', -⟩ := ht'.ready hterm'
    rw [hr']
    refine .ready ?_ (by rw [htask]; exact hterm')
    rw [htask]
    exact h.precedes hlive hold
  | false =>
    rw [ht'.pending hterm']
    exact .pending h.rank hterm'

end Told

namespace System
variable {service : ExtractionTaskService} {s s' : System ℤ} {id : String} {sub : Submission ℤ} {t t' : ℤ}

/-- What the owner reads at `t`: the task, that it expired, or that there is none. -/
theorem reads_cases (hinv : s.Inv service) (hs : s.Timely service t) (hsub : s.accepted id = some sub) :
    (t < sub.expiresAt ∧ ∃ a, s.db.view id = some a ∧ a.row.purgedAt = none ∧
      a.Told (service.getStatus sub.ownerId id t s.db).1 (service.getResults sub.ownerId id t s.db).1) ∨
    (sub.expiresAt ≤ t ∧ t < sub.expiresAt + service.tombstone ∧
      (service.getStatus sub.ownerId id t s.db).1 = .error .taskExpired ∧
      (service.getResults sub.ownerId id t s.db).1 = .error .taskExpired) ∨
    (sub.expiresAt + service.tombstone ≤ t ∧
      (service.getStatus sub.ownerId id t s.db).1 = .error .taskNotFound ∧
      (service.getResults sub.ownerId id t s.db).1 = .error .taskNotFound) := by
  have hmaintained : (s.maintain service t).Inv service := Step.maintain.inv hinv
  rcases view_maintained hinv hs hsub with ⟨hlt, a, hv, hpurged, hv'⟩ | ⟨hle, hlt, a, hv', hpurged⟩ | ⟨hle, hv'⟩
  · have hholds := hinv.holds hsub hv
    have hainv := hinv.aggregate hv
    have hresults : (service.getResults sub.ownerId id t s.db).1 =
        ExtractionTaskService.readResults sub.ownerId id (service.maintainRetention t s.db)
          (service.maintainRetention t s.db) := rfl
    rw [hholds.readResults_eq hainv hv' hpurged, (Db.view_eq_some.1 hv').2] at hresults
    refine .inl ⟨hlt, a, hv, hpurged, (reads_of_live hainv hholds hv' hpurged).1, fun hrun => ?_, fun hterm => ?_⟩
    · rw [hresults, hrun]
      rfl
    · obtain ⟨r, hok, htask, -⟩ := hholds.taskResults_ok hainv hpurged hterm
      refine ⟨r, htask, ?_, hok⟩
      rw [hresults, hterm, hok]
      rfl
  · have hholds := hmaintained.holds (show (s.maintain service t).accepted id = some sub from hsub) hv'
    have hreads := reads_of_purged (hmaintained.aggregate hv') hv' hpurged sub.ownerId
    rw [if_pos hholds.ownerId] at hreads
    exact .inr (.inl ⟨hle, hlt, hreads⟩)
  · exact .inr (.inr ⟨hle, reads_of_none hv' sub.ownerId⟩)

/-- The owner reads at `t` and again at `t'`, with any steps in between. Status and results only move forward,
a finished answer is repeated word for word until it expires, and the results are those the status announced. -/
theorem polling_monotone (htombstone : 0 < service.tombstone) {labels labels' : List (Label ℤ)}
    (h : Run (Step service) init labels s) (htimes : ∀ l ∈ labels, ∀ now ∈ l.times, now ≤ t)
    (h' : Run (Step service) s labels' s') (htimes' : ∀ l ∈ labels', ∀ now ∈ l.times, t ≤ now ∧ now ≤ t')
    (hle : t ≤ t') (hsub : s.accepted id = some sub) :
    StatusFollows (service.getStatus sub.ownerId id t s.db).1 (service.getStatus sub.ownerId id t' s'.db).1 ∧
    ResultsFollows (service.getResults sub.ownerId id t s.db).1 (service.getResults sub.ownerId id t' s'.db).1 ∧
    ResultsKeep (service.getStatus sub.ownerId id t s.db).1 (service.getResults sub.ownerId id t' s'.db).1 := by
  have hinv : s.Inv service := Run.inv h inv_init
  have htimely : s.Timely service t := by
    refine Run.timely h inv_init htimes ?_
    intro id sub hsub
    cases hsub
  have hstamped : s.Stamped t := by
    refine Run.stamped h inv_init htimes ?_
    intro id a hv
    cases hv
  have hboth : Run (Step service) init (labels ++ labels') s' := h.append h'
  have htimely' : s'.Timely service t' := by
    refine Run.timely hboth inv_init (fun l hl now hnow => ?_) ?_
    · rcases List.mem_append.1 hl with hl | hl
      · exact (htimes l hl now hnow).trans hle
      · exact (htimes' l hl now hnow).2
    · intro id sub hsub
      cases hsub
  have hsub' : s'.accepted id = some sub := System.Run.accepted h' hsub
  have hsucc := Run.succeeds h' hinv (fun l hl now hnow => (htimes' l hl now hnow).1) hsub
  rcases reads_cases (Run.inv h' hinv) htimely' hsub' with
    ⟨hlt', a', hv', hlive', htold'⟩ | ⟨hle', hlt', hs', hr'⟩ | ⟨hle', hs', hr'⟩
  · rcases reads_cases hinv htimely hsub with ⟨-, a, hv, -, htold⟩ | ⟨hexp, -⟩ | ⟨hgone, -⟩
    · rw [hv, hv'] at hsucc
      cases hsucc with
      | since hsince =>
        have hold := hstamped id a hv
        exact ⟨htold.statusFollows htold' hsince hlive' hold, htold.resultsFollow htold' hsince hlive',
          htold.resultsKeep htold' hsince hlive' hold⟩
    · omega
    · omega
  · rw [hs', hr']
    rcases reads_cases hinv htimely hsub with ⟨-, a, -, -, htold⟩ | ⟨-, -, hs, hr⟩ | ⟨hgone, -⟩
    · rw [htold.status]
      refine ⟨.expired, ?_, .expired⟩
      cases hterm : a.row.status.isTerminal with
      | true =>
        obtain ⟨r, -, hr, -⟩ := htold.ready hterm
        rw [hr]
        exact .expired
      | false =>
        rw [htold.pending hterm]
        exact .missed
    · rw [hs, hr]
      exact ⟨.purged, .purged, .purged⟩
    · omega
  · rw [hs', hr']
    exact ⟨.gone, .gone, .gone⟩

/-- A task of the stub service, read at 0 and once more at 9, 10 or 20, with the first read's maintenance between. -/
theorem polling_monotone_example : ∃ s : System ℤ, ∃ sub : Submission ℤ, Reachable (stubService []) s ∧
    s.accepted "t" = some sub ∧ ∀ t ∈ [9, 10, 20],
    StatusFollows ((stubService []).getStatus sub.ownerId "t" 0 s.db).1
      ((stubService []).getStatus sub.ownerId "t" t (s.maintain (stubService []) 0).db).1 ∧
    ResultsFollows ((stubService []).getResults sub.ownerId "t" 0 s.db).1
      ((stubService []).getResults sub.ownerId "t" t (s.maintain (stubService []) 0).db).1 ∧
    ResultsKeep ((stubService []).getStatus sub.ownerId "t" 0 s.db).1
      ((stubService []).getResults sub.ownerId "t" t (s.maintain (stubService []) 0).db).1 := by
  have h : Run (Step (stubService [])) (init (τ := ℤ)) [.submit "t" "o" sampleRequest 0]
      ((init (τ := ℤ)).submit (stubService []) "t" "o" sampleRequest 0) := .single (.submit rfl)
  refine ⟨_, _, ⟨_, h⟩, rfl, fun t ht => ?_⟩
  have hle : 0 ≤ t := by
    simp only [List.mem_cons, List.not_mem_nil, or_false] at ht
    omega
  refine polling_monotone (by decide) h (by simp [Label.times]) (.single .maintain) (fun l hl now hnow => ?_) hle rfl
  rw [List.mem_singleton.1 hl] at hnow
  rw [List.mem_singleton.1 hnow]
  exact ⟨le_rfl, hle⟩

end System

end TextExtraction
