import TextExtraction.TaskProgress
import TextExtraction.TaskSummary

/-!
# One worker step

`run_worker_step` as a whole: maintenance, the claim, and `_process_claimed_task` with its loop and
its handler. `clock n` is the answer of the `n`-th call of the clock; the loop takes a bound on its
iterations (`fuel`) and answers `none` when it is used up, and a `datetime` cannot be any time
(`inRange`).

With nobody else writing, the loop goes through the pending items in order (`Progress`), so it needs
one iteration for each, and whatever it raises on the way lands in `fail_task` under a live lease.
While times do not run out, the step is a run of the worker calls that other modules interleave
(`runWorkerStep_follow`).
-/

namespace TextExtraction

open Python Relational

variable {τ : Type}

namespace ExtractionTaskService

section Run
variable [LinearOrder τ] [VAdd ℤ τ] (service : ExtractionTaskService) (inRange : τ → Bool) (w : String)
  (clock : ℕ → τ)

/-- The `while True` loop: how it ends, the clock readings so far, and the store. -/
def processLoop (context : WorkerContext) : ℕ → ℕ → Db τ → Option (Except Exc Unit × ℕ × Db τ)
  | 0, _, _ => none
  | fuel + 1, n, db =>
    let now := clock n
    match addTimedelta inRange now service.lease with
    | .error error => some (.error error, n + 1, db)
    | .ok _ =>
      match renewLease context.taskId w now service.lease db with
      | (false, db) => some (.error (.raised .runtimeError "Task lease was lost"), n + 1, db)
      | (true, db) =>
        match claimNextItem context.taskId w now db with
        | (none, db) => some (.ok (), n + 1, db)
        | (some item, db) =>
          match service.processItem context item with
          | .error error => some (.error error, n + 1, db)
          | .ok (outcome, error) =>
            match finalizeItem context.taskId w item.position outcome error (clock (n + 1)) db with
            | (.error error, db) => some (.error error, n + 2, db)
            | (.ok updated, db) =>
              if updated.status.isTerminal then some (.ok (), n + 2, db)
              else processLoop context fuel (n + 2) db

/-- The `except` clause: `fail_task`, whose `ValueError` is dropped. -/
def recover (taskId : String) (error : Exc) (n : ℕ) (db : Db τ) : Except Exc Unit × Db τ :=
  match error.str with
  | .error raised => (.error raised, db)
  | .ok message =>
    let detail := orElse message "Task processing failed"
    match failTask taskId w (taskFailure detail) (clock n) db with
    | (.ok _, db) => (.ok (), db)
    | (.error error, db) => (if error.kind = .valueError then .ok () else .error error, db)

def processClaimedTask (fuel : ℕ) (task : ExtractionTaskRecord τ) (n : ℕ) (db : Db τ) :
    Option (Except Exc Unit × Db τ) :=
  match beginProcessing task with
  | .error error => some (recover w clock task.taskId error n db)
  | .ok context =>
    match processLoop service inRange w clock context fuel n db with
    | none => none
    | some (.ok _, _, db) => some (.ok (), db)
    | some (.error error, n, db) => some (recover w clock task.taskId error n db)

def runWorkerStep (fuel : ℕ) (db : Db τ) : Option (Except Exc Bool × Db τ) :=
  match addTimedelta inRange (clock 0) (-service.tombstone) with
  | .error error => some (.error error, db)
  | .ok _ =>
    let db := service.maintainRetention (clock 0) db
    match addTimedelta inRange (clock 1) service.lease with
    | .error error => some (.error error, db)
    | .ok _ =>
      match claimTask w (clock 1) service.lease db with
      | (.error error, db) => some (.error error, db)
      | (.ok none, db) => some (.ok false, db)
      | (.ok (some task), db) =>
        (processClaimedTask service inRange w clock fuel task 2 db).map fun answer =>
          (answer.1.map fun _ => true, answer.2)

end Run

end ExtractionTaskService

/-! ### What is raised about an item -/

/-- Whatever copying the value or encoding the copy raises has a text. -/
def Value.Renders (v : Value) : Prop :=
  (∀ e, asdictInner v = .error e → Prints e) ∧
    ∀ copy e, asdictInner v = .ok copy → dumps true copy = .error e → Prints e

/-- Whatever the provider, its answers and the estimator raise has a text. -/
structure ExtractionService.PrintsErrors (service : ExtractionService) : Prop where
  infer : ∀ sourceId text names e,
    service.inferenceProvider.infer sourceId text names = .error e → Prints e
  get : ∀ sourceId text names inferred name e,
    service.inferenceProvider.infer sourceId text names = .ok inferred → inferred name = .error e → Prints e
  estimate : ∀ sourceId name value e,
    service.uncertaintyEstimator.estimate sourceId name value = .error e → Prints e

/-- So has whatever copying and encoding the values of both raises. -/
structure ExtractionService.Renders (service : ExtractionService) : Prop extends service.PrintsErrors where
  value : ∀ sourceId text names inferred name found,
    service.inferenceProvider.infer sourceId text names = .ok inferred →
      inferred name = .ok (some found) → Value.Renders found.value
  uncertainty : ∀ sourceId name value result,
    service.uncertaintyEstimator.estimate sourceId name value = .ok result → Value.Renders result.value

theorem prints_raised (kind : ExcKind) (message : String) : Prints (.raised kind message) := ⟨message, rfl⟩

theorem prints_of_getItem {v : Value} {k : String} {e : Exc} (h : v.getItem k = .error e) : Prints e := by
  unfold Value.getItem at h
  split at h
  · split at h <;> cases h
    exact prints_raised _ _
  all_goals
    cases h
    exact prints_raised _ _

theorem prints_of_iter {v : Value} {e : Exc} (h : v.iter = .error e) : Prints e := by
  unfold Value.iter at h
  split at h <;> cases h
  exact prints_raised _ _

theorem prints_of_itemNames {values : List Value} {e : Exc} (h : itemNames values = .error e) : Prints e := by
  induction values with
  | nil => cases h
  | cons value values ih =>
    unfold itemNames at h
    cases hname : value.getItem "name" with
    | error e' =>
      rw [hname] at h
      cases h
      exact prints_of_getItem hname
    | ok name =>
      rw [hname] at h
      cases hnames : itemNames values with
      | error e' =>
        rw [hnames] at h
        cases h
        exact ih hnames
      | ok names => rw [hnames] at h; cases h

theorem renders_none : Value.Renders .none := by
  constructor
  · rintro e ⟨⟩
  · rintro copy e h he
    cases h
    cases he

/-- The two values of a property render. -/
def PropertyResult.Renders (result : PropertyResult) : Prop :=
  Value.Renders result.value ∧ Value.Renders result.uncertainty.value

section Process
variable {service : ExtractionService} {sourceId text : String} {names : List Value}

namespace ExtractionService.PrintsErrors

theorem propertyResult (h : service.PrintsErrors) {name : Value} {inferred : InferenceValue} {e : Exc}
    (he : service.propertyResult sourceId name inferred = .error e) : Prints e := by
  rcases bind_eq_error_iff.1 he with hu | ⟨u, -, he⟩
  · exact h.estimate _ _ _ _ hu
  · cases he

/-- The dict comprehension raises only what has a text. -/
theorem propertyResults (h : service.PrintsErrors) {all : List Value} {inferred : Mapping}
    (hinfer : service.inferenceProvider.infer sourceId text all = .ok inferred) {built : List (Key × PropertyResult)}
    {e : Exc} (he : service.propertyResults sourceId inferred names built = .error e) : Prints e := by
  induction names generalizing built with
  | nil => cases he
  | cons name names ih =>
    unfold ExtractionService.propertyResults at he
    rcases bind_eq_error_iff.1 he with hget | ⟨found, -, he⟩
    · exact h.get _ _ _ _ _ _ hinfer hget
    rcases bind_eq_error_iff.1 he with hresult | ⟨result, -, he⟩
    · exact h.propertyResult hresult
    rcases bind_eq_error_iff.1 he with hkey | ⟨key, -, he⟩
    · obtain ⟨message, rfl⟩ := Value.toKey_eq_error hkey
      exact prints_raised _ _
    · exact ih he

/-- Processing a source never raises. -/
theorem processSource (h : service.PrintsErrors) (sourceId text : String) (names : List Value)
    (model : ResolvedModelReference) : ∃ outcome, service.processSourceWithModel sourceId text names model = .ok outcome := by
  unfold ExtractionService.processSourceWithModel
  cases hp : service.inferProperties sourceId text names with
  | ok properties => exact ⟨_, rfl⟩
  | error e =>
    have hprints : Prints e := by
      rcases bind_eq_error_iff.1 hp with hi | ⟨inferred, hi, hresults⟩
      · exact h.infer _ _ _ _ hi
      · exact h.propertyResults hi hresults
    obtain ⟨message, hm⟩ := hprints
    simp only [hm]
    exact ⟨_, rfl⟩

end ExtractionService.PrintsErrors

namespace ExtractionService.Renders

theorem propertyResult (h : service.Renders) {name : Value} {inferred : InferenceValue}
    (hvalue : Value.Renders inferred.value) {result : PropertyResult}
    (hok : service.propertyResult sourceId name inferred = .ok result) : result.Renders := by
  obtain ⟨u, hu, hok⟩ := bind_eq_ok_iff.1 hok
  cases hok
  exact ⟨hvalue, h.uncertainty _ _ _ _ hu⟩

/-- The dict comprehension collects only values that render. -/
theorem propertyResults (h : service.Renders) {all : List Value} {inferred : Mapping}
    (hinfer : service.inferenceProvider.infer sourceId text all = .ok inferred) {built : List (Key × PropertyResult)}
    (hbuilt : ∀ p ∈ built, p.2.Renders) {properties : List (Key × PropertyResult)}
    (hok : service.propertyResults sourceId inferred names built = .ok properties) : ∀ p ∈ properties, p.2.Renders := by
  induction names generalizing built with
  | nil =>
    cases hok
    exact hbuilt
  | cons name names ih =>
    unfold ExtractionService.propertyResults at hok
    obtain ⟨found, hf, hok⟩ := bind_eq_ok_iff.1 hok
    obtain ⟨result, hr, hok⟩ := bind_eq_ok_iff.1 hok
    obtain ⟨key, -, hok⟩ := bind_eq_ok_iff.1 hok
    have hvalue : Value.Renders (found.getD ⟨.none, .notFound⟩).value := by
      rcases found with - | found
      · exact renders_none
      · exact h.value _ _ _ _ _ _ hinfer hf
    refine ih (fun p hp => ?_) hok
    rcases mem_setItem hp with hp | ⟨-, hp⟩
    · exact hbuilt p hp
    · rw [hp]
      exact h.propertyResult hvalue hr

/-- What is collected about a source renders. -/
theorem processed (h : service.Renders) {model : ResolvedModelReference} {outcome : ExtractionOutcome}
    (hok : service.processSourceWithModel sourceId text names model = .ok outcome) :
    ∀ p ∈ outcome.properties, p.2.Renders := by
  rcases processSourceWithModel_cases hok with ⟨properties, rfl, hp⟩ | ⟨failure, rfl⟩
  · obtain ⟨inferred, hi, hresults⟩ := bind_eq_ok_iff.1 hp
    exact h.propertyResults hi (by simp) hresults
  · simp

end ExtractionService.Renders

end Process

/-! ### What is raised when it is persisted -/

theorem prints_of_dumps_dict {kvs : List (Key × Value)} {e : Exc} (h : dumps true (.dict kvs) = .error e)
    (hvalues : ∀ kv ∈ kvs, ∀ e, dumps true kv.2 = .error e → Prints e) : Prints e := by
  rcases of_dumps_dict_error h with ⟨message, rfl⟩ | ⟨kv, hkv, he⟩
  · exact prints_raised _ _
  · exact hvalues kv hkv e he

namespace PropertyResult.Renders

variable {result : PropertyResult}

theorem asdict_error (h : result.Renders) {e : Exc} (he : result.asdict = .error e) : Prints e := by
  unfold PropertyResult.asdict at he
  cases hv : asdictInner result.value with
  | error e' =>
    rw [hv] at he
    cases he
    exact h.1.1 _ hv
  | ok value =>
    cases hu : asdictInner result.uncertainty.value with
    | error e' =>
      rw [hv, hu] at he
      cases he
      exact h.2.1 _ hu
    | ok u => rw [hv, hu] at he; cases he

theorem dumps_error (h : result.Renders) {v : Value} (hv : result.asdict = .ok v) {e : Exc}
    (he : dumps true v = .error e) : Prints e := by
  unfold PropertyResult.asdict at hv
  cases hvalue : asdictInner result.value with
  | error e' => rw [hvalue] at hv; cases hv
  | ok value =>
    cases hu : asdictInner result.uncertainty.value with
    | error e' => rw [hvalue, hu] at hv; cases hv
    | ok u =>
      rw [hvalue, hu] at hv
      cases hv
      refine prints_of_dumps_dict he fun kv hkv e he => ?_
      simp only [List.mem_cons, List.not_mem_nil, or_false] at hkv
      rcases hkv with rfl | rfl | rfl
      · exact h.1.2 _ _ hvalue he
      · cases he
      · refine prints_of_dumps_dict he fun kv hkv e he => ?_
        simp only [List.mem_cons, List.not_mem_nil, or_false] at hkv
        rcases hkv with rfl | rfl
        · exact h.2.2 _ _ hu he
        · cases he

end PropertyResult.Renders

theorem outcomePayload_renders (names : List Value) {properties : List (Key × PropertyResult)}
    (h : ∀ p ∈ properties, p.2.Renders) :
    (∀ e, outcomePayload names properties = .error e → Prints e) ∧
      ∀ payload, outcomePayload names properties = .ok payload →
        ∀ kv ∈ payload, ∀ e, dumps true kv.2 = .error e → Prints e := by
  induction properties with
  | nil =>
    refine ⟨by rintro e ⟨⟩, ?_⟩
    rintro payload ⟨⟩
    simp
  | cons p properties ih =>
    obtain ⟨name, result⟩ := p
    obtain ⟨herror, hok⟩ := ih fun p hp => h p (List.mem_cons_of_mem _ hp)
    have hresult : result.Renders := h _ List.mem_cons_self
    unfold outcomePayload
    split
    · cases hr : result.asdict with
      | error e =>
        refine ⟨?_, by rintro payload ⟨⟩⟩
        rintro e' ⟨⟩
        exact hresult.asdict_error hr
      | ok v =>
        cases hp : outcomePayload names properties with
        | error e =>
          refine ⟨?_, by rintro payload ⟨⟩⟩
          rintro e' ⟨⟩
          exact herror _ hp
        | ok payload =>
          refine ⟨by rintro e ⟨⟩, ?_⟩
          rintro payload' ⟨⟩ kv hkv e he
          rcases List.mem_cons.1 hkv with rfl | hkv
          · exact hresult.dumps_error hr he
          · exact hok _ hp kv hkv e he
    · exact ⟨herror, hok⟩

/-- Whatever is raised between taking an item and writing what came of it has a text. -/
theorem processItem_renders {service : ExtractionTaskService} (h : service.extractionService.Renders)
    (context : WorkerContext) (item : ExtractionTaskItemRecord τ) :
    (∀ e, service.processItem context item = .error e → Prints e) ∧
      ∀ outcome error, service.processItem context item = .ok (outcome, error) →
        outcome.isNone ≠ error.isNone ∧
          ∀ e, canonicalJson? (outcome.map .dict) = .error e → Prints e := by
  obtain ⟨o, ho⟩ := h.processSource item.sourceId (orElse (item.sourceText.getD "") "") context.propertyNames
    context.model
  have hitem : service.processItem context item = finalizeArguments context.propertyNames o := by
    unfold ExtractionTaskService.processItem
    rw [ho]
    rfl
  obtain ⟨herror, hok⟩ := outcomePayload_renders context.propertyNames (h.processed ho)
  rw [hitem]
  refine ⟨fun e he => ?_, fun outcome error he => ⟨finalizeArguments_one he, fun e hej => ?_⟩⟩
  · unfold finalizeArguments at he
    split at he
    · cases hp : outcomePayload context.propertyNames o.properties with
      | error e' =>
        rw [hp] at he
        cases he
        exact herror _ hp
      | ok payload => rw [hp] at he; cases he
    · cases he
  · unfold finalizeArguments at he
    split at he
    · cases hp : outcomePayload context.propertyNames o.properties with
      | error e' => rw [hp] at he; cases he
      | ok payload =>
        rw [hp] at he
        cases he
        rw [Option.map_some, canonicalJson?] at hej
        cases hj : canonicalJson (.dict payload) with
        | ok j => rw [hj] at hej; cases hej
        | error e' =>
          rw [hj] at hej
          cases hej
          exact prints_of_dumps_dict hj (hok _ hp)
    · cases he
      cases hej

/-! ### What becomes of the items -/

/-- The columns a worker never writes. -/
structure ItemRow.SameSource (i i' : ItemRow τ) : Prop where
  taskId : i'.taskId = i.taskId
  position : i'.position = i.position
  sourceId : i'.sourceId = i.sourceId
  sourceText : i'.sourceText = i.sourceText

/-- `i'` is the item `i` finished with what came of its own source. -/
structure OwnOutcome (service : ExtractionTaskService) (context : WorkerContext) (i i' : ItemRow τ) :
    Prop where
  source : i.SameSource i'
  outcome : ∃ outcome error oj ej, service.processItem context (itemFromRow i) = .ok (outcome, error) ∧
    canonicalJson? (outcome.map .dict) = .ok oj ∧ canonicalJson? (error.map strDict) = .ok ej ∧
    i'.status = (if ej.isNone then .completed else .failed) ∧ i'.outcomeJson = oj ∧ i'.errorJson = ej

/-- `i'` is the item `i` still to be finished. -/
structure Waiting (i i' : ItemRow τ) : Prop where
  source : i.SameSource i'
  pending : i'.status.isTerminal = false
  outcome : i'.outcomeJson = none

/-- `i'` is the item `i` failed with the error of the task. -/
structure FailedWith (ej : Json) (i i' : ItemRow τ) : Prop where
  source : i.SameSource i'
  status : i'.status = .failed
  outcome : i'.outcomeJson = none
  error : i'.errorJson = some ej

/-- What a worker step makes of an item: nothing if it was finished, `own` before `cut`, `rest` from
there on. -/
inductive ItemRow.Worked (own rest : ItemRow τ → ItemRow τ → Prop) (cut : ℤ) (i : ItemRow τ) :
    ItemRow τ → Prop
  | kept (hterm : i.status.isTerminal = true) : Worked own rest cut i i
  | own {i'} (hpending : i.status.isTerminal = false) (hlt : i.position < cut) (h : own i i') :
      Worked own rest cut i i'
  | rest {i'} (hpending : i.status.isTerminal = false) (hge : cut ≤ i.position) (h : rest i i') :
      Worked own rest cut i i'

/-- The worker `w` has finished the pending items of `a` before `cut`, and holds the rest. -/
structure Progress (service : ExtractionTaskService) (context : WorkerContext) (w : String)
    (a b : Aggregate τ) (cut : ℤ) : Prop where
  inv : b.Inv
  owner : b.row.leaseOwner = some w
  items : List.Forall₂ (ItemRow.Worked (OwnOutcome service context) Waiting cut) a.items b.items

theorem OwnOutcome.terminal {service : ExtractionTaskService} {context : WorkerContext} {i i' : ItemRow τ}
    (h : OwnOutcome service context i i') : i'.status.isTerminal = true := by
  obtain ⟨outcome, error, oj, ej, -, -, -, hs, -⟩ := h.outcome
  rw [hs]
  split <;> rfl

theorem ItemRow.Worked.waiting {service : ExtractionTaskService} {context : WorkerContext} {cut : ℤ}
    {i i' : ItemRow τ} (h : i.Worked (OwnOutcome service context) Waiting cut i')
    (hpending : i'.status.isTerminal = false) :
    i.status.isTerminal = false ∧ cut ≤ i.position ∧ Waiting i i' := by
  cases h with
  | kept hterm =>
    rw [hterm] at hpending
    simp at hpending
  | own _ _ hown =>
    rw [hown.terminal] at hpending
    simp at hpending
  | rest hrun hge hw => exact ⟨hrun, hge, hw⟩

theorem Aggregate.Inv.le_of_first {a : Aggregate τ} (h : a.Inv) {i j : ItemRow τ}
    (hfirst : a.items.find? (·.status.isPending) = some i) (hj : j ∈ a.items)
    (hpending : j.status.isTerminal = false) : i.position ≤ j.position := by
  obtain ⟨-, k, hk, hget, hbefore⟩ := List.find?_eq_some_iff_getElem.1 hfirst
  obtain ⟨n, hn, hgetj⟩ := List.getElem_of_mem hj
  have hi : i.position = k := h.position_getElem? (by rw [List.getElem?_eq_getElem hk, hget])
  have hjn : j.position = n := h.position_getElem? (by rw [List.getElem?_eq_getElem hn, hgetj])
  by_contra hlt
  have hearlier := hbefore n (by omega)
  rw [hgetj, ExtractionTaskItemStatus.isPending_eq_not, hpending] at hearlier
  simp at hearlier

namespace Progress

variable {service : ExtractionTaskService} {context : WorkerContext} {w : String} {a b : Aggregate τ}
  {cut : ℤ}

theorem running (h : Progress service context w a b cut) : b.row.status.isTerminal = false := by
  rw [h.inv.processing h.owner]
  rfl

theorem unfailed (h : Progress service context w a b cut) : b.row.taskErrorJson = none := by
  rw [← Option.not_isSome_iff_eq_none]
  intro herror
  have hterm := (h.inv.error herror).1
  rw [h.running] at hterm
  simp at hterm

theorem renew (h : Progress service context w a b cut) (expiry now : τ) :
    Progress service context w a (b.renew expiry now) cut :=
  ⟨h.inv.renew h.owner, h.owner, h.items⟩

theorem take (h : Progress service context w a b cut) {i : ItemRow τ} (hi : i ∈ b.items)
    (hpending : i.status.isTerminal = false) (now : τ) :
    Progress service context w a (b.take i.position now) cut := by
  refine ⟨h.inv.take (h.inv.processing h.owner) hi hpending, h.owner,
    forall₂_map_right h.items fun k _ i' hi' hworked => ?_⟩
  split
  · rename_i hp
    obtain rfl := h.inv.eq_of_position hi' hi hp
    obtain ⟨hrun, hge, hw⟩ := hworked.waiting hpending
    have hs := hw.source
    exact .rest hrun hge ⟨⟨hs.taskId, hs.position, hs.sourceId, hs.sourceText⟩, rfl, hw.outcome⟩
  · exact hworked

/-- Finishing the first pending item moves the cut past it. -/
theorem finish (h : Progress service context w a b cut) {i : ItemRow τ} (hi : i ∈ b.items)
    (hpending : i.status.isTerminal = false)
    (hfirst : ∀ j ∈ b.items, j.status.isTerminal = false → i.position ≤ j.position)
    {outcome : Option (List (Key × Value))} {error : Option (List (String × String))} {oj ej : Option Json}
    (hok : service.processItem context (itemFromRow i) = .ok (outcome, error))
    (hoj : canonicalJson? (outcome.map .dict) = .ok oj) (hej : canonicalJson? (error.map strDict) = .ok ej)
    (now : τ) :
    List.Forall₂ (ItemRow.Worked (OwnOutcome service context) Waiting (i.position + 1)) a.items
      (b.finalize w i.position oj ej now).items := by
  refine forall₂_map_right h.items fun k _ i' hi' hworked => ?_
  split
  · rename_i hp
    obtain rfl := h.inv.eq_of_position hi' hi hp
    obtain ⟨hrun, -, hw⟩ := hworked.waiting hpending
    have hs := hw.source
    have hposition := hs.position
    refine .own hrun (by omega) ⟨⟨hs.taskId, hs.position, hs.sourceId, hs.sourceText⟩, ?_⟩
    refine ⟨outcome, error, oj, ej, ?_, hoj, hej, rfl, rfl, rfl⟩
    rw [← hok]
    unfold ExtractionTaskService.processItem itemFromRow
    dsimp only
    rw [hs.sourceId, hs.sourceText]
  · rename_i hne
    cases hworked with
    | kept hterm => exact .kept hterm
    | own hrun hlt hown =>
      refine .own hrun ?_ hown
      -- the first pending item is not before the cut
      obtain ⟨m, hm, hrelated⟩ : ∃ m ∈ a.items, m.Worked (OwnOutcome service context) Waiting cut i := by
        have hflip := List.Forall₂.flip h.items
        exact exists_right_of_forall₂ hflip hi
      obtain ⟨-, hge, hw⟩ := hrelated.waiting hpending
      have hposition := hw.source.position
      omega
    | rest hrun hge hw =>
      refine .rest hrun ?_ hw
      have hposition := hw.source.position
      have hle := hfirst i' hi' hw.pending
      omega

end Progress

/-! ### The loop -/

/-- How the loop ends: with the task finished and every pending item of `a` with it, or raising
something that has a text, the lease still held. -/
inductive LoopEnd (service : ExtractionTaskService) (context : WorkerContext) (w : String)
    (a : Aggregate τ) : Except Exc Unit → Db τ → Prop
  | finished {db b cut} (hv : db.view context.taskId = some b) (hinv : b.Inv)
      (hterm : b.row.status.isTerminal = true) (herror : b.row.taskErrorJson = none)
      (hitems : List.Forall₂ (ItemRow.Worked (OwnOutcome service context) Waiting cut) a.items b.items) :
      LoopEnd service context w a (.ok ()) db
  | raised {db b cut e} (hv : db.view context.taskId = some b)
      (hprogress : Progress service context w a b cut) (hprints : Prints e) :
      LoopEnd service context w a (.error e) db

section Loop
variable [LinearOrder τ] {db : Db τ} {id w : String} {a b : Aggregate τ}

/-- Under the lease, `finalize_item` of a pending item succeeds or raises what encoding raised. -/
theorem finalizeItem_pending {i : ItemRow τ} {outcome : Option (List (Key × Value))}
    {error : Option (List (String × String))} (hinv : b.Inv) (hv : db.view id = some b)
    (how : b.row.leaseOwner = some w) (hi : i ∈ b.items) (hpending : i.status.isTerminal = false)
    (hone : outcome.isNone ≠ error.isNone) (now : τ) :
    (∃ oj ej after, canonicalJson? (outcome.map .dict) = .ok oj ∧
      canonicalJson? (error.map strDict) = .ok ej ∧ oj.isSome = ej.isNone ∧
      db.Replaces after id (b.finalize w i.position oj ej now) ∧
      finalizeItem id w i.position outcome error now db =
        (.ok ((b.finalize w i.position oj ej now).row.record true), after)) ∨
    ∃ e, canonicalJson? (outcome.map .dict) = .error e ∧
      finalizeItem id w i.position outcome error now db = (.error e, db) := by
  have hrun : b.row.status.isTerminal = false := by
    rw [hinv.processing how]
    rfl
  obtain ⟨ej, hej⟩ := canonicalJson?_strDict error
  cases hoj : canonicalJson? (outcome.map .dict) with
  | ok oj =>
    obtain ⟨after, hrep, heq⟩ := finalizeItem_ok hinv hv how hrun hi hpending hone hoj hej now
    exact .inl ⟨oj, ej, after, rfl, hej, isSome_of_arguments hone hoj hej, hrep, heq⟩
  | error e =>
    refine .inr ⟨e, rfl, ?_⟩
    have hm := mutableTask_eq_some.2 ⟨b, hv, rfl, how, hrun⟩
    have hf : (db.items.lookup (id, i.position)).filter (fun i => !i.status.isTerminal) = some i :=
      Option.filter_eq_some_iff.2 ⟨Db.lookup_item.2 ⟨(Db.view_eq_some.1 hv).2 ▸ hi, rfl⟩, by
        simp [hpending]⟩
    rw [finalizeItem, if_neg hone, hm]
    simp only [hf, hoj]

omit [LinearOrder τ] in
/-- A task still unfinished after `finalize_item` is still under the lease. -/
theorem finalize_owner {p : ℤ} {oj ej : Option Json} {now : τ}
    (hrun : ¬ (b.finalize w p oj ej now).row.status.isTerminal = true) :
    (b.finalize w p oj ej now).row.leaseOwner = some w := by
  rw [Aggregate.finalize_row] at hrun ⊢
  rcases TaskRow.advance_cases b.row ej.isNone w now with ⟨-, -, -, howner, -⟩ | ⟨-, -, -, -, hs⟩
  · exact howner
  · refine absurd ?_ hrun
    rcases hs with ⟨hs, -⟩ | ⟨hs, -⟩ | ⟨hs, -⟩ <;> rw [hs] <;> rfl

variable [VAdd ℤ τ] {service : ExtractionTaskService} {context : WorkerContext} {cut : ℤ}

theorem Progress.renewLease (h : Progress service context w a b cut)
    (hv : db.view context.taskId = some b) (now : τ) :
    ∃ after, TextExtraction.renewLease context.taskId w now service.lease db = (true, after) ∧
      after.view context.taskId = some (b.renew (service.lease +ᵥ now) now) := by
  rcases renewLease_cases context.taskId w now service.lease db with ⟨hlost, -⟩ | ⟨b', hv', -, hr, hrep⟩
  · have hterm := hlost b hv h.owner
    rw [h.running] at hterm
    simp at hterm
  · rw [hv] at hv'
    cases hv'
    exact ⟨_, Prod.ext hr rfl, hrep.view_self⟩

omit [VAdd ℤ τ] in
/-- Under a live lease there is an item to take, the first one pending. -/
theorem Progress.claimNextItem (h : Progress service context w a b cut)
    (hv : db.view context.taskId = some b) {now : τ} (hlive : b.row.leaseExpiresAt.any (now < ·) = true) :
    ∃ i after, TextExtraction.claimNextItem context.taskId w now db =
        (some (itemFromRow (i.take now)), after) ∧
      after.view context.taskId = some (b.take i.position now) ∧ i ∈ b.items ∧
      i.status.isTerminal = false ∧ ∀ j ∈ b.items, j.status.isTerminal = false → i.position ≤ j.position := by
  rcases claimNextItem_cases context.taskId w now db with ⟨hno, -⟩ | ⟨b', i, hv', hi, hstep, hr, hrep⟩
  · obtain ⟨i, hi⟩ := h.inv.exists_pending h.running
    refine absurd ?_ (hno b i.position hv)
    exact .take h.owner hlive (h.inv.processing h.owner) (h.inv.unpurged_of_leased h.owner) hi
  · rw [hv] at hv'
    cases hv'
    obtain ⟨-, -, -, -, j, hfirst, hj⟩ := hstep.of_take
    have hji : j = i := h.inv.eq_of_position (List.mem_of_find?_eq_some hfirst) hi hj
    subst hji
    exact ⟨j, _, Prod.ext hr rfl, hrep.view_self, hi, by simpa using List.find?_some hfirst,
      fun k hk => h.inv.le_of_first hfirst hk⟩

omit [LinearOrder τ] [VAdd ℤ τ] in
theorem first_of_take {i : ItemRow τ} {now : τ}
    (hfirst : ∀ j ∈ b.items, j.status.isTerminal = false → i.position ≤ j.position) :
    ∀ j ∈ (b.take i.position now).items, j.status.isTerminal = false → i.position ≤ j.position := by
  intro j hj hrun
  obtain ⟨k, hk, rfl⟩ := List.mem_map.1 hj
  split
  · rename_i hp
    exact le_of_eq hp.symm
  · rename_i hne
    rw [if_neg hne] at hrun
    exact hfirst k hk hrun

/-- Each iteration finishes an item or ends the loop. -/
theorem processLoop_ends (inRange : τ → Bool) (clock : ℕ → τ) (hlease : ∀ t : τ, t < service.lease +ᵥ t)
    (hrenders : service.extractionService.Renders) (fuel n : ℕ) (hv : db.view context.taskId = some b)
    (hprogress : Progress service context w a b cut) (hfuel : b.remaining < fuel) :
    ∃ result m after, service.processLoop inRange w clock context fuel n db = some (result, m, after) ∧
      LoopEnd service context w a result after := by
  induction fuel generalizing n db b cut with
  | zero => omega
  | succ fuel ih =>
    unfold ExtractionTaskService.processLoop
    cases hadd : addTimedelta inRange (clock n) service.lease with
    | error e =>
      simp only [hadd]
      refine ⟨_, _, _, rfl, .raised hv hprogress ?_⟩
      unfold addTimedelta at hadd
      split at hadd <;> cases hadd
      exact prints_raised _ _
    | ok expiry =>
    obtain ⟨db₁, hrenewed, hv₁⟩ := hprogress.renewLease hv (clock n)
    have hprogress₁ := hprogress.renew (service.lease +ᵥ clock n) (clock n)
    obtain ⟨i, db₂, htaken, hv₂, hi, hpending, hfirst⟩ :=
      hprogress₁.claimNextItem hv₁ (decide_eq_true (hlease (clock n)))
    have hprogress₂ := hprogress₁.take hi hpending (clock n)
    have hi₂ : i.take (clock n) ∈ ((b.renew (service.lease +ᵥ clock n) (clock n)).take i.position
      (clock n)).items := List.mem_map.2 ⟨i, hi, if_pos rfl⟩
    obtain ⟨hraised, hbuilt⟩ := processItem_renders hrenders context (itemFromRow (i.take (clock n)))
    simp only [hadd, hrenewed, htaken]
    cases hitem : service.processItem context (itemFromRow (i.take (clock n))) with
    | error e => exact ⟨_, _, _, rfl, .raised hv₂ hprogress₂ (hraised e hitem)⟩
    | ok arguments =>
    obtain ⟨outcome, error⟩ := arguments
    obtain ⟨hone, hencode⟩ := hbuilt outcome error hitem
    rcases finalizeItem_pending hprogress₂.inv hv₂ hprogress₂.owner hi₂ rfl hone (clock (n + 1)) with
      ⟨oj, ej, db₃, hoj, hej, hargs, hrep, hfinal⟩ | ⟨e, he, hfinal⟩
    · change finalizeItem _ _ (itemFromRow (i.take (clock n))).position _ _ _ _ = _ at hfinal
      simp only [hfinal]
      have hitems := hprogress₂.finish hi₂ rfl (first_of_take hfirst) hitem hoj hej (clock (n + 1))
      have hinv₃ : (Aggregate.finalize w (i.take (clock n)).position oj ej (clock (n + 1)) _).Inv :=
        hprogress₂.inv.finalize hprogress₂.owner hprogress₂.running hi₂ rfl hargs
      split
      · rename_i hterm
        exact ⟨_, _, _, rfl, .finished hrep.view_self hinv₃ hterm hprogress.unfailed hitems⟩
      · rename_i hrun
        refine ih (n + 2) hrep.view_self ⟨hinv₃, finalize_owner hrun, hitems⟩ ?_
        have hpos := hprogress.inv.remaining_pos hprogress.running
        show b.row.acceptedCount - (b.row.processedCount + 1) < fuel
        unfold Aggregate.remaining at hfuel hpos
        omega
    · change finalizeItem _ _ (itemFromRow (i.take (clock n))).position _ _ _ _ = _ at hfinal
      simp only [hfinal]
      exact ⟨_, _, _, rfl, .raised hv₂ hprogress₂ (hencode e he)⟩

end Loop

/-! ### The whole step -/

/-- The item finished with its own outcome, as the snapshots of the task say to process it. -/
def OwnItem (service : ExtractionTaskService) (row : TaskRow τ) (i i' : ItemRow τ) : Prop :=
  ∃ context, beginProcessing (row.record true) = .ok context ∧ OwnOutcome service context i i'

/-- What a worker step owes the task `a` it claimed: `a'` is finished for good and its items tell
what happened, each one its own outcome or, from some position on, the error of the task. -/
structure Truthful (service : ExtractionTaskService) (a a' : Aggregate τ) : Prop where
  inv : a'.Inv
  terminal : a'.row.status.isTerminal = true
  items : ∀ i ∈ a'.items, i.status.isTerminal = true
  leaseOwner : a'.row.leaseOwner = none
  leaseExpiresAt : a'.row.leaseExpiresAt = none
  settled : (a'.row.taskErrorJson = none ∧ ∃ cut, List.Forall₂
      (ItemRow.Worked (OwnItem service a.row) (fun _ _ => False) cut) a.items a'.items) ∨
    ∃ detail ej cut, canonicalJson (strDict (taskFailure detail)) = .ok ej ∧
      a'.row.taskErrorJson = some ej ∧
      List.Forall₂ (ItemRow.Worked (OwnItem service a.row) (FailedWith ej) cut) a.items a'.items

namespace Aggregate.Inv

variable {a : Aggregate τ}

theorem remaining_eq (h : a.Inv) : a.remaining = a.items.countP (·.status.isPending) := by
  have htotal := a.count_total
  have hprocessed := h.processed
  rw [h.successful, h.failed] at hprocessed
  rw [h.length_items] at htotal
  unfold Aggregate.remaining
  omega

theorem unleased (h : a.Inv) (hterm : a.row.status.isTerminal = true) :
    a.row.leaseOwner = none ∧ a.row.leaseExpiresAt = none := by
  have howner : a.row.leaseOwner = none := by
    rw [← Option.not_isSome_iff_eq_none]
    intro hsome
    rw [(h.leased.1 hsome).1] at hterm
    simp at hterm
  have hexpiry := h.leaseExpiry
  rw [howner] at hexpiry
  exact ⟨howner, by rw [← Option.not_isSome_iff_eq_none, hexpiry]; exact Bool.false_ne_true⟩

end Aggregate.Inv

section Whole
variable {service : ExtractionTaskService} {context : WorkerContext} {w : String} {a b : Aggregate τ}
  {cut : ℤ}

theorem ItemRow.Worked.mono {own own' rest rest' : ItemRow τ → ItemRow τ → Prop} {i i' : ItemRow τ}
    (h : i.Worked own rest cut i') (hown : own i i' → own' i i') (hrest : rest i i' → rest' i i') :
    i.Worked own' rest' cut i' := by
  cases h with
  | kept hterm => exact .kept hterm
  | own hpending hlt h => exact .own hpending hlt (hown h)
  | rest hpending hge h => exact .rest hpending hge (hrest h)

/-- The loop has gone through every item. -/
theorem truthful_of_finished (hbegin : beginProcessing (a.row.record true) = .ok context) (hinv : b.Inv)
    (hterm : b.row.status.isTerminal = true) (herror : b.row.taskErrorJson = none)
    (hitems : List.Forall₂ (ItemRow.Worked (OwnOutcome service context) Waiting cut) a.items b.items) :
    Truthful service a b where
  inv := hinv
  terminal := hterm
  items _ hi := hinv.items_terminal hterm hi
  leaseOwner := (hinv.unleased hterm).1
  leaseExpiresAt := (hinv.unleased hterm).2
  settled := by
    refine .inl ⟨herror, cut, ?_⟩
    rw [← List.map_id b.items]
    refine forall₂_map_right hitems fun i _ i' hi' hworked => ?_
    refine hworked.mono (fun h => ⟨context, hbegin, h⟩) fun h => ?_
    have hrun := h.pending
    rw [hinv.items_terminal hterm hi'] at hrun
    simp at hrun

/-- The task has been failed, and with it the items from `cut` on. -/
theorem truthful_of_failed {own : ItemRow τ → ItemRow τ → Prop} (hinv : b.Inv)
    (how : b.row.leaseOwner = some w) {detail : String} {ej : Json}
    (hej : canonicalJson (strDict (taskFailure detail)) = .ok ej) (now : τ)
    (hown : ∀ i i', own i i' → OwnItem service a.row i i')
    (hfinished : ∀ i i', own i i' → i'.status.isTerminal = true)
    (hitems : List.Forall₂ (ItemRow.Worked own Waiting cut) a.items b.items) :
    Truthful service a (b.abort ej now) := by
  have hrun : b.row.status.isTerminal = false := by
    rw [hinv.processing how]
    rfl
  have hinv' : (b.abort ej now).Inv := hinv.abort how hrun
  refine ⟨hinv', rfl, fun i hi => hinv'.items_terminal rfl hi, rfl, rfl, .inr ⟨detail, ej, cut, hej, rfl, ?_⟩⟩
  refine forall₂_map_right hitems fun i _ i' hi' hworked => ?_
  rw [ExtractionTaskItemStatus.isPending_eq_not]
  cases hworked with
  | kept hterm =>
    rw [if_neg (by rw [hterm]; exact Bool.false_ne_true)]
    exact .kept hterm
  | own hpending hlt h =>
    rw [if_neg (by rw [hfinished _ _ h]; exact Bool.false_ne_true)]
    exact .own hpending hlt (hown _ _ h)
  | rest hpending hge h =>
    rw [if_pos (by rw [h.pending]; rfl)]
    have hs := h.source
    exact .rest hpending hge
      ⟨⟨hs.taskId, hs.position, hs.sourceId, hs.sourceText⟩, rfl, h.outcome, rfl⟩

theorem waiting_all (hinv : a.Inv) (own : ItemRow τ → ItemRow τ → Prop) :
    List.Forall₂ (ItemRow.Worked own Waiting 0) a.items a.items := by
  rw [List.forall₂_same]
  intro i hi
  cases hs : i.status.isTerminal with
  | true => exact .kept hs
  | false =>
    exact .rest hs (hinv.position_lt hi).1 ⟨⟨rfl, rfl, rfl, rfl⟩, hs, ((hinv.items i hi).pending hs).1⟩

variable [LinearOrder τ] {db : Db τ} {id : String}

/-- What has a text ends in `fail_task`, if the lease is still held. -/
theorem recover_fails (clock : ℕ → τ) {e : Exc} (hprints : Prints e) (hv : db.view id = some b) (hinv : b.Inv)
    (how : b.row.leaseOwner = some w) (n : ℕ) :
    ∃ detail ej after, canonicalJson (strDict (taskFailure detail)) = .ok ej ∧
      ExtractionTaskService.recover w clock id e n db = (.ok (), after) ∧
      after.view id = some (b.abort ej (clock n)) := by
  obtain ⟨message, hm⟩ := hprints
  obtain ⟨ej, after, hej, hrep, hfail⟩ :=
    failTask_ok hinv hv how (taskFailure (orElse message "Task processing failed")) (clock n)
  refine ⟨_, ej, after, hej, ?_, hrep.view_self⟩
  unfold ExtractionTaskService.recover
  simp only [hm, hfail]

omit [LinearOrder τ] in
/-- Snapshots of any shape read, or raise something that has a text. -/
theorem beginProcessing_cases (task : ExtractionTaskRecord τ) :
    (∃ e, beginProcessing task = .error e ∧ Prints e) ∨
      ∃ context, beginProcessing task = .ok context ∧ context.taskId = task.taskId := by
  unfold beginProcessing
  split
  · exact .inl ⟨_, rfl, prints_raised _ _⟩
  · cases hp : task.criteria.getItem "properties" with
    | error e => exact .inl ⟨e, rfl, prints_of_getItem hp⟩
    | ok properties =>
    simp only [bind, Except.bind]
    cases hi : properties.iter with
    | error e => exact .inl ⟨e, rfl, prints_of_iter hi⟩
    | ok values =>
    simp only
    cases hn : itemNames values with
    | error e => exact .inl ⟨e, rfl, prints_of_itemNames hn⟩
    | ok names =>
    simp only
    cases hname : task.model.getItem "name" with
    | error e => exact .inl ⟨e, rfl, prints_of_getItem hname⟩
    | ok name =>
    simp only
    cases hversion : task.model.getItem "version" with
    | error e => exact .inl ⟨e, rfl, prints_of_getItem hversion⟩
    | ok version => exact .inr ⟨_, rfl, rfl⟩

variable [VAdd ℤ τ]

/-- A claimed task is processed to its end. -/
theorem processClaimedTask_truthful (inRange : τ → Bool) (clock : ℕ → τ) (hlease : ∀ t : τ, t < service.lease +ᵥ t)
    (hrenders : service.extractionService.Renders) (hinv : a.Inv)
    {now : τ} (hclaim : a.row.claimable now = true) (hid : a.row.taskId = id)
    (hv : db.view id = some (a.claim w (service.lease +ᵥ now) now)) {fuel : ℕ}
    (hfuel : a.items.countP (·.status.isPending) < fuel) (n : ℕ) :
    ∃ after a', service.processClaimedTask inRange w clock fuel
        ((a.row.claim w (service.lease +ᵥ now) now).record true) n db = some (.ok (), after) ∧
      after.view id = some a' ∧ Truthful service a a' := by
  have hinv' : (a.claim w (service.lease +ᵥ now) now).Inv := hinv.claim hclaim
  have hbegin : beginProcessing ((a.row.claim w (service.lease +ᵥ now) now).record true) =
      beginProcessing (a.row.record true) := rfl
  have htaskId : ((a.row.claim w (service.lease +ᵥ now) now).record true).taskId = id := hid
  unfold ExtractionTaskService.processClaimedTask
  rw [hbegin, htaskId]
  rcases beginProcessing_cases (a.row.record true) with ⟨e, hb, hprints⟩ | ⟨context, hb, hcontext⟩
  · obtain ⟨detail, ej, after, hej, hrecover, hafter⟩ :=
      recover_fails clock hprints hv hinv' rfl n
    simp only [hb, hrecover]
    have hnone : ∀ i i' : ItemRow τ, False → OwnItem service a.row i i' := by rintro _ _ ⟨⟩
    exact ⟨after, _, rfl, hafter, truthful_of_failed hinv' rfl hej (clock n) hnone (by simp)
      (waiting_all hinv _)⟩
  · change context.taskId = a.row.taskId at hcontext
    rw [hid] at hcontext
    subst hcontext
    have hprogress : Progress service context w a (a.claim w (service.lease +ᵥ now) now) 0 :=
      ⟨hinv', rfl, waiting_all hinv _⟩
    obtain ⟨result, m, db', hloop, hend⟩ := processLoop_ends inRange clock hlease
      hrenders fuel n hv hprogress (by rw [hinv'.remaining_eq]; exact hfuel)
    simp only [hb, hloop]
    cases hend with
    | finished hv' hinv₁ hterm herror hitems =>
      exact ⟨db', _, rfl, hv', truthful_of_finished hb hinv₁ hterm herror hitems⟩
    | raised hv' hprogress' hprints =>
      obtain ⟨detail, ej, after, hej, hrecover, hafter⟩ :=
        recover_fails clock hprints hv' hprogress'.inv hprogress'.owner m
      simp only [hrecover]
      exact ⟨after, _, rfl, hafter, truthful_of_failed hprogress'.inv hprogress'.owner hej (clock m)
        (fun _ _ h => ⟨context, hb, h⟩) (fun _ _ h => h.terminal) hprogress'.items⟩

/-- If there is a task to claim, and the clock plus the lease is still a `datetime`, a worker step that
nobody else writes into answers `True` and leaves the task it claimed truthfully finished; its loop
needs at most one iteration more than there are pending items. -/
theorem run_worker_step_truthful (service : ExtractionTaskService) (inRange : τ → Bool)
    (hlease : ∀ t : τ, t < service.lease +ᵥ t) (hrenders : service.extractionService.Renders)
    (calls : List (Call τ)) (w : String) (clock : ℕ → τ)
    (hcutoff : inRange (-service.tombstone +ᵥ clock 0) = true)
    (hexpiry : inRange (service.lease +ᵥ clock 1) = true) {id : String} {b : Aggregate τ}
    (hv : (service.maintainRetention (clock 0) (Db.run calls)).view id = some b)
    (hclaim : b.row.claimable (clock 1) = true) :
    ∃ a, oldestClaimable (clock 1) (service.maintainRetention (clock 0) (Db.run calls)) = some a.row ∧
      (service.maintainRetention (clock 0) (Db.run calls)).view a.row.taskId = some a ∧
      ∀ fuel, a.items.countP (·.status.isPending) < fuel → ∃ after a',
        service.runWorkerStep inRange w clock fuel (Db.run calls) = some (.ok true, after) ∧
        after.view a.row.taskId = some a' ∧ Truthful service a a' := by
  have hinv : ∀ {id a}, (service.maintainRetention (clock 0) (Db.run calls)).view id = some a → a.Inv := by
    intro id a ha
    rw [maintainRetention_run] at ha
    exact Db.run_inv ha
  rcases claimTask_cases w (clock 1) service.lease (service.maintainRetention (clock 0) (Db.run calls)) with
    ⟨hnone, -⟩ | ⟨a, hold, ha, hstep, hanswer, hrep⟩
  · rw [oldestClaimable_eq_none hnone hv] at hclaim
    simp at hclaim
  refine ⟨a, hold, ha, fun fuel hfuel => ?_⟩
  have hclaimable : a.row.claimable (clock 1) = true := (oldestClaimable_eq_some hold).2
  rw [((hinv ha).claim hclaimable).taskFromRow_eq true] at hanswer
  generalize hclaimed : claimTask w (clock 1) service.lease _ = claimed at hanswer hrep
  obtain ⟨r, db₁⟩ := claimed
  obtain rfl : r = .ok (some ((a.row.claim w (service.lease +ᵥ clock 1) (clock 1)).record true)) := hanswer
  obtain ⟨after, a', hprocess, hafter, htruthful⟩ := processClaimedTask_truthful inRange
    clock hlease hrenders (hinv ha) hclaimable rfl hrep.view_self hfuel 2
  refine ⟨after, a', ?_, hafter, htruthful⟩
  unfold ExtractionTaskService.runWorkerStep addTimedelta
  simp only [hcutoff, hexpiry, if_true, hclaimed, hprocess]
  rfl

end Whole

/-! ### The step as a run of worker calls -/

theorem taskId_of_beginProcessing {task : ExtractionTaskRecord τ} {context : WorkerContext}
    (h : beginProcessing task = .ok context) : context.taskId = task.taskId := by
  rcases beginProcessing_cases task with ⟨e, he, -⟩ | ⟨context', hb, hid⟩
  · rw [h] at he
    simp at he
  · rw [h] at hb
    cases hb
    exact hid

namespace ExtractionTaskService

section Follow
variable [LinearOrder τ] [VAdd ℤ τ] {service : ExtractionTaskService} {inRange : τ → Bool} {w : String}
  {clock : ℕ → τ}

/-- The worker `w` making one call after another. -/
def follow (service : ExtractionTaskService) (w : String) : List τ → WorkerState τ → Db τ →
    WorkerState τ × Db τ
  | [], state, db => (state, db)
  | now :: readings, state, db =>
    let next := service.workerStep w now state db
    follow service w readings next.1 next.2

theorem follow_cons {now : τ} {readings : List τ} {state state' : WorkerState τ} {db db' : Db τ}
    (h : service.workerStep w now state db = (state', db')) :
    service.follow w (now :: readings) state db = service.follow w readings state' db' := by
  rw [follow, h]

/-- Where a result leaves the worker. -/
def resultState (taskId : String) : Except Exc Unit → WorkerState τ
  | .ok _ => .idle
  | .error error => handleFailure taskId error

/-- While times do not run out, the loop is a run of worker calls. -/
theorem processLoop_follow (hrange : ∀ t, inRange t = true) {context : WorkerContext} (fuel n : ℕ)
    {db after : Db τ} {result : Except Exc Unit} {m : ℕ}
    (h : service.processLoop inRange w clock context fuel n db = some (result, m, after)) :
    ∃ readings, service.follow w readings (.renewing context) db =
      (resultState context.taskId result, after) := by
  induction fuel generalizing n db with
  | zero => cases h
  | succ fuel ih =>
    unfold processLoop at h
    simp only [addTimedelta, hrange, if_true] at h
    cases hr : TextExtraction.renewLease context.taskId w (clock n) service.lease db with
    | mk renewed db₁ =>
    simp only [hr] at h
    cases renewed with
    | false =>
      cases h
      refine ⟨[clock n], follow_cons ?_⟩
      rw [workerStep, hr]
      rfl
    | true =>
    have hrenew : service.workerStep w (clock n) (.renewing context) db =
        (.selecting context (clock n), db₁) := by
      rw [workerStep, hr]
    cases ht : TextExtraction.claimNextItem context.taskId w (clock n) db₁ with
    | mk taken db₂ =>
    simp only [ht] at h
    cases taken with
    | none =>
      cases h
      refine ⟨[clock n, clock n], (follow_cons hrenew).trans (follow_cons ?_)⟩
      rw [workerStep, ht]
      rfl
    | some item =>
    have htake : service.workerStep w (clock n) (.selecting context (clock n)) db₁ =
        (.inferring context item, db₂) := by
      rw [workerStep, ht]
    cases hp : service.processItem context item with
    | error e =>
      simp only [hp] at h
      cases h
      refine ⟨[clock n, clock n, clock n],
        (follow_cons hrenew).trans ((follow_cons htake).trans (follow_cons ?_))⟩
      rw [workerStep, hp]
      rfl
    | ok arguments =>
    obtain ⟨outcome, error⟩ := arguments
    simp only [hp] at h
    have hinfer : service.workerStep w (clock n) (.inferring context item) db₂ =
        (.finalizing context item.position outcome error, db₂) := by
      rw [workerStep, hp]
    have hpath : ∀ readings, service.follow w (clock n :: clock n :: clock n :: readings)
        (.renewing context) db =
          service.follow w readings (.finalizing context item.position outcome error) db₂ :=
      fun _ => (follow_cons hrenew).trans ((follow_cons htake).trans (follow_cons hinfer))
    cases hf : TextExtraction.finalizeItem context.taskId w item.position outcome error (clock (n + 1)) db₂ with
    | mk answer db₃ =>
    simp only [hf] at h
    cases answer with
    | error e =>
      cases h
      refine ⟨[clock n, clock n, clock n, clock (n + 1)], (hpath _).trans (follow_cons ?_)⟩
      rw [workerStep, hf]
      rfl
    | ok updated =>
    have hfinal : service.workerStep w (clock (n + 1)) (.finalizing context item.position outcome error)
        db₂ = (if updated.status.isTerminal then .idle else .renewing context, db₃) := by
      rw [workerStep, hf]
    dsimp only at h
    split at h
    · rename_i hterm
      rw [if_pos hterm] at hfinal
      cases h
      exact ⟨[clock n, clock n, clock n, clock (n + 1)], (hpath _).trans (follow_cons hfinal)⟩
    · rename_i hrun
      rw [if_neg hrun] at hfinal
      obtain ⟨readings, hrest⟩ := ih (n + 2) h
      exact ⟨clock n :: clock n :: clock n :: clock (n + 1) :: readings,
        (hpath _).trans ((follow_cons hfinal).trans hrest)⟩

theorem follow_append {readings more : List τ} {state state' : WorkerState τ} {db db' : Db τ}
    (h : service.follow w readings state db = (state', db')) :
    service.follow w (readings ++ more) state db = service.follow w more state' db' := by
  induction readings generalizing state db with
  | nil => cases h; rfl
  | cons now readings ih => exact ih h

theorem recover_follow {taskId : String} {error : Exc} {n : ℕ} {db after : Db τ}
    (h : recover w clock taskId error n db = (.ok (), after)) :
    service.follow w [clock n] (handleFailure taskId error) db = (.idle, after) := by
  unfold recover at h
  refine follow_cons ?_
  rw [handleFailure]
  cases hm : error.str with
  | error raised => rw [hm] at h; cases h
  | ok message =>
    rw [hm] at h
    simp only at h ⊢
    rw [workerStep]
    cases hf : TextExtraction.failTask taskId w (taskFailure (orElse message "Task processing failed"))
        (clock n) db with
    | mk answer db' =>
      rw [hf] at h
      rcases answer with e | task
      · exact congrArg (Prod.mk WorkerState.idle) (Prod.mk.inj h).2
      · exact congrArg (Prod.mk WorkerState.idle) (Prod.mk.inj h).2

theorem processClaimedTask_follow (hrange : ∀ t, inRange t = true) {fuel n : ℕ}
    {task : ExtractionTaskRecord τ} {db after : Db τ}
    (h : service.processClaimedTask inRange w clock fuel task n db = some (.ok (), after)) :
    ∃ readings, service.follow w readings
      (match beginProcessing task with
        | .ok context => .renewing context
        | .error error => handleFailure task.taskId error) db = (.idle, after) := by
  unfold processClaimedTask at h
  cases hb : beginProcessing task with
  | error e =>
    rw [hb] at h
    exact ⟨[clock n], recover_follow (Option.some.inj h)⟩
  | ok context =>
    rw [hb] at h
    simp only at h ⊢
    cases hl : service.processLoop inRange w clock context fuel n db with
    | none => rw [hl] at h; cases h
    | some ending =>
      obtain ⟨result, m, db'⟩ := ending
      rw [hl] at h
      obtain ⟨readings, hloop⟩ := processLoop_follow hrange fuel n hl
      rcases result with e | u
      · refine ⟨readings ++ [clock m], (follow_append hloop).trans ?_⟩
        rw [resultState, taskId_of_beginProcessing hb]
        exact recover_follow (Option.some.inj h)
      · cases h
        exact ⟨readings, hloop⟩

/-- So a worker step is maintenance and a run of worker calls from idle to idle. -/
theorem runWorkerStep_follow (hrange : ∀ t, inRange t = true) {fuel : ℕ} {db after : Db τ} {answer : Bool}
    (h : service.runWorkerStep inRange w clock fuel db = some (.ok answer, after)) :
    ∃ readings, service.follow w readings .idle (service.maintainRetention (clock 0) db) = (.idle, after) := by
  unfold runWorkerStep addTimedelta at h
  simp only [hrange, if_true] at h
  cases hc : TextExtraction.claimTask w (clock 1) service.lease (service.maintainRetention (clock 0) db) with
  | mk claimed db₁ =>
  simp only [hc] at h
  rcases claimed with e | - | task
  · simp at h
  · cases h
    refine ⟨[clock 1], follow_cons ?_⟩
    rw [workerStep, hc]
  · cases hp : service.processClaimedTask inRange w clock fuel task 2 db₁ with
    | none => simp only [hp] at h; cases h
    | some ending =>
      obtain ⟨result, db'⟩ := ending
      simp only [hp] at h
      rcases result with e | u
      · cases h
      · cases h
        obtain ⟨readings, hprocess⟩ := processClaimedTask_follow hrange hp
        refine ⟨clock 1 :: readings, (follow_cons ?_).trans hprocess⟩
        rw [workerStep, hc]
        dsimp only
        cases beginProcessing task <;> rfl

end Follow

end ExtractionTaskService

/-! ### Where the clock ends -/

/-- The microseconds since the year 1 that a `datetime` can be. -/
def datetimeRange (t : ℤ) : Bool := 0 ≤ t ∧ t < 315537897600000000

theorem stub_renders (failing : List String) : (stubService failing).extractionService.Renders where
  infer sourceId text names e h := by
    obtain ⟨kind, message, rfl⟩ := stub_infer_eq_error h
    exact prints_raised _ _
  get sourceId text names inferred name e h he := by
    rcases stub_get h name with ⟨message, hget⟩ | hget | hget <;> cases hget.symm.trans he
    exact prints_raised _ _
  value sourceId text names inferred name found h hfound := by
    rcases stub_get h name with ⟨message, hget⟩ | hget | hget <;> cases hget.symm.trans hfound
    exact renders_none
  estimate _ _ _ e h := by cases h
  uncertainty _ _ _ result h := by
    cases h
    exact renders_none

/-- Two sources, submitted in 2024 and kept for a day. -/
def sampleTask : Call ℤ :=
  .createTask "t" "o" sampleSchema.modelDump
    ((stubService []).modelSnapshot ⟨.str "stub-extraction-provider", .str "stub"⟩)
    [("a", "x"), ("b", "y")] 63850000000000000 63850086400000000

/-- A lease of a million million seconds. -/
def longLease : ExtractionTaskService := { stubService [] with lease := 1000000000000000000 }

/-- Such a lease ends after the last `datetime`, and the claim raises. -/
theorem run_worker_step_overflows :
    (∀ t : ℤ, t < longLease.lease +ᵥ t) ∧ longLease.extractionService.Renders ∧
    (∃ b, (longLease.maintainRetention 63850000000000001 (Db.run [sampleTask])).view "t" = some b ∧
      b.row.claimable 63850000000000001 = true) ∧
    ∀ fuel, ∃ after, longLease.runWorkerStep datetimeRange "w" (fun _ => 63850000000000001) fuel
      (Db.run [sampleTask]) = some (.error (.raised .overflowError "date value out of range"), after) := by
  refine ⟨fun t => ?_, stub_renders [], ⟨_, rfl, by decide⟩, fun fuel => ⟨_, rfl⟩⟩
  show t < 1000000000000000000 + t
  omega

/-- The source `a` fails by itself, `b` is completed. -/
theorem run_worker_step_truthful_example : ∃ a after a',
    (stubService ["a"]).runWorkerStep datetimeRange "w" (fun n => 63850000000000001 + n)
      (a.items.countP (·.status.isPending) + 1) (Db.run [sampleTask]) = some (.ok true, after) ∧
    after.view a.row.taskId = some a' ∧ Truthful (stubService ["a"]) a a' := by
  have hlease : ∀ t : ℤ, t < (stubService ["a"]).lease +ᵥ t := by
    intro t
    show t < 5 + t
    omega
  obtain ⟨a, -, -, hrun⟩ := run_worker_step_truthful (stubService ["a"]) datetimeRange hlease
    (stub_renders ["a"]) [sampleTask] "w" (fun n => 63850000000000001 + n) (by decide) (by decide)
    (rfl : ((stubService ["a"]).maintainRetention _ _).view "t" = some _) (by decide)
  obtain ⟨after, a', h⟩ := hrun _ (Nat.lt_succ_self _)
  exact ⟨a, after, a', h⟩

end TextExtraction
