import TextExtraction.TaskPurge
import TextExtraction.TaskResults

/-!
# Result reads across two statements

`get_results` selects the task row and then the item rows, outside any transaction, and checks
`purged_at` on the first only. A finished task changes in one way: it is purged, and then deleted.
So the answer is whole unless exactly that happens between the two statements
(`System.results_whole_iff`), and then it is not: purged items restore to completed outcomes without
properties, deleted ones to no outcomes at all.
-/

namespace TextExtraction

open Python Relational Transition

variable {τ : Type}

/-- What `get_results` may answer about the task `id` of `db`: not found, expired, pending, or the
recorded outcome of every accepted item. -/
def WholeResults (db : Db τ) (id : String) : Except TaskServiceError (TaskResultsRecord τ) → Prop
  | .error (.raised _) => False
  | .error _ => True
  | .ok results => ∃ a, db.view id = some a ∧ results.outcomes.length = a.row.acceptedCount ∧
      (∀ i ∈ a.items, i.status.isTerminal = true) ∧
      List.Forall₂ ItemRow.Reports a.items results.outcomes

/-- The owner has finished, unpurged results to read. -/
def HasResults (db : Db τ) (ownerId id : String) : Prop :=
  ∃ a, db.view id = some a ∧ a.row.ownerId = ownerId ∧ a.row.purgedAt = none ∧
    a.row.status.isTerminal = true

/-- The task is gone or has nothing left. -/
def Swept (db : Db τ) (id : String) : Prop :=
  ∀ a, db.view id = some a → a.row.purgedAt.isSome = true

/-! ### A finished task -/

namespace System
variable [LinearOrder τ] [VAdd ℤ τ] {service : ExtractionTaskService} {s s' : System τ}

/-- One step leaves a finished task alone or sweeps it, and nothing brings a swept one back. -/
theorem Step.finished {l : Label τ} (h : Step service s l s') (hinv : s.Inv service) {id : String}
    {a : Aggregate τ} (hterm : a.row.status.isTerminal = true) {sub : Submission τ}
    (hsub : s.accepted id = some sub) (hv : s.db.view id = some a ∨ Swept s.db id) :
    s'.db.view id = some a ∨ Swept s'.db id := by
  by_cases hswept : Swept s.db id
  · right
    cases hw : s.db.view id with
    | none =>
      intro b hb
      rw [h.absent hinv hsub hw] at hb
      simp at hb
    | some b =>
      have hpurged := hswept b hw
      rcases h.purged hinv hpurged hsub (.inr hw) with hnone | hsome
      · intro c hc
        rw [hnone] at hc; simp at hc
      · intro c hc
        rw [hsome] at hc; cases hc
        exact hpurged
  · have hv := hv.resolve_right hswept
    rcases h.affects hinv id with he | ⟨c, hmakes, haff⟩
    · exact .inl (he.trans hv)
    · rw [hv] at haff
      generalize hv' : s'.db.view id = v at haff
      cases haff with
      | same => exact .inl rfl
      | stepped hstep hdoes =>
        rcases hstep.not_terminal with hrun | ⟨now, rfl, -⟩
        · rw [hterm] at hrun; cases hrun
        · cases hdoes
      | purged =>
        right
        intro b hb
        rw [hv'] at hb
        cases hb
        rfl
      | deleted =>
        right
        intro b hb
        rw [hv'] at hb; simp at hb

theorem Run.finished {labels : List (Label τ)} (h : Run (Step service) s labels s')
    (hinv : s.Inv service) {id : String} {a : Aggregate τ} (hterm : a.row.status.isTerminal = true)
    (hv : s.db.view id = some a) : s'.db.view id = some a ∨ Swept s'.db id := by
  obtain ⟨sub, hsub, -⟩ := hinv.tasks id a hv
  have hstep : ∀ (t : System τ) (l : Label τ) (u : System τ),
      (t.Inv service ∧ t.accepted id = some sub ∧ (t.db.view id = some a ∨ Swept t.db id)) →
      Step service t l u →
      u.Inv service ∧ u.accepted id = some sub ∧ (u.db.view id = some a ∨ Swept u.db id) := by
    rintro t l u ⟨ht, hacc, hview⟩ hstep
    exact ⟨hstep.inv ht, hstep.accepted hacc, hstep.finished ht hterm hacc hview⟩
  exact (h.invariant hstep ⟨hinv, hsub, .inl hv⟩).2.2

end System

/-! ### Swept items -/

/-- Purged items restore without an error, to completed outcomes that hold nothing. -/
theorem restoreOutcomes_purged {items : List (ItemRow τ)}
    (h : ∀ i ∈ items, i.outcomeJson = none ∧ i.errorJson = none) :
    restoreOutcomes (items.map itemFromRow) =
      .ok (items.map fun i => { sourceId := i.sourceId, status := .completed }) := by
  induction items with
  | nil => rfl
  | cons i items ih =>
    obtain ⟨houtcome, herror⟩ := h i (by simp)
    have hone : restoreOutcome i.sourceId (decode i.outcomeJson) (decode i.errorJson) =
        .ok { sourceId := i.sourceId, status := .completed } := by
      rw [houtcome, herror]; rfl
    rw [List.map_cons, restoreOutcomes]
    show (do let outcome ← restoreOutcome i.sourceId (decode i.outcomeJson) (decode i.errorJson); _) = _
    rw [hone, ih fun j hj => h j (by simp [hj])]
    rfl

/-- No finished item of a submission reports an empty completed outcome. -/
theorem Submission.Holds.not_empty_report {service : ExtractionTaskService} {sub : Submission τ}
    {a : Aggregate τ} (h : sub.Holds service a) (hinv : a.Inv) (hpurged : a.row.purgedAt = none)
    {i : ItemRow τ} (hi : i ∈ a.items) (hterm : i.status.isTerminal = true) {sourceId : String} :
    ¬ i.Reports { sourceId, status := .completed } := by
  intro hreports
  cases hs : i.status with
  | failed => exact absurd (hreports.failed hs).1 (by simp)
  | completed =>
    obtain ⟨-, -, j, items, hoj, hload, hstored⟩ := hreports.completed hs
    obtain ⟨n, source, -, -, hrec⟩ := h.recorded hinv hpurged hi
    obtain ⟨payload, j', hok, hj', hoj'⟩ := hrec.completed hs rfl
    obtain ⟨properties, -, hkeys, hpayload⟩ := payload_of_itemOutcome hok
    obtain ⟨items', -, hload', -, -, hlength, -⟩ :=
      storedItems_of_dumps hkeys sub.names_nodup hpayload hj'
    rw [hoj] at hoj'
    cases hoj'
    rw [hload] at hload'
    cases hload'
    cases hstored
    exact sub.names_ne (List.length_eq_zero_iff.1 hlength.symm)
  | queued | processing => rw [hs] at hterm; simp at hterm

/-! ### The read -/

namespace System
variable [LinearOrder τ] [VAdd ℤ τ] {service : ExtractionTaskService} {s s' : System τ}

/-- Results read across the steps of others, from the `SELECT` of the task in `s` to that of the
items in `s'`, are whole unless the finished task was swept in between. -/
theorem results_whole_iff (hs : Reachable service s) {labels : List (Label τ)}
    (hrun : Run (Step service) s labels s') (ownerId id : String) :
    WholeResults s.db id (ExtractionTaskService.readResults ownerId id s.db s'.db) ↔
      ¬ (HasResults s.db ownerId id ∧ Swept s'.db id) := by
  have hinv := hs.inv
  have hinv' := Run.inv hrun hinv
  cases hv : s.db.view id with
  | none =>
    rw [readResults_of_none hv]
    refine iff_of_true trivial ?_
    rintro ⟨⟨a, ha, -⟩, -⟩
    rw [hv] at ha; simp at ha
  | some a =>
  have ha := hinv.aggregate hv
  obtain ⟨sub, hsub, hholds⟩ := hinv.tasks id a hv
  by_cases how : a.row.ownerId = ownerId
  swap
  · rw [readResults_of_view ha hv, if_neg how]
    refine iff_of_true trivial ?_
    rintro ⟨⟨b, hb, hown, -⟩, -⟩
    rw [hv] at hb
    cases hb
    exact how hown
  obtain rfl : ownerId = sub.ownerId := how.symm.trans hholds.ownerId
  by_cases hpurged : a.row.purgedAt = none
  swap
  · rw [readResults_of_view ha hv, if_pos how, if_pos (Option.isSome_iff_ne_none.2 hpurged)]
    refine iff_of_true trivial ?_
    rintro ⟨⟨b, hb, -, hnone, -⟩, -⟩
    rw [hv] at hb
    cases hb
    exact hpurged hnone
  rw [hholds.readResults_eq ha hv hpurged]
  by_cases hterm : a.row.status.isTerminal = true
  swap
  · rw [if_neg hterm]
    refine iff_of_true trivial ?_
    rintro ⟨⟨b, hb, -, -, hfinished⟩, -⟩
    rw [hv] at hb
    cases hb
    exact hterm hfinished
  rw [if_pos hterm]
  have hresults : HasResults s.db sub.ownerId id := ⟨a, hv, how, hpurged, hterm⟩
  have hitems : ∀ i ∈ a.items, i.status.isTerminal = true := fun i hi => ha.items_terminal hterm hi
  rcases Run.finished hrun hinv hterm hv with hsame | hswept
  · -- the second `SELECT` finds the items the first one saw
    obtain ⟨results, hok, -, hall⟩ := hholds.taskResults_ok ha hpurged hterm
    rw [(Db.view_eq_some.1 hsame).2, hok]
    refine iff_of_true ⟨a, hv, ?_, hitems, hall⟩ ?_
    · rw [← hall.length_eq, ha.length_items]
    · rintro ⟨-, hswept⟩
      have := hswept a hsame
      rw [hpurged] at this; cases this
  · refine iff_of_false ?_ (fun h => h ⟨hresults, hswept⟩)
    obtain ⟨model, heq⟩ := hholds.taskResults_eq hpurged ((s'.db.itemRows id).map itemFromRow)
    have hnull : ∀ i ∈ s'.db.itemRows id, i.outcomeJson = none ∧ i.errorJson = none := by
      intro i hi
      cases hv' : s'.db.view id with
      | none =>
        rw [hinv'.closed id (Db.view_eq_none.1 hv')] at hi; simp at hi
      | some a' =>
        rw [(Db.view_eq_some.1 hv').2] at hi
        exact (((hinv'.aggregate hv').nulled (hswept a' hv')).items i hi).2
    rw [restoreOutcomes_purged hnull] at heq
    rw [heq]
    rintro ⟨b, hb, -, -, hall⟩
    rw [hv] at hb
    cases hb
    have hpos : 0 < a.items.length := by rw [ha.length_items]; exact ha.accepted_pos
    obtain ⟨i, hi⟩ := List.exists_mem_of_length_pos hpos
    obtain ⟨o, ho, hreports⟩ := exists_right_of_forall₂ hall hi
    obtain ⟨i', -, rfl⟩ := List.mem_map.1 ho
    exact hholds.not_empty_report ha hpurged hi (hitems i hi) hreports

/-- The state in which a worker of the stub service, for which the source `a` fails, has finished
the task. -/
def sampleFinished : System ℤ :=
  let service := stubService ["a"]
  let w := work service "w" 1
  (init (τ := ℤ)).submit service "t" "o" sampleRequest 0 |> w |> w |> w |> w |> w |> w |> w |> w |> w

theorem reachable_sampleFinished : Reachable (stubService ["a"]) sampleFinished :=
  ⟨_, .cons (.submit rfl) (.cons .work (.cons .work (.cons .work (.cons .work (.cons .work
    (.cons .work (.cons .work (.cons .work (.cons .work (.nil _))))))))))⟩

/-- With maintenance before the expiry in between, the results are whole. -/
theorem results_whole_iff_example :
    WholeResults sampleFinished.db "t" (ExtractionTaskService.readResults "o" "t" sampleFinished.db
      (sampleFinished.maintain (stubService ["a"]) 9).db) := by
  refine (results_whole_iff reachable_sampleFinished (.single .maintain) "o" "t").2 ?_
  rintro ⟨-, hswept⟩
  exact absurd (hswept _ rfl) (by decide)

/-- A read at 9, with the maintenance of another process at 10 between its two statements: the item
that failed is reported as completed. -/
theorem results_torn : ∃ s s' : System ℤ, Reachable (stubService ["a"]) s ∧
    Run (Step (stubService ["a"])) s [.maintain 10] s' ∧
    ¬ WholeResults s.db "t" (ExtractionTaskService.readResults "o" "t" s.db s'.db) := by
  refine ⟨sampleFinished.maintain (stubService ["a"]) 9,
    (sampleFinished.maintain (stubService ["a"]) 9).maintain (stubService ["a"]) 10, ?_, ?_, ?_⟩
  · obtain ⟨labels, hrun⟩ := reachable_sampleFinished
    exact ⟨_, hrun.snoc .maintain⟩
  · exact .single .maintain
  · rintro ⟨a, hv, -, -, hall⟩
    cases hv
    cases hall with
    | cons hfirst _ => exact absurd (hfirst.failed rfl).1 (by decide)

end System

end TextExtraction
