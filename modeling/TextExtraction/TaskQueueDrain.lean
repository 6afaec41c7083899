import TextExtraction.TaskQueue

/-!
# The queue drains

Worker steps made one after another. They work off the queue in the order of `(created_at, task_id)`, each
task once, and as many steps as there are unfinished tasks leave nothing to claim, whatever becomes of a
single task (`Served`). While nothing expires, `n` steps claim and finish the first `n` tasks of
`Db.queue`, one each, and change nothing else (`InOrder`).
-/

namespace TextExtraction

open Python Relational Transition

variable {τ : Type} [LinearOrder τ] [VAdd ℤ τ]

/-! ### The store between the turns -/

omit [VAdd ℤ τ] in
/-- No unfinished task is under a lease that lasts beyond `t`. -/
def Db.Quiet (t : τ) (db : Db τ) : Prop :=
  ∀ id a, db.view id = some a → a.row.status.isTerminal = false → a.row.leaseExpiresAt.any (t < ·) = false

omit [VAdd ℤ τ] in
theorem Db.Quiet.claimable {t : τ} {db : Db τ} (h : db.Quiet t) {id : String} {a : Aggregate τ} (hinv : a.Inv)
    (hv : db.view id = some a) (hrun : a.row.status.isTerminal = false) (hpurged : a.row.purgedAt = none)
    (hlive : t < a.row.expiresAt) : a.row.claimable t = true := by
  refine TaskRow.claimable_iff.2 ⟨hrun, hpurged, hlive, ?_⟩
  have hquiet := h id a hv hrun
  have hexpiry := hinv.leaseExpiry
  cases he : a.row.leaseExpiresAt with
  | none =>
    rw [he] at hexpiry
    exact .inl (by rw [← Option.not_isSome_iff_eq_none, ← hexpiry]; simp)
  | some e =>
    rw [he] at hquiet
    exact .inr (by simpa using hquiet)

omit [VAdd ℤ τ] in
/-- No unfinished task is purged, or expired at the times a turn reads. -/
def Db.Live (turn : Turn τ) (db : Db τ) : Prop :=
  ∀ row ∈ db.queue, row.purgedAt = none ∧ turn.clock 0 < row.expiresAt ∧ turn.time < row.expiresAt

/-- What the maintenance of some turns makes of a task. -/
def Turn.upkeep (service : ExtractionTaskService) (turns : List (Turn τ)) (v : Option (Aggregate τ)) :
    Option (Aggregate τ) :=
  turns.foldl (fun v turn => v.bind (Aggregate.maintain (turn.clock 0) (-service.tombstone +ᵥ turn.clock 0))) v

/-- Maintenance does nothing to a task before its expiry. -/
theorem Turn.upkeep_of_live {service : ExtractionTaskService} {turns : List (Turn τ)} {a : Aggregate τ}
    (hpurged : a.row.purgedAt = none) (hlive : ∀ turn ∈ turns, turn.clock 0 < a.row.expiresAt) :
    Turn.upkeep service turns (some a) = some a := by
  induction turns with
  | nil => rfl
  | cons turn turns ih =>
    have hmaintain : a.maintain (turn.clock 0) (-service.tombstone +ᵥ turn.clock 0) = some a := by
      refine Aggregate.maintain_eq_some.2 ⟨.inl ⟨?_, rfl⟩, by simp [TaskRow.elapsed, hpurged]⟩
      rw [Bool.eq_false_iff, ne_eq, TaskRow.expired_iff]
      exact fun h => absurd h.1 (not_le.2 (hlive turn (by simp)))
    rw [Turn.upkeep, List.foldl_cons, Option.bind_some, hmaintain]
    exact ih fun next hnext => hlive next (by simp [hnext])

namespace Turn.Serves

variable {service : ExtractionTaskService} {inRange : τ → Bool} {fuel : ℕ} {db after : Db τ} {turn : Turn τ}
  {claimed : Option (TaskRow τ)}

/-- A task still unfinished after the turn is as maintenance left it, and not the claimed one. -/
theorem unfinished (h : Turn.Serves service inRange fuel db (turn, claimed) after) {id : String} {b : Aggregate τ}
    (hb : after.view id = some b) (hrun : b.row.status.isTerminal = false) :
    (turn.maintained service db).view id = some b ∧ ∀ row ∈ claimed, id ≠ row.taskId := by
  cases h with
  | rested => exact ⟨hb, by simp⟩
  | @worked _ _ a a' _ hold hv hafter hsame hdone hframe =>
    have hne : id ≠ a.row.taskId := by
      rintro rfl
      rw [hafter] at hb
      cases hb
      rw [hdone.terminal] at hrun
      cases hrun
    rw [hframe id hne] at hb
    refine ⟨hb, fun row hrow => ?_⟩
    cases hrow
    exact hne

theorem accepted (h : Turn.Serves service inRange fuel db (turn, claimed) after) {id : String} {b : Aggregate τ}
    (hb : after.view id = some b) : ∃ b₀, db.view id = some b₀ ∧ b.row.acceptedCount = b₀.row.acceptedCount := by
  have hkept : ∀ b', (turn.maintained service db).view id = some b' →
      ∃ b₀, db.view id = some b₀ ∧ b'.row.acceptedCount = b₀.row.acceptedCount := fun b' hb' => by
    obtain ⟨b₀, h₀, haccepted, -⟩ := Turn.of_view_maintained hb'
    exact ⟨b₀, h₀, haccepted⟩
  cases h with
  | rested => exact hkept b hb
  | @worked _ _ a a' _ hold hv hafter hsame hdone hframe =>
    by_cases hid : id = a.row.taskId
    · subst hid
      rw [hafter] at hb
      cases hb
      rw [hsame.accepted]
      exact hkept a hv
    · exact hkept b (by rw [← hframe id hid]; exact hb)

/-- The lease of an unfinished task is no longer than it was. -/
theorem quiet (h : Turn.Serves service inRange fuel db (turn, claimed) after) (hquiet : db.Quiet turn.time) {t : τ}
    (hle : turn.time ≤ t) : after.Quiet t := by
  intro id b hb hrun
  obtain ⟨b₀, hb₀, -, -, hkept⟩ := Turn.of_view_maintained (h.unfinished hb hrun).1
  rcases hkept with rfl | ⟨-, hnone⟩
  · have hq := hquiet id b hb₀ hrun
    cases he : b.row.leaseExpiresAt with
    | none => rfl
    | some e =>
      rw [he] at hq
      simp only [Option.any_some, decide_eq_false_iff_not, not_lt] at hq ⊢
      exact hq.trans hle
  · rw [hnone]
    rfl

/-- The claimed task is unfinished and live, and maintenance had left it as it was. -/
theorem claimable (h : Turn.Serves service inRange fuel db (turn, claimed) after) {row : TaskRow τ}
    (hrow : claimed = some row) : ∃ a, db.view row.taskId = some a ∧ a.row = row ∧
      row.status.isTerminal = false ∧ row.purgedAt = none ∧ turn.time < row.expiresAt := by
  cases h with
  | rested => cases hrow
  | worked _ hold hv =>
    cases hrow
    obtain ⟨hrun, hpurged, hlive, -⟩ := TaskRow.claimable_iff.1 (oldestClaimable_eq_some hold).2
    exact ⟨_, Turn.view_of_maintained hv hpurged, rfl, hrun, hpurged, hlive⟩

/-- Of what is left unfinished, nothing is as old as the claimed task. -/
theorem older (h : Turn.Serves service inRange fuel db (turn, claimed) after)
    (hinv : ∀ id a, db.view id = some a → a.Inv) (hquiet : db.Quiet turn.time) {row : TaskRow τ}
    (hrow : claimed = some row) {id : String} {b : Aggregate τ} (hb : after.view id = some b)
    (hrun : b.row.status.isTerminal = false) (hpurged : b.row.purgedAt = none) (hlive : turn.time < b.row.expiresAt) :
    toLex (row.createdAt, row.taskId) < toLex (b.row.createdAt, b.row.taskId) := by
  obtain ⟨hmaintained, hne⟩ := h.unfinished hb hrun
  have h₀ := Turn.view_of_maintained hmaintained hpurged
  have hwaiting := hquiet.claimable (hinv id b h₀) h₀ hrun hpurged hlive
  cases h with
  | rested => cases hrow
  | worked _ hold =>
    cases hrow
    refine lt_of_le_of_ne (oldestClaimable_le hold hmaintained hwaiting) fun heq => ?_
    refine hne _ rfl ?_
    rw [← Db.view_taskId hb]
    exact (congrArg Prod.snd (congrArg ofLex heq)).symm

end Turn.Serves

/-! ### Served in order -/

/-- What a series of turns does to a store with no lease left in it. -/
structure Served (service : ExtractionTaskService) (db : Db τ) (labels : List (Turn τ × Option (TaskRow τ)))
    (db' : Db τ) : Prop where
  /-- A turn claims a live unfinished task, as it was at the start, and finishes it. From then on the
  task is only maintained. -/
  worked : ∀ earlier turn row later, labels = earlier ++ (turn, some row) :: later → ∃ a a',
    db.view row.taskId = some a ∧ a.row = row ∧ row.status.isTerminal = false ∧ row.purgedAt = none ∧
      turn.time < row.expiresAt ∧ a.SameTask a' ∧ Truthful service a a' ∧
      db'.view row.taskId = Turn.upkeep service (later.map Prod.fst) (some a')
  /-- The claims go by age, and no task is claimed twice. -/
  ordered : ((labels.filterMap Prod.snd).map fun row => toLex (row.createdAt, row.taskId)).Pairwise (· < ·)
  /-- A task that no turn claims is only maintained. -/
  untouched : ∀ id, (∀ turn row, (turn, some row) ∈ labels → row.taskId ≠ id) →
    db'.view id = Turn.upkeep service (labels.map Prod.fst) (db.view id)
  /-- As many turns as there are unfinished tasks leave only tasks past their expiry. -/
  drained : db.queue.length ≤ labels.length → ∀ id a, db'.view id = some a →
    a.row.status.isTerminal = false → a.row.purgedAt.isSome = true ∨ ∃ label ∈ labels, a.row.expiresAt ≤ label.1.time

/-- What the turns do while nothing expires: they take the queue from its head, one task each. -/
structure InOrder (service : ExtractionTaskService) (db : Db τ) (labels : List (Turn τ × Option (TaskRow τ)))
    (db' : Db τ) : Prop where
  /-- The turn at `i` claims the task at `i` of the queue, and rests when there is none. -/
  claims : labels.map Prod.snd = (List.range labels.length).map (db.queue[·]?)
  /-- So `n` turns finish the first `n` tasks. -/
  finished : ∀ row ∈ db.queue.take labels.length, ∃ a a', db.view row.taskId = some a ∧ a.row = row ∧
    db'.view row.taskId = some a' ∧ a.SameTask a' ∧ Truthful service a a'
  /-- Every other task stays as it is. -/
  kept : ∀ id a, db.view id = some a → a.row ∉ db.queue.take labels.length → a.row.purgedAt = none →
    (∀ label ∈ labels, label.1.clock 0 < a.row.expiresAt) → db'.view id = some a

section Serve
variable {service : ExtractionTaskService} {inRange : τ → Bool} {fuel : ℕ} {db after db' : Db τ} {turn : Turn τ}
  {claimed : Option (TaskRow τ)} {labels : List (Turn τ × Option (TaskRow τ))}

theorem Turn.Serves.untouched (h : Turn.Serves service inRange fuel db (turn, claimed) after) {id : String}
    (hne : ∀ row ∈ claimed, row.taskId ≠ id) : after.view id = (turn.maintained service db).view id := by
  cases h with
  | rested => rfl
  | worked _ _ _ _ _ _ hframe => exact hframe id (hne _ rfl).symm

/-- Maintenance never changes the status, and nothing but a purged task. -/
theorem Turn.upkeep_eq_some {turns : List (Turn τ)} {v : Option (Aggregate τ)} {b : Aggregate τ}
    (h : Turn.upkeep service turns v = some b) :
    ∃ a, v = some a ∧ b.row.status = a.row.status ∧ (b.row.purgedAt = none → b = a) := by
  induction turns generalizing v with
  | nil => exact ⟨b, h, rfl, fun _ => rfl⟩
  | cons turn turns ih =>
    obtain ⟨a', h', hstatus', hsame'⟩ := ih (v := v.bind _) h
    obtain ⟨a, ha, hmaintain⟩ := Option.bind_eq_some_iff.1 h'
    obtain ⟨-, hstatus, hkept⟩ := Aggregate.maintain_kept hmaintain
    refine ⟨a, ha, hstatus'.trans hstatus, fun hpurged => ?_⟩
    obtain rfl := hsame' hpurged
    rcases hkept with heq | ⟨hgone, -⟩
    · exact heq
    · rw [hpurged] at hgone
      cases hgone

/-- What is unfinished and not purged after the turns is as it was before them. -/
theorem Served.unfinished (h : Served service db labels db') {id : String} {b : Aggregate τ}
    (hb : db'.view id = some b) (hrun : b.row.status.isTerminal = false) (hpurged : b.row.purgedAt = none) :
    db.view id = some b := by
  by_cases hclaimed : ∃ turn row, (turn, some row) ∈ labels ∧ row.taskId = id
  · obtain ⟨turn, row, hmem, rfl⟩ := hclaimed
    obtain ⟨earlier, later, hlabels⟩ := List.append_of_mem hmem
    obtain ⟨a, a', -, -, -, -, -, -, hdone, hview⟩ := h.worked earlier turn row later hlabels
    rw [hview] at hb
    obtain ⟨b', hb', hstatus, -⟩ := Turn.upkeep_eq_some hb
    cases hb'
    rw [hstatus, hdone.terminal] at hrun
    cases hrun
  · have huntouched := h.untouched id fun turn row hmem hid => hclaimed ⟨turn, row, hmem, hid⟩
    rw [huntouched] at hb
    obtain ⟨a, ha, -, hsame⟩ := Turn.upkeep_eq_some hb
    rw [ha, hsame hpurged]

theorem served_nil (service : ExtractionTaskService) (db : Db τ) : Served service db [] db where
  worked := by simp
  ordered := by simp
  untouched _ _ := rfl
  drained hle id a hv hrun := by
    have hmem : a.row ∈ db.queue := Db.row_mem_queue hv hrun
    rw [List.eq_nil_of_length_eq_zero (Nat.le_zero.1 hle)] at hmem
    cases hmem

section Cons
variable (h : Turn.Serves service inRange fuel db (turn, claimed) after) (hrest : Served service after labels db')
include h hrest

theorem Served.cons_worked (earlier : List (Turn τ × Option (TaskRow τ))) (turn' : Turn τ) (row : TaskRow τ)
    (later : List (Turn τ × Option (TaskRow τ)))
    (hlabels : (turn, claimed) :: labels = earlier ++ (turn', some row) :: later) : ∃ a a',
      db.view row.taskId = some a ∧ a.row = row ∧ row.status.isTerminal = false ∧ row.purgedAt = none ∧
        turn'.time < row.expiresAt ∧ a.SameTask a' ∧ Truthful service a a' ∧
        db'.view row.taskId = Turn.upkeep service (later.map Prod.fst) (some a') := by
  cases earlier with
  | nil =>
    rw [List.nil_append, List.cons.injEq, Prod.mk.injEq] at hlabels
    obtain ⟨⟨rfl, rfl⟩, rfl⟩ := hlabels
    obtain ⟨a₀, h₀, hrow, hrun, hpurged, hlive⟩ := h.claimable rfl
    cases h with
    | @worked _ _ a a' _ hold hv hafter hsame hdone hframe =>
      obtain rfl : a₀ = a := Option.some.inj (h₀.symm.trans (Turn.view_of_maintained hv hpurged))
      refine ⟨a₀, a', h₀, rfl, hrun, hpurged, hlive, hsame, hdone, ?_⟩
      rw [← hafter]
      -- a finished task is not claimed again
      refine hrest.untouched _ fun turn'' row' hmem hid => ?_
      obtain ⟨before, behind, hsplit⟩ := List.append_of_mem hmem
      obtain ⟨b, -, hb, rfl, hrun', -⟩ := hrest.worked before turn'' row' behind hsplit
      rw [hid, hafter] at hb
      cases hb
      rw [hdone.terminal] at hrun'
      cases hrun'
  | cons label earlier =>
    rw [List.cons_append, List.cons.injEq] at hlabels
    obtain ⟨a, a', hv, rfl, hrun, hpurged, hworked⟩ := hrest.worked earlier turn' row later hlabels.2
    exact ⟨a, a', Turn.view_of_maintained (h.unfinished hv hrun).1 hpurged, rfl, hrun, hpurged, hworked⟩

theorem Served.cons_untouched (id : String)
    (hne : ∀ turn' row, (turn', some row) ∈ (turn, claimed) :: labels → row.taskId ≠ id) :
    db'.view id = Turn.upkeep service (((turn, claimed) :: labels).map Prod.fst) (db.view id) := by
  rw [hrest.untouched id fun turn' row hmem => hne turn' row (by simp [hmem]), h.untouched, turn.view_maintained]
  · rfl
  · rintro row rfl
    exact hne turn row (by simp)

theorem Served.cons_ordered (hinv : ∀ id a, db.view id = some a → a.Inv) (hquiet : db.Quiet turn.time)
    (hlater : ∀ label ∈ labels, turn.time ≤ label.1.time) :
    ((((turn, claimed) :: labels).filterMap Prod.snd).map fun row => toLex (row.createdAt, row.taskId)).Pairwise
      (· < ·) := by
  cases hclaimed : claimed with
  | none => simpa using hrest.ordered
  | some row =>
    simp only [List.filterMap_cons, List.map_cons, List.pairwise_cons]
    refine ⟨fun age hage => ?_, hrest.ordered⟩
    obtain ⟨row', hrow', rfl⟩ := List.mem_map.1 hage
    obtain ⟨⟨turn', _⟩, hmem, rfl⟩ := List.mem_filterMap.1 hrow'
    obtain ⟨earlier, later, hlabels⟩ := List.append_of_mem hmem
    obtain ⟨b, -, hb, rfl, hrun, hpurged, hlive, -⟩ := hrest.worked earlier turn' row' later hlabels
    exact h.older hinv hquiet hclaimed hb hrun hpurged ((hlater _ hmem).trans_lt hlive)

theorem Served.cons_drained (hinv : ∀ id a, db.view id = some a → a.Inv) (hquiet : db.Quiet turn.time)
    (hle : db.queue.length ≤ ((turn, claimed) :: labels).length) (id : String) (b : Aggregate τ)
    (hb : db'.view id = some b) (hrun : b.row.status.isTerminal = false) :
    b.row.purgedAt.isSome = true ∨ ∃ label ∈ (turn, claimed) :: labels, b.row.expiresAt ≤ label.1.time := by
  cases hclaimed : claimed with
  | some row =>
    have hfewer : after.queue.length < db.queue.length := by
      obtain ⟨a, ha, rfl, hopen, -⟩ := h.claimable hclaimed
      refine Db.queue_lt (List.mem_map_of_mem (Db.row_mem_queue ha hopen)) (fun hmem => ?_) fun id' hid' => ?_
      · obtain ⟨row', hrow', hid'⟩ := List.mem_map.1 hmem
        obtain ⟨b', hb', rfl, hrun'⟩ := Db.mem_queue.1 hrow'
        exact (h.unfinished hb' hrun').2 _ hclaimed hid'
      · obtain ⟨row', hrow', rfl⟩ := List.mem_map.1 hid'
        obtain ⟨b', hb', rfl, hrun'⟩ := Db.mem_queue.1 hrow'
        obtain ⟨b₀, h₀, -, hstatus, -⟩ := Turn.of_view_maintained (h.unfinished hb' hrun').1
        rw [← Db.view_taskId h₀]
        exact List.mem_map_of_mem (Db.row_mem_queue h₀ (hstatus ▸ hrun'))
    rw [List.length_cons] at hle
    rcases hrest.drained (by omega) id b hb hrun with hpurged | ⟨label, hlabel, hexpired⟩
    · exact .inl hpurged
    · exact .inr ⟨label, by simp [hlabel], hexpired⟩
  | none =>
    cases hpurged : b.row.purgedAt with
    | some t => exact .inl rfl
    | none =>
      subst hclaimed
      have hafter := hrest.unfinished hb hrun hpurged
      have hmaintained := (h.unfinished hafter hrun).1
      have h₀ := Turn.view_of_maintained hmaintained hpurged
      refine .inr ⟨(turn, none), by simp, ?_⟩
      by_contra hlive
      have hclaim := hquiet.claimable (hinv id b h₀) h₀ hrun hpurged (not_le.1 hlive)
      cases h with
      | rested _ hnone =>
        rw [oldestClaimable_eq_none hnone hmaintained] at hclaim
        cases hclaim

theorem Served.cons (hinv : ∀ id a, db.view id = some a → a.Inv) (hquiet : db.Quiet turn.time)
    (hlater : ∀ label ∈ labels, turn.time ≤ label.1.time) : Served service db ((turn, claimed) :: labels) db' where
  worked := Served.cons_worked h hrest
  ordered := Served.cons_ordered h hrest hinv hquiet hlater
  untouched := Served.cons_untouched h hrest
  drained := Served.cons_drained h hrest hinv hquiet

end Cons

/-! ### While nothing expires -/

/-- Maintenance leaves the unfinished tasks of a live store alone. -/
theorem Db.Live.view_maintained (hlive : db.Live turn) {id : String} {b : Aggregate τ}
    (hrun : b.row.status.isTerminal = false) :
    (turn.maintained service db).view id = some b ↔ db.view id = some b := by
  have hkept : ∀ a, db.view id = some a → a.row.status.isTerminal = false →
      (turn.maintained service db).view id = some a := by
    intro a ha hopen
    obtain ⟨hpurged, hexpires, -⟩ := hlive a.row (Db.row_mem_queue ha hopen)
    have hupkeep : Turn.upkeep service [turn] (some a) = some a :=
      Turn.upkeep_of_live hpurged (by simpa using hexpires)
    rw [turn.view_maintained, ha]
    exact hupkeep
  constructor
  · intro hb
    obtain ⟨b₀, h₀, -, hstatus, -⟩ := Turn.of_view_maintained hb
    have hsame := hkept b₀ h₀ (hstatus ▸ hrun)
    rw [h₀, ← hsame, hb]
  · exact fun hb => hkept b hb hrun

/-- A turn claims the head of the queue and leaves the rest of it. -/
theorem Turn.Serves.heads (h : Turn.Serves service inRange fuel db (turn, claimed) after)
    (hinv : ∀ id a, db.view id = some a → a.Inv) (hquiet : db.Quiet turn.time) (hlive : db.Live turn) :
    claimed = db.queue.head? ∧ after.queue = db.queue.tail := by
  have hsub : ∀ row ∈ after.queue, row ∈ db.queue ∧ ∀ row' ∈ claimed, row.taskId ≠ row'.taskId := by
    intro row hrow
    obtain ⟨b, hb, rfl, hrun⟩ := Db.mem_queue.1 hrow
    obtain ⟨hmaintained, hne⟩ := h.unfinished hb hrun
    exact ⟨Db.row_mem_queue ((hlive.view_maintained hrun).1 hmaintained) hrun, hne⟩
  cases hclaimed : claimed with
  | none =>
    subst hclaimed
    have hempty : db.queue = [] := by
      refine List.eq_nil_iff_forall_not_mem.2 fun row hrow => ?_
      obtain ⟨hpurged, -, hexpires⟩ := hlive row hrow
      obtain ⟨a, ha, rfl, hrun⟩ := Db.mem_queue.1 hrow
      have hclaim := hquiet.claimable (hinv _ a ha) ha hrun hpurged hexpires
      cases h with
      | rested _ hnone =>
        rw [oldestClaimable_eq_none hnone ((hlive.view_maintained hrun).2 ha)] at hclaim
        cases hclaim
    rw [hempty] at hsub ⊢
    exact ⟨rfl, List.eq_nil_iff_forall_not_mem.2 fun row hrow => by simpa using (hsub row hrow).1⟩
  | some first =>
    have hqueue : db.queue = first :: after.queue := by
      obtain ⟨a, ha, rfl, hopen, hpurged, -⟩ := h.claimable hclaimed
      refine Db.queue_cons (fun next hnext => ?_) fun next => ⟨fun hnext => ?_, fun hnext => ?_⟩
      · obtain ⟨hpurged', -, hexpires⟩ := hlive next (hsub next hnext).1
        obtain ⟨b, hb, rfl, hrun⟩ := Db.mem_queue.1 hnext
        exact h.older hinv hquiet hclaimed hb hrun hpurged' hexpires
      · obtain ⟨b, hb, rfl, hrun⟩ := Db.mem_queue.1 hnext
        by_cases hid : a.row.taskId = b.row.taskId
        · rw [← hid, ha] at hb
          cases hb
          exact .inl rfl
        · have hmaintained : (turn.maintained service db).view b.row.taskId = some b :=
            (hlive.view_maintained hrun).2 hb
          rw [← h.untouched (by rintro row hrow; rw [hclaimed] at hrow; cases hrow; exact hid)] at hmaintained
          exact .inr (Db.row_mem_queue hmaintained hrun)
      · rcases hnext with rfl | hnext
        · exact Db.row_mem_queue ha hopen
        · exact (hsub next hnext).1
    rw [hqueue]
    exact ⟨rfl, rfl⟩

theorem claims_cons (h : Turn.Serves service inRange fuel db (turn, claimed) after)
    (hinv : ∀ id a, db.view id = some a → a.Inv) (hquiet : db.Quiet turn.time) (hlive : db.Live turn)
    (hrest : labels.map Prod.snd = (List.range labels.length).map (after.queue[·]?)) :
    ((turn, claimed) :: labels).map Prod.snd =
      (List.range ((turn, claimed) :: labels).length).map (db.queue[·]?) := by
  obtain ⟨hhead, htail⟩ := h.heads hinv hquiet hlive
  rw [List.map_cons, hrest, List.length_cons, List.range_succ_eq_map, List.map_cons, List.map_map, htail, hhead,
    List.head?_eq_getElem?]
  simp [Function.comp_def, List.getElem?_tail]

omit [VAdd ℤ τ] in
/-- A row is among the first `n` of the queue iff one of `n` turns claims it. -/
theorem mem_take_queue (hclaims : labels.map Prod.snd = (List.range labels.length).map (db.queue[·]?))
    {row : TaskRow τ} : row ∈ db.queue.take labels.length ↔ ∃ turn, (turn, some row) ∈ labels := by
  have hmap : some row ∈ labels.map Prod.snd ↔ ∃ i < labels.length, db.queue[i]? = some row := by
    rw [hclaims]
    simp
  have hlabel : some row ∈ labels.map Prod.snd ↔ ∃ turn, (turn, some row) ∈ labels := by
    simp
  rw [← hlabel, hmap, List.mem_take_iff_getElem]
  constructor
  · rintro ⟨i, hi, rfl⟩
    exact ⟨i, by omega, List.getElem?_eq_getElem _⟩
  · rintro ⟨i, hi, hget⟩
    obtain ⟨hlt, hget⟩ := List.getElem?_eq_some_iff.1 hget
    exact ⟨i, by omega, hget⟩

/-- Served while nothing expires is served in order. -/
theorem Served.inOrder (h : Served service db labels db')
    (hclaims : labels.map Prod.snd = (List.range labels.length).map (db.queue[·]?))
    (hlive : ∀ label ∈ labels, db.Live label.1) : InOrder service db labels db' where
  claims := hclaims
  finished row hrow := by
    obtain ⟨turn, hmem⟩ := (mem_take_queue hclaims).1 hrow
    obtain ⟨earlier, later, hlabels⟩ := List.append_of_mem hmem
    obtain ⟨a, a', hv, rfl, -, hpurged, -, hsame, hdone, hview⟩ := h.worked earlier turn row later hlabels
    refine ⟨a, a', hv, rfl, ?_, hsame, hdone⟩
    rw [hview, Turn.upkeep_of_live (hsame.purgedAt.trans hpurged) fun next hnext => ?_]
    obtain ⟨label, hlabel, rfl⟩ := List.mem_map.1 hnext
    rw [hsame.expiresAt]
    exact (hlive label (by simp [hlabels, hlabel]) a.row (List.mem_of_mem_take hrow)).2.1
  kept id a hv hrow hpurged hexpires := by
    rw [h.untouched id fun turn row hmem hid => ?_, hv, Turn.upkeep_of_live hpurged fun turn hturn => ?_]
    · obtain ⟨label, hlabel, rfl⟩ := List.mem_map.1 hturn
      exact hexpires label hlabel
    · obtain ⟨earlier, later, hlabels⟩ := List.append_of_mem hmem
      obtain ⟨b, -, hb, rfl, -⟩ := h.worked earlier turn row later hlabels
      rw [hid, hv] at hb
      cases hb
      exact hrow ((mem_take_queue hclaims).2 ⟨turn, hmem⟩)

/-! ### The law -/

variable (service inRange) in
/-- Turns made one after another, with what each of them claimed. -/
theorem turns_serve (hlease : ∀ t : τ, t < service.lease +ᵥ t) (hrenders : service.extractionService.Renders)
    (turns : List (Turn τ)) (htimely : ∀ turn ∈ turns, turn.Timely service inRange)
    (hclock : (turns.map Turn.time).Pairwise (· ≤ ·)) (calls : List (Call τ))
    (hquiet : ∀ turn ∈ turns.head?, (Db.run calls).Quiet turn.time) {fuel : ℕ}
    (hfuel : ∀ id a, (Db.run calls).view id = some a → a.row.acceptedCount < fuel) :
    ∃ labels calls', labels.map Prod.fst = turns ∧
      Run (Turn.Serves service inRange fuel) (Db.run calls) labels (Db.run calls') ∧
      Served service (Db.run calls) labels (Db.run calls') ∧
      ((∀ turn ∈ turns, (Db.run calls).Live turn) →
        labels.map Prod.snd = (List.range labels.length).map ((Db.run calls).queue[·]?)) := by
  induction turns generalizing calls with
  | nil => exact ⟨[], calls, rfl, .nil _, served_nil _ _, fun _ => rfl⟩
  | cons turn turns ih =>
    have hquiet₀ : (Db.run calls).Quiet turn.time := hquiet turn rfl
    have hinv : ∀ id a, (Db.run calls).view id = some a → a.Inv := fun id a hv => Db.run_inv hv
    rw [List.map_cons, List.pairwise_cons] at hclock
    have hlater : ∀ next ∈ turns, turn.time ≤ next.time := fun next hnext =>
      hclock.1 _ (List.mem_map_of_mem hnext)
    obtain ⟨claimed, calls₁, hserves⟩ := turn_step hlease hrenders calls (htimely turn (by simp)) hfuel
    obtain ⟨labels, calls', rfl, hrun, hserved, hclaims⟩ := ih (fun next hnext => htimely next (by simp [hnext]))
      hclock.2 calls₁ (fun next hnext => hserves.quiet hquiet₀ (hlater next (List.mem_of_mem_head? hnext)))
      (fun id b hb => by
        obtain ⟨b₀, h₀, haccepted⟩ := hserves.accepted hb
        rw [haccepted]
        exact hfuel id b₀ h₀)
    refine ⟨(turn, claimed) :: labels, calls', rfl, .cons hserves hrun,
      hserved.cons hserves hinv hquiet₀ fun label hlabel => hlater _ (List.mem_map_of_mem hlabel), fun hlive => ?_⟩
    have hlive₀ := hlive turn (by simp)
    refine claims_cons hserves hinv hquiet₀ hlive₀ (hclaims fun next hnext row hrow => ?_)
    rw [(hserves.heads hinv hquiet₀ hlive₀).2] at hrow
    exact hlive next (by simp [hnext]) row (List.mem_of_mem_tail hrow)

variable (service inRange) in
/-- Worker steps made one after another from any reachable store, when no lease outlives the first of
them: none of them raises, each finishes the task it claims and leaves the others as maintenance does,
they work off the queue by age, and as many steps as there were unfinished tasks leave nothing but tasks
past their expiry. While nothing expires, `n` of them finish the first `n` tasks. -/
theorem queue_drains (hlease : ∀ t : τ, t < service.lease +ᵥ t) (hrenders : service.extractionService.Renders)
    (turns : List (Turn τ)) (htimely : ∀ turn ∈ turns, turn.Timely service inRange)
    (hclock : (turns.map Turn.time).Pairwise (· ≤ ·)) (calls : List (Call τ))
    (hquiet : ∀ turn ∈ turns.head?, (Db.run calls).Quiet turn.time) {fuel : ℕ}
    (hfuel : ∀ id a, (Db.run calls).view id = some a → a.row.acceptedCount < fuel) :
    ∃ labels calls', labels.map Prod.fst = turns ∧
      Run (Turn.Serves service inRange fuel) (Db.run calls) labels (Db.run calls') ∧
      Served service (Db.run calls) labels (Db.run calls') ∧
      ((∀ turn ∈ turns, (Db.run calls).Live turn) → InOrder service (Db.run calls) labels (Db.run calls')) := by
  obtain ⟨labels, calls', rfl, hrun, hserved, hclaims⟩ :=
    turns_serve service inRange hlease hrenders turns htimely hclock calls hquiet hfuel
  exact ⟨labels, calls', rfl, hrun, hserved, fun hlive =>
    hserved.inOrder (hclaims hlive) fun label hlabel => hlive _ (List.mem_map_of_mem hlabel)⟩

end Serve

/-- A task a microsecond younger than `sampleTask`. -/
def youngerTask : Call ℤ :=
  .createTask "s" "o" sampleSchema.modelDump
    ((stubService []).modelSnapshot ⟨.str "stub-extraction-provider", .str "stub"⟩)
    [("a", "x"), ("b", "y")] 63850000000000001 63850086400000001

/-- Two workers take a turn each. -/
def sampleTurns : List (Turn ℤ) :=
  [⟨"w", fun n => 63850000000000002 + n⟩, ⟨"v", fun n => 63850000000000020 + n⟩]

/-- Two turns finish a queue of two, the older task first. -/
theorem queue_drains_example : ∃ labels calls', labels.map Prod.fst = sampleTurns ∧
    Run (Turn.Serves (stubService ["a"]) datetimeRange 3) (Db.run [youngerTask, sampleTask]) labels (Db.run calls') ∧
    Served (stubService ["a"]) (Db.run [youngerTask, sampleTask]) labels (Db.run calls') ∧
    InOrder (stubService ["a"]) (Db.run [youngerTask, sampleTask]) labels (Db.run calls') ∧
    labels.map (fun label => label.2.map TaskRow.taskId) = [some "t", some "s"] := by
  have hrows : ∀ row ∈ (Db.run [youngerTask, sampleTask]).tasks.rows, row.acceptedCount < 3 ∧
      row.leaseExpiresAt = none ∧ row.purgedAt = none ∧ 63850000000000021 < row.expiresAt := by decide
  have hview : ∀ id a, (Db.run [youngerTask, sampleTask]).view id = some a →
      a.row ∈ (Db.run [youngerTask, sampleTask]).tasks.rows :=
    fun id a hv => Table.mem_of_lookup (Db.view_eq_some.1 hv).1
  have htimes : ∀ turn ∈ sampleTurns, turn.Timely (stubService ["a"]) datetimeRange ∧
      turn.clock 0 ≤ 63850000000000021 ∧ turn.time ≤ 63850000000000021 := by
    intro turn hturn
    rcases List.mem_cons.1 hturn with rfl | hturn
    · exact ⟨⟨by decide, by decide⟩, by decide, by decide⟩
    · obtain rfl := List.mem_singleton.1 hturn
      exact ⟨⟨by decide, by decide⟩, by decide, by decide⟩
  obtain ⟨labels, calls', hturns, hrun, hserved, horder⟩ := queue_drains (stubService ["a"]) datetimeRange
    (fun t => show t < 5 + t by omega) (stub_renders ["a"]) sampleTurns (fun turn hturn => (htimes turn hturn).1)
    (by decide) [youngerTask, sampleTask] (by
      rintro turn ⟨⟩ id a hv -
      rw [(hrows a.row (hview id a hv)).2.1]
      rfl) fun id a hv => (hrows a.row (hview id a hv)).1
  have hlive : ∀ turn ∈ sampleTurns, (Db.run [youngerTask, sampleTask]).Live turn := by
    intro turn hturn row hrow
    obtain ⟨a, ha, rfl, -⟩ := Db.mem_queue.1 hrow
    obtain ⟨-, -, hpurged, hexpires⟩ := hrows a.row (hview _ a ha)
    exact ⟨hpurged, (htimes turn hturn).2.1.trans_lt hexpires, (htimes turn hturn).2.2.trans_lt hexpires⟩
  have hlength : labels.length = 2 := by rw [← List.length_map (f := Prod.fst), hturns]; rfl
  refine ⟨labels, calls', hturns, hrun, hserved, horder hlive, ?_⟩
  rw [← Function.comp_def (Option.map TaskRow.taskId), ← List.map_map, (horder hlive).claims, hlength]
  rfl

end TextExtraction
