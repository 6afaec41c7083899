import TextExtraction.TaskLifecycle

/-!
# Lease exclusivity and fencing

A worker that does not own the lease of a task can do nothing to it except claim it
(`refused_of_displaced`), and once it has lost the lease it does not own it again before a
`claim_task` of its own hands the task out (`displaced_run`). A claim that hands the task to another
worker takes it away from the holder (`displaced_of_handsOut`). Items therefore finish only under the
lease, and at most once.
-/

namespace TextExtraction

open Python Relational

variable {τ : Type} {db db' : Db τ} {id w : String} {p : ℤ} {a a' : Aggregate τ}

/-- The worker `w` does not own the lease of the task `id`. -/
def Displaced (db : Db τ) (id w : String) : Prop :=
  ∀ a, db.view id = some a → a.row.leaseOwner ≠ some w

/-- The item at `p` is there and terminal. -/
def Finished (db : Db τ) (id : String) (p : ℤ) : Prop :=
  ∃ i, db.items.lookup (id, p) = some i ∧ i.status.isTerminal = true

section Refusal
variable [LinearOrder τ]

/-- What `claim_next_item` has checked. -/
theorem Aggregate.Step.of_take {now : τ} (hstep : a.Step (.take w now p) a') :
    a.row.leaseOwner = some w ∧ a.row.leaseExpiresAt.any (now < ·) = true ∧
      a.row.status = .processing ∧ a.row.purgedAt = none ∧
      ∃ i, a.items.find? (·.status.isPending) = some i ∧ i.position = p := by
  cases hstep with
  | take how hlease hstatus hpurged hfirst => exact ⟨how, hlease, hstatus, hpurged, _, hfirst, rfl⟩

variable [VAdd ℤ τ]

/-- Every call of `w` on the task answers `False`, `None` or `ValueError`, and changes nothing. -/
structure Refused (db : Db τ) (id w : String) : Prop where
  renewLease : ∀ now lease, renewLease id w now lease db = (false, db)
  claimNextItem : ∀ now, claimNextItem id w now db = (none, db)
  finalizeItem : ∀ position outcome error now, ∃ message,
    finalizeItem id w position outcome error now db = (.error (valueError message), db)
  failTask : ∀ error now, ∃ message,
    failTask id w error now db = (.error (valueError message), db)

theorem refused_of_displaced (h : Displaced db id w) : Refused db id w where
  renewLease now lease := by
    rcases renewLease_cases id w now lease db with ⟨-, he⟩ | ⟨a, hv, hstep, -, -⟩
    · exact he
    · cases hstep with
      | renew how => exact absurd how (h a hv)
  claimNextItem now := by
    rcases claimNextItem_cases id w now db with ⟨-, he⟩ | ⟨a, i, hv, -, hstep, -, -⟩
    · exact he
    · exact absurd hstep.of_take.1 (h a hv)
  finalizeItem _ _ _ _ := finalizeItem_refused fun a hv how => absurd how (h a hv)
  failTask _ _ := failTask_refused fun a hv how => absurd how (h a hv)

end Refusal

section Lease
variable [LinearOrder τ]

/-- Only a claim gives the lease to a worker that does not own it. -/
theorem Aggregate.Step.displaced {act : Action τ} (hstep : a.Step act a')
    (h : a.row.leaseOwner ≠ some w) (hclaim : ∀ now expiry, act ≠ .claim w now expiry) :
    a'.row.leaseOwner ≠ some w := by
  cases hstep with
  | @claim w' now expiry =>
    intro he
    obtain rfl : w' = w := Option.some.inj he
    exact hclaim now expiry rfl
  | renew => exact h
  | take => exact h
  | @finalize w' now i oj ej how =>
    rcases a.row.advance_cases ej.isNone w' now with ⟨-, -, -, ho, -⟩ | ⟨-, -, ho, -⟩
    · rw [Aggregate.finalize_row, ho, ← how]; exact h
    · rw [Aggregate.finalize_row, ho]; rintro ⟨⟩
  | abort => rintro ⟨⟩
  | purge => rintro ⟨⟩

variable [VAdd ℤ τ] {c : Call τ} {calls : List (Call τ)}

/-- `claim_task` hands the task `id` out to `w`. -/
def HandsOut (db : Db τ) (c : Call τ) (id w : String) : Prop :=
  ∃ now lease r, c = .claimTask w now lease ∧ (claimTask w now lease db).1 = .ok (some r) ∧
    r.taskId = id

/-- No call of `during`, made from the store after `calls`, hands the task out to `w`. -/
def NotHandedOut (calls during : List (Call τ)) (id w : String) : Prop :=
  ∀ part c rest, during = part ++ c :: rest → ¬ HandsOut (Db.run (calls ++ part)) c id w

/-- What `claim_task` answers is the row it leaves. -/
theorem claimTask_answer {now : τ} {lease : ℤ} {r : ExtractionTaskRecord τ}
    (h : (claimTask w now lease db).1 = .ok (some r)) :
    ∃ a, db.view a.row.taskId = some a ∧ a.row.claimable now = true ∧
      r = (a.row.claim w (lease +ᵥ now) now).record true ∧
      db.Replaces (claimTask w now lease db).2 a.row.taskId (a.claim w (lease +ᵥ now) now) := by
  rcases claimTask_cases w now lease db with ⟨-, he⟩ | ⟨a, -, hv, hstep, hr, hrep⟩
  · rw [he] at h; simp at h
  · rw [hr] at h
    cases hstep with
    | claim hclaim =>
      refine ⟨a, hv, hclaim, ?_, hrep⟩
      cases ht : taskFromRow (a.claim w (lease +ᵥ now) now).row true with
      | error e => rw [ht] at h; cases h
      | ok r' =>
        rw [ht] at h
        cases h
        exact eq_record_of_taskFromRow ht

theorem handsOut_of_claim (hv : (Db.run calls).view id = some a) (hdisp : a.row.leaseOwner ≠ some w)
    {now : τ} {lease : ℤ} (hv' : (Db.run (calls ++ [.claimTask w now lease])).view id = some a')
    (how : a'.row.leaseOwner = some w) : HandsOut (Db.run calls) (.claimTask w now lease) id w := by
  have hsnoc := hv'
  rw [Db.run_snoc, Call.exec] at hsnoc
  rcases claimTask_cases w now lease (Db.run calls) with ⟨-, he⟩ | ⟨a₀, -, hv₀, hstep, hr, hrep⟩
  · rw [he, hv] at hsnoc
    cases hsnoc
    exact absurd how hdisp
  · by_cases hid : id = a₀.row.taskId
    · have hview := hrep.view_self
      rw [← hid, hsnoc] at hview
      cases hview
      exact ⟨now, lease, _, rfl, by rw [hr, (Db.run_inv hv').taskFromRow_eq]; rfl, hid.symm⟩
    · rw [hrep.view_ne hid, hv] at hsnoc
      cases hsnoc
      exact absurd how hdisp

/-- The claim that hands the task to `w` leaves the lease with `w`, and with nobody else. -/
theorem owner_of_handsOut (h : HandsOut (Db.run calls) c id w) :
    ∃ a, (Db.run (calls ++ [c])).view id = some a ∧ a.row.leaseOwner = some w := by
  obtain ⟨now, lease, r, rfl, hr, rfl⟩ := h
  obtain ⟨a, -, -, rfl, hrep⟩ := claimTask_answer hr
  rw [Db.run_snoc]
  exact ⟨_, hrep.view_self, rfl⟩

theorem displaced_of_handsOut {w' : String} (h : HandsOut (Db.run calls) c id w') (hne : w' ≠ w) :
    Displaced (Db.run (calls ++ [c])) id w := by
  obtain ⟨a, hv, how⟩ := owner_of_handsOut h
  intro a' hv' how'
  rw [hv] at hv'
  cases hv'
  exact hne (Option.some.inj (how.symm.trans how'))

theorem displaced_snoc (h : Displaced (Db.run calls) id w) (hout : ¬ HandsOut (Db.run calls) c id w) :
    Displaced (Db.run (calls ++ [c])) id w := by
  intro a' hv' how
  have haff := (Db.change_run calls c).affects id
  rw [hv'] at haff
  generalize hv : (Db.run calls).view id = v at haff
  cases haff with
  | same => exact h a' hv how
  | created => cases how
  | @stepped a act _ hstep hdoes =>
    refine hstep.displaced (h a hv) (fun now expiry hact => ?_) how
    subst hact
    cases hdoes
    exact hout (handsOut_of_claim hv (h a hv) hv' how)
  | @purged a => cases how

theorem displaced_run {during : List (Call τ)} (h : Displaced (Db.run calls) id w)
    (hout : NotHandedOut calls during id w) :
    Displaced (Db.run (calls ++ during)) id w := by
  induction during using List.reverseRecOn with
  | nil => simpa using h
  | append_singleton during c ih =>
    rw [← List.append_assoc]
    refine displaced_snoc (ih fun part c' rest he => hout part c' (rest ++ [c]) (by simp [he])) ?_
    exact hout during c [] rfl

/-! ### Items finish once -/

/-- The call makes the item at `p` terminal. -/
def Finishes (calls : List (Call τ)) (c : Call τ) (id : String) (p : ℤ) : Prop :=
  ¬ Finished (Db.run calls) id p ∧ Finished (Db.run (calls ++ [c])) id p

omit [LinearOrder τ] [VAdd ℤ τ] in
theorem finished_iff (hv : db.view id = some a) :
    Finished db id p ↔ ∃ i ∈ a.items, i.position = p ∧ i.status.isTerminal = true := by
  rw [← (Db.view_eq_some.1 hv).2]
  simp only [Finished, Db.lookup_item]
  constructor
  · rintro ⟨i, ⟨hi, hp⟩, ht⟩
    exact ⟨i, hi, hp, ht⟩
  · rintro ⟨i, hi, hp, ht⟩
    exact ⟨i, ⟨hi, hp⟩, ht⟩

omit [LinearOrder τ] [VAdd ℤ τ] in
theorem not_finished (hc : db.Closed) (hv : db.view id = none) : ¬ Finished db id p := by
  rintro ⟨i, hi, -⟩
  have hmem := (Db.lookup_item.1 hi).1
  rw [hc id (Db.view_eq_none.1 hv)] at hmem
  simp at hmem

/-- An item is finished by a commit of the worker that then holds the lease. -/
theorem Finishes.by_owner (h : Finishes calls c id p) :
    ∃ a w, (Db.run calls).view id = some a ∧ a.row.leaseOwner = some w ∧
      ((∃ outcome error now, c = .finalizeItem id w p outcome error now) ∨
        ∃ error now, c = .failTask id w error now) := by
  obtain ⟨hbefore, hafter⟩ := h
  have haff := (Db.change_run calls c).affects id
  cases hv' : (Db.run (calls ++ [c])).view id with
  | none => exact absurd hafter (not_finished (Db.closed_run _) hv')
  | some a' =>
  obtain ⟨i', hi', hp, ht⟩ := (finished_iff hv').1 hafter
  rw [hv'] at haff
  generalize hv : (Db.run calls).view id = v at haff
  have hstill : ∀ a, v = some a → ∀ i ∈ a.items, i.position = p → i.status.isTerminal ≠ true :=
    fun a ha i hi hip hit => hbefore ((finished_iff (hv.trans ha)).2 ⟨i, hi, hip, hit⟩)
  cases haff with
  | same => exact absurd ht (hstill a' rfl i' hi' hp)
  | created =>
    rw [(Aggregate.newItems_status _ _ 0 i' hi').2.1] at ht
    simp at ht
  | @stepped a act _ hstep hdoes =>
    cases hstep with
    | claim => exact absurd ht (hstill a rfl i' hi' hp)
    | renew => exact absurd ht (hstill a rfl i' hi' hp)
    | take =>
      obtain ⟨i, hi, rfl⟩ := List.mem_map.1 hi'
      split at ht
      · cases ht
      · rename_i hne
        rw [if_neg hne] at hp
        exact absurd ht (hstill a rfl i hi hp)
    | @finalize w now j oj ej how =>
      obtain ⟨i, hi, rfl⟩ := List.mem_map.1 hi'
      by_cases hij : i.position = j.position
      · rw [if_pos hij] at hp
        have hjp : j.position = p := hij ▸ hp
        refine ⟨a, w, rfl, how, .inl ?_⟩
        generalize hact : Action.finalize w now j.position oj ej = act at hdoes
        cases hdoes <;> cases hact
        exact ⟨_, _, _, by rw [hjp]⟩
      · rw [if_neg hij] at hp ht
        exact absurd ht (hstill a rfl i hi hp)
    | @abort w now ej how =>
      refine ⟨a, w, rfl, how, .inr ?_⟩
      cases hdoes
      exact ⟨_, _, rfl⟩
    | purge => cases hdoes
  | @purged a =>
    obtain ⟨i, hi, rfl⟩ := List.mem_map.1 hi'
    exact absurd ht (hstill a rfl i hi hp)

theorem absent_snoc (hcreate : ∀ owner criteria model items created expires,
      c ≠ .createTask id owner criteria model items created expires)
    (h : (Db.run calls).view id = none) : (Db.run (calls ++ [c])).view id = none := by
  have haff := (Db.change_run calls c).affects id
  rw [h] at haff
  generalize (Db.run (calls ++ [c])).view id = v at haff
  cases haff with
  | same => rfl
  | created hc => exact absurd hc (hcreate _ _ _ _ _ _)

theorem finished_snoc (hcreate : ∀ owner criteria model items created expires,
      c ≠ .createTask id owner criteria model items created expires)
    (h : Finished (Db.run calls) id p ∨ (Db.run calls).view id = none) :
    Finished (Db.run (calls ++ [c])) id p ∨ (Db.run (calls ++ [c])).view id = none := by
  rcases h with h | h
  · cases hv : (Db.run calls).view id with
    | none => exact absurd h (not_finished (Db.closed_run calls) hv)
    | some a =>
      obtain ⟨i, hi, hp, ht⟩ := (finished_iff hv).1 h
      have hkept : ∀ {purging : Bool} {a' : Aggregate τ}, (Db.run (calls ++ [c])).view id = some a' →
          a.Evolves purging a' → Finished (Db.run (calls ++ [c])) id p := by
        intro purging a' hv' hev
        obtain ⟨i', hi', hii'⟩ := exists_right_of_forall₂ hev.items hi
        refine (finished_iff hv').2 ⟨i', hi', hii'.position.trans hp, ?_⟩
        rw [(hii'.terminal ht).1, ht]
      have hinv := Db.run_inv hv
      have haff := (Db.change_run calls c).affects id
      rw [hv] at haff
      generalize hv' : (Db.run (calls ++ [c])).view id = v at haff
      cases haff with
      | same => exact .inl (hkept hv' (.refl a))
      | stepped hstep hdoes =>
        have hev : a.Evolves false _ := hstep.evolves hinv (by
          simp only [Bool.false_eq_true, false_iff, not_exists]
          rintro now rfl
          cases hdoes)
        exact .inl (hkept hv' hev)
      | purged _ hstep =>
        have hev : a.Evolves true _ := hstep.evolves hinv (by simp)
        exact .inl (hkept hv' hev)
      | deleted => exact .inr rfl
  · exact .inr (absent_snoc hcreate h)

theorem finished_run (during : List (Call τ))
    (hcreate : ∀ c ∈ during, ∀ owner criteria model items created expires,
      c ≠ .createTask id owner criteria model items created expires)
    (h : Finished (Db.run calls) id p) :
    Finished (Db.run (calls ++ during)) id p ∨ (Db.run (calls ++ during)).view id = none := by
  induction during using List.reverseRecOn with
  | nil => exact .inl (by simpa using h)
  | append_singleton during c ih =>
    rw [← List.append_assoc]
    exact finished_snoc (hcreate c (by simp)) (ih fun c' hc' => hcreate c' (by simp [hc']))

/-- What the leases guarantee from the store after `calls` on, about the task `id`, a worker `w` and
the item at `p`. -/
structure LeaseSafety (calls : List (Call τ)) (id w : String) (p : ℤ) : Prop where
  /-- A task is handed out only when nobody can hold it. -/
  exclusive : ∀ now lease r, (claimTask w now lease (Db.run calls)).1 = .ok (some r) →
    ∃ a, (Db.run calls).view r.taskId = some a ∧ a.row.status.isTerminal = false ∧
      a.row.purgedAt = none ∧ now < a.row.expiresAt ∧
      (a.row.leaseOwner = none ∨ ∃ expiry, a.row.leaseExpiresAt = some expiry ∧ expiry ≤ now)
  /-- Once a claim has handed the task to another worker, `w` is refused until `w` claims it. -/
  taken : ∀ c w', HandsOut (Db.run calls) c id w' → w' ≠ w →
    ∀ during, NotHandedOut (calls ++ [c]) during id w → Refused (Db.run (calls ++ c :: during)) id w
  /-- So it is whenever another worker has the lease, or the task is terminal or purged. -/
  fenced : ∀ a, (Db.run calls).view id = some a →
    ((∃ w', w' ≠ w ∧ a.row.leaseOwner = some w') ∨ a.row.status.isTerminal = true ∨
      a.row.purgedAt.isSome = true) →
    ∀ during, NotHandedOut calls during id w → Refused (Db.run (calls ++ during)) id w
  /-- An item is finished by the worker that holds the lease then. -/
  finished_by_owner : ∀ c, Finishes calls c id p →
    ∃ a w', (Db.run calls).view id = some a ∧ a.row.leaseOwner = some w' ∧
      ((∃ outcome error now, c = .finalizeItem id w' p outcome error now) ∨
        ∃ error now, c = .failTask id w' error now)
  /-- It is finished at most once. -/
  finished_once : ∀ c during c', Finishes calls c id p →
    (∀ d ∈ during ++ [c'], ∀ owner criteria model items created expires,
      d ≠ .createTask id owner criteria model items created expires) →
    ¬ Finishes (calls ++ c :: during) c' id p
  /-- It is counted once: the counters are the numbers of finished items. -/
  counted : ∀ a, (Db.run calls).view id = some a →
    a.row.successfulCount = (a.items.countP fun i => i.status = .completed) ∧
    a.row.failedCount = (a.items.countP fun i => i.status = .failed) ∧
    a.row.processedCount = a.items.countP fun i => i.status.isTerminal

omit [LinearOrder τ] [VAdd ℤ τ] in
theorem Aggregate.Inv.processed_eq (h : a.Inv) :
    a.row.processedCount = a.items.countP fun i => i.status.isTerminal := by
  have htotal := a.count_total
  have hsplit : a.items.length = a.items.countP (fun i => i.status.isTerminal) +
      a.items.countP fun i => i.status.isPending := by
    rw [List.length_eq_countP_add_countP fun i : ItemRow τ => i.status.isTerminal]
    simp
  rw [h.processed, h.successful, h.failed]
  omega

omit [LinearOrder τ] [VAdd ℤ τ] in
theorem Aggregate.Inv.not_owner (h : a.Inv)
    (hlost : (∃ w', w' ≠ w ∧ a.row.leaseOwner = some w') ∨ a.row.status.isTerminal = true ∨
      a.row.purgedAt.isSome = true) : a.row.leaseOwner ≠ some w := by
  intro how
  have hleased := h.leased.1 (by simp [how])
  rcases hlost with ⟨w', hne, how'⟩ | hterm | hpurged
  · exact hne (Option.some.inj (how'.symm.trans how))
  · rw [hleased.1] at hterm; simp at hterm
  · rw [hleased.2] at hpurged; simp at hpurged

/-- Leases are exclusive, fence stale workers off, and make every item finish once. -/
theorem lease_safety (calls : List (Call τ)) (id w : String) (p : ℤ) :
    LeaseSafety calls id w p where
  exclusive now lease r hr := by
    obtain ⟨a, hv, hclaim, rfl, -⟩ := claimTask_answer hr
    obtain ⟨hrun, hpurged, hlive, hfree⟩ := TaskRow.claimable_iff.1 hclaim
    refine ⟨a, hv, hrun, hpurged, hlive, hfree.imp_right fun hexp => ?_⟩
    cases he : a.row.leaseExpiresAt with
    | none => rw [he] at hexp; simp at hexp
    | some expiry => exact ⟨expiry, rfl, by simpa [he] using hexp⟩
  taken c w' hclaim hne during hout := by
    have hrun := displaced_run (displaced_of_handsOut hclaim hne) hout
    rw [List.append_assoc, List.singleton_append] at hrun
    exact refused_of_displaced hrun
  fenced a hv hlost during hout := by
    refine refused_of_displaced (displaced_run (fun a' hv' => ?_) hout)
    rw [hv] at hv'
    cases hv'
    exact (Db.run_inv hv).not_owner hlost
  finished_by_owner c h := h.by_owner
  finished_once c during c' h hcreate h' := by
    have hrun := finished_run during (fun d hd => hcreate d (by simp [hd])) h.2
    rw [List.append_assoc, List.singleton_append] at hrun
    rcases hrun with hf | hnone
    · exact h'.1 hf
    · exact not_finished (Db.closed_run _) (absent_snoc (hcreate c' (by simp)) hnone) h'.2
  counted a hv := ⟨(Db.run_inv hv).successful, (Db.run_inv hv).failed, (Db.run_inv hv).processed_eq⟩

end Lease

/-- The worker `w` claims a task and stalls, and `v` claims it once the lease of `w` is over. -/
def takeover : List (Call ℤ) :=
  [.createTask "t" "o" [] [] [("a", "x")] 0 100, .claimTask "w" 1 5, .claimTask "v" 6 5]

/-- What `w` computed comes too late, and `v` gives the task up. -/
def afterTakeover : List (Call ℤ) := [.finalizeItem "t" "w" 0 (some []) none 7, .failTask "t" "v" [] 8]

/-- Before the takeover `w` could renew its lease; from the takeover on it is refused, also once `v` has
failed the task. -/
theorem lease_safety_takeover :
    (renewLease "t" "w" 5 5 (Db.run (takeover.take 2))).1 = true ∧ Refused (Db.run takeover) "t" "w" ∧
      Refused (Db.run (takeover ++ afterTakeover)) "t" "w" := by
  have hclaimed : HandsOut (Db.run (takeover.take 2)) (.claimTask "v" 6 5) "t" "v" := ⟨6, 5, _, rfl, rfl, rfl⟩
  have hsafe := lease_safety (takeover.take 2) "t" "w" 0
  refine ⟨by decide, hsafe.taken _ "v" hclaimed (by decide) [] ?_, ?_⟩
  · intro part c rest he
    simp at he
  · refine hsafe.taken _ "v" hclaimed (by decide) afterTakeover ?_
    -- none of the two calls is a claim
    rintro part c rest he ⟨now, lease, r, rfl, -⟩
    have hmem : Call.claimTask "w" now lease ∈ part ++ .claimTask "w" now lease :: rest := by simp
    rw [← he] at hmem
    simp [afterTakeover] at hmem

end TextExtraction
