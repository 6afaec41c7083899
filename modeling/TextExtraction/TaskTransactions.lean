import TextExtraction.TaskAggregate

/-!
# The transactions as steps

For each repository method, what it answers and which step it takes, in terms of `Db.view`. A
method that refuses returns the database it was given. `Call.exec_cases` collects the methods: a
call changes nothing, creates one task, steps one task, or maintains each task by itself.
-/

namespace TextExtraction

open Python Relational

variable {τ : Type} {db : Db τ} {id workerId : String} {a : Aggregate τ}

/-! ### `finalize_item` and `fail_task` -/

theorem mutableTask_eq_some {t : TaskRow τ} : mutableTask id workerId db = some t ↔
    ∃ a, db.view id = some a ∧ a.row = t ∧ t.leaseOwner = some workerId ∧
      t.status.isTerminal = false := by
  rw [mutableTask, Table.select_head?_eq_lookup (k := id) (fun r hr => by simp at hr; exact hr.1)]
  simp only [Option.filter_eq_some_iff, Bool.decide_and, Bool.and_eq_true, decide_eq_true_eq,
    Bool.not_eq_true']
  constructor
  · rintro ⟨⟨hl, -, how⟩, ht⟩
    exact ⟨⟨t, db.itemRows id⟩, Db.view_eq_some.2 ⟨hl, rfl⟩, rfl, how, ht⟩
  · rintro ⟨a, hv, rfl, how, ht⟩
    exact ⟨⟨(Db.view_eq_some.1 hv).1, Db.view_taskId hv, how⟩, ht⟩

theorem mutableTask_eq_none : mutableTask id workerId db = none ↔
    ∀ a, db.view id = some a → a.row.leaseOwner = some workerId → a.row.status.isTerminal := by
  constructor
  · intro h a hv how
    rw [← Bool.not_eq_false]
    intro ht
    rw [mutableTask_eq_some.2 ⟨a, hv, rfl, how, ht⟩] at h
    simp at h
  · intro h
    cases hm : mutableTask id workerId db with
    | none => rfl
    | some t =>
      obtain ⟨a, hv, rfl, how, ht⟩ := mutableTask_eq_some.1 hm
      rw [h a hv how] at ht; simp at ht

theorem fetchTask_of_view {row : TaskRow τ} {items : List (ItemRow τ)}
    (h : db.view id = some ⟨row, items⟩) : fetchTask db id = taskFromRow row true := by
  rw [fetchTask, (Db.view_eq_some.1 h).1]

theorem finalizeItem_replaces [LinearOrder τ] (hv : db.view id = some a) (workerId : String)
    (position : ℤ) (oj ej : Option Json) (now : τ) :
    db.Replaces
      { tasks := db.tasks.updateWhere (fun t => t.taskId = id)
          (TaskRow.advance a.row ej.isNone workerId now) fun _ => rfl
        items := db.items.updateWhere (fun i => i.taskId = id ∧ i.position = position)
          (ItemRow.finalize (if ej.isNone then .completed else .failed) oj ej now) fun _ => rfl }
      id (a.finalize workerId position oj ej now) := by
  have h := Db.replaces_update hv (fun t => t.taskId = id)
    (TaskRow.advance a.row ej.isNone workerId now) (fun _ => rfl)
    (fun i => i.taskId = id ∧ i.position = position)
    (ItemRow.finalize (if ej.isNone then .completed else .failed) oj ej now)
    (fun _ => rfl) (fun r hr => by simpa using hr) (fun i hi => by simp at hi; exact hi.1)
  have he : (⟨if decide (a.row.taskId = id) then TaskRow.advance a.row ej.isNone workerId now a.row
        else a.row, a.items.map fun i => if decide (i.taskId = id ∧ i.position = position) then
          i.finalize (if ej.isNone then .completed else .failed) oj ej now else i⟩ : Aggregate τ) =
      a.finalize workerId position oj ej now := by
    rw [Aggregate.finalize, Db.view_taskId hv]
    congr 1
    · simp
    · exact List.map_congr_left fun i hi => by simp [Db.view_item_taskId hv hi]
  rw [he] at h
  exact h

theorem failTask_replaces [LinearOrder τ] (hv : db.view id = some a) (ej : Json) (now : τ) :
    db.Replaces
      { tasks := db.tasks.updateWhere (fun t => t.taskId = id)
          (TaskRow.abort (a.row.acceptedCount - a.row.processedCount) ej now) fun _ => rfl
        items := db.items.updateWhere (fun i => i.taskId = id ∧ i.status.isPending)
          (ItemRow.abort ej now) fun _ => rfl }
      id (a.abort ej now) := by
  have h := Db.replaces_update hv (fun t => t.taskId = id)
    (TaskRow.abort (a.row.acceptedCount - a.row.processedCount) ej now) (fun _ => rfl)
    (fun i => i.taskId = id ∧ i.status.isPending) (ItemRow.abort ej now)
    (fun _ => rfl) (fun r hr => by simpa using hr) (fun i hi => by
      rw [Bool.decide_and, Bool.and_eq_true, decide_eq_true_eq] at hi; exact hi.1)
  have he : (⟨if decide (a.row.taskId = id) then
        TaskRow.abort (a.row.acceptedCount - a.row.processedCount) ej now a.row else a.row,
      a.items.map fun i => if decide (i.taskId = id ∧ i.status.isPending) then i.abort ej now else i⟩ :
        Aggregate τ) = a.abort ej now := by
    rw [Aggregate.abort, Db.view_taskId hv]
    congr 1
    · simp
    · exact List.map_congr_left fun i hi => by simp [Db.view_item_taskId hv hi]
  rw [he] at h
  exact h

theorem canonicalJson?_some_iff {v : Value} {oj : Option Json} :
    canonicalJson? (some v) = .ok oj ↔ ∃ j, canonicalJson v = .ok j ∧ some j = oj := by
  rw [canonicalJson?, map_eq_ok_iff]

theorem isNone_of_canonicalJson? {v : Option Value} {j : Option Json} (h : canonicalJson? v = .ok j) :
    j.isNone = v.isNone := by
  cases v with
  | none => cases h; rfl
  | some v =>
    obtain ⟨j, -, rfl⟩ := canonicalJson?_some_iff.1 h
    rfl

theorem isSome_of_arguments {outcome : Option (List (Key × Value))}
    {error : Option (List (String × String))} {oj ej : Option Json}
    (hone : outcome.isNone ≠ error.isNone) (hoj : canonicalJson? (outcome.map .dict) = .ok oj)
    (hej : canonicalJson? (error.map strDict) = .ok ej) : oj.isSome = ej.isNone := by
  have ho := isNone_of_canonicalJson? hoj
  have he := isNone_of_canonicalJson? hej
  rw [Option.isNone_map] at ho he
  rw [← ho, ← he] at hone
  cases oj <;> cases ej <;> simp_all

section Finalize
variable [LinearOrder τ] {position : ℤ} {outcome : Option (List (Key × Value))}
  {error : Option (List (String × String))} {now : τ}

/-- `finalize_item` on a pending item of a task under the caller's lease, with payloads that
encode: only the `CHECK` constraints can still refuse. -/
theorem finalizeItem_of_view {i : ItemRow τ} {oj ej : Option Json} (hv : db.view id = some a)
    (how : a.row.leaseOwner = some workerId) (hrun : a.row.status.isTerminal = false)
    (hi : i ∈ a.items) (hpending : i.status.isTerminal = false)
    (hone : outcome.isNone ≠ error.isNone) (hoj : canonicalJson? (outcome.map .dict) = .ok oj)
    (hej : canonicalJson? (error.map strDict) = .ok ej) (now : τ) :
    ∃ after, db.Replaces after id (a.finalize workerId i.position oj ej now) ∧
      finalizeItem id workerId i.position outcome error now db =
        if (a.finalize workerId i.position oj ej now).row.check then
          (taskFromRow (a.finalize workerId i.position oj ej now).row true, after)
        else (.error (.raised .integrityError "CHECK constraint failed"), db) := by
  have hrep := finalizeItem_replaces hv workerId i.position oj ej now
  refine ⟨_, hrep, ?_⟩
  have hm := mutableTask_eq_some.2 ⟨a, hv, rfl, how, hrun⟩
  have hf : (db.items.lookup (id, i.position)).filter (fun i => !i.status.isTerminal) = some i :=
    Option.filter_eq_some_iff.2 ⟨Db.lookup_item.2 ⟨(Db.view_eq_some.1 hv).2 ▸ hi, rfl⟩, by
      simp [hpending]⟩
  have hlook := (Db.view_eq_some.1 hrep.view_self).1
  have hejn : ej.isNone = error.isNone := by
    rw [isNone_of_canonicalJson? hej, Option.isNone_map]
  rw [finalizeItem, if_neg hone, hm]
  simp only [hf, hoj, hej, ← hejn]
  rw [hlook, fetchTask, hlook]
  rfl

/-- `finalize_item` raises and changes nothing, or finalizes one pending item of a task under the
caller's lease. -/
theorem finalizeItem_cases (id workerId : String) (position : ℤ)
    (outcome : Option (List (Key × Value))) (error : Option (List (String × String))) (now : τ)
    (db : Db τ) :
    (∃ e, finalizeItem id workerId position outcome error now db = (.error e, db)) ∨
    ∃ a i oj ej, db.view id = some a ∧ i ∈ a.items ∧ i.position = position ∧
      canonicalJson? (outcome.map .dict) = .ok oj ∧ canonicalJson? (error.map strDict) = .ok ej ∧
      a.Step (.finalize workerId now i.position oj ej) (a.finalize workerId i.position oj ej now) ∧
      (a.finalize workerId i.position oj ej now).row.check = true ∧
      (finalizeItem id workerId position outcome error now db).1 =
        taskFromRow (a.finalize workerId i.position oj ej now).row true ∧
      db.Replaces (finalizeItem id workerId position outcome error now db).2 id
        (a.finalize workerId i.position oj ej now) := by
  by_cases hone : outcome.isNone = error.isNone
  · exact .inl ⟨_, by rw [finalizeItem, if_pos hone]⟩
  cases hm : mutableTask id workerId db with
  | none => exact .inl ⟨_, by rw [finalizeItem, if_neg hone, hm]⟩
  | some t =>
  obtain ⟨a, hv, rfl, how, hrun⟩ := mutableTask_eq_some.1 hm
  cases hf : (db.items.lookup (id, position)).filter fun i => !i.status.isTerminal with
  | none =>
    rw [finalizeItem, if_neg hone, hm]
    simp only [hf]
    exact .inl ⟨_, rfl⟩
  | some i =>
  obtain ⟨hl, hpending⟩ := Option.filter_eq_some_iff.1 hf
  obtain ⟨hi, rfl⟩ := Db.lookup_item.1 hl
  rw [(Db.view_eq_some.1 hv).2] at hi
  rw [Bool.not_eq_true'] at hpending
  cases hoj : canonicalJson? (outcome.map .dict) with
  | error e => exact .inl ⟨e, by rw [finalizeItem, if_neg hone, hm]; simp only [hf, hoj]⟩
  | ok oj =>
  cases hej : canonicalJson? (error.map strDict) with
  | error e => exact .inl ⟨e, by rw [finalizeItem, if_neg hone, hm]; simp only [hf, hoj, hej]⟩
  | ok ej =>
  obtain ⟨after, hrep, heq⟩ := finalizeItem_of_view hv how hrun hi hpending hone hoj hej now
  by_cases hcheck : (a.finalize workerId i.position oj ej now).row.check = true
  · rw [if_pos hcheck] at heq
    refine .inr ⟨a, i, oj, ej, hv, hi, rfl, rfl, rfl,
      .finalize how hrun hi hpending (isSome_of_arguments hone hoj hej), hcheck, ?_, ?_⟩
    · rw [heq]
    · rw [heq]; exact hrep
  · rw [if_neg hcheck] at heq
    exact .inl ⟨_, heq⟩

omit [LinearOrder τ] in
/-- Without the lease, or on a terminal task, `finalize_item` raises `ValueError`. -/
theorem finalizeItem_refused
    (h : ∀ a, db.view id = some a → a.row.leaseOwner = some workerId → a.row.status.isTerminal) :
    ∃ m, finalizeItem id workerId position outcome error now db = (.error (valueError m), db) := by
  by_cases hone : outcome.isNone = error.isNone
  · exact ⟨_, by rw [finalizeItem, if_pos hone]⟩
  · exact ⟨_, by rw [finalizeItem, if_neg hone, mutableTask_eq_none.2 h]⟩

end Finalize

section Fail
variable [LinearOrder τ] {error : List (String × String)} {now : τ}

theorem canonicalJson_strDict (d : List (String × String)) :
    canonicalJson (strDict d) = .ok (.obj (orderBy Prod.fst (d.map fun kv => (kv.1, .str kv.2)))) := by
  refine dumps_dict ?_
  rw [Encodes, List.forall₂_map_left_iff, List.forall₂_map_right_iff, List.forall₂_same]
  exact fun kv _ => ⟨rfl, rfl⟩

theorem canonicalJson?_strDict (error : Option (List (String × String))) :
    ∃ j, canonicalJson? (error.map strDict) = .ok j := by
  cases error with
  | none => exact ⟨_, rfl⟩
  | some error =>
    rw [Option.map_some, canonicalJson?, canonicalJson_strDict]
    exact ⟨_, rfl⟩

theorem failTask_of_view (hv : db.view id = some a) (how : a.row.leaseOwner = some workerId)
    (hrun : a.row.status.isTerminal = false) (error : List (String × String)) (now : τ) :
    ∃ ej after, canonicalJson (strDict error) = .ok ej ∧ db.Replaces after id (a.abort ej now) ∧
      failTask id workerId error now db =
        if (a.abort ej now).row.check then (taskFromRow (a.abort ej now).row true, after)
        else (.error (.raised .integrityError "CHECK constraint failed"), db) := by
  have hrep := failTask_replaces hv (.obj (orderBy Prod.fst (error.map fun kv => (kv.1, .str kv.2)))) now
  refine ⟨_, _, canonicalJson_strDict error, hrep, ?_⟩
  have hm := mutableTask_eq_some.2 ⟨a, hv, rfl, how, hrun⟩
  have hlook := (Db.view_eq_some.1 hrep.view_self).1
  rw [failTask, canonicalJson_strDict, hm]
  simp only
  rw [hlook, fetchTask, hlook]
  rfl

omit [LinearOrder τ] in
/-- Without the lease, or on a terminal task, `fail_task` raises `ValueError`. -/
theorem failTask_refused
    (h : ∀ a, db.view id = some a → a.row.leaseOwner = some workerId → a.row.status.isTerminal) :
    ∃ m, failTask id workerId error now db = (.error (valueError m), db) :=
  ⟨_, by rw [failTask, canonicalJson_strDict, mutableTask_eq_none.2 h]⟩

/-- `fail_task` raises and changes nothing, or fails every pending item of a task under the
caller's lease. -/
theorem failTask_cases (id workerId : String) (error : List (String × String)) (now : τ)
    (db : Db τ) :
    (∃ e, failTask id workerId error now db = (.error e, db)) ∨
    ∃ a ej, db.view id = some a ∧ canonicalJson (strDict error) = .ok ej ∧
      a.Step (.abort workerId now ej) (a.abort ej now) ∧ (a.abort ej now).row.check = true ∧
      (failTask id workerId error now db).1 = taskFromRow (a.abort ej now).row true ∧
      db.Replaces (failTask id workerId error now db).2 id (a.abort ej now) := by
  cases hm : mutableTask id workerId db with
  | none => exact .inl ⟨_, by rw [failTask, canonicalJson_strDict, hm]⟩
  | some t =>
  obtain ⟨a, hv, rfl, how, hrun⟩ := mutableTask_eq_some.1 hm
  obtain ⟨ej, after, hej, hrep, heq⟩ := failTask_of_view hv how hrun error now
  by_cases hcheck : (a.abort ej now).row.check = true
  · rw [if_pos hcheck] at heq
    refine .inr ⟨a, ej, hv, hej, .abort how hrun, hcheck, ?_, ?_⟩
    · rw [heq]
    · rw [heq]; exact hrep
  · rw [if_neg hcheck] at heq
    exact .inl ⟨_, heq⟩

end Fail

/-! ### Leases and items -/

section Lease
variable [LinearOrder τ]

theorem TaskRow.claimable_iff {t : TaskRow τ} {now : τ} : t.claimable now = true ↔
    t.status.isTerminal = false ∧ t.purgedAt = none ∧ now < t.expiresAt ∧
      (t.leaseOwner = none ∨ t.leaseExpiresAt.any (· ≤ now) = true) := by
  simp [TaskRow.claimable]

theorem TaskRow.expired_iff {t : TaskRow τ} {now : τ} : t.expired now = true ↔
    t.expiresAt ≤ now ∧ t.purgedAt = none := by
  simp [TaskRow.expired]

theorem oldestClaimable_eq_some {now : τ} {row : TaskRow τ} (h : oldestClaimable now db = some row) :
    db.tasks.lookup row.taskId = some row ∧ row.claimable now = true := by
  have hmem := mem_orderBy.1 (List.mem_of_head? h)
  rw [Table.select, List.mem_filter] at hmem
  exact ⟨Table.lookup_of_mem hmem.1, hmem.2⟩

theorem oldestClaimable_eq_none {now : τ} (h : oldestClaimable now db = none)
    (hv : db.view id = some a) : a.row.claimable now = false := by
  rw [oldestClaimable, List.head?_eq_none_iff] at h
  rw [← Bool.not_eq_true]
  intro hc
  have : a.row ∈ orderBy (fun t => toLex (t.createdAt, t.taskId))
      (db.tasks.select (·.claimable now)) :=
    mem_orderBy.2 (List.mem_filter.2 ⟨Table.mem_of_lookup (Db.view_eq_some.1 hv).1, hc⟩)
  rw [h] at this
  cases this

/-- `claim_task` finds nothing, or claims the oldest claimable task. -/
theorem claimTask_cases [VAdd ℤ τ] (workerId : String) (now : τ) (lease : ℤ) (db : Db τ) :
    (oldestClaimable now db = none ∧ claimTask workerId now lease db = (.ok none, db)) ∨
    ∃ a, oldestClaimable now db = some a.row ∧ db.view a.row.taskId = some a ∧
      a.Step (.claim workerId now (lease +ᵥ now)) (a.claim workerId (lease +ᵥ now) now) ∧
      (claimTask workerId now lease db).1 =
        (taskFromRow (a.claim workerId (lease +ᵥ now) now).row true).map some ∧
      db.Replaces (claimTask workerId now lease db).2 a.row.taskId
        (a.claim workerId (lease +ᵥ now) now) := by
  cases ho : oldestClaimable now db with
  | none => exact .inl ⟨rfl, by rw [claimTask, ho]⟩
  | some row =>
    obtain ⟨hl, hc⟩ := oldestClaimable_eq_some ho
    have hv : db.view row.taskId = some ⟨row, db.itemRows row.taskId⟩ := Db.view_eq_some.2 ⟨hl, rfl⟩
    have hrep := Db.replaces_updateTask hv (fun t => t.taskId = row.taskId)
      (TaskRow.claim workerId (lease +ᵥ now) now) (fun _ => rfl)
      (fun r hr => by simpa using hr)
    simp only [decide_true, if_true] at hrep
    refine .inr ⟨⟨row, db.itemRows row.taskId⟩, rfl, hv, .claim hc, ?_, ?_⟩
    · rw [claimTask, ho]
      exact congrArg (Except.map some) (fetchTask_of_view hrep.view_self)
    · rw [claimTask, ho]; exact hrep

omit [LinearOrder τ] in
theorem TaskRow.renewable_iff {t : TaskRow τ} : t.renewable id workerId = true ↔
    t.taskId = id ∧ t.leaseOwner = some workerId ∧ t.status.isTerminal = false := by
  simp [TaskRow.renewable]

/-- `renew_lease` answers `False` and changes nothing, or renews the caller's lease. -/
theorem renewLease_cases [VAdd ℤ τ] (id workerId : String) (now : τ) (lease : ℤ) (db : Db τ) :
    ((∀ a, db.view id = some a → a.row.leaseOwner = some workerId → a.row.status.isTerminal) ∧
      renewLease id workerId now lease db = (false, db)) ∨
    ∃ a, db.view id = some a ∧
      a.Step (.renew workerId now (lease +ᵥ now)) (a.renew (lease +ᵥ now) now) ∧
      (renewLease id workerId now lease db).1 = true ∧
      db.Replaces (renewLease id workerId now lease db).2 id (a.renew (lease +ᵥ now) now) := by
  have hkey : ∀ r : TaskRow τ, r.renewable id workerId = true → r.taskId = id :=
    fun r hr => (TaskRow.renewable_iff.1 hr).1
  by_cases h : ∃ a, db.view id = some a ∧ a.row.leaseOwner = some workerId ∧
      a.row.status.isTerminal = false
  · obtain ⟨a, hv, how, hrun⟩ := h
    have hr : a.row.renewable id workerId = true := TaskRow.renewable_iff.2 ⟨Db.view_taskId hv, how, hrun⟩
    have hrep := Db.replaces_updateTask hv (TaskRow.renewable id workerId)
      (TaskRow.renew (lease +ᵥ now) now) (fun _ => rfl) hkey
    rw [if_pos hr] at hrep
    refine .inr ⟨a, hv, .renew how hrun, ?_, hrep⟩
    rw [renewLease, Table.select_eq_lookup hkey, (Db.view_eq_some.1 hv).1, Option.filter_some,
      if_pos hr]
    rfl
  · have hno : ∀ a, db.view id = some a → a.row.leaseOwner = some workerId →
        a.row.status.isTerminal = true := fun a hv how => by
      rw [← Bool.not_eq_false]
      exact fun hrun => h ⟨a, hv, how, hrun⟩
    have hrows : ∀ r ∈ db.tasks.rows, r.renewable id workerId = false := by
      intro r hr
      rw [← Bool.not_eq_true]
      intro hren
      obtain ⟨rfl, how, hrun⟩ := TaskRow.renewable_iff.1 hren
      have := hno ⟨r, _⟩ (Db.view_eq_some.2 ⟨Table.lookup_of_mem hr, rfl⟩) how
      simp_all
    have hnone : db.tasks.select (TaskRow.renewable id workerId) = [] :=
      List.filter_eq_nil_iff.2 fun r hr => by simp [hrows r hr]
    have hsame : db.tasks.updateWhere (TaskRow.renewable id workerId)
        (TaskRow.renew (lease +ᵥ now) now) (fun _ => rfl) = db.tasks :=
      Table.updateWhere_of_forall hrows
    refine .inl ⟨hno, Prod.ext ?_ (congrArg (fun tasks => { db with tasks }) hsame)⟩
    rw [renewLease, hnone]; rfl

theorem TaskRow.leasedTo_iff {t : TaskRow τ} {now : τ} : t.leasedTo id workerId now = true ↔
    t.taskId = id ∧ t.leaseOwner = some workerId ∧ t.leaseExpiresAt.any (now < ·) = true ∧
      t.status = .processing ∧ t.purgedAt = none := by
  simp [TaskRow.leasedTo]

/-- `claim_next_item` answers `None` and changes nothing, or takes the first pending item of a task
under the caller's live lease. -/
theorem claimNextItem_cases (id workerId : String) (now : τ) (db : Db τ) :
    ((∀ a i, db.view id = some a →
        ¬ a.Step (.take workerId now i) (a.take i now)) ∧
      claimNextItem id workerId now db = (none, db)) ∨
    ∃ a i, db.view id = some a ∧ i ∈ a.items ∧
      a.Step (.take workerId now i.position) (a.take i.position now) ∧
      (claimNextItem id workerId now db).1 = some (itemFromRow (i.take now)) ∧
      db.Replaces (claimNextItem id workerId now db).2 id (a.take i.position now) := by
  have hkey : ∀ r : TaskRow τ, r.leasedTo id workerId now = true → r.taskId = id :=
    fun r hr => (TaskRow.leasedTo_iff.1 hr).1
  cases ht : (db.tasks.select (TaskRow.leasedTo id workerId now)).head? with
  | none =>
    refine .inl ⟨?_, by rw [claimNextItem, ht]⟩
    rintro a i hv (_ | _ | ⟨how, hlease, hstatus, hpurged, _⟩)
    rw [Table.select_head?_eq_lookup hkey, (Db.view_eq_some.1 hv).1, Option.filter_some,
      if_pos (TaskRow.leasedTo_iff.2 ⟨Db.view_taskId hv, how, hlease, hstatus, hpurged⟩)] at ht
    simp at ht
  | some row =>
  rw [Table.select_head?_eq_lookup hkey, Option.filter_eq_some_iff] at ht
  obtain ⟨hl, hlt⟩ := ht
  obtain ⟨-, how, hlease, hstatus, hpurged⟩ := TaskRow.leasedTo_iff.1 hlt
  have hv : db.view id = some ⟨row, db.itemRows id⟩ := Db.view_eq_some.2 ⟨hl, rfl⟩
  have hhead : (db.tasks.select (TaskRow.leasedTo id workerId now)).head? = some row := by
    rw [Table.select_head?_eq_lookup hkey, hl, Option.filter_some, if_pos hlt]
  cases hp : (db.itemRows id).find? (·.status.isPending) with
  | none =>
    refine .inl ⟨?_, by rw [claimNextItem, hhead]; simp only [Db.firstPending, hp]⟩
    rintro a i hv' (_ | _ | ⟨_, _, _, _, hfirst⟩)
    rw [← (Db.view_eq_some.1 hv').2, hp] at hfirst
    simp at hfirst
  | some i =>
    have hi := List.mem_of_find?_eq_some hp
    have hrep := Db.replaces_updateItems hv
      (fun j => j.taskId = id ∧ j.position = i.position) (ItemRow.take now)
      (fun _ => rfl) (fun j hj => by simp at hj; exact hj.1)
    have hitems : ((db.itemRows id).map fun j =>
          if decide (j.taskId = id ∧ j.position = i.position) then j.take now else j) =
        (db.itemRows id).map fun j => if j.position = i.position then j.take now else j :=
      List.map_congr_left fun j hj => by simp [(Db.mem_itemRows.1 hj).2]
    rw [hitems] at hrep
    refine .inr ⟨_, i, hv, hi, .take how hlease hstatus hpurged hp, ?_, ?_⟩
    · rw [claimNextItem, hhead]
      simp only [Db.firstPending, hp]
      have hlook : db.items.lookup (id, i.position) = some i := Db.lookup_item.2 ⟨hi, rfl⟩
      refine (congrArg (Option.map itemFromRow) (Table.lookup_updateWhere _ _ _ _)).trans ?_
      rw [hlook]
      simp [(Db.mem_itemRows.1 hi).2]
    · rw [claimNextItem, hhead]
      simp only [Db.firstPending, hp]
      exact hrep

end Lease

end TextExtraction
