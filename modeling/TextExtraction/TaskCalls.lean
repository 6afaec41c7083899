import Mathlib.Data.List.Induction
import TextExtraction.TaskTransactions

/-!
# Repository calls

`create_task` and `maintain_retention` in terms of `Db.view`, and the seven writing methods as one
`Call` type. `Call.change` sums the methods up: a call leaves a task as it was, creates it, takes one
`Aggregate.Step` on it, or deletes it. Invariants of the store are case analyses over that.
-/

namespace TextExtraction

open Python Relational

variable {τ : Type} {db : Db τ} {id : String} {a a' : Aggregate τ}

/-! ### `create_task` -/

/-- The task `create_task` writes. -/
def newAggregate (taskId ownerId : String) (criteriaJson modelJson : Json)
    (items : List (String × String)) (createdAt expiresAt : τ) : Aggregate τ where
  row := newTask taskId ownerId criteriaJson modelJson items.length createdAt expiresAt
  items := items.zipIdx.map (newItem taskId)

theorem rows_of_insertItems {items items' : Table (ItemRow.key (τ := τ))}
    {sources : List ((String × String) × ℕ)} (h : insertItems id items sources = some items') :
    items'.rows = items.rows ++ sources.map (newItem id) := by
  induction sources generalizing items with
  | nil => cases h; simp
  | cons source rest ih =>
    rw [insertItems] at h
    split at h
    · simp at h
    · split at h
      · simp at h
      · rename_i hins
        rw [ih h, Table.rows_of_insert? hins, List.map_cons, List.append_assoc]; rfl

theorem positions_newItems (items : List (String × String)) (n : ℕ) :
    ((items.zipIdx n).map (newItem (τ := τ) id)).map ItemRow.position =
      (List.range' n items.length).map Int.ofNat := by
  induction items generalizing n with
  | nil => rfl
  | cons source items ih =>
    rw [List.zipIdx_cons, List.map_cons, List.map_cons, ih, List.length_cons, List.range'_succ,
      List.map_cons]
    rfl

theorem newItems_pairwise (items : List (String × String)) (n : ℕ) :
    ((items.zipIdx n).map (newItem (τ := τ) id)).Pairwise fun i j => i.position ≤ j.position := by
  rw [← List.pairwise_map (f := ItemRow.position) (R := (· ≤ ·)), positions_newItems,
    List.pairwise_map]
  exact (List.pairwise_lt_range' ..).imp fun h => by simpa using h.le

/-- `create_task` raises and changes nothing, or adds one task with all its items. -/
theorem insertTask_cases (hc : db.Closed) (taskId ownerId : String)
    (criteria model : List (Key × Value)) (items : List (String × String)) (createdAt expiresAt : τ) :
    (∃ e, insertTask taskId ownerId criteria model items createdAt expiresAt db = (.error e, db)) ∨
    ∃ cj mj, canonicalJson (.dict criteria) = .ok cj ∧ canonicalJson (.dict model) = .ok mj ∧
      items ≠ [] ∧ db.view taskId = none ∧
      (insertTask taskId ownerId criteria model items createdAt expiresAt db).1 = .ok () ∧
      db.Replaces (insertTask taskId ownerId criteria model items createdAt expiresAt db).2 taskId
        (newAggregate taskId ownerId cj mj items createdAt expiresAt) := by
  by_cases hne : items = []
  · exact .inl ⟨_, by rw [insertTask, if_pos hne]⟩
  cases hcj : canonicalJson (.dict criteria) with
  | error e => exact .inl ⟨e, by rw [insertTask, if_neg hne, hcj]⟩
  | ok cj =>
  cases hmj : canonicalJson (.dict model) with
  | error e => exact .inl ⟨e, by rw [insertTask, if_neg hne, hcj, hmj]⟩
  | ok mj =>
  cases htasks : db.tasks.insert?
      (newTask taskId ownerId cj mj items.length createdAt expiresAt) with
  | none =>
    exact .inl ⟨_, by rw [insertTask, if_neg hne, hcj, hmj]; simp only [htasks]; rfl⟩
  | some tasks =>
  cases hitems : insertItems taskId db.items items.zipIdx with
  | none =>
    exact .inl ⟨_, by rw [insertTask, if_neg hne, hcj, hmj]; simp only [htasks, hitems]; rfl⟩
  | some items' =>
  have heq : insertTask taskId ownerId criteria model items createdAt expiresAt db =
      (.ok (), ⟨tasks, items'⟩) := by
    rw [insertTask, if_neg hne, hcj, hmj]; simp only [htasks, hitems]
  have hnone : db.tasks.lookup taskId = none := Table.lookup_of_insert?_self htasks
  have hlook := Table.lookup_of_insert? htasks
  have hrows := rows_of_insertItems hitems
  refine .inr ⟨cj, mj, rfl, rfl, hne, Db.view_eq_none.2 hnone, by rw [heq], ?_⟩
  rw [heq]
  refine ⟨Db.view_eq_some.2 ⟨(hlook taskId).trans (if_pos rfl), ?_⟩, fun id' hne' => ?_,
    fun id' hne' => ?_⟩
  · have hold : db.items.select (fun i => i.taskId = taskId) = [] :=
      Table.select_eq_nil fun i hi => by simpa using hc.not_mem_items (Db.view_eq_none.2 hnone) hi
    have hnew : (items.zipIdx.map (newItem taskId)).filter (fun i => i.taskId = taskId) =
        items.zipIdx.map (newItem (τ := τ) taskId) := by
      rw [List.filter_eq_self]
      intro i hi
      obtain ⟨source, -, rfl⟩ := List.mem_map.1 hi
      simp [newItem]
    rw [Db.itemRows, Table.select, hrows, List.filter_append, ← Table.select, hold, hnew,
      List.nil_append]
    exact orderBy_of_pairwise (newItems_pairwise items 0)
  · exact (hlook id').trans (if_neg (Ne.symm hne'))
  · have hnew : (items.zipIdx.map (newItem (τ := τ) taskId)).filter (fun i => i.taskId = id') = [] := by
      rw [List.filter_eq_nil_iff]
      intro i hi
      obtain ⟨source, -, rfl⟩ := List.mem_map.1 hi
      simp [newItem, Ne.symm hne']
    rw [Db.itemRows, Table.select, hrows, List.filter_append, hnew, List.append_nil]; rfl

/-! ### `maintain_retention` -/

section Maintain
variable [LinearOrder τ]

omit [LinearOrder τ] in
theorem itemRows_purgeItems (tasks) (ids : List String) (items : Table (ItemRow.key (τ := τ))) :
    (⟨tasks, purgeItems ids items⟩ : Db τ).itemRows id =
      if id ∈ ids then ((⟨tasks, items⟩ : Db τ).itemRows id).map ItemRow.purge
      else (⟨tasks, items⟩ : Db τ).itemRows id := by
  induction ids generalizing items with
  | nil => rfl
  | cons taskId ids ih =>
    have hone : (⟨tasks, items.updateWhere (fun i => i.taskId = taskId) ItemRow.purge fun _ => rfl⟩ :
        Db τ).itemRows id = if id = taskId then ((⟨tasks, items⟩ : Db τ).itemRows id).map ItemRow.purge
          else (⟨tasks, items⟩ : Db τ).itemRows id := by
      refine (Db.itemRows_updateItems tasks items _ _ _ id).trans ?_
      split
      · rename_i h
        exact List.map_congr_left fun i hi => if_pos (by simp [(Db.mem_itemRows.1 hi).2, h])
      · rename_i h
        exact (List.map_congr_left fun i hi => if_neg (by
          simp [(Db.mem_itemRows.1 hi).2, h])).trans (List.map_id _)
    refine (ih (items.updateWhere (fun i => i.taskId = taskId) ItemRow.purge fun _ => rfl)).trans ?_
    rw [hone]
    by_cases h : id = taskId
    · by_cases hid : taskId ∈ ids <;> simp [h, hid, List.map_map, Function.comp_def, ItemRow.purge]
    · simp [h]

/-- The row `maintain_retention` leaves before it deletes. -/
theorem lookup_purged (now : τ) (db : Db τ) (id : String) :
    (db.tasks.updateWhere (·.expired now) (TaskRow.purge now) fun _ => rfl).lookup id =
      (db.tasks.lookup id).map fun row => if row.expired now then row.purge now else row :=
  Table.lookup_updateWhere _ _ _ _

theorem mem_expired {now : τ} : id ∈ (db.tasks.select (·.expired now)).map TaskRow.taskId ↔
    ∃ row, db.tasks.lookup id = some row ∧ row.expired now = true :=
  Table.mem_select_map_key

/-- `maintain_retention` treats every task by itself. -/
theorem view_purgeAndDelete (now cutoff : τ) (db : Db τ) (id : String) :
    (purgeAndDelete now cutoff db).2.view id =
      (db.view id).bind (Aggregate.maintain now cutoff) := by
  have hlook := lookup_purged now db id
  simp only [Db.view, purgeAndDelete, Table.lookup_deleteWhere, Db.itemRows_deleteItems]
  cases hrow : db.tasks.lookup id with
  | none =>
    rw [hrow, Option.map_none] at hlook
    rw [hlook]; rfl
  | some row =>
  rw [hrow, Option.map_some] at hlook
  have hids : id ∈ (db.tasks.select (·.expired now)).map TaskRow.taskId ↔ row.expired now = true := by
    simp [mem_expired, hrow]
  have hmaintain : Aggregate.maintain now cutoff ⟨row, db.itemRows id⟩ =
      if (if row.expired now then row.purge now else row).elapsed cutoff then none
      else some ⟨if row.expired now then row.purge now else row,
        if row.expired now then (db.itemRows id).map ItemRow.purge else db.itemRows id⟩ := by
    rw [Aggregate.maintain]
    cases row.expired now <;> rfl
  rw [hlook, Option.filter_some, Option.map_some, Option.bind_some, hmaintain]
  by_cases hgone : (if row.expired now then row.purge now else row).elapsed cutoff = true
  · rw [if_neg (by simp [hgone]), if_pos hgone]; rfl
  · rw [if_pos (by simp [hgone]), if_neg hgone, Option.map_some]
    congr 2
    have hkeep : ∀ i ∈ (⟨db.tasks, purgeItems ((db.tasks.select (·.expired now)).map TaskRow.taskId)
        db.items⟩ : Db τ).itemRows id, i.taskId ∉
          ((db.tasks.updateWhere (·.expired now) (TaskRow.purge now) fun _ => rfl).select
            (·.elapsed cutoff)).map TaskRow.taskId := by
      intro i hi hmem
      rw [(Db.mem_itemRows.1 hi).2, Table.mem_select_map_key] at hmem
      obtain ⟨r, hr, helapsed⟩ := hmem
      rw [hlook] at hr
      cases hr
      exact hgone helapsed
    refine (List.filter_eq_self.2 fun i hi => by simpa using hkeep i hi).trans ?_
    refine (itemRows_purgeItems db.tasks _ db.items).trans ?_
    by_cases hexp : row.expired now = true
    · rw [if_pos (hids.2 hexp), if_pos hexp]
    · rw [if_neg (mt hids.1 hexp), if_neg hexp]

theorem closed_purgeAndDelete (now cutoff : τ) (hc : db.Closed) :
    (purgeAndDelete now cutoff db).2.Closed := by
  intro id hnone
  have hlook := lookup_purged now db id
  simp only [purgeAndDelete, Table.lookup_deleteWhere] at hnone
  rw [purgeAndDelete, Db.itemRows_deleteItems, List.filter_eq_nil_iff]
  intro i hi
  cases hrow : db.tasks.lookup id with
  | none =>
    replace hi := (itemRows_purgeItems db.tasks _ db.items) ▸ hi
    have hempty : (⟨db.tasks, db.items⟩ : Db τ).itemRows id = [] := hc id hrow
    rw [hempty] at hi
    simp at hi
  | some row =>
    rw [hrow, Option.map_some] at hlook
    rw [hlook, Option.filter_some] at hnone
    have hid : i.taskId = id := (Db.mem_itemRows.1 hi).2
    have hgone : id ∈ ((db.tasks.updateWhere (·.expired now) (TaskRow.purge now) fun _ => rfl).select
        (·.elapsed cutoff)).map TaskRow.taskId := by
      refine Table.mem_select_map_key.2 ⟨_, hlook, ?_⟩
      simpa using hnone
    simpa [hid] using hgone

end Maintain

/-! ### Calls -/

/-- The writing methods with their arguments. -/
inductive Call (τ : Type)
  | createTask (taskId ownerId : String) (criteria model : List (Key × Value))
      (items : List (String × String)) (createdAt expiresAt : τ)
  | claimTask (workerId : String) (now : τ) (lease : ℤ)
  | renewLease (taskId workerId : String) (now : τ) (lease : ℤ)
  | claimNextItem (taskId workerId : String) (now : τ)
  | finalizeItem (taskId workerId : String) (position : ℤ) (outcome : Option (List (Key × Value)))
      (error : Option (List (String × String))) (now : τ)
  | failTask (taskId workerId : String) (error : List (String × String)) (now : τ)
  | maintainRetention (now : τ) (tombstone : ℤ)

namespace Call
variable [LinearOrder τ] [VAdd ℤ τ]

/-- The database a call leaves, whatever it answers or raises. -/
def exec : Call τ → Db τ → Db τ
  | createTask taskId ownerId criteria model items createdAt expiresAt, db =>
    (TextExtraction.createTask taskId ownerId criteria model items createdAt expiresAt db).2
  | claimTask workerId now lease, db => (TextExtraction.claimTask workerId now lease db).2
  | renewLease taskId workerId now lease, db =>
    (TextExtraction.renewLease taskId workerId now lease db).2
  | claimNextItem taskId workerId now, db => (TextExtraction.claimNextItem taskId workerId now db).2
  | finalizeItem taskId workerId position outcome error now, db =>
    (TextExtraction.finalizeItem taskId workerId position outcome error now db).2
  | failTask taskId workerId error now, db => (TextExtraction.failTask taskId workerId error now db).2
  | maintainRetention now tombstone, db => (TextExtraction.maintainRetention now tombstone db).2

/-- The task a call is about: the one it names, or the one `claim_task` picks. -/
def target (db : Db τ) : Call τ → Option String
  | createTask taskId .. | renewLease taskId .. | claimNextItem taskId .. | finalizeItem taskId ..
  | failTask taskId .. => some taskId
  | claimTask _ now _ => (oldestClaimable now db).map TaskRow.taskId
  | maintainRetention .. => none

/-- The actions a call can take, and on which task. -/
inductive Does : Call τ → String → Action τ → Prop
  | claim {id w now lease} : Does (claimTask w now lease) id (.claim w now (lease +ᵥ now))
  | renew {id w now lease} : Does (renewLease id w now lease) id (.renew w now (lease +ᵥ now))
  | take {id w now p} : Does (claimNextItem id w now) id (.take w now p)
  | finalize {id w p outcome error now oj ej}
      (hoj : canonicalJson? (outcome.map .dict) = .ok oj)
      (hej : canonicalJson? (error.map strDict) = .ok ej) :
      Does (finalizeItem id w p outcome error now) id (.finalize w now p oj ej)
  | abort {id w error now ej} (hej : canonicalJson (strDict error) = .ok ej) :
      Does (failTask id w error now) id (.abort w now ej)

/-- What a call does to the database: nothing, or one task created, or one stepped, or every task
maintained. -/
inductive Change (c : Call τ) (db : Db τ) : Db τ → Prop
  | idle : Change c db db
  | created {id owner criteria model items created expires cj mj db'}
      (hc : c = createTask id owner criteria model items created expires)
      (hcj : canonicalJson (.dict criteria) = .ok cj) (hmj : canonicalJson (.dict model) = .ok mj)
      (hne : items ≠ []) (hfresh : db.view id = none) (htarget : c.target db = some id)
      (hrep : db.Replaces db' id (newAggregate id owner cj mj items created expires)) :
      Change c db db'
  | stepped {id a act a' db'} (hv : db.view id = some a) (hstep : a.Step act a')
      (hdoes : c.Does id act) (htarget : c.target db = some id) (hrep : db.Replaces db' id a') :
      Change c db db'
  | maintained {now tombstone db'} (hc : c = maintainRetention now tombstone)
      (hview : ∀ id, db'.view id = (db.view id).bind (Aggregate.maintain now (-tombstone +ᵥ now)))
      (hclosed : db'.Closed) : Change c db db'

omit [LinearOrder τ] [VAdd ℤ τ] in
theorem snd_createTask (taskId ownerId : String) (criteria model : List (Key × Value))
    (items : List (String × String)) (createdAt expiresAt : τ) (db : Db τ) :
    (TextExtraction.createTask taskId ownerId criteria model items createdAt expiresAt db).2 =
      (insertTask taskId ownerId criteria model items createdAt expiresAt db).2 := by
  rw [TextExtraction.createTask]
  split
  · rename_i h; rw [h]
  · rename_i h
    rw [h]
    split <;> rfl

theorem change (c : Call τ) (hc : db.Closed) : c.Change db (c.exec db) := by
  cases c with
  | createTask id owner criteria model items created expires =>
    rw [exec, snd_createTask]
    rcases insertTask_cases hc id owner criteria model items created expires with
      ⟨e, he⟩ | ⟨cj, mj, hcj, hmj, hne, hfresh, -, hrep⟩
    · rw [he]; exact .idle
    · exact .created rfl hcj hmj hne hfresh rfl hrep
  | claimTask w now lease =>
    rw [exec]
    rcases claimTask_cases w now lease db with ⟨-, he⟩ | ⟨a, ho, hv, hstep, -, hrep⟩
    · rw [he]; exact .idle
    · exact .stepped hv hstep .claim (by rw [target, ho]; rfl) hrep
  | renewLease id w now lease =>
    rw [exec]
    rcases renewLease_cases id w now lease db with ⟨-, he⟩ | ⟨a, hv, hstep, -, hrep⟩
    · rw [he]; exact .idle
    · exact .stepped hv hstep .renew rfl hrep
  | claimNextItem id w now =>
    rw [exec]
    rcases claimNextItem_cases id w now db with ⟨-, he⟩ | ⟨a, i, hv, -, hstep, -, hrep⟩
    · rw [he]; exact .idle
    · exact .stepped hv hstep .take rfl hrep
  | finalizeItem id w p outcome error now =>
    rw [exec]
    rcases finalizeItem_cases id w p outcome error now db with
      ⟨e, he⟩ | ⟨a, i, oj, ej, hv, -, hp, hoj, hej, hstep, -, -, hrep⟩
    · rw [he]; exact .idle
    · subst hp
      exact .stepped hv hstep (.finalize hoj hej) rfl hrep
  | failTask id w error now =>
    rw [exec]
    rcases failTask_cases id w error now db with ⟨e, he⟩ | ⟨a, ej, hv, hej, hstep, -, -, hrep⟩
    · rw [he]; exact .idle
    · exact .stepped hv hstep (.abort hej) rfl hrep
  | maintainRetention now tombstone =>
    exact .maintained rfl (view_purgeAndDelete now _ db) (closed_purgeAndDelete now _ hc)

end Call

namespace Aggregate
variable [LinearOrder τ]

theorem maintain_eq_some {now cutoff : τ} : a.maintain now cutoff = some a' ↔
    (a.row.expired now = false ∧ a' = a ∨ a.row.expired now = true ∧ a' = a.purge now) ∧
      a'.row.elapsed cutoff = false := by
  rw [maintain]
  cases a.row.expired now <;> simp only [if_true, Bool.false_eq_true, if_false]
  · constructor
    · intro h; split at h <;> cases h; simp_all
    · rintro ⟨⟨-, rfl⟩ | ⟨h, -⟩, he⟩
      · rw [if_neg (by simp [he])]
      · simp at h
  · constructor
    · intro h; split at h <;> cases h; simp_all
    · rintro ⟨⟨h, -⟩ | ⟨-, rfl⟩, he⟩
      · simp at h
      · rw [if_neg (by simp [he])]

theorem maintain_eq_none {now cutoff : τ} : a.maintain now cutoff = none ↔
    a.row.expiresAt ≤ cutoff ∧ (a.row.expiresAt ≤ now ∨ a.row.purgedAt.isSome) := by
  rw [maintain]
  cases he : a.row.expired now
  · simp only [Bool.false_eq_true, if_false]
    rw [ite_eq_left_iff]
    simp only [TaskRow.elapsed, TaskRow.expired] at he ⊢
    cases hp : a.row.purgedAt <;> simp_all
  · simp only [if_true]
    rw [ite_eq_left_iff]
    simp only [TaskRow.elapsed, TaskRow.expired, Aggregate.purge, TaskRow.purge] at he ⊢
    simp_all

end Aggregate

section Change
variable [LinearOrder τ] [VAdd ℤ τ] {c : Call τ} {db' : Db τ}

/-- What a call can do to the task `id`. -/
inductive Call.Affects (c : Call τ) (id : String) : Option (Aggregate τ) → Option (Aggregate τ) → Prop
  | same {v} : Affects c id v v
  | created {owner criteria model items created expires cj mj}
      (hc : c = .createTask id owner criteria model items created expires)
      (hcj : canonicalJson (.dict criteria) = .ok cj) (hmj : canonicalJson (.dict model) = .ok mj)
      (hne : items ≠ []) :
      Affects c id none (some (newAggregate id owner cj mj items created expires))
  | stepped {a act a'} (hstep : a.Step act a') (hdoes : c.Does id act) : Affects c id (some a) (some a')
  | purged {a now tombstone} (hc : c = .maintainRetention now tombstone)
      (hstep : a.Step (.purge now) (a.purge now)) : Affects c id (some a) (some (a.purge now))
  | deleted {a now tombstone} (hc : c = .maintainRetention now tombstone)
      (hgone : a.maintain now (-tombstone +ᵥ now) = none) : Affects c id (some a) none

theorem Call.Change.affects (h : c.Change db db') (id : String) :
    c.Affects id (db.view id) (db'.view id) := by
  cases h with
  | idle => exact .same
  | @created id' _ _ _ _ _ _ _ _ _ hc hcj hmj hne hfresh _ hrep =>
    by_cases hid : id = id'
    · subst hid
      rw [hfresh, hrep.view_self]
      exact .created hc hcj hmj hne
    · rw [hrep.view_ne hid]; exact .same
  | @stepped id' _ _ _ _ hv hstep hdoes _ hrep =>
    by_cases hid : id = id'
    · subst hid
      rw [hv, hrep.view_self]
      exact .stepped hstep hdoes
    · rw [hrep.view_ne hid]; exact .same
  | maintained hc hview _ =>
    rw [hview id]
    cases hv : db.view id with
    | none => exact .same
    | some a =>
      rw [Option.bind_some]
      cases hm : a.maintain _ _ with
      | none => exact .deleted hc hm
      | some a' =>
        rcases (Aggregate.maintain_eq_some.1 hm).1 with ⟨-, rfl⟩ | ⟨hexp, rfl⟩
        · exact .same
        · exact .purged hc (.purge hexp)

theorem Call.Change.closed (h : c.Change db db') (hc : db.Closed) : db'.Closed := by
  cases h with
  | idle => exact hc
  | created _ _ _ _ _ _ hrep => exact hrep.closed hc
  | stepped _ _ _ _ hrep => exact hrep.closed hc
  | maintained _ _ hclosed => exact hclosed

/-- A call that is not about a task leaves its rows alone; maintenance is about all of them. -/
theorem Call.Change.frame (h : c.Change db db')
    (hmaintain : ∀ now tombstone, c ≠ .maintainRetention now tombstone)
    (hid : c.target db ≠ some id) :
    db'.tasks.lookup id = db.tasks.lookup id ∧ db'.itemRows id = db.itemRows id := by
  cases h with
  | idle => exact ⟨rfl, rfl⟩
  | created _ _ _ _ _ htarget hrep =>
    have hne := fun he : id = _ => hid (he ▸ htarget)
    exact ⟨hrep.tasks id hne, hrep.items id hne⟩
  | stepped _ _ _ htarget hrep =>
    have hne := fun he : id = _ => hid (he ▸ htarget)
    exact ⟨hrep.tasks id hne, hrep.items id hne⟩
  | maintained hc => exact absurd hc (hmaintain _ _)

/-- The store after a sequence of calls on a fresh database. -/
def Db.run (calls : List (Call τ)) : Db τ := calls.foldl (fun db c => c.exec db) Db.empty

theorem Db.run_snoc (calls : List (Call τ)) (c : Call τ) :
    Db.run (calls ++ [c]) = c.exec (Db.run calls) := by
  rw [Db.run, Db.run, List.foldl_append]; rfl

theorem Db.closed_run (calls : List (Call τ)) : (Db.run calls).Closed := by
  induction calls using List.reverseRecOn with
  | nil => exact Db.closed_empty
  | append_singleton calls c ih =>
    rw [Db.run_snoc]
    exact (c.change ih).closed ih

theorem Db.change_run (calls : List (Call τ)) (c : Call τ) :
    c.Change (Db.run calls) (Db.run (calls ++ [c])) := by
  rw [Db.run_snoc]
  exact c.change (Db.closed_run calls)

/-- A property that new tasks have and steps keep holds of every task of a reachable store. -/
theorem Db.run_invariant {P : Aggregate τ → Prop}
    (hnew : ∀ id owner cj mj (items : List (String × String)) created expires, items ≠ [] →
      P (newAggregate id owner cj mj items created expires))
    (hstep : ∀ a act a', P a → a.Step act a' → P a') (calls : List (Call τ)) :
    ∀ id a, (Db.run calls).view id = some a → P a := by
  induction calls using List.reverseRecOn with
  | nil => intro id a h; cases h
  | append_singleton calls c ih =>
    intro id a h
    have haff := (Db.change_run calls c).affects id
    rw [h] at haff
    generalize hv : (Db.run calls).view id = v at haff
    cases haff with
    | same => exact ih id a hv
    | created _ _ _ hne => exact hnew _ _ _ _ _ _ _ hne
    | stepped hs _ => exact hstep _ _ _ (ih id _ hv) hs
    | purged _ hs => exact hstep _ _ _ (ih id _ hv) hs

end Change

end TextExtraction
