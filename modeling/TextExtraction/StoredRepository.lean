import TextExtraction.Lib.Calendar
import TextExtraction.TimestampMaps

/-!
# The repository on stored texts

What SQLite holds of a datetime is its ISO text, and what a method returns is read back from it. The
methods of `task_repository.py` are here once more with the argument types the source gives them:
datetimes and durations in, texts in the tables, datetimes out of `fromisoformat`. An expiry or a cutoff
that no datetime names raises before the transaction begins.

The text of a datetime and its instant are two order embeddings, and they tie the stored repository to
the one over instants (`Db.Stores`): whatever was called before, the texts in the tables are those of the
instants, and the answers are the same.
-/

namespace TextExtraction

open Python Relational

/-! ### Reading texts back -/

/-- `datetime.fromisoformat` of a column that is not null. -/
def restoreTime (text : Text) : Except Exc DateTime :=
  match fromisoformat text.string with
  | some d => .ok d
  | none => .error (valueError ("Invalid isoformat string: '" ++ text.string ++ "'"))

/-- `parse_datetime`. -/
def parseDatetime : Option Text → Except Exc (Option DateTime)
  | none => .ok none
  | some text => (restoreTime text).map some

/-- The timestamps of `_task_from_row`. The counters of a record are checked before its texts are read
here, which shows in no record a method can return. -/
def ExtractionTaskRecord.restore (r : ExtractionTaskRecord Text) : Except Exc (ExtractionTaskRecord DateTime) := do
  let createdAt ← restoreTime r.createdAt
  let updatedAt ← restoreTime r.updatedAt
  let expiresAt ← restoreTime r.expiresAt
  let startedAt ← parseDatetime r.startedAt
  let completedAt ← parseDatetime r.completedAt
  let leaseExpiresAt ← parseDatetime r.leaseExpiresAt
  let purgedAt ← parseDatetime r.purgedAt
  return {
    taskId := r.taskId
    ownerId := r.ownerId
    status := r.status
    acceptedCount := r.acceptedCount
    processedCount := r.processedCount
    successfulCount := r.successfulCount
    failedCount := r.failedCount
    createdAt, updatedAt, expiresAt, startedAt, completedAt
    criteria := r.criteria
    model := r.model
    error := r.error
    leaseOwner := r.leaseOwner
    leaseExpiresAt, purgedAt }

/-- The timestamps of `_item_from_row`. -/
def ExtractionTaskItemRecord.restore (r : ExtractionTaskItemRecord Text) :
    Except Exc (ExtractionTaskItemRecord DateTime) := do
  let startedAt ← parseDatetime r.startedAt
  let completedAt ← parseDatetime r.completedAt
  return {
    taskId := r.taskId
    position := r.position
    sourceId := r.sourceId
    sourceText := r.sourceText
    status := r.status
    outcome := r.outcome
    error := r.error
    startedAt, completedAt }

/-- `[self._item_from_row(row) for row in item_rows]`. -/
def restoreItems : List (ExtractionTaskItemRecord Text) → Except Exc (List (ExtractionTaskItemRecord DateTime))
  | [] => .ok []
  | r :: rest => do
    let item ← r.restore
    let items ← restoreItems rest
    return item :: items

/-- A record that need not be there. -/
def restoreOption {α β : Type} (restore : α → Except Exc β) : Option α → Except Exc (Option β)
  | none => .ok none
  | some a => (restore a).map some

@[simp] theorem restoreTime_stamp (d : DateTime) : restoreTime d.stamp = .ok d := by
  rw [restoreTime, DateTime.stamp, fromisoformat_isoformat]

@[simp] theorem parseDatetime_stamp (d : Option DateTime) : parseDatetime (d.map DateTime.stamp) = .ok d := by
  cases d with
  | none => rfl
  | some d => rw [Option.map_some, parseDatetime, restoreTime_stamp]; rfl

@[simp] theorem ExtractionTaskRecord.restore_stamp (r : ExtractionTaskRecord DateTime) :
    (r.mapTime DateTime.stamp).restore = .ok r := by
  simp [restore, mapTime]
  rfl

@[simp] theorem ExtractionTaskItemRecord.restore_stamp (r : ExtractionTaskItemRecord DateTime) :
    (r.mapTime DateTime.stamp).restore = .ok r := by
  simp [restore, mapTime]
  rfl

@[simp] theorem restoreItems_stamp (items : List (ExtractionTaskItemRecord DateTime)) :
    restoreItems (items.map (ExtractionTaskItemRecord.mapTime DateTime.stamp)) = .ok items := by
  induction items with
  | nil => rfl
  | cons r rest ih =>
    rw [List.map_cons, restoreItems, r.restore_stamp, ih]
    rfl

theorem restoreOption_map {α β : Type} {restore : α → Except Exc β} {g : β → α}
    (hrestore : ∀ b, restore (g b) = .ok b) (o : Option β) : restoreOption restore (o.map g) = .ok o := by
  cases o with
  | none => rfl
  | some b => rw [Option.map_some, restoreOption, hrestore]; rfl

/-- What is read back of an answer written out is the answer. -/
theorem bind_map_restore {α β : Type} {restore : α → Except Exc β} {g : β → α}
    (hrestore : ∀ b, restore (g b) = .ok b) (answer : Except Exc β) : (answer.map g).bind restore = answer := by
  cases answer with
  | error e => rfl
  | ok b => exact hrestore b

/-! ### The methods -/

namespace Stored

def createTask (taskId ownerId : String) (criteria model : List (Key × Value)) (items : List (String × String))
    (createdAt expiresAt : DateTime) (db : Db Text) : Except Exc (ExtractionTaskRecord DateTime) × Db Text :=
  let answer := TextExtraction.createTask taskId ownerId criteria model items createdAt.stamp expiresAt.stamp db
  (answer.1.bind ExtractionTaskRecord.restore, answer.2)

def claimTask (workerId : String) (now : DateTime) (lease : ℤ) (db : Db Text) :
    Except Exc (Option (ExtractionTaskRecord DateTime)) × Db Text :=
  match now.add lease with
  | .error e => (.error e, db)
  | .ok expiry =>
    let answer := claimTaskUntil workerId now.stamp expiry.stamp db
    (answer.1.bind (restoreOption ExtractionTaskRecord.restore), answer.2)

def renewLease (taskId workerId : String) (now : DateTime) (lease : ℤ) (db : Db Text) :
    Except Exc Bool × Db Text :=
  match now.add lease with
  | .error e => (.error e, db)
  | .ok expiry =>
    let answer := renewLeaseUntil taskId workerId now.stamp expiry.stamp db
    (.ok answer.1, answer.2)

def claimNextItem (taskId workerId : String) (now : DateTime) (db : Db Text) :
    Except Exc (Option (ExtractionTaskItemRecord DateTime)) × Db Text :=
  let answer := TextExtraction.claimNextItem taskId workerId now.stamp db
  (restoreOption ExtractionTaskItemRecord.restore answer.1, answer.2)

def finalizeItem (taskId workerId : String) (position : ℤ) (outcome : Option (List (Key × Value)))
    (error : Option (List (String × String))) (now : DateTime) (db : Db Text) :
    Except Exc (ExtractionTaskRecord DateTime) × Db Text :=
  let answer := TextExtraction.finalizeItem taskId workerId position outcome error now.stamp db
  (answer.1.bind ExtractionTaskRecord.restore, answer.2)

def failTask (taskId workerId : String) (error : List (String × String)) (now : DateTime) (db : Db Text) :
    Except Exc (ExtractionTaskRecord DateTime) × Db Text :=
  let answer := TextExtraction.failTask taskId workerId error now.stamp db
  (answer.1.bind ExtractionTaskRecord.restore, answer.2)

def maintainRetention (now : DateTime) (tombstone : ℤ) (db : Db Text) : Except Exc (ℕ × ℕ) × Db Text :=
  match now.add (-tombstone) with
  | .error e => (.error e, db)
  | .ok cutoff =>
    let answer := purgeAndDelete now.stamp cutoff.stamp db
    (.ok answer.1, answer.2)

def getStatus (taskId ownerId : String) (db : Db Text) : Except Exc (Option (ExtractionTaskRecord DateTime)) :=
  (TextExtraction.getStatus taskId ownerId db).bind (restoreOption ExtractionTaskRecord.restore)

def getResults (taskId ownerId : String) (db : Db Text) :
    Except Exc (Option (ExtractionTaskRecord DateTime) × List (ExtractionTaskItemRecord DateTime)) := do
  let (task, items) ← TextExtraction.getResults taskId ownerId db
  let task ← restoreOption ExtractionTaskRecord.restore task
  let items ← restoreItems items
  return (task, items)

/-! ### What the methods do to the texts of datetimes -/

section Stamps
variable (db : Db DateTime)

theorem createTask_stamp (taskId ownerId : String) (criteria model : List (Key × Value))
    (items : List (String × String)) (createdAt expiresAt : DateTime) :
    createTask taskId ownerId criteria model items createdAt expiresAt (db.mapTime DateTime.stamp) =
      ((TextExtraction.createTask taskId ownerId criteria model items createdAt expiresAt db).1,
        (TextExtraction.createTask taskId ownerId criteria model items createdAt expiresAt db).2.mapTime
          DateTime.stamp) := by
  simp only [createTask, createTask_mapTime, bind_map_restore ExtractionTaskRecord.restore_stamp]

theorem claimTask_stamp (workerId : String) (now : DateTime) (lease : ℤ) {expiry : DateTime}
    (hexpiry : now.add lease = .ok expiry) :
    claimTask workerId now lease (db.mapTime DateTime.stamp) =
      ((claimTaskUntil workerId now expiry db).1,
        (claimTaskUntil workerId now expiry db).2.mapTime DateTime.stamp) := by
  have hmap : claimTaskUntil workerId now.stamp expiry.stamp (db.mapTime DateTime.stamp) =
      ((claimTaskUntil workerId now expiry db).1.map (Option.map (ExtractionTaskRecord.mapTime DateTime.stamp)),
        (claimTaskUntil workerId now expiry db).2.mapTime DateTime.stamp) :=
    claimTaskUntil_mapTime DateTime.isoText workerId now expiry db
  simp only [claimTask, hexpiry, hmap,
    bind_map_restore (restoreOption_map ExtractionTaskRecord.restore_stamp)]

theorem renewLease_stamp (taskId workerId : String) (now : DateTime) (lease : ℤ) {expiry : DateTime}
    (hexpiry : now.add lease = .ok expiry) :
    renewLease taskId workerId now lease (db.mapTime DateTime.stamp) =
      (.ok (renewLeaseUntil taskId workerId now expiry db).1,
        (renewLeaseUntil taskId workerId now expiry db).2.mapTime DateTime.stamp) := by
  simp only [renewLease, hexpiry, renewLeaseUntil_mapTime]

theorem claimNextItem_stamp (taskId workerId : String) (now : DateTime) :
    claimNextItem taskId workerId now (db.mapTime DateTime.stamp) =
      (.ok (TextExtraction.claimNextItem taskId workerId now db).1,
        (TextExtraction.claimNextItem taskId workerId now db).2.mapTime DateTime.stamp) := by
  have hmap : TextExtraction.claimNextItem taskId workerId now.stamp (db.mapTime DateTime.stamp) =
      ((TextExtraction.claimNextItem taskId workerId now db).1.map
          (ExtractionTaskItemRecord.mapTime DateTime.stamp),
        (TextExtraction.claimNextItem taskId workerId now db).2.mapTime DateTime.stamp) :=
    claimNextItem_mapTime DateTime.isoText taskId workerId now db
  simp only [claimNextItem, hmap, restoreOption_map ExtractionTaskItemRecord.restore_stamp]

theorem finalizeItem_stamp (taskId workerId : String) (position : ℤ) (outcome : Option (List (Key × Value)))
    (error : Option (List (String × String))) (now : DateTime) :
    finalizeItem taskId workerId position outcome error now (db.mapTime DateTime.stamp) =
      ((TextExtraction.finalizeItem taskId workerId position outcome error now db).1,
        (TextExtraction.finalizeItem taskId workerId position outcome error now db).2.mapTime DateTime.stamp) := by
  simp only [finalizeItem, finalizeItem_mapTime, bind_map_restore ExtractionTaskRecord.restore_stamp]

theorem failTask_stamp (taskId workerId : String) (error : List (String × String)) (now : DateTime) :
    failTask taskId workerId error now (db.mapTime DateTime.stamp) =
      ((TextExtraction.failTask taskId workerId error now db).1,
        (TextExtraction.failTask taskId workerId error now db).2.mapTime DateTime.stamp) := by
  simp only [failTask, failTask_mapTime, bind_map_restore ExtractionTaskRecord.restore_stamp]

theorem maintainRetention_stamp (now : DateTime) (tombstone : ℤ) {cutoff : DateTime}
    (hcutoff : now.add (-tombstone) = .ok cutoff) :
    maintainRetention now tombstone (db.mapTime DateTime.stamp) =
      (.ok (purgeAndDelete now cutoff db).1, (purgeAndDelete now cutoff db).2.mapTime DateTime.stamp) := by
  have hmap : purgeAndDelete now.stamp cutoff.stamp (db.mapTime DateTime.stamp) =
      ((purgeAndDelete now cutoff db).1, (purgeAndDelete now cutoff db).2.mapTime DateTime.stamp) :=
    purgeAndDelete_mapTime DateTime.isoText now cutoff db
  simp only [maintainRetention, hcutoff, hmap]

theorem getStatus_stamp (taskId ownerId : String) :
    getStatus taskId ownerId (db.mapTime DateTime.stamp) = TextExtraction.getStatus taskId ownerId db := by
  rw [getStatus, getStatus_mapTime]
  exact bind_map_restore (restoreOption_map ExtractionTaskRecord.restore_stamp) _

theorem getResults_stamp (taskId ownerId : String) :
    getResults taskId ownerId (db.mapTime DateTime.stamp) = TextExtraction.getResults taskId ownerId db := by
  rw [getResults, getResults_mapTime]
  cases TextExtraction.getResults taskId ownerId db with
  | error e => rfl
  | ok answer =>
    have htask := restoreOption_map ExtractionTaskRecord.restore_stamp answer.1
    have hitems := restoreItems_stamp answer.2
    simp only [Except.map, bind, Except.bind, htask, hitems]
    rfl

end Stamps

end Stored

/-! ### Calls and their answers -/

inductive Answer (τ : Type)
  | task (record : ExtractionTaskRecord τ)
  | claimed (record : Option (ExtractionTaskRecord τ))
  | renewed (held : Bool)
  | item (record : Option (ExtractionTaskItemRecord τ))
  | maintained (counts : ℕ × ℕ)

def Answer.mapTime {τ σ : Type} (f : τ → σ) : Answer τ → Answer σ
  | task record => .task (record.mapTime f)
  | claimed record => .claimed (record.map (ExtractionTaskRecord.mapTime f))
  | renewed held => .renewed held
  | item record => .item (record.map (ExtractionTaskItemRecord.mapTime f))
  | maintained counts => .maintained counts

def Call.mapTime {τ σ : Type} (f : τ → σ) : Call τ → Call σ
  | createTask taskId ownerId criteria model items createdAt expiresAt =>
    .createTask taskId ownerId criteria model items (f createdAt) (f expiresAt)
  | claimTask workerId now lease => .claimTask workerId (f now) lease
  | renewLease taskId workerId now lease => .renewLease taskId workerId (f now) lease
  | claimNextItem taskId workerId now => .claimNextItem taskId workerId (f now)
  | finalizeItem taskId workerId position outcome error now =>
    .finalizeItem taskId workerId position outcome error (f now)
  | failTask taskId workerId error now => .failTask taskId workerId error (f now)
  | maintainRetention now tombstone => .maintainRetention (f now) tombstone

/-- What a call answers, or raises, and the database it leaves. -/
def Call.perform {τ : Type} [LinearOrder τ] [VAdd ℤ τ] : Call τ → Db τ → Except Exc (Answer τ) × Db τ
  | createTask taskId ownerId criteria model items createdAt expiresAt, db =>
    (TextExtraction.createTask taskId ownerId criteria model items createdAt expiresAt db).map
      (Except.map .task) id
  | claimTask workerId now lease, db =>
    (TextExtraction.claimTask workerId now lease db).map (Except.map .claimed) id
  | renewLease taskId workerId now lease, db =>
    (TextExtraction.renewLease taskId workerId now lease db).map (fun held => .ok (.renewed held)) id
  | claimNextItem taskId workerId now, db =>
    (TextExtraction.claimNextItem taskId workerId now db).map (fun record => .ok (.item record)) id
  | finalizeItem taskId workerId position outcome error now, db =>
    (TextExtraction.finalizeItem taskId workerId position outcome error now db).map (Except.map .task) id
  | failTask taskId workerId error now, db =>
    (TextExtraction.failTask taskId workerId error now db).map (Except.map .task) id
  | maintainRetention now tombstone, db =>
    (TextExtraction.maintainRetention now tombstone db).map (fun counts => .ok (.maintained counts)) id

theorem Call.snd_perform {τ : Type} [LinearOrder τ] [VAdd ℤ τ] (c : Call τ) (db : Db τ) :
    (c.perform db).2 = c.exec db := by
  cases c <;> rfl

/-- The call on the stored database. -/
def Call.store : Call DateTime → Db Text → Except Exc (Answer DateTime) × Db Text
  | createTask taskId ownerId criteria model items createdAt expiresAt, db =>
    (Stored.createTask taskId ownerId criteria model items createdAt expiresAt db).map (Except.map .task) id
  | claimTask workerId now lease, db =>
    (Stored.claimTask workerId now lease db).map (Except.map .claimed) id
  | renewLease taskId workerId now lease, db =>
    (Stored.renewLease taskId workerId now lease db).map (Except.map .renewed) id
  | claimNextItem taskId workerId now, db =>
    (Stored.claimNextItem taskId workerId now db).map (Except.map .item) id
  | finalizeItem taskId workerId position outcome error now, db =>
    (Stored.finalizeItem taskId workerId position outcome error now db).map (Except.map .task) id
  | failTask taskId workerId error now, db =>
    (Stored.failTask taskId workerId error now db).map (Except.map .task) id
  | maintainRetention now tombstone, db =>
    (Stored.maintainRetention now tombstone db).map (Except.map .maintained) id

/-- The stored database after a sequence of calls on a fresh one. -/
def Stored.run (calls : List (Call DateTime)) : Db Text := calls.foldl (fun db c => (c.store db).2) Db.empty

theorem Stored.run_snoc (calls : List (Call DateTime)) (c : Call DateTime) :
    Stored.run (calls ++ [c]) = (c.store (Stored.run calls)).2 := by
  rw [Stored.run, Stored.run, List.foldl_append]
  rfl

/-! ### The instants behind the texts -/

/-- A datetime as a number of microseconds. -/
def timeline : DateTime ↪o ℤ where
  toFun d := d.instant
  inj' _ _ h := DateTime.injective_of_fields (fun _ _ => DateTime.instant_lt) (Int.ofNat_inj.1 h)
  map_rel_iff' := Int.ofNat_le

/-- The texts and the instants of one database of datetimes. -/
def Db.Stores (texts : Db Text) (instants : Db ℤ) : Prop :=
  ∃ db : Db DateTime, texts = db.mapTime DateTime.stamp ∧ instants = db.mapTime timeline

/-- No datetime is at the instant. -/
def offCalendar (t : ℤ) : Bool :=
  !decide ((DateTime.dayLength : ℤ) ≤ t ∧ t < (maxOrdinal + 1) * DateTime.dayLength)

/-- The call computes an instant at which no datetime is. -/
def Call.overflows : Call DateTime → Bool
  | claimTask _ now lease | renewLease _ _ now lease => offCalendar (lease +ᵥ timeline now)
  | maintainRetention now tombstone => offCalendar (-tombstone +ᵥ timeline now)
  | _ => false

/-- What the `timedelta` sums raise. -/
def dateOverflow : Exc := .raised .overflowError "date value out of range"

/-- Adding a duration meets the calendar, or raises. -/
theorem add_cases (d : DateTime) (delta : ℤ) :
    (d.add delta = .error dateOverflow ∧ offCalendar (delta +ᵥ timeline d) = true) ∨
      ∃ sum, d.add delta = .ok sum ∧ offCalendar (delta +ᵥ timeline d) = false ∧
        delta +ᵥ timeline d = timeline sum := by
  have htime : delta +ᵥ timeline d = delta + d.instant := rfl
  cases h : d.add delta with
  | error e =>
    obtain ⟨rfl, hout⟩ := DateTime.add_eq_error_iff.1 h
    refine .inl ⟨rfl, ?_⟩
    rw [offCalendar, htime, decide_eq_false hout]
    rfl
  | ok sum =>
    have hsum := DateTime.add_eq_ok_iff.1 h
    have hin := (DateTime.ofInstant_isSome_iff sum.instant).1 (by simp)
    refine .inr ⟨sum, rfl, ?_, htime.trans hsum.symm⟩
    rw [offCalendar, htime, ← hsum, decide_eq_true (by exact_mod_cast hin)]
    rfl

/-- One call: it raises before it touches the database, or does to the texts what it does to the
instants, with the same answer. -/
theorem Call.store_refines (c : Call DateTime) {texts : Db Text} {instants : Db ℤ}
    (h : texts.Stores instants) :
    (c.overflows = true ∧ c.store texts = (.error dateOverflow, texts)) ∨
      (c.overflows = false ∧ (c.store texts).2.Stores ((c.mapTime timeline).perform instants).2 ∧
        (c.store texts).1.map (Answer.mapTime timeline) = ((c.mapTime timeline).perform instants).1) := by
  obtain ⟨db, rfl, rfl⟩ := h
  have hmap {α β : Type} (answer : Except Exc α) (g : α → β) (mk : α → Answer DateTime) (mk' : β → Answer ℤ)
      (hmk : ∀ a, (mk a).mapTime timeline = mk' (g a)) :
      (answer.map mk).map (Answer.mapTime timeline) = (answer.map g).map mk' := by
    cases answer with
    | error e => rfl
    | ok a => exact congrArg Except.ok (hmk a)
  cases c with
  | createTask taskId ownerId criteria model items createdAt expiresAt =>
    refine .inr ⟨rfl, ?_⟩
    simp only [store, Stored.createTask_stamp, mapTime, perform, createTask_mapTime, Prod.map]
    exact ⟨⟨_, rfl, rfl⟩, hmap _ _ _ _ fun _ => rfl⟩
  | claimTask workerId now lease =>
    rcases add_cases now lease with ⟨hadd, hoff⟩ | ⟨expiry, hadd, hoff, hexpiry⟩
    · refine .inl ⟨hoff, ?_⟩
      simp only [store, Stored.claimTask, hadd]
      rfl
    · refine .inr ⟨hoff, ?_⟩
      simp only [store, Stored.claimTask_stamp _ _ _ _ hadd, mapTime, perform, claimTask_eq, hexpiry,
        claimTaskUntil_mapTime, Prod.map]
      exact ⟨⟨_, rfl, rfl⟩, hmap _ _ _ _ fun _ => rfl⟩
  | renewLease taskId workerId now lease =>
    rcases add_cases now lease with ⟨hadd, hoff⟩ | ⟨expiry, hadd, hoff, hexpiry⟩
    · refine .inl ⟨hoff, ?_⟩
      simp only [store, Stored.renewLease, hadd]
      rfl
    · refine .inr ⟨hoff, ?_⟩
      simp only [store, Stored.renewLease_stamp _ _ _ _ _ hadd, mapTime, perform, renewLease_eq, hexpiry,
        renewLeaseUntil_mapTime, Prod.map]
      exact ⟨⟨_, rfl, rfl⟩, rfl⟩
  | claimNextItem taskId workerId now =>
    refine .inr ⟨rfl, ?_⟩
    simp only [store, Stored.claimNextItem_stamp, mapTime, perform, claimNextItem_mapTime, Prod.map]
    exact ⟨⟨_, rfl, rfl⟩, rfl⟩
  | finalizeItem taskId workerId position outcome error now =>
    refine .inr ⟨rfl, ?_⟩
    simp only [store, Stored.finalizeItem_stamp, mapTime, perform, finalizeItem_mapTime, Prod.map]
    exact ⟨⟨_, rfl, rfl⟩, hmap _ _ _ _ fun _ => rfl⟩
  | failTask taskId workerId error now =>
    refine .inr ⟨rfl, ?_⟩
    simp only [store, Stored.failTask_stamp, mapTime, perform, failTask_mapTime, Prod.map]
    exact ⟨⟨_, rfl, rfl⟩, hmap _ _ _ _ fun _ => rfl⟩
  | maintainRetention now tombstone =>
    rcases add_cases now (-tombstone) with ⟨hadd, hoff⟩ | ⟨cutoff, hadd, hoff, hcutoff⟩
    · refine .inl ⟨hoff, ?_⟩
      simp only [store, Stored.maintainRetention, hadd]
      rfl
    · refine .inr ⟨hoff, ?_⟩
      simp only [store, Stored.maintainRetention_stamp _ _ _ hadd, mapTime, perform,
        TextExtraction.maintainRetention, hcutoff, purgeAndDelete_mapTime, Prod.map]
      exact ⟨⟨_, rfl, rfl⟩, rfl⟩

/-- The reads of stored texts answer like those of the instants. -/
theorem Db.Stores.reads {texts : Db Text} {instants : Db ℤ} (h : texts.Stores instants) (taskId ownerId : String) :
    (Stored.getStatus taskId ownerId texts).map (Option.map (ExtractionTaskRecord.mapTime timeline)) =
        getStatus taskId ownerId instants ∧
      ((Stored.getResults taskId ownerId texts).map fun answer =>
          (answer.1.map (ExtractionTaskRecord.mapTime timeline),
            answer.2.map (ExtractionTaskItemRecord.mapTime timeline))) = getResults taskId ownerId instants ∧
      getRunningSummary ownerId texts = getRunningSummary ownerId instants := by
  obtain ⟨db, rfl, rfl⟩ := h
  rw [Stored.getStatus_stamp, Stored.getResults_stamp, getStatus_mapTime, getResults_mapTime,
    getRunningSummary_mapTime, getRunningSummary_mapTime]
  exact ⟨rfl, rfl, rfl⟩

/-- The calls that reach the database, over instants. -/
def timelineCalls (calls : List (Call DateTime)) : List (Call ℤ) :=
  (calls.filter fun c => !c.overflows).map (Call.mapTime timeline)

theorem stores_run (calls : List (Call DateTime)) :
    (Stored.run calls).Stores (Db.run (timelineCalls calls)) := by
  induction calls using List.reverseRecOn with
  | nil => exact ⟨Db.empty, rfl, rfl⟩
  | append_singleton calls c ih =>
    rw [Stored.run_snoc, timelineCalls, List.filter_append, List.map_append]
    rcases c.store_refines ih with ⟨hover, hstore⟩ | ⟨hin, hstore, -⟩
    · rw [hstore, List.filter_cons_of_neg (by simp [hover]), List.filter_nil, List.map_nil, List.append_nil]
      exact ih
    · rw [List.filter_cons_of_pos (by simp [hin])]
      simp only [List.filter_nil, List.map_cons, List.map_nil, Db.run_snoc]
      rw [Call.snd_perform] at hstore
      exact hstore

/-- Whatever was called before, on any number of connections, the database of texts is the database of
instants written out; the next call does to it, and answers, what it does and answers over instants,
unless a sum leaves the calendar, and then it raises and changes nothing; and the reads agree. -/
theorem stored_repository_refines (calls : List (Call DateTime)) :
    (Stored.run calls).Stores (Db.run (timelineCalls calls)) ∧
      (∀ c : Call DateTime,
        if c.overflows then c.store (Stored.run calls) = (.error dateOverflow, Stored.run calls)
        else
          (c.store (Stored.run calls)).1.map (Answer.mapTime timeline) =
              ((c.mapTime timeline).perform (Db.run (timelineCalls calls))).1 ∧
            (c.store (Stored.run calls)).2.Stores
              ((c.mapTime timeline).perform (Db.run (timelineCalls calls))).2) ∧
      ∀ taskId ownerId,
        (Stored.getStatus taskId ownerId (Stored.run calls)).map
            (Option.map (ExtractionTaskRecord.mapTime timeline)) =
          getStatus taskId ownerId (Db.run (timelineCalls calls)) ∧
        ((Stored.getResults taskId ownerId (Stored.run calls)).map fun answer =>
            (answer.1.map (ExtractionTaskRecord.mapTime timeline),
              answer.2.map (ExtractionTaskItemRecord.mapTime timeline))) =
          getResults taskId ownerId (Db.run (timelineCalls calls)) ∧
        getRunningSummary ownerId (Stored.run calls) =
          getRunningSummary ownerId (Db.run (timelineCalls calls)) := by
  have hstores := stores_run calls
  refine ⟨hstores, fun c => ?_, hstores.reads⟩
  rcases c.store_refines hstores with ⟨hover, hstore⟩ | ⟨hin, hstore, hanswer⟩
  · rw [if_pos hover]
    exact hstore
  · rw [if_neg (by simp [hin])]
    exact ⟨hanswer, hstore⟩

end TextExtraction
