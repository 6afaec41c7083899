import TextExtraction.ModelInvariant

/-!
# What the reads find

Under `Catalog.Inv` no read loses a row to its joins: `get` finds every version that is there, in the
same words after any later commit; `list_versions` is the whole history of a model in descending order,
and `resolve` without a version is the version of the last activation record.
-/

namespace TextExtraction

open Python Relational

variable {τ : Type} {runtime : Runtime}

namespace Catalog

variable {c c' : Catalog τ} {modelName : String} {version : ℤ} {record : ModelVersion τ}

/-! ### The joins -/

theorem joinVersion_eq_some_iff {v : ModelVersionRow τ} : c.joinVersion v = some record ↔
    ∃ m a, c.models.lookup v.normalizedName = some m ∧ c.artifacts.lookup v.artifactDigest = some a ∧
      record = rowToVersion m v a := by
  unfold joinVersion
  rcases c.models.lookup v.normalizedName with - | m
  · simp
  · rcases c.artifacts.lookup v.artifactDigest with - | a
    · simp
    · simp [eq_comm]

theorem Inv.exists_joinVersion (hinv : c.Inv) {v : ModelVersionRow τ} (hv : v ∈ c.versions.rows) :
    ∃ record, c.joinVersion v = some record ∧ record.version = v.version ∧ record.status = v.status ∧
      record.artifactDigest = v.artifactDigest := by
  obtain ⟨m, hm⟩ := Option.isSome_iff_exists.1 (hinv.model v hv)
  obtain ⟨a, ha⟩ := Option.isSome_iff_exists.1 (hinv.artifact v hv)
  exact ⟨rowToVersion m v a, joinVersion_eq_some_iff.2 ⟨m, a, hm, ha, rfl⟩, rfl, rfl, rfl⟩

theorem mem_versionQuery {p : ModelVersionRow τ → Bool} : record ∈ c.versionQuery p ↔
    ∃ v ∈ c.versions.rows, p v = true ∧ c.joinVersion v = some record := by
  simp [versionQuery, Table.select, and_assoc]

theorem Inv.map_version (hinv : c.Inv) (p : ModelVersionRow τ → Bool) :
    (c.versionQuery p).map ModelVersion.version = (c.versions.select p).map ModelVersionRow.version := by
  rw [versionQuery, List.map_filterMap, ← List.filterMap_eq_map]
  refine List.filterMap_congr fun v hv => ?_
  obtain ⟨record, hrecord, hversion, -⟩ := hinv.exists_joinVersion (List.mem_of_mem_filter hv)
  rw [hrecord]
  exact congrArg some hversion

/-! ### `get` -/

theorem versionQuery_key (normalizedName : String) (version : ℤ) :
    c.versionQuery (fun v => v.normalizedName = normalizedName ∧ v.version = version) =
      ((c.versions.lookup (normalizedName, version)).bind c.joinVersion).toList := by
  rw [versionQuery, Table.select_eq_lookup (k := (normalizedName, version))]
  · rcases hlookup : c.versions.lookup (normalizedName, version) with - | v
    · rfl
    · have hkey : v.key = (normalizedName, version) := Table.key_of_lookup hlookup
      obtain ⟨hname, hversion⟩ := Prod.mk.inj hkey
      rw [Option.filter_some, if_pos (by simp [hname, hversion])]
      rcases hjoin : c.joinVersion v with - | record <;> simp [hjoin]
  · intro v hv
    obtain ⟨hname, hversion⟩ := of_decide_eq_true hv
    exact Prod.ext hname hversion

theorem get_eq_ok_iff : c.get runtime modelName version = .ok record ↔ Bindable version ∧
    ∃ v, c.versions.lookup (runtime.normalizeName modelName, version) = some v ∧
      c.joinVersion v = some record := by
  rw [get, versionQuery_key, ← Option.bind_eq_some_iff]
  by_cases hbind : Bindable version
  · rw [if_neg (not_not.2 hbind)]
    rcases (c.versions.lookup (runtime.normalizeName modelName, version)).bind c.joinVersion with
      - | found
    · simp
    · simp [hbind]
  · simp [hbind]

theorem get_strip (runtime : Runtime) (modelName : String) (version : ℤ) (c : Catalog τ) :
    c.get runtime (strip modelName) version = c.get runtime modelName version := by
  have hname : runtime.normalizeName (strip modelName) = runtime.normalizeName modelName := by
    rw [Runtime.normalizeName, strip_strip]
    rfl
  rw [get, get, hname, strip_strip]

theorem Inv.bindable_version (hinv : c.Inv) {v : ModelVersionRow τ} (hv : v ∈ c.versions.rows) :
    Bindable v.version := by
  have hpos := hinv.positive v hv
  exact ⟨by omega, hinv.bindable v hv⟩

theorem Inv.exists_get (hinv : c.Inv) (runtime : Runtime) (modelName : String) {v : ModelVersionRow τ}
    (hv : v ∈ c.versions.rows) (hname : v.normalizedName = runtime.normalizeName modelName) :
    ∃ record, c.get runtime modelName v.version = .ok record ∧ c.joinVersion v = some record := by
  obtain ⟨record, hrecord, -⟩ := hinv.exists_joinVersion hv
  refine ⟨record, get_eq_ok_iff.2 ⟨hinv.bindable_version hv, v, ?_, hrecord⟩, hrecord⟩
  rw [← hname]
  exact Table.lookup_of_mem hv

/-- `get` gives the version it was asked for, which is active when it was activated last. -/
theorem Inv.get_status (hinv : c.Inv) (hget : c.get runtime modelName version = .ok record) :
    record.version = version ∧
      (record.status = .active ↔ c.lastActivated (runtime.normalizeName modelName) = some version) := by
  obtain ⟨-, v, hv, hjoin⟩ := get_eq_ok_iff.1 hget
  have hkey : v.key = (runtime.normalizeName modelName, version) := Table.key_of_lookup hv
  obtain ⟨hname, hversion⟩ := Prod.mk.inj hkey
  obtain ⟨m, a, -, -, rfl⟩ := joinVersion_eq_some_iff.1 hjoin
  refine ⟨hversion, ?_⟩
  rw [← hname, ← hversion]
  exact hinv.active v (Table.mem_of_lookup hv)

/-- A record that `get` has given it gives again, but for the status. -/
theorem Keeps.get (h : c.Keeps c') (hget : c.get runtime modelName version = .ok record) :
    ∃ status, c'.get runtime modelName version = .ok { record with status } := by
  obtain ⟨hbind, v, hv, hjoin⟩ := get_eq_ok_iff.1 hget
  obtain ⟨m, a, hm, ha, rfl⟩ := joinVersion_eq_some_iff.1 hjoin
  obtain ⟨status, hstatus⟩ := h.versions v (Table.mem_of_lookup hv)
  refine ⟨status, get_eq_ok_iff.2 ⟨hbind, { v with status }, ?_, ?_⟩⟩
  · rw [← Table.key_of_lookup hv]
    exact Table.lookup_of_mem hstatus
  · exact joinVersion_eq_some_iff.2 ⟨m, a, h.models _ _ hm, h.artifacts _ _ ha, rfl⟩

/-! ### `list_versions` -/

/-- The history of a model is complete and strictly descending, and not found when there is none. -/
theorem Inv.listVersions (hinv : c.Inv) (runtime : Runtime) (modelName : String) :
    ((∃ message, c.listVersions runtime modelName = .error (.notFound message)) ∧
        ∀ version, c.versions.lookup (runtime.normalizeName modelName, version) = none) ∨
      ∃ records, c.listVersions runtime modelName = .ok records ∧ records ≠ [] ∧
        records.Pairwise (fun a b => b.version < a.version) ∧
        ∀ version, version ∈ records.map ModelVersion.version ↔
          (c.versions.lookup (runtime.normalizeName modelName, version)).isSome := by
  rcases hmodel : c.models.lookup (runtime.normalizeName modelName) with - | m
  · refine .inl ⟨⟨s!"Model '{strip modelName}' was not found", by simp only [Catalog.listVersions, hmodel]⟩,
      fun version => ?_⟩
    rw [← Option.not_isSome_iff_eq_none, Option.isSome_iff_exists]
    rintro ⟨v, hv⟩
    have hexists := hinv.model v (Table.mem_of_lookup hv)
    have hname : v.normalizedName = runtime.normalizeName modelName := congrArg Prod.fst (Table.key_of_lookup hv)
    rw [hname, hmodel] at hexists
    cases hexists
  refine .inr ⟨orderBy (fun record => -record.version)
    (c.versionQuery fun v => v.normalizedName = runtime.normalizeName modelName),
    by simp only [Catalog.listVersions, hmodel], ?_⟩
  have hperm := orderBy_perm (fun record : ModelVersion τ => -record.version)
    (c.versionQuery fun v => v.normalizedName = runtime.normalizeName modelName)
  have hmem (version : ℤ) : version ∈ (orderBy (fun record : ModelVersion τ => -record.version)
      (c.versionQuery fun v => v.normalizedName = runtime.normalizeName modelName)).map
        ModelVersion.version ↔
      (c.versions.lookup (runtime.normalizeName modelName, version)).isSome := by
    rw [(hperm.map _).mem_iff, hinv.map_version, Option.isSome_iff_exists]
    simp only [Table.lookup_eq_some_iff, List.mem_map, Table.select, List.mem_filter, decide_eq_true_eq,
      ModelVersionRow.key, Prod.mk.injEq]
    constructor
    · rintro ⟨v, ⟨hv, hname⟩, hversion⟩
      exact ⟨v, hv, hname, hversion⟩
    · rintro ⟨v, hv, hname, hversion⟩
      exact ⟨v, ⟨hv, hname⟩, hversion⟩
  refine ⟨?_, ?_, hmem⟩
  · obtain ⟨v, hv, hname⟩ := hinv.version m (Table.mem_of_lookup hmodel)
    have hversion := (hmem v.version).2 (by
      rw [← Table.key_of_lookup hmodel, ← hname]
      exact Option.isSome_iff_exists.2 ⟨v, Table.lookup_of_mem hv⟩)
    rintro hnil
    rw [hnil] at hversion
    simp at hversion
  · have hnodup : ((c.versionQuery fun v => v.normalizedName = runtime.normalizeName modelName).map
        ModelVersion.version).Nodup := by
      rw [hinv.map_version]
      refine List.Nodup.map_on ?_ (c.versions.nodup.of_map.filter _)
      intro v hv v' hv' hversion
      obtain ⟨hv, hname⟩ := List.mem_filter.1 hv
      obtain ⟨hv', hname'⟩ := List.mem_filter.1 hv'
      refine eq_of_key_eq c.versions.nodup hv hv' (Prod.ext ?_ hversion)
      exact (of_decide_eq_true hname).trans (of_decide_eq_true hname').symm
    have hsorted := orderBy_pairwise (fun record : ModelVersion τ => -record.version)
      (c.versionQuery fun v => v.normalizedName = runtime.normalizeName modelName)
    have hdistinct := List.pairwise_map.1 ((hperm.map ModelVersion.version).nodup_iff.2 hnodup)
    refine (hsorted.and hdistinct).imp ?_
    rintro a b ⟨hle, hne⟩
    omega

/-! ### `activation_history` and `resolve` -/

/-- The version column of the history is that of the records, in the order of their commits. -/
theorem Inv.map_activationHistory (hinv : c.Inv) (runtime : Runtime) (modelName : String) :
    (c.activationHistory runtime modelName).map ActivationRecord.version =
      (c.activations.filter fun a => a.normalizedName = runtime.normalizeName modelName).map
        ActivationRow.version := by
  have hsorted : (c.activations.filter fun a =>
      a.normalizedName = runtime.normalizeName modelName).Pairwise fun a b => a.id ≤ b.id :=
    ((List.pairwise_map.1 hinv.ids).imp le_of_lt).filter _
  rw [activationHistory, orderBy_of_pairwise hsorted, List.map_filterMap, ← List.filterMap_eq_map]
  refine List.filterMap_congr fun a ha => ?_
  obtain ⟨v, hv⟩ := Option.isSome_iff_exists.1 (hinv.activated a (List.mem_of_mem_filter ha))
  have hmodel := hinv.model v (Table.mem_of_lookup hv)
  rw [show v.normalizedName = a.normalizedName from congrArg Prod.fst (Table.key_of_lookup hv)] at hmodel
  obtain ⟨m, hm⟩ := Option.isSome_iff_exists.1 hmodel
  simp [hm]

theorem Inv.lastActivated_eq (hinv : c.Inv) (runtime : Runtime) (modelName : String) :
    ((c.activationHistory runtime modelName).getLast?).map ActivationRecord.version =
      c.lastActivated (runtime.normalizeName modelName) := by
  rw [← List.getLast?_map, hinv.map_activationHistory, List.getLast?_map]
  rfl

theorem Inv.active_unique (hinv : c.Inv) {u v : ModelVersionRow τ} (hu : u ∈ c.versions.rows)
    (hv : v ∈ c.versions.rows) (hname : u.normalizedName = v.normalizedName) (hactive : u.status = .active)
    (hactive' : v.status = .active) : u = v := by
  have hlast := (hinv.active u hu).1 hactive
  rw [hname, (hinv.active v hv).1 hactive'] at hlast
  exact eq_of_key_eq c.versions.nodup hu hv (Prod.ext hname (Option.some.inj hlast).symm)

theorem Inv.resolve_of_lastActivated (hinv : c.Inv)
    (h : c.lastActivated (runtime.normalizeName modelName) = some version) :
    ∃ record, c.resolve runtime modelName none = .ok record ∧
      c.get runtime modelName version = .ok record ∧ record.version = version ∧
        record.status = .active := by
  obtain ⟨a, ha, hname, rfl⟩ := mem_of_lastActivated h
  obtain ⟨v, hlookup⟩ := Option.isSome_iff_exists.1 (hinv.activated a ha)
  obtain ⟨hv, hkey⟩ := Table.lookup_eq_some_iff.1 hlookup
  obtain ⟨hvname, hversion⟩ : v.normalizedName = a.normalizedName ∧ v.version = a.version :=
    Prod.mk.inj hkey
  have hactive : v.status = .active := by
    rw [hinv.active v hv, hvname, hname, hversion]
    exact h
  obtain ⟨record, hget, hjoin⟩ := hinv.exists_get runtime modelName hv (hvname.trans hname)
  obtain ⟨record', hjoin', hrecord, hstatus, -⟩ := hinv.exists_joinVersion hv
  obtain rfl : record = record' := Option.some.inj (hjoin.symm.trans hjoin')
  refine ⟨record, ?_, hversion ▸ hget, hrecord.trans hversion, hstatus.trans hactive⟩
  have hmem : record ∈ c.versionQuery fun u =>
      u.normalizedName = runtime.normalizeName modelName ∧ u.status = .active :=
    mem_versionQuery.2 ⟨v, hv, by simp [hvname, hname, hactive], hjoin⟩
  rcases hquery : c.versionQuery fun u =>
      u.normalizedName = runtime.normalizeName modelName ∧ u.status = .active with - | ⟨first, rest⟩
  · rw [hquery] at hmem
    simp at hmem
  · -- any row the query selects is the one activated last
    obtain ⟨u, hu, hselected, hfirst⟩ := mem_versionQuery.1 (hquery ▸ List.mem_cons_self (a := first))
    obtain ⟨huname, huactive⟩ := of_decide_eq_true hselected
    obtain rfl : u = v := hinv.active_unique hu hv (huname.trans (hvname.trans hname).symm) huactive hactive
    obtain rfl : record = first := Option.some.inj (hjoin.symm.trans hfirst)
    simp only [resolve, hquery, List.head?_cons]

theorem Inv.exists_active_iff (hinv : c.Inv) (runtime : Runtime) (modelName : String) :
    (∃ v ∈ c.versions.rows, v.normalizedName = runtime.normalizeName modelName ∧ v.status = .active) ↔
      c.activationHistory runtime modelName ≠ [] := by
  have hlast := hinv.lastActivated_eq runtime modelName
  constructor
  · rintro ⟨v, hv, hname, hactive⟩ hnil
    rw [hnil, ← hname, (hinv.active v hv).1 hactive] at hlast
    simp at hlast
  · intro hne
    rw [List.getLast?_eq_some_getLast hne, Option.map_some] at hlast
    obtain ⟨record, -, hget, -, hstatus⟩ := hinv.resolve_of_lastActivated hlast.symm
    obtain ⟨-, v, hlookup, hjoin⟩ := get_eq_ok_iff.1 hget
    obtain ⟨m, a, -, -, rfl⟩ := joinVersion_eq_some_iff.1 hjoin
    exact ⟨v, Table.mem_of_lookup hlookup, congrArg Prod.fst (Table.key_of_lookup hlookup), hstatus⟩

/-- The last activation record is of the active version, which is what `resolve` finds. -/
theorem Inv.active_of_last (hinv : c.Inv) {last : ActivationRecord τ}
    (h : (c.activationHistory runtime modelName).getLast? = some last) :
    (∀ v ∈ c.versions.rows, v.normalizedName = runtime.normalizeName modelName → v.status = .active →
      v.version = last.version) ∧
    ∃ record, c.resolve runtime modelName none = .ok record ∧ record.version = last.version ∧
      record.status = .active := by
  have hlast := hinv.lastActivated_eq runtime modelName
  rw [h, Option.map_some] at hlast
  constructor
  · intro v hv hname hactive
    have hactivated := (hinv.active v hv).1 hactive
    rw [hname, ← hlast] at hactivated
    exact (Option.some.inj hactivated).symm
  · obtain ⟨record, hresolve, -, hversion, hstatus⟩ := hinv.resolve_of_lastActivated hlast.symm
    exact ⟨record, hresolve, hversion, hstatus⟩

theorem Inv.resolve_of_not_activated (hinv : c.Inv)
    (h : c.lastActivated (runtime.normalizeName modelName) = none) :
    c.resolve runtime modelName none =
      .error (.notFound s!"Model '{strip modelName}' has no active version") := by
  have hquery : (c.versionQuery fun u =>
      u.normalizedName = runtime.normalizeName modelName ∧ u.status = .active) = [] := by
    refine List.eq_nil_iff_forall_not_mem.2 fun record hrecord => ?_
    obtain ⟨u, hu, hselected, -⟩ := mem_versionQuery.1 hrecord
    obtain ⟨huname, huactive⟩ := of_decide_eq_true hselected
    have hlast := (hinv.active u hu).1 huactive
    rw [huname, h] at hlast
    simp at hlast
  simp only [resolve, hquery, List.head?_nil]

end Catalog

end TextExtraction
