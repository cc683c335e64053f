import VersionedTables.Proofs.Engine.Acceptance
import VersionedTables.Proofs.Engine.Replay

/-!
# Which rows can be written again

A row may be updated or deleted when its id is not above the last one that was handed out or passed
over.  A restoration passes over the ids that it brings along, but only where they lie at or above the
counter: as long as no id at or above the first one of the engine was handed out or passed over, none
counts as handed out, and a row that is there cannot be touched.  Nor can one with the greatest id of
all, since the counter stops there.

* **`Counter.Sound.allocated_iff`** — which committed ids count as handed out.
* **`Engine.Rewrites`** — row sets that do nothing but delete or update one row.
* **`Engine.Reachable.append_rewrite`** — what becomes of them.
-/

namespace VersionedTables

/-- Which committed ids count as handed out: all but the greatest, as soon as the counter has
moved. -/
theorem Counter.Sound.allocated_iff {initial c : Counter} (h : initial.Sound c) {id : RowId}
    (hid : Bounded.addSat id 1 ≤ c.nextRowId) : RowId.Allocated c.lastRowId id ↔
      initial.nextRowId < c.nextRowId ∧ id.toNat < Bounded.greatest := by
  have htop := Bounded.toNat_le_greatest c.nextRowId
  have hone : (1 : UInt64).toNat = 1 := rfl
  rw [UInt64.le_iff_toNat_le, Bounded.toNat_addSat, hone] at hid
  -- As long as the counter has not moved, no last id is on record, whatever the log has.
  rcases h with ⟨hnone, hnext⟩ | ⟨hlt, hlast⟩
  · rw [RowId.Allocated, hnone, hnext]
    constructor
    · intro h
      obtain ⟨l, hl, -⟩ := h
      cases hl
    · intro h
      obtain ⟨hlt, -⟩ := h
      exact absurd hlt Std.lt_irrefl
  · have hpred := Counter.toNat_sub_one hlt
    rw [RowId.Allocated, hlast]
    rw [UInt64.lt_iff_toNat_lt] at hlt
    constructor
    · intro h
      obtain ⟨l, ⟨⟩, hle⟩ := h
      rw [UInt64.le_iff_toNat_le, hpred] at hle
      exact ⟨UInt64.lt_iff_toNat_lt.2 hlt, by omega⟩
    · intro h
      obtain ⟨-, hmax⟩ := h
      refine ⟨_, rfl, ?_⟩
      rw [UInt64.le_iff_toNat_le, hpred]
      omega

/-! ### Row sets of one row -/

/-- A row set that does nothing but delete the row `id` of a table, or update it under headers that
the schema has, with values that their columns admit. -/
structure RowSet.Rewrites (delta : RowSet) (table : TableId) (schema columns : List Column)
    (id : RowId) (r : Row) : Prop where
  table : delta.table = table
  rows : delta.rows = [r]
  rowId : r.rowId = some id
  headers : delta.headers.Nodup
  named : delta.headers.map (fun h => schema.find? (·.id = h)) = columns.map some
  fits : r.isDeletion = true ∨ r.Fits columns

namespace RowSet.Rewrites

variable {delta : RowSet} {table : TableId} {schema columns : List Column} {id : RowId} {r : Row}
  {last : Option RowId}

theorem rowIds (h : delta.Rewrites table schema columns id r) : delta.rowIds = [id] := by
  rw [RowSet.rowIds, h.rows, List.filterMap_cons_some h.rowId, List.filterMap_nil]

theorem newRows (h : delta.Rewrites table schema columns id r) : delta.newRows = 0 := by
  rw [RowSet.newRows, h.rows, List.countP_cons_of_neg (by simp [h.rowId]), List.countP_nil]

theorem acceptable (h : delta.Rewrites table schema columns id r)
    (hid : RowId.Allocated last id) : delta.Acceptable table schema last columns := by
  refine ⟨h.table, ?_, h.headers, h.named, ?_, ?_, ?_⟩
  · rw [h.rows]
    exact List.cons_ne_nil r []
  · rw [h.rowIds]
    exact List.nodup_singleton id
  · rw [h.rowIds]
    simpa using hid
  · rw [h.rows]
    simpa using h.fits

/-- A row set of one row whose id does not count as handed out is refused for that. -/
theorem check_eq_error (h : delta.Rewrites table schema columns id r)
    (hid : ¬RowId.Allocated last id) :
    delta.check table schema last = .error (.unallocatedRow id table) := by
  have hcolumns : columnsFor table schema [] delta.headers = .ok columns :=
    columnsFor_eq_ok_iff.2 ⟨⟨h.headers, by simp⟩, h.named⟩
  have hrow : checkRowId table last [] id = .error (.unallocatedRow id table) := by
    rw [checkRowId, if_pos]
    cases last with
    | none => rfl
    | some l =>
        have hle : ¬id ≤ l := fun hle => hid ⟨l, rfl, hle⟩
        simpa using hle
  have hrows : checkRows table columns last [] 0 delta.rows =
      .error (.unallocatedRow id table) := by
    rw [h.rows, checkRows, checkRow, h.rowId]
    show (checkRowId table last [] id >>= _) >>= _ = _
    rw [hrow]
    rfl
  unfold check
  rw [if_neg (fun hne => hne h.table), if_neg (by simp [h.rows]), hcolumns]
  exact hrows

end RowSet.Rewrites

namespace Ledger

variable {initial : Counter} {l : Ledger} {table : TableId} {schema columns : List Column}
  {delta : RowSet} {id : RowId} {r : Row}

/-- What is committed of a row set of one row: the row, under its id. -/
theorem append_of_rewrites (hl : l.Sound initial) (h : delta.Rewrites table schema columns id r)
    (hid : RowId.Allocated (l.counters.current table initial).lastRowId id)
    (hv : (l.counters.current table initial).nextVersion.toNat < Bounded.greatest)
    (user : UserId) (millis : UInt64) :
    (l.append initial user millis table schema delta).1 =
      .ok ⟨table, (l.counters.current table initial).nextVersion, delta.headers, [id]⟩ := by
  rcases append_cases hl user millis table schema delta with
    ⟨e, hcheck, -⟩ | ⟨columns', -, ⟨e, hres, -⟩ | ⟨res, c, rows, refs, l', hc, ha⟩⟩
  · rw [RowSet.check_eq_ok_iff.2 ⟨columns, h.acceptable hid⟩] at hcheck
    cases hcheck
  · rw [h.newRows] at hres
    have htop := Bounded.toNat_le_greatest (l.counters.current table initial).nextRowId
    rcases Counter.reserve_eq_error hres with ⟨-, hv'⟩ | ⟨-, hr'⟩
    · omega
    · omega
  · have ht := h.table
    subst ht
    have hlen := hc.reserves.length_rowIds
    rw [h.newRows] at hlen
    have hids : rows.filterMap (·.rowId) = [id] := by
      have hperm := hc.stamped.rowIds_perm
      rw [List.eq_nil_of_length_eq_zero hlen, List.append_nil] at hperm
      have hdelta : delta.rows.filterMap (·.rowId) = [id] := h.rowIds
      rw [hdelta] at hperm
      exact List.perm_singleton.1 hperm
    rw [ha, hc.references, hc.reserves.version, hids]

end Ledger

/-! ### Rows of an engine -/

namespace Engine

/-- A row set that does nothing but delete the row `id` of a table, or update it under headers that
are bound, with values that their columns admit. -/
structure Rewrites (e : Engine) (table : TableId) (id : RowId) (delta : RowSet) : Prop where
  ofTable : delta.table = table
  headers : delta.headers.Nodup
  bound : ∀ h ∈ delta.headers, h ∈ (e.bindings.current table).columns
  row : ∃ r, delta.rows = [r] ∧ r.rowId = some id ∧
    (r.values = [] ∨ (r.values.length = delta.headers.length ∧
      ∀ p ∈ delta.headers.zip r.values, ∀ column, e.catalog.get? p.1 = some column →
        column.spec.checkCell p.2 = .ok ()))

/-- A deletion of one row is such a row set. -/
theorem rewrites_delete (e : Engine) (table : TableId) (id : RowId) :
    e.Rewrites table id ⟨table, [], [.delete id]⟩ := by
  refine ⟨rfl, List.nodup_nil, ?_, .delete id, rfl, rfl, Or.inl rfl⟩
  intro h hmem
  cases hmem

/-- Under the schema of the table such a row set needs nothing but an id that was handed out. -/
theorem Rewrites.rowSet {e : Engine} {table : TableId} {id : RowId} {delta : RowSet}
    (h : e.Rewrites table id delta) {schema : List Column}
    (hschema : ∀ id ∈ (e.bindings.current table).columns, ∃ column,
      e.catalog.get? id = some column ∧ schema.find? (·.id = id) = some column) :
    ∃ columns r, delta.Rewrites table schema columns id r := by
  obtain ⟨r, hrows, hid, hvalues⟩ := h.row
  have hfound : ∀ c ∈ delta.headers, ∃ column,
      e.catalog.get? c = some column ∧ schema.find? (·.id = c) = some column :=
    fun c hc => hschema c (h.bound c hc)
  have hsome : ∀ c ∈ delta.headers, (schema.find? (·.id = c)).isSome := by
    intro c hc
    obtain ⟨column, -, hcolumn⟩ := hfound c hc
    exact Option.isSome_of_eq_some hcolumn
  have hnamed := Outcome.map_eq_map_some_filterMap _ delta.headers hsome
  refine ⟨_, r, h.ofTable, hrows, hid, h.headers, hnamed, ?_⟩
  by_cases hempty : r.values = []
  · exact Or.inl (Row.isDeletion_iff.2 ⟨by simp [hid], hempty⟩)
  · obtain ⟨hwidth, hcells⟩ := hvalues.resolve_left hempty
    have hlen := congrArg List.length hnamed
    rw [List.length_map, List.length_map] at hlen
    refine Or.inr ⟨?_, hwidth.trans hlen, ?_⟩
    · intro hnil
      rw [hnil, List.length_nil] at hlen
      rw [hlen] at hwidth
      exact hempty (List.eq_nil_of_length_eq_zero hwidth)
    · intro p hp
      obtain ⟨c, hc, hfind⟩ := Outcome.exists_mem_zip_of_mem_zip hnamed hp
      obtain ⟨column, hget, hfind'⟩ := hfound c (List.of_mem_zip hc).1
      rw [hfind] at hfind'
      cases hfind'
      exact hcells (c, p.2) hc p.1 hget

/-- A row that a replay shows stands in a committed row set. -/
theorem exists_rowSet_of_replay {e : Engine} (h : e.Reachable) {table : TableId} {s : Snapshot}
    (hs : e.replay table none = .ok s) {id : RowId} (hid : (s.rows.get? id).isSome) :
    ∃ v rs, e.ledger.log.rowSet table v = .ok rs ∧ id ∈ rs.rowIds := by
  obtain ⟨s', hreplay, -, htold⟩ := Snapshot.exists_replay h.sound.log table none
  have hsame := (hreplay _ (.refl _ table)).symm.trans hs
  cases hsame
  obtain ⟨v, rs, r, ⟨⟨hcommitted, hr, hrid⟩, -⟩, -⟩ := (htold.rows id).present.1 hid
  exact ⟨v, rs, hcommitted.1, List.mem_filterMap.2 ⟨r, hr, hrid⟩⟩

/-- What the last change of a table writes is there. -/
theorem exists_replay_of_entry {e : Engine} (h : e.Reachable) {entry : LogEntry} {rs : RowSet}
    {table : TableId} {v : Version} (hentry : e.ledger.log.entry? table v = some entry)
    (hholds : entry.Holds table v rs) (hlatest : e.ledger.log.latest? table = some v)
    {r : Row} (hr : r ∈ rs.rows) {id : RowId} (hid : r.rowId = some id)
    (hd : r.isDeletion = false) :
    ∃ s, e.replay table none = .ok s ∧ (s.rows.get? id).isSome := by
  have hl := h.sound.log
  obtain ⟨s, hreplay, -, htold⟩ := Snapshot.exists_replay hl table none
  refine ⟨s, hreplay _ (.refl _ table), (htold.rows id).present.2 ⟨v, rs, r, ⟨?_, ?_⟩, hd⟩⟩
  · exact ⟨⟨RowLog.rowSet_of_holds hentry hholds, fun u hu => by cases hu⟩, hr, hid⟩
  · intro v' rs' r' hm
    obtain ⟨e', he', -⟩ := hl.rowSet_eq_ok_iff.1 hm.1.1
    exact RowLog.le_of_latest? hlatest (Option.isSome_of_eq_some he')

/-- **What becomes of a row set that deletes or updates one row which is there**: it is committed if
the row ids of the table have got past the first one and the row has not the greatest id of all, and
else it is refused as if the id had never been handed out. -/
theorem Reachable.append_rewrite {e : Engine} (h : e.Reachable) {table : TableId} {s : Snapshot}
    (hs : e.replay table none = .ok s) {id : RowId} (hid : (s.rows.get? id).isSome)
    (caller : Caller) (hcaller : e.authority.allows caller table .update = true)
    (hversion : (e.counter table).nextVersion.toNat < Bounded.greatest) {delta : RowSet}
    (hdelta : e.Rewrites table id delta) (millis : UInt64) :
    (e.append millis caller table delta).1 =
      if e.settings.firstRowId < (e.counter table).nextRowId ∧ id.toNat < Bounded.greatest then
        .ok ⟨table, (e.counter table).nextVersion, delta.headers, [id]⟩
      else .error (.unallocatedRow id table) := by
  have hl := h.sound
  obtain ⟨v, rs, hrs, hmem⟩ := exists_rowSet_of_replay h hs hid
  have hallocated := (hl.counter table).allocated_iff (hl.rowId table v rs hrs id hmem)
  obtain ⟨schema, hcolumns, hschema⟩ := h.exists_columns table
  obtain ⟨columns, r, hrewrites⟩ := hdelta.rowSet hschema
  have happend : (e.append millis caller table delta).1 =
      (e.ledger.append e.initial caller.userId millis table schema delta).1 := by
    rw [append_eq_appendUnder hcaller hcolumns, appendUnder_eq hcaller]
  rw [happend]
  split
  · next hc => exact Ledger.append_of_rewrites hl hrewrites (hallocated.2 hc) hversion _ _
  · next hc =>
      have hcheck := hrewrites.check_eq_error (fun ha => hc (hallocated.1 ha))
      rw [Ledger.append, hcheck]

/-- Where the row of the sample is kept, it is shown. -/
theorem exists_replay_sample {e : Engine} (h : e.Reachable)
    (hentry : e.ledger.log.entry? Sample.table 1 =
      some ⟨Sample.change, JsonFormat.encode Sample.rows⟩)
    (hlatest : e.ledger.log.latest? Sample.table = some 1) :
    ∃ s, e.replay Sample.table none = .ok s ∧ (s.rows.get? 1).isSome := by
  have hholds : LogEntry.Holds ⟨Sample.change, JsonFormat.encode Sample.rows⟩ Sample.table 1
      Sample.rows := ⟨rfl, rfl, rfl, rfl, Change.checkRows_eq_ok_iff.1 rfl⟩
  exact exists_replay_of_entry h hentry hholds hlatest List.mem_cons_self rfl rfl

/-- The row of the small engine can be deleted. -/
theorem append_rewrite_deletion :
    Sample.engine.Reachable ∧ ∃ s,
      Sample.engine.replay Sample.table none = .ok s ∧ (s.rows.get? 1).isSome ∧
      Sample.engine.authority.allows (.administrator 1) Sample.table .update = true ∧
      (Sample.engine.counter Sample.table).nextVersion.toNat < Bounded.greatest ∧
      Sample.engine.Rewrites Sample.table 1 ⟨Sample.table, [], [.delete 1]⟩ ∧
      (Sample.engine.append 0 (.administrator 1) Sample.table
        ⟨Sample.table, [], [.delete 1]⟩).1 = .ok ⟨Sample.table, 2, [], [1]⟩ := by
  obtain ⟨s, hs, hid⟩ := exists_replay_sample Sample.reachable_engine rfl rfl
  have hdelta := rewrites_delete Sample.engine Sample.table 1
  have happend := Reachable.append_rewrite Sample.reachable_engine hs hid (.administrator 1) rfl
    (by decide) hdelta 0
  rw [if_pos (by decide)] at happend
  exact ⟨Sample.reachable_engine, s, hs, hid, rfl, by decide, hdelta, happend⟩

/-- Restored where row ids start above it, the row is there and can be neither updated nor
deleted. -/
theorem not_append_rewrite_elsewhere :
    ¬∀ e : Engine, e.Reachable → ∀ (table : TableId) (s : Snapshot) (id : RowId) (caller : Caller)
      (delta : RowSet) (millis : UInt64), e.replay table none = .ok s →
      (s.rows.get? id).isSome → e.authority.allows caller table .update = true →
      (e.counter table).nextVersion.toNat < Bounded.greatest → e.Rewrites table id delta →
      ∃ references, (e.append millis caller table delta).1 = .ok references := by
  intro hall
  obtain ⟨s, hs, hid⟩ := exists_replay_sample Sample.reachable_elsewhere rfl rfl
  have hdelta := rewrites_delete Sample.elsewhere Sample.table 1
  have herror : (Sample.elsewhere.append 0 (.administrator 1) Sample.table
      ⟨Sample.table, [], [.delete 1]⟩).1 = .error (.unallocatedRow 1 Sample.table) := rfl
  obtain ⟨references, hok⟩ := hall Sample.elsewhere Sample.reachable_elsewhere Sample.table s 1
    (.administrator 1) _ 0 hs hid rfl (by decide) hdelta
  rw [herror] at hok
  cases hok

end Engine

end VersionedTables
