import VersionedTables.Proofs.Engine.Reachable
import VersionedTables.Proofs.Log.Growth

/-!
# The log of an engine is well formed

A change gets into the log as the commit of a submitted row set or out of a backup, and each of these ways
has checks of its own.  Behind either of them a change stands under its own version and key, and the rows
that are read back under it are as the change says: there are as many, they have its columns, each has an
id of its own and is stamped with the version, and each that does not delete is as wide as the headers.

* **`RowLog.Files`** — a change and its rows are on file as they should be.
* **`RowLog.Sound.files`** — in a sound log every change is.
* **`Engine.Reachable.log_well_formed`** — the log of an engine is well formed at any time.
-/

namespace VersionedTables

namespace RowLog

/-- A change is on file under its version of a table, and so are its rows. -/
structure Files (l : RowLog) (table : TableId) (c : Change) (s : RowSet) : Prop where
  change : l.change table c.version = .ok c
  ofTable : c.table = table
  contentKey : c.contentKey = ⟨table, c.version⟩
  rowSet : l.rowSet table c.version = .ok s
  rowsOfTable : s.table = table
  nonempty : s.rows ≠ []
  rowCount : c.rowCount.toNat = s.rows.length
  columns : c.columns = s.headers
  headers : s.headers.Nodup
  stamped : ∀ r ∈ s.rows, r.rowId.isSome ∧ r.version = some c.version
  distinct : s.rows.Pairwise (fun a b => a.rowId ≠ b.rowId)
  /-- Every row that does not delete has a value for each header, and there are headers. -/
  width : ∀ r ∈ s.rows, r.isDeletion = false →
    r.values.length = s.headers.length ∧ s.headers ≠ []
  bounds : ∀ least ∈ c.minRowId, ∀ greatest ∈ c.maxRowId, least ≤ greatest

end RowLog

/-- Rows that all have ids, no id twice, have different ids. -/
theorem RowSet.pairwise_of_nodup {s : RowSet} (hids : s.rowIds.Nodup)
    (hsome : ∀ r ∈ s.rows, r.rowId.isSome) : s.rows.Pairwise (fun a b => a.rowId ≠ b.rowId) := by
  have hpairs : s.rows.Pairwise
      (fun a b => ∀ id ∈ a.rowId, ∀ id' ∈ b.rowId, id ≠ id') := List.pairwise_filterMap.1 hids
  refine hpairs.imp_of_mem ?_
  intro a b ha _ hne heq
  obtain ⟨id, hid⟩ := Option.isSome_iff_exists.1 (hsome a ha)
  exact hne id hid id (heq ▸ hid) rfl

/-- A row that could have been committed is as wide as the headers unless it deletes. -/
theorem Row.Committed.width_of_not_isDeletion {r : Row} {version : Version} {headers : Nat}
    (h : r.Committed version headers) (hd : r.isDeletion = false) :
    r.values.length = headers ∧ headers ≠ 0 := by
  have hvalues : r.values ≠ [] := by
    intro hnil
    have hdeletes : r.isDeletion = true := Row.isDeletion_iff.2 ⟨h.hasId, hnil⟩
    rw [hd] at hdeletes
    cases hdeletes
  have hwidth := h.width.resolve_left hvalues
  refine ⟨hwidth, ?_⟩
  intro hzero
  exact hvalues (List.eq_nil_of_length_eq_zero (hwidth.trans hzero))

namespace RowLog

variable {l : RowLog} {table : TableId}

/-- **In a sound log every change is on file with its rows.** -/
theorem Sound.files (hl : l.Sound) {c : Change} (hc : c ∈ l.history table) :
    ∃ s, l.Files table c s := by
  obtain ⟨e, s, hentry, rfl, hholds⟩ := hl.entry?_of_mem_history hc
  have hd := hholds.describes
  have hchange : l.change table e.change.version = .ok e.change := by
    rw [change, change?, hentry]
    rfl
  refine ⟨s, hchange, hholds.ofTable, hholds.contentKey, rowSet_of_holds hentry hholds,
    hd.table.trans hholds.ofTable, hd.nonempty, hd.rowCount, hd.columns, hd.headers, ?_, ?_, ?_,
    hd.bounds⟩
  · intro r hr
    exact ⟨(hd.rows r hr).hasId, (hd.rows r hr).stamp⟩
  · exact RowSet.pairwise_of_nodup hd.rowIds (fun r hr => (hd.rows r hr).hasId)
  · intro r hr hdeletes
    obtain ⟨hwidth, hne⟩ := (hd.rows r hr).width_of_not_isDeletion hdeletes
    exact ⟨hwidth, fun hnil => hne (List.length_eq_zero_iff.2 hnil)⟩

/-- A version that is answered for is one of the history. -/
theorem Sound.of_change_eq_ok (hl : l.Sound) {v : Version} {c : Change}
    (h : l.change table v = .ok c) : c ∈ l.history table ∧ c.version = v := by
  unfold RowLog.change change? at h
  cases hentry : l.entry? table v with
  | none =>
      rw [hentry] at h
      cases h
  | some e =>
      rw [hentry] at h
      cases h
      obtain ⟨s, hholds⟩ := hl table v e hentry
      exact ⟨mem_history_iff.2 ⟨v, e, hentry, rfl⟩, hholds.ofVersion⟩

end RowLog

namespace Engine

/-- **The log of an engine is well formed at any time**, whatever was submitted to it and whatever backups
it was given, accepted or refused.  The versions of a table ascend; every change that is listed is on file
under its version with rows that it describes; and there are no answers for versions that are not listed. -/
theorem Reachable.log_well_formed {e : Engine} (h : e.Reachable) (table : TableId) :
    (e.ledger.log.history table).Pairwise (fun a b => a.version < b.version) ∧
      (∀ c ∈ e.ledger.log.history table, ∃ s, e.ledger.log.Files table c s) ∧
      ∀ v, (∀ c, e.ledger.log.change table v = .ok c →
          c ∈ e.ledger.log.history table ∧ c.version = v) ∧
        ∀ s, e.ledger.log.rowSet table v = .ok s →
          ∃ c ∈ e.ledger.log.history table, c.version = v := by
  have hl := h.sound.log
  obtain ⟨cs, hkeeps⟩ := hl.exists_keeps table
  refine ⟨?_, fun c hc => hl.files hc, fun v => ⟨fun c hc => hl.of_change_eq_ok hc, ?_⟩⟩
  · rw [hkeeps.history, List.pairwise_map]
    exact hkeeps.ascending
  · intro s hs
    obtain ⟨c, hc, -⟩ := Outcome.bind_eq_ok_iff.1 hs
    obtain ⟨hmem, hversion⟩ := hl.of_change_eq_ok hc
    exact ⟨c, hmem, hversion⟩

end Engine

namespace Sample

/-- A backup of which the second entry is refused, since its version is that of the first, and a row set
with an update and a new row. -/
def interruption : List Request :=
  [⟨.administrator 1, .unbound, 0, .restore [⟨table, 0, [⟨change, rows⟩, ⟨change, rows⟩]⟩]⟩,
    submit [.update 1 [some "y"], .new [some "z"]]]

def second : Change := ⟨table, 2, 2, some 2, some 2, [column.id], 1, 0, ⟨table, 2⟩⟩

end Sample

namespace Engine

/-- The first entry of the backup stays, and the row set is committed behind it. -/
theorem log_well_formed_interrupted :
    Reachable (run {} Sample.interruption).2 ∧
      (run {} Sample.interruption).1 = [.error (.restoredStale 1 Sample.table 1),
        .ok (.references ⟨Sample.table, 2, [Sample.column.id], [1, 2]⟩)] ∧
      (run {} Sample.interruption).2.ledger.log.history Sample.table =
        [Sample.change, Sample.second] ∧
      ∃ s, (run {} Sample.interruption).2.ledger.log.Files Sample.table Sample.second s := by
  have hreach : Reachable (run {} Sample.interruption).2 := .run (.start {} {}) _
  have hhistory : (run {} Sample.interruption).2.ledger.log.history Sample.table =
      [Sample.change, Sample.second] := rfl
  obtain ⟨-, hfiles, -⟩ := hreach.log_well_formed Sample.table
  refine ⟨hreach, rfl, hhistory, hfiles Sample.second ?_⟩
  rw [hhistory]
  exact List.mem_cons_of_mem _ (List.mem_singleton_self _)

end Engine

end VersionedTables
