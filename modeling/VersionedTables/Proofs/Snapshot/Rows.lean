import Mathlib.Data.List.Nodup
import VersionedTables.Proofs.Log.Check
import VersionedTables.SortedMap.Lemmas
import VersionedTables.Snapshot

/-!
# What one row set does to a snapshot

The rows of a row set are of different ids, so that each id is touched once at most and the order of
the rows does not matter.

* **`Snapshot.get?_write`** — the cells after some were written.
* **`Snapshot.rowAfter`** — what is left of a row when a row set touches it.
* **`Snapshot.get?_foldl_applyRow`** — the rows after a row set.
* **`Snapshot.foldl_applyRow_perm`** — the order of the rows does not matter.
-/

namespace VersionedTables

namespace Snapshot

/-! ### Cells -/

/-- The cell that a row of a row set has under a header, if it has one. -/
def cellOf? (headers : List ColumnId) (values : List (Option String)) (c : ColumnId) :
    Option (Option String) := (headers.zip values).lookup c

theorem get?_write {headers : List ColumnId} (hn : headers.Nodup) (values : List (Option String))
    (cells : SortedMap ColumnId (Option String)) (c : ColumnId) :
    (write headers values cells).get? c = (cellOf? headers values c).or (cells.get? c) := by
  induction headers generalizing values cells with
  | nil => rfl
  | cons h headers ih =>
      obtain ⟨hh, hn⟩ := List.nodup_cons.1 hn
      cases values with
      | nil => rfl
      | cons v values =>
          show (write headers values (cells.insert h v)).get? c = _
          rw [ih hn, SortedMap.get?_insert]
          by_cases hc : c = h
          · subst hc
            have hnone : cellOf? headers values c = none := by
              rw [cellOf?, List.lookup_eq_none_iff]
              intro p hp
              rw [bne_iff_ne]
              rintro rfl
              exact hh (List.of_mem_zip hp).1
            rw [hnone, if_pos rfl]
            simp [cellOf?]
          · have hne : (c == h) = false := by simpa using hc
            rw [if_neg hc]
            simp [cellOf?, List.lookup_cons, hne]

/-- Under every header a row has a cell, if it has as many values as there are headers. -/
theorem isSome_cellOf?_iff {headers : List ColumnId} {values : List (Option String)}
    (hl : values.length = headers.length) (c : ColumnId) :
    (cellOf? headers values c).isSome ↔ c ∈ headers := by
  induction headers generalizing values with
  | nil => simp [cellOf?]
  | cons h headers ih =>
      cases values with
      | nil => cases hl
      | cons v values =>
          have ih := ih (Nat.succ.inj hl)
          rw [cellOf?] at ih
          rw [cellOf?, List.zip_cons_cons, List.lookup_cons, List.mem_cons]
          by_cases hc : c = h
          · simp [hc]
          · have hne : (c == h) = false := by simpa using hc
            simp only [hne, hc, false_or]
            exact ih

/-! ### Rows -/

/-- Rows of different ids are told apart by their ids. -/
theorem eq_of_rowId_eq {rs : List Row} (hn : (rs.filterMap (·.rowId)).Nodup) {r r' : Row}
    (hr : r ∈ rs) (hr' : r' ∈ rs) {id : RowId} (h : r.rowId = some id)
    (h' : r'.rowId = some id) : r' = r := by
  induction rs with
  | nil => cases hr
  | cons a rs ih =>
      have hn' : (rs.filterMap (·.rowId)).Nodup :=
        hn.sublist (List.Sublist.filterMap _ (List.sublist_cons_self a rs))
      have hhead : a.rowId = some id → ∀ b ∈ rs, b.rowId ≠ some id := by
        intro ha b hb e
        rw [List.filterMap_cons_some ha] at hn
        exact (List.nodup_cons.1 hn).1 (List.mem_filterMap.2 ⟨b, hb, e⟩)
      rcases List.mem_cons.1 hr with rfl | hmem
      · rcases List.mem_cons.1 hr' with rfl | hmem'
        · rfl
        · exact absurd h' (hhead h r' hmem')
      · rcases List.mem_cons.1 hr' with rfl | hmem'
        · exact absurd h (hhead h' r hmem)
        · exact ih hn' hmem hmem'

/-- The cells of a row; a row that is not there has none. -/
def cellsOf (found : Option SnapshotRow) : SortedMap ColumnId (Option String) :=
  (found.map (·.values)).getD ∅

/-- What is left of a row when a row of a row set touches it. -/
def rowAfter (version : Version) (headers : List ColumnId) (r : Row)
    (found : Option SnapshotRow) : Option SnapshotRow :=
  if r.isDeletion then none
  else some ⟨version, write headers r.values (cellsOf found)⟩

section

variable {version : Version} {headers : List ColumnId}

theorem get?_applyRow (rows : SortedMap RowId SnapshotRow) (r : Row) (id : RowId) :
    (applyRow version headers rows r).get? id =
      if r.rowId = some id then rowAfter version headers r (rows.get? id) else rows.get? id := by
  unfold applyRow rowAfter cellsOf
  cases hr : r.rowId with
  | none => rfl
  | some id' =>
      by_cases hid : id' = id
      · subst hid
        by_cases hd : r.isDeletion = true
        · simp [hd, SortedMap.get?_erase]
        · simp [hd]
      · have hne : id ≠ id' := fun e => hid e.symm
        by_cases hd : r.isDeletion = true
        · simp [hd, hid, SortedMap.get?_erase, hne]
        · simp [hd, hid, SortedMap.get?_insert, hne]

/-- A row set leaves the rows that it does not touch. -/
theorem get?_foldl_applyRow_of_not_mem {rs : List Row} (rows : SortedMap RowId SnapshotRow)
    {id : RowId} (h : id ∉ rs.filterMap (·.rowId)) :
    (rs.foldl (applyRow version headers) rows).get? id = rows.get? id := by
  induction rs generalizing rows with
  | nil => rfl
  | cons r rs ih =>
      have hr : r.rowId ≠ some id := fun e => h (by simp [e])
      have hrs : id ∉ rs.filterMap (·.rowId) := by
        intro hmem
        obtain ⟨r', hr', he⟩ := List.mem_filterMap.1 hmem
        exact h (List.mem_filterMap.2 ⟨r', List.mem_cons_of_mem r hr', he⟩)
      rw [List.foldl_cons, ih _ hrs, get?_applyRow, if_neg hr]

/-- **The rows after a row set**: what a row of it leaves of the row that it touches. -/
theorem get?_foldl_applyRow {rs : List Row} (hn : (rs.filterMap (·.rowId)).Nodup)
    (rows : SortedMap RowId SnapshotRow) {r : Row} (hr : r ∈ rs) {id : RowId}
    (hid : r.rowId = some id) :
    (rs.foldl (applyRow version headers) rows).get? id =
      rowAfter version headers r (rows.get? id) := by
  induction rs generalizing rows with
  | nil => cases hr
  | cons r' rs ih =>
      rw [List.foldl_cons]
      rcases List.mem_cons.1 hr with rfl | hr
      · rw [List.filterMap_cons_some hid] at hn
        rw [get?_foldl_applyRow_of_not_mem _ (List.nodup_cons.1 hn).1, get?_applyRow, if_pos hid]
      · have hmem : id ∈ rs.filterMap (·.rowId) := List.mem_filterMap.2 ⟨r, hr, hid⟩
        have hne : r'.rowId ≠ some id := by
          intro e
          rw [List.filterMap_cons_some e] at hn
          exact (List.nodup_cons.1 hn).1 hmem
        have hn' : (rs.filterMap (·.rowId)).Nodup :=
          hn.sublist (List.Sublist.filterMap _ (List.sublist_cons_self r' rs))
        rw [ih hn' _ hr, get?_applyRow, if_neg hne]

/-- **The order of the rows of a row set does not matter.** -/
theorem foldl_applyRow_perm {rs rs' : List Row} (hn : (rs.filterMap (·.rowId)).Nodup)
    (hp : rs'.Perm rs) (rows : SortedMap RowId SnapshotRow) :
    rs'.foldl (applyRow version headers) rows = rs.foldl (applyRow version headers) rows := by
  have hids : (rs'.filterMap (·.rowId)).Perm (rs.filterMap (·.rowId)) := hp.filterMap _
  have hn' : (rs'.filterMap (·.rowId)).Nodup := hids.nodup_iff.2 hn
  refine SortedMap.ext_get? (fun id => ?_)
  by_cases hid : id ∈ rs.filterMap (·.rowId)
  · obtain ⟨r, hr, he⟩ := List.mem_filterMap.1 hid
    rw [get?_foldl_applyRow hn rows hr he, get?_foldl_applyRow hn' rows (hp.mem_iff.2 hr) he]
  · have hid' : id ∉ rs'.filterMap (·.rowId) := fun h => hid (hids.mem_iff.1 h)
    rw [get?_foldl_applyRow_of_not_mem rows hid, get?_foldl_applyRow_of_not_mem rows hid']

end

end Snapshot

end VersionedTables
