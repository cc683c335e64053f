import Mathlib.Tactic.Tauto
import VersionedTables.Log.Check
import VersionedTables.Proofs.Outcome

/-!
# What the checks let through

Both checks of a row set go through its rows one by one and stop at the first wrong one. Here is what
they decide, said of the row set as a whole.

* **`RowSet.Acceptable`**, **`RowSet.check_eq_ok_iff`** — what a submitted row set has to be.
* **`RowSet.failsOnly_check`** — a refusal of a submitted row set says that the argument is wrong.
* **`Change.Describes`**, **`Change.checkRows_eq_ok_iff`** — what a row set of another log has to be.
-/

namespace VersionedTables

open Outcome

/-! ### Row sets of another log -/

/-- The row could have been committed under `version` with so many headers: it has an id, it is
stamped, and unless it deletes it has one value for each header. -/
structure Row.Committed (r : Row) (version : Version) (headers : Nat) : Prop where
  hasId : r.rowId.isSome
  stamp : r.version = some version
  /-- The row deletes, or has one value for each header. -/
  width : r.values = [] ∨ r.values.length = headers

structure Change.Describes (c : Change) (s : RowSet) : Prop where
  table : s.table = c.table
  nonempty : s.rows ≠ []
  rowCount : c.rowCount.toNat = s.rows.length
  columns : c.columns = s.headers
  bounds : ∀ least ∈ c.minRowId, ∀ greatest ∈ c.maxRowId, least ≤ greatest
  headers : s.headers.Nodup
  rowIds : s.rowIds.Nodup
  rows : ∀ r ∈ s.rows, r.Committed c.version s.headers.length

theorem Row.checkWidth_eq_ok_iff {r : Row} {label headers : Nat} :
    r.checkWidth label headers = .ok () ↔ headers ≠ 0 ∧ r.values.length = headers := by
  unfold Row.checkWidth
  split
  · next h => simp [h]
  · next h =>
      split
      · next hw => simp [hw]
      · next hw =>
          rw [ne_eq, Decidable.not_not] at hw
          simp [h, hw]

theorem Row.isDeletion_iff {r : Row} : r.isDeletion = true ↔ r.rowId.isSome ∧ r.values = [] := by
  simp [Row.isDeletion]

theorem Row.checkStamp_eq_ok_iff {r : Row} {id : RowId} {version : Version} :
    r.checkStamp id version = .ok () ↔ r.version = some version := by
  unfold Row.checkStamp
  exact guard_eq_ok_iff

theorem Row.checkCommitted_eq_ok_iff {r : Row} {version : Version} {headers index : Nat}
    {touched : List RowId} :
    r.checkCommitted version headers touched index = .ok () ↔
      r.Committed version headers ∧ ∀ id ∈ r.rowId, id ∉ touched := by
  unfold Row.checkCommitted
  split
  · next h =>
      simp only [reduceCtorEq, false_iff, not_and]
      intro hc
      have := hc.hasId
      simp [h] at this
  · next id h =>
      have hwidth : (if r.isDeletion then .ok () else r.checkWidth id.toNat headers) = .ok () ↔
          r.values = [] ∨ r.values.length = headers := by
        split
        · next hd => simp [(Row.isDeletion_iff.1 hd).2]
        · next hd =>
            rw [Row.isDeletion_iff] at hd
            have hne : r.values ≠ [] := fun e => hd ⟨by simp [h], e⟩
            have hlen : r.values.length = headers → headers ≠ 0 := by
              rintro rfl
              exact fun e => hne (List.length_eq_zero_iff.1 e)
            rw [Row.checkWidth_eq_ok_iff]
            tauto
      simp only [throw_bind_eq_ok_iff, check_bind_eq_ok_iff, Row.checkStamp_eq_ok_iff, hwidth, h,
        Option.mem_some_iff, forall_eq']
      constructor
      · intro h
        obtain ⟨hid, hs, hw⟩ := h
        exact ⟨⟨by simp [h], hs, hw⟩, hid⟩
      · intro h
        obtain ⟨⟨-, hs, hw⟩, hid⟩ := h
        exact ⟨hid, hs, hw⟩

theorem RowSet.checkCommitted_eq_ok_iff {version : Version} {headers index : Nat}
    {touched : List RowId} {rows : List Row} :
    RowSet.checkCommitted version headers touched index rows = .ok () ↔
      (∀ r ∈ rows, r.Committed version headers) ∧ (rows.filterMap (·.rowId)).Nodup ∧
        ∀ id ∈ rows.filterMap (·.rowId), id ∉ touched := by
  induction rows generalizing touched index with
  | nil => simp [RowSet.checkCommitted]
  | cons r rows ih =>
      rw [RowSet.checkCommitted, check_bind_eq_ok_iff, ih, Row.checkCommitted_eq_ok_iff]
      cases h : r.rowId with
      | none =>
          simp [h]
          tauto
      | some id =>
          simp [h]
          grind

theorem Change.checkBounds_eq_ok_iff {c : Change} :
    c.checkBounds = .ok () ↔
      ∀ least ∈ c.minRowId, ∀ greatest ∈ c.maxRowId, least ≤ greatest := by
  unfold Change.checkBounds
  split
  · next least greatest hl hg => 
      simp only [hl, hg, Option.mem_some_iff, forall_eq']
      split
      · next h => simpa using h
      · next h => simpa using h
  · next h =>
      simp only [true_iff]
      intro least hl greatest hg
      exact absurd hg (h least greatest hl)

/-- **A row set of another log is let through exactly if its change describes it.** -/
theorem Change.checkRows_eq_ok_iff {c : Change} {s : RowSet} :
    c.checkRows s = .ok () ↔ c.Describes s := by
  unfold Change.checkRows
  simp only [throw_bind_eq_ok_iff, check_bind_eq_ok_iff, Change.checkBounds_eq_ok_iff, ne_eq,
    not_not, List.isEmpty_iff]
  cases hr : Repeats.first? s.headers with
  | some header =>
      have hh : ¬s.headers.Nodup := by simp [← Repeats.first?_eq_none_iff, hr]
      constructor
      · intro h
        obtain ⟨-, -, -, -, -, h⟩ := h
        cases h
      · intro h
        exact absurd h.headers hh
  | none =>
      have hh : s.headers.Nodup := Repeats.first?_eq_none_iff.1 hr
      simp only [RowSet.checkCommitted_eq_ok_iff]
      constructor
      · intro h
        obtain ⟨ht, hn, hc, hcols, hb, hrows, hids, -⟩ := h
        exact ⟨ht, hn, hc, hcols, hb, hh, hids, hrows⟩
      · intro h
        exact ⟨h.table, h.nonempty, h.rowCount, h.columns, h.bounds, h.rows, h.rowIds, by simp⟩

/-! ### Submitted row sets -/

/-- The row has, one for one, values of the columns, and there are columns. -/
structure Row.Fits (r : Row) (columns : List Column) : Prop where
  nonempty : columns ≠ []
  width : r.values.length = columns.length
  cells : ∀ c ∈ columns.zip r.values, c.1.spec.checkCell c.2 = .ok ()

/-- The row id was handed out: it is not above the last one that was. -/
def RowId.Allocated (last : Option RowId) (id : RowId) : Prop := ∃ l ∈ last, id ≤ l

/-- The row set may be committed to a table of the given schema, of which its headers name
`columns` and of which row ids up to `last` were handed out. -/
structure RowSet.Acceptable (s : RowSet) (table : TableId) (schema : List Column)
    (last : Option RowId) (columns : List Column) : Prop where
  table : s.table = table
  nonempty : s.rows ≠ []
  headers : s.headers.Nodup
  named : s.headers.map (fun h => schema.find? (·.id = h)) = columns.map some
  rowIds : s.rowIds.Nodup
  allocated : ∀ id ∈ s.rowIds, RowId.Allocated last id
  rows : ∀ r ∈ s.rows, r.isDeletion = true ∨ r.Fits columns

theorem Row.checkCells_eq_ok_iff {r : Row} {label : Nat} {columns : List Column} :
    r.checkCells label columns = .ok () ↔ r.Fits columns := by
  unfold Row.checkCells
  rw [check_bind_eq_ok_iff, Row.checkWidth_eq_ok_iff, forM_eq_ok_iff, ne_eq,
    List.length_eq_zero_iff]
  constructor
  · intro h
    obtain ⟨⟨hn, hw⟩, hc⟩ := h
    exact ⟨hn, hw, hc⟩
  · intro h
    exact ⟨⟨h.nonempty, h.width⟩, h.cells⟩

theorem RowSet.columnsFor_eq_ok_iff {table : TableId} {schema : List Column}
    {seen headers : List ColumnId} {columns : List Column} :
    columnsFor table schema seen headers = .ok columns ↔
      (headers.Nodup ∧ ∀ h ∈ headers, h ∉ seen) ∧
        headers.map (fun h => schema.find? (·.id = h)) = columns.map some := by
  induction headers generalizing seen columns with
  | nil =>
      rw [columnsFor]
      cases columns with
      | nil => simp
      | cons c columns => simp
  | cons h headers ih =>
      rw [columnsFor]
      split
      · next hs => simp [hs]
      · next hs =>
          split
          · next hf =>
              cases columns with
              | nil => simp
              | cons c columns => simp [hf]
          · next c hf =>
              rw [map_eq_ok_iff]
              cases columns with
              | nil => simp
              | cons c' columns =>
                  simp only [ih, List.map_cons, hf, List.cons.injEq, Option.some.injEq,
                    List.nodup_cons, List.mem_cons]
                  grind

theorem RowSet.checkRowId_eq_ok_iff {table : TableId} {last : Option RowId}
    {touched : List RowId} {id : RowId} :
    checkRowId table last touched id = .ok () ↔ RowId.Allocated last id ∧ id ∉ touched := by
  unfold checkRowId RowId.Allocated
  cases last with
  | none => simp
  | some l =>
      by_cases h : id ≤ l
      · simp [h]
      · simp [h]

theorem RowSet.checkRow_eq_ok_iff {table : TableId} {columns : List Column} {last : Option RowId}
    {touched : List RowId} {index : Nat} {r : Row} :
    checkRow table columns last touched index r = .ok () ↔
      (∀ id ∈ r.rowId, RowId.Allocated last id ∧ id ∉ touched) ∧
        (r.isDeletion = true ∨ r.Fits columns) := by
  unfold checkRow
  cases h : r.rowId with
  | none =>
      have hd : r.isDeletion = false := by simp [Row.isDeletion, h]
      simp [Row.checkCells_eq_ok_iff, hd]
  | some id =>
      rw [check_bind_eq_ok_iff, checkRowId_eq_ok_iff]
      by_cases hd : r.isDeletion = true
      · simp [hd]
      · simp [hd, Row.checkCells_eq_ok_iff]

theorem RowSet.checkRows_eq_ok_iff {table : TableId} {columns : List Column}
    {last : Option RowId} {touched : List RowId} {index : Nat} {rows : List Row} :
    checkRows table columns last touched index rows = .ok () ↔
      ((rows.filterMap (·.rowId)).Nodup ∧ ∀ id ∈ rows.filterMap (·.rowId), id ∉ touched) ∧
        (∀ id ∈ rows.filterMap (·.rowId), RowId.Allocated last id) ∧
        ∀ r ∈ rows, r.isDeletion = true ∨ r.Fits columns := by
  induction rows generalizing touched index with
  | nil => simp [checkRows]
  | cons r rows ih =>
      rw [checkRows, check_bind_eq_ok_iff, checkRow_eq_ok_iff, ih]
      cases h : r.rowId with
      | none =>
          simp [h]
          tauto
      | some id =>
          simp [h]
          grind

/-- **A submitted row set is let through exactly if it may be committed.** -/
theorem RowSet.check_eq_ok_iff {s : RowSet} {table : TableId} {schema : List Column}
    {last : Option RowId} :
    s.check table schema last = .ok () ↔ ∃ columns, s.Acceptable table schema last columns := by
  unfold RowSet.check
  simp only [throw_bind_eq_ok_iff, bind_eq_ok_iff, columnsFor_eq_ok_iff, checkRows_eq_ok_iff,
    ne_eq, not_not, List.isEmpty_iff]
  constructor
  · intro h
    obtain ⟨ht, hn, columns, ⟨⟨hh, -⟩, hc⟩, ⟨hids, -⟩, ha, hr⟩ := h
    exact ⟨columns, ht, hn, hh, hc, hids, ha, hr⟩
  · intro h
    obtain ⟨columns, h⟩ := h
    exact ⟨h.table, h.nonempty, columns, ⟨⟨h.headers, by simp⟩, h.named⟩,
      ⟨h.rowIds, by simp⟩, h.allocated, h.rows⟩

/-! ### Refusals of submitted row sets -/

def Error.IsArgument (e : Error) : Prop := e.kind = .invalidArgument

theorem ColumnSpec.failsOnly_checkCell (spec : ColumnSpec) (cell : Option String) :
    FailsOnly Error.IsArgument (spec.checkCell cell) := by
  cases cell with
  | none => exact failsOnly_ok ()
  | some value =>
      refine FailsOnly.bind ?_ (fun _ => ?_)
      · unfold ColumnSpec.checkText
        refine FailsOnly.ite (failsOnly_error rfl) ?_
        cases spec.maxSize with
        | none => exact failsOnly_ok ()
        | some limit => exact FailsOnly.ite (failsOnly_error rfl) (failsOnly_ok ())
      · unfold ColumnSpec.checkChoice
        cases spec.choices with
        | none => exact failsOnly_ok ()
        | some choices => exact FailsOnly.ite (failsOnly_ok ()) (failsOnly_error rfl)

theorem Row.failsOnly_checkCells (r : Row) (label : Nat) (columns : List Column) :
    FailsOnly Error.IsArgument (r.checkCells label columns) := by
  refine FailsOnly.bind ?_ (fun _ => FailsOnly.forM (fun c => ?_) _)
  · unfold Row.checkWidth
    exact FailsOnly.ite (failsOnly_error rfl)
      (FailsOnly.ite (failsOnly_error rfl) (failsOnly_ok ()))
  · exact ColumnSpec.failsOnly_checkCell c.1.spec c.2

namespace RowSet

variable {table : TableId} {schema : List Column} {last : Option RowId}

theorem failsOnly_columnsFor (seen headers : List ColumnId) :
    FailsOnly Error.IsArgument (columnsFor table schema seen headers) := by
  induction headers generalizing seen with
  | nil => exact failsOnly_ok []
  | cons h headers ih =>
      rw [columnsFor]
      refine FailsOnly.ite (failsOnly_error rfl) ?_
      cases schema.find? (·.id = h) with
      | none => exact failsOnly_error rfl
      | some c => exact (ih _).map

theorem failsOnly_checkRow (columns : List Column) (touched : List RowId) (index : Nat) (r : Row) :
    FailsOnly Error.IsArgument (checkRow table columns last touched index r) := by
  unfold checkRow
  cases r.rowId with
  | none => exact r.failsOnly_checkCells index columns
  | some id =>
      refine FailsOnly.bind ?_ (fun _ => ?_)
      · unfold checkRowId
        exact FailsOnly.ite (failsOnly_error rfl)
          (FailsOnly.ite (failsOnly_error rfl) (failsOnly_ok ()))
      · exact FailsOnly.ite (failsOnly_ok ()) (r.failsOnly_checkCells index columns)

theorem failsOnly_checkRows (columns : List Column) (touched : List RowId) (index : Nat)
    (rows : List Row) :
    FailsOnly Error.IsArgument (checkRows table columns last touched index rows) := by
  induction rows generalizing touched index with
  | nil => exact failsOnly_ok ()
  | cons r rows ih =>
      exact (failsOnly_checkRow columns touched index r).bind (fun _ => ih _ _)

/-- **A refusal of a submitted row set says that the argument is wrong.** -/
theorem failsOnly_check (s : RowSet) :
    FailsOnly Error.IsArgument (s.check table schema last) := by
  unfold check
  refine FailsOnly.ite (failsOnly_error rfl) (FailsOnly.ite (failsOnly_error rfl) ?_)
  exact (failsOnly_columnsFor [] s.headers).bind (fun columns =>
    failsOnly_checkRows columns [] 0 s.rows)

end RowSet

end VersionedTables
