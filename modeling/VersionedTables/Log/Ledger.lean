import VersionedTables.Allocation
import VersionedTables.Log.Basic
import VersionedTables.Log.Check

/-!
# Committing

The ledger is the log with the counters that number what goes into it. A submitted row set is
checked, then numbered, then written; a change of another log is checked and written as it is, and
the counters pass over its numbers.

* **`Ledger`** — the log and the counters.
* **`Ledger.append`** — commits a submitted row set.
* **`Ledger.restore`** — commits a change of another log.
-/

namespace VersionedTables

/-- The log and the counters that number its changes. -/
structure Ledger where
  log : RowLog := ∅
  counters : Counters := ∅
deriving DecidableEq, Inhabited

namespace RowSet

/-- Stamps rows with a version and gives the new ones the ids `fresh`, in order. -/
def stampRows (version : Version) : List RowId → List Row → Except Error (List Row)
  | _, [] => .ok []
  | fresh, r :: rows =>
      match r.rowId, fresh with
      | some _, fresh =>
          (stampRows version fresh rows).map ({ r with version := some version } :: ·)
      | none, [] => .error .reservationTooSmall
      | none, id :: fresh =>
          (stampRows version fresh rows).map
            ({ r with rowId := some id, version := some version } :: ·)

/-- The row set as a reservation lets it be committed. -/
def stamped (s : RowSet) (r : Reservation) : Except Error RowSet :=
  (stampRows r.version r.rowIds s.rows).map (fun rows => { s with rows })

end RowSet

namespace Change

/-- The change that commits a row set under a reservation, at the time `millis`. -/
def ofRowSet (s : RowSet) (r : Reservation) (user : UserId) (millis : UInt64) : Change where
  table := s.table
  version := r.version
  rowCount := Bounded.ofNatSat s.rows.length
  minRowId := r.minRowId
  maxRowId := r.maxRowId
  columns := s.headers
  createdBy := user
  createdOnMillis := millis
  contentKey := ⟨s.table, r.version⟩

/-- The change kept under the key that belongs to it. -/
def rekeyed (c : Change) : Change := { c with contentKey := ⟨c.table, c.version⟩ }

end Change

namespace Ledger

/-! ### Submitted row sets -/

/-- Commits a row set under a reservation. Answers what the writer is told. -/
def commit (l : RowLog) (s : RowSet) (r : Reservation) (user : UserId) (millis : UInt64) :
    Except Error (RowReferences × RowLog) := do
  let s ← s.stamped r
  let log ← l.commit (.ofRowSet s r user millis) (JsonFormat.encode s)
  return (⟨s.table, r.version, s.headers, s.rowIds⟩, log)

/-- Commits a row set that `user` submits at the time `millis` to a table of the given schema, whose
counters start at `initial`. A row set that is refused by the check takes no numbers; the numbers of
one that the log refuses are lost. -/
def append (l : Ledger) (initial : Counter) (user : UserId) (millis : UInt64) (table : TableId)
    (schema : List Column) (delta : RowSet) : Except Error RowReferences × Ledger :=
  match delta.check table schema (l.counters.current table initial).lastRowId with
  | .error e => (.error e, l)
  | .ok () =>
      match l.counters.reserve table delta.newRows initial with
      | (.error e, counters) => (.error e, { l with counters })
      | (.ok r, counters) =>
          match commit l.log delta r user millis with
          | .error e => (.error e, { l with counters })
          | .ok (references, log) => (.ok references, ⟨log, counters⟩)

/-! ### Changes of another log -/

/-- Refuses a version that is not above those of the table. -/
def checkNewer (l : RowLog) (c : Change) : Except Error Unit :=
  match l.latest? c.table with
  | some latest =>
      if c.version ≤ latest then .error (.restoredStale c.version c.table latest) else .ok ()
  | none => .ok ()

/-- The row id behind all that a change or its rows name, stopping at the greatest number. -/
def nextRowId (c : Change) (s : RowSet) : RowId :=
  match (s.rowIds ++ c.maxRowId.toList).max? with
  | some id => Bounded.addSat id 1
  | none => 0

/-- Commits a change of another log with its rows, under its own numbers, and raises the counters of
the table above them. -/
def restore (l : Ledger) (initial : Counter) (c : Change) (s : RowSet) : Except Error Ledger := do
  c.checkRows s
  checkNewer l.log c
  let log ← l.log.commit c.rekeyed (JsonFormat.encode s)
  let (_, counters) := l.counters.advance c.table (nextRowId c s) (Bounded.addSat c.version 1)
    initial
  return ⟨log, counters⟩

end Ledger

end VersionedTables
