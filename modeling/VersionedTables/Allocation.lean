import VersionedTables.Settings
import VersionedTables.SortedMap.Basic

/-!
# Allocation of row ids and versions

Every table has a counter for its row ids and one for its versions. A reservation takes a stretch of
row ids and one version; what is taken is never given back, whether it is used or not.

* **`Counter`** — the counters of a table, **`Counter.reserve`**, **`Counter.advance`**.
* **`Reservation`** — what a reservation hands out, **`Reservation.rowIds`** — its row ids.
* **`Counters`** — the counters of all tables.
-/

namespace VersionedTables

/-- What a reservation hands out. -/
structure Reservation where
  minRowId : Option RowId
  maxRowId : Option RowId
  version : Version
  /-- The greatest row id that was handed out before; rows up to it may be updated. -/
  maxUpdateRowId : Option RowId
deriving DecidableEq

namespace Reservation

/-- The number of row ids, stopping at the greatest number. Bounds the wrong way round hold none. -/
def size (r : Reservation) : UInt64 :=
  match r.minRowId, r.maxRowId with
  | some a, some b => if a ≤ b then Bounded.ofNatSat (b.toNat - a.toNat + 1) else 0
  | _, _ => 0

def isEmpty (r : Reservation) : Bool := r.size = 0

/-- The first row id to be handed out and the number one past the last one, where the latter stops
at the greatest number. -/
def span (r : Reservation) : RowId × RowId :=
  match r.minRowId, r.maxRowId with
  | some a, some b => (a, Bounded.addSat b 1)
  | _, _ => (0, 0)

/-- The first `n` row ids, or all if there are fewer. -/
def firstRowIds (r : Reservation) (n : Nat) : List RowId :=
  (List.range (min n (r.span.2.toNat - r.span.1.toNat))).map
    (fun i => UInt64.ofNat (r.span.1.toNat + i))

def rowIds (r : Reservation) : List RowId :=
  r.firstRowIds (r.span.2.toNat - r.span.1.toNat)

def fieldNames : List String := ["min_row_id", "max_row_id", "version", "max_update_row_id"]

instance : JsonFormat Reservation where
  write r := .record (fieldNames.zip
    [JsonFormat.write r.minRowId, JsonFormat.write r.maxRowId, .word r.version,
     JsonFormat.write r.maxUpdateRowId])
  read? v := do
    let [least, greatest, version, update] ← v.slots? fieldNames | none
    return ⟨← least.nullable?, ← greatest.nullable?, ← version.required?, ← update.nullable?⟩

end Reservation

structure Counter where
  nextRowId : RowId
  nextVersion : Version
  /-- The greatest row id that was ever handed out or passed over. -/
  lastRowId : Option RowId
deriving DecidableEq

namespace Counter

/-- The counters of a table before anything is handed out. -/
def starting (firstRowId : RowId) (firstVersion : Version) : Counter :=
  ⟨firstRowId, firstVersion, none⟩

/-- The counters that the settings let every table start with. -/
def ofSettings (settings : Settings) : Counter :=
  starting settings.firstRowId settings.firstVersion

/-- Takes `count` row ids and one version. -/
def reserve (c : Counter) (table : TableId) (count : Nat) :
    Except Error (Reservation × Counter) :=
  match Bounded.add? c.nextVersion 1, Bounded.ofNat? (c.nextRowId.toNat + count) with
  | none, _ => .error (.versionsExhausted table)
  | _, none => .error (.rowIdsExhausted table)
  | some version, some rowId =>
      if count = 0 then
        .ok (⟨none, none, c.nextVersion, c.lastRowId⟩, { c with nextVersion := version })
      else
        .ok (⟨some c.nextRowId, some (rowId - 1), c.nextVersion, c.lastRowId⟩,
          ⟨rowId, version, some (rowId - 1)⟩)

/-- Raises the counters to at least the given numbers. Row ids that are passed over count as handed
out. -/
def advance (c : Counter) (rowId : RowId) (version : Version) : Counter :=
  let c := if c.nextRowId < rowId then
    { c with nextRowId := rowId, lastRowId := some (rowId - 1) } else c
  { c with nextVersion := max c.nextVersion version }

def fieldNames : List String := ["next_row_id", "next_version", "last_row_id"]

instance : JsonFormat Counter where
  write c := .record (fieldNames.zip
    [.word c.nextRowId, .word c.nextVersion, JsonFormat.write c.lastRowId])
  read? v := do
    let [rowId, version, last] ← v.slots? fieldNames | none
    return ⟨← rowId.required?, ← version.required?, ← last.nullable?⟩

end Counter

abbrev Counters := SortedMap TableId Counter

namespace Counters

/-- The counters of a table; they start at `initial`. -/
def current (cs : Counters) (table : TableId) (initial : Counter) : Counter :=
  (cs.get? table).getD initial

/-- Takes `count` row ids and one version of a table, whose counters start at `initial`. A table
that is asked for has counters from then on, also when the reservation is refused. -/
def reserve (cs : Counters) (table : TableId) (count : Nat) (initial : Counter) :
    Except Error Reservation × Counters :=
  let c := cs.current table initial
  match c.reserve table count with
  | .ok (r, c) => (.ok r, cs.insert table c)
  | .error e => (.error e, cs.insert table c)

def advance (cs : Counters) (table : TableId) (rowId : RowId) (version : Version)
    (initial : Counter) : Counter × Counters :=
  let c := (cs.current table initial).advance rowId version
  (c, cs.insert table c)

end Counters

end VersionedTables
