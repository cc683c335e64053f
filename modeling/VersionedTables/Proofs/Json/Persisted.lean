import Mathlib.Tactic.SplitIfs
import VersionedTables.Cursor
import VersionedTables.Engine.Basic
import VersionedTables.Proofs.Column.Format
import VersionedTables.Proofs.SortedMap

/-!
# What is kept is read back

Everything that outlives an operation is kept or handed on as a text: the row sets of the log, backups,
snapshots and cursors, schemas and their changes, counters, reservations and settings.  The text of a value
is read back as the value, so that two values never have the same text.  Snapshots hold maps, which are
written as objects; a row is under its number, which is written as a key.

* **`Quoted.encode_ofList_of_digits`** — digits are a token as they are.
* **`RoundTrips`** — the texts of a type are read back.
* **`persisted_round_trip`** — everything that is kept is read back.
-/

namespace VersionedTables

/-! ### Counters and settings -/

instance : SolidFormat Reservation where
  canonical r := Json.canonical_record_zip (by simp [canonical])
  read?_write r := Json.read_record_zip (by decide) rfl (by simp)
  write_ne_null _ h := by cases h

instance : SolidFormat Counter where
  canonical c := Json.canonical_record_zip (by simp [canonical])
  read?_write c := Json.read_record_zip (by decide) rfl (by simp)
  write_ne_null _ h := by cases h

instance : SolidFormat Settings where
  canonical s := Json.canonical_record_zip (by simp)
  read?_write s := Json.read_record_zip (by decide) rfl (by simp)
  write_ne_null _ h := by cases h

/-! ### Schemas -/

instance : SolidFormat Etag where
  canonical e := .string e.text
  read?_write e := by
    have hread : JsonFormat.read? (JsonFormat.write e.text) = some e.text := read?_write e.text
    have huuid : (Uuid.read? e.text).map Etag.mk = some e := by
      rw [Etag.text, Uuid.read?_text, Option.map_some]
    exact (congrArg (Option.bind · _) hread).trans huuid
  write_ne_null _ h := by cases h

instance : SolidFormat Binding where
  canonical b := Json.canonical_record_zip (by simp [canonical])
  read?_write b := Json.read_record_zip (by decide) rfl (by simp)
  write_ne_null _ h := by cases h

instance : SolidFormat SchemaChange where
  canonical c := Json.canonical_record_zip (by simp [canonical])
  read?_write c := Json.read_record_zip (by decide) rfl (by simp)
  write_ne_null _ h := by cases h

/-! ### Backups and cursors -/

instance : SolidFormat BackupEntry where
  canonical e := Json.canonical_record_zip (by simp [canonical])
  read?_write e := Json.read_record_zip (by decide) rfl (by simp)
  write_ne_null _ h := by cases h

instance : SolidFormat BackupChunk where
  canonical c := Json.canonical_record_zip (by simp [canonical])
  read?_write c := Json.read_record_zip (by decide) rfl (by simp)
  write_ne_null _ h := by cases h

instance : SolidFormat Cursor where
  canonical c := Json.canonical_record_zip (by simp [canonical])
  read?_write c := Json.read_record_zip (by decide) rfl (by simp)
  write_ne_null _ h := by cases h

/-! ### Snapshots -/

namespace Quoted

/-- A digit stands for itself. -/
theorem encodeChar_of_isDigit {c : Char} (h : c.isDigit = true) : encodeChar c = [c] := by
  rcases encodeChar_cases c with ⟨l, -, hl, -⟩ | ⟨hlow, -⟩ | ⟨-, -, -, hc⟩
  · simp only [named?] at hl
    split_ifs at hl <;> cases hl <;> exact absurd h (by decide)
  · have hrange : '0'.toNat ≤ c.toNat := (Char.isDigit_iff_toNat.1 h).1
    have hzero : '0'.toNat = 48 := rfl
    omega
  · exact hc

/-- Digits are a token as they are. -/
theorem encode_ofList_of_digits {cs : List Char} (h : ∀ c ∈ cs, c.isDigit = true) :
    encode (String.ofList cs) = cs := by
  rw [encode, String.toList_ofList]
  induction cs with
  | nil => rfl
  | cons c cs ih =>
      obtain ⟨hc, hcs⟩ := List.forall_mem_cons.1 h
      rw [List.flatMap_cons, encodeChar_of_isDigit hc, ih hcs]
      rfl

end Quoted

namespace SnapshotRow

theorem canonical_writeCells (cells : SortedMap ColumnId (Option String)) :
    (writeCells cells).Canonical := by
  refine Json.canonical_record ?_
  intro f hf
  obtain ⟨c, -, rfl⟩ := List.mem_map.1 hf
  exact canonical c.2

theorem readCells?_writeCells (cells : SortedMap ColumnId (Option String)) :
    readCells? (writeCells cells) = some cells := by
  have hcell : ∀ c : ColumnId × Option String,
      readCell? (Quoted.encode c.1.text, JsonFormat.write c.2) = some c := by
    intro c
    simp [readCell?, Quoted.decode?_encode, read?_write]
  have hcells := mapM_map_eq_some hcell cells.toList
  rw [writeCells, Json.record, List.map_map, readCells?]
  exact (congrArg (Option.map SortedMap.ofList) hcells).trans (congrArg some cells.ofList_toList)

instance : SolidFormat SnapshotRow where
  canonical r := Json.canonical_record_zip (by simp [canonical_writeCells])
  read?_write r := Json.read_record_zip (by decide) rfl (by simp [readCells?_writeCells])
  write_ne_null _ h := by cases h

end SnapshotRow

namespace Snapshot

theorem canonical_writeRows (rows : SortedMap RowId SnapshotRow) : (writeRows rows).Canonical := by
  refine .object ?_ ?_
  · intro m hm
    obtain ⟨r, -, rfl⟩ := List.mem_map.1 hm
    exact ⟨String.ofList (Numeral.ofWord r.1),
      (Quoted.encode_ofList_of_digits (fun _ => Numeral.isDigit_of_mem_ofNat)).symm⟩
  · intro m hm
    obtain ⟨r, -, rfl⟩ := List.mem_map.1 hm
    exact canonical r.2

theorem readRows?_writeRows (rows : SortedMap RowId SnapshotRow) :
    readRows? (writeRows rows) = some rows := by
  have hrow : ∀ r : RowId × SnapshotRow,
      readRow? (Numeral.ofWord r.1, JsonFormat.write r.2) = some r := by
    intro r
    simp [readRow?, Json.wordOfToken?_ofWord, read?_write]
  have hrows := mapM_map_eq_some hrow rows.toList
  rw [writeRows, readRows?, hrows]
  exact congrArg some rows.ofList_toList

instance : SolidFormat Snapshot where
  canonical s := Json.canonical_record_zip (by simp [canonical, canonical_writeRows])
  read?_write s := Json.read_record_zip (by decide) rfl (by simp [readRows?_writeRows])
  write_ne_null _ h := by cases h

end Snapshot

/-! ### Everything that is kept -/

/-- The texts of a type are read back: a value is decoded from its text, no other value has this text, and
whatever text a value was decoded from, its own text is decoded as the same value. -/
structure RoundTrips (α : Type) [JsonFormat α] : Prop where
  decode?_encode (a : α) : JsonFormat.decode? (JsonFormat.encode a) = some a
  injective (a b : α) (h : JsonFormat.encode a = JsonFormat.encode b) : a = b
  settled (text : String) (a : α) (h : JsonFormat.decode? text = some a) :
    JsonFormat.decode? (JsonFormat.encode a) = JsonFormat.decode? (α := α) text

theorem roundTrips (α : Type) [JsonFormat α] [LawfulFormat α] : RoundTrips α where
  decode?_encode := JsonFormat.decode?_encode
  injective _ _ := JsonFormat.encode_injective
  settled _ a h := (JsonFormat.decode?_encode a).trans h.symm

/-- **Everything that is kept is read back.** -/
theorem persisted_round_trip :
    RoundTrips ColumnSpec ∧ RoundTrips Column ∧
    RoundTrips Row ∧ RoundTrips RowSet ∧ RoundTrips Change ∧
    RoundTrips BackupEntry ∧ RoundTrips BackupChunk ∧
    RoundTrips Snapshot ∧ RoundTrips Cursor ∧
    RoundTrips Binding ∧ RoundTrips SchemaChange ∧
    RoundTrips Reservation ∧ RoundTrips Counter ∧ RoundTrips Settings :=
  ⟨roundTrips _, roundTrips _, roundTrips _, roundTrips _, roundTrips _, roundTrips _, roundTrips _,
    roundTrips _, roundTrips _, roundTrips _, roundTrips _, roundTrips _, roundTrips _,
    roundTrips _⟩

end VersionedTables
