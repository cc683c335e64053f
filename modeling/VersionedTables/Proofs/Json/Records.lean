import VersionedTables.Log.Change
import VersionedTables.Proofs.Json.Lawful
import VersionedTables.Proofs.Uuid

/-!
# Lawful formats of the log

The names of tables and columns, rows and row sets are read back from their texts, and so are the
changes that record them.
-/

namespace VersionedTables

/-! ### Names -/

instance : SolidFormat TableId where
  canonical t := .string t.text
  read?_write t := by
    have hread : JsonFormat.read? (JsonFormat.write t.text) = some t.text := read?_write t.text
    have huuid : (Uuid.read? t.text).map TableId.mk = some t := by
      rw [TableId.text, Uuid.read?_text, Option.map_some]
    exact (congrArg (Option.bind · _) hread).trans huuid
  write_ne_null _ h := by cases h

instance : SolidFormat ColumnId where
  canonical c := .string c.text
  read?_write c := congrArg (Option.map ColumnId.mk) (read?_write c.text)
  write_ne_null _ h := by cases h

/-! ### Rows -/

instance : SolidFormat Row where
  canonical r := Json.canonical_record_zip (by simp [canonical])
  read?_write r := Json.read_record_zip (by decide) rfl (by simp)
  write_ne_null _ h := by cases h

instance : SolidFormat RowSet where
  canonical s := Json.canonical_record_zip (by simp [canonical])
  read?_write s := Json.read_record_zip (by decide) rfl (by simp)
  write_ne_null _ h := by cases h

/-! ### Changes -/

instance : SolidFormat ContentKey where
  canonical k := Json.canonical_record_zip (by simp [canonical])
  read?_write k := Json.read_record_zip (by decide) rfl (by simp)
  write_ne_null _ h := by cases h

instance : SolidFormat Change where
  canonical c := Json.canonical_record_zip (by simp [canonical])
  read?_write c := Json.read_record_zip (by decide) rfl (by simp)
  write_ne_null _ h := by cases h

end VersionedTables
