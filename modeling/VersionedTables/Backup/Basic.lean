import VersionedTables.Log.Change

/-!
# Backups

A backup is the history of a table in chunks, numbered from zero. Each chunk holds some changes with
their rows.

* **`BackupEntry`** — a change with its rows.
* **`BackupChunk`** — a stretch of a history.
* **`RestoreSummary`** — what a restored backup held.
-/

namespace VersionedTables

structure BackupEntry where
  change : Change
  rows : RowSet
deriving DecidableEq, Inhabited

namespace BackupEntry

def rowCount (e : BackupEntry) : Nat := e.rows.rows.length

def fieldNames : List String := ["change", "rows"]

instance : JsonFormat BackupEntry where
  write e := .record (fieldNames.zip [JsonFormat.write e.change, JsonFormat.write e.rows])
  read? v := do
    let [change, rows] ← v.slots? fieldNames | none
    return ⟨← change.required?, ← rows.required?⟩

end BackupEntry

/-- A stretch of the history of a table. -/
structure BackupChunk where
  table : TableId
  /-- The place of the chunk in the backup, from zero. -/
  sequence : UInt64
  entries : List BackupEntry
deriving DecidableEq, Inhabited

namespace BackupChunk

def rowCount (c : BackupChunk) : Nat := c.entries.foldl (fun n e => n + e.rowCount) 0

def fieldNames : List String := ["table_id", "sequence", "entries"]

instance : JsonFormat BackupChunk where
  write c := .record (fieldNames.zip
    [JsonFormat.write c.table, .word c.sequence, JsonFormat.write c.entries])
  read? v := do
    let [table, sequence, entries] ← v.slots? fieldNames | none
    return ⟨← table.required?, ← sequence.required?, ← entries.required?⟩

end BackupChunk

/-- What a restored backup held. -/
structure RestoreSummary where
  table : TableId
  versions : UInt64
  rows : UInt64
  latestVersion : Option Version
deriving DecidableEq

namespace RestoreSummary

def empty (table : TableId) : RestoreSummary := ⟨table, 0, 0, none⟩

def add (s : RestoreSummary) (e : BackupEntry) : RestoreSummary where
  table := s.table
  versions := Bounded.addSat s.versions 1
  rows := Bounded.ofNatSat (s.rows.toNat + e.rowCount)
  latestVersion := some e.change.version

def fieldNames : List String := ["table_id", "versions", "rows", "latest_version"]

instance : JsonFormat RestoreSummary where
  write s := .record (fieldNames.zip
    [JsonFormat.write s.table, .word s.versions, .word s.rows, JsonFormat.write s.latestVersion])
  read? v := do
    let [table, versions, rows, latest] ← v.slots? fieldNames | none
    return ⟨← table.required?, ← versions.required?, ← rows.required?, ← latest.nullable?⟩

end RestoreSummary

end VersionedTables
