import VersionedTables.Backup.Basic
import VersionedTables.Log.Basic

/-!
# Exporting a history

The history of a table is cut into chunks of at most so many rows, each as full as can be. A change
is never cut: one that has more rows makes a chunk of its own. Chunks are handed on one by one.

* **`BackupChunk.pack`** — the groups that changes are cut into.
* **`BackupChunk.exportWith`** — hands the chunks of a history to a consumer.
* **`BackupChunk.exportAll`** — the list of the chunks of a history.
-/

namespace VersionedTables

namespace BackupChunk

/-- Cuts entries into groups of at most `max` rows, or of one entry. The group that is being filled
holds the entries `current` with `count` rows. -/
def packAfter (max : Nat) (current : List BackupEntry) (count : Nat) :
    List BackupEntry → List (List BackupEntry)
  | [] => if current.isEmpty then [] else [current]
  | e :: es =>
      if !current.isEmpty && max < count + e.rowCount then
        current :: packAfter max [e] e.rowCount es
      else packAfter max (current ++ [e]) (count + e.rowCount) es

/-- Cuts entries into groups of at most `max` rows, or of one entry. -/
def pack (max : Nat) (entries : List BackupEntry) : List (List BackupEntry) :=
  packAfter max [] 0 entries

/-- The chunks of a table that groups of entries make, numbered from `n` on. -/
def number (table : TableId) (n : Nat) (groups : List (List BackupEntry)) : List BackupChunk :=
  (groups.zipIdx n).map (fun g => ⟨table, Bounded.ofNatSat g.2, g.1⟩)

/-- The entries of changes, up to the first one whose rows cannot be read, and why they cannot. -/
def readEntries (log : RowLog) (table : TableId) :
    List Change → List BackupEntry × Except Error Unit
  | [] => ([], .ok ())
  | c :: cs =>
      match log.rowSet table c.version with
      | .error e => ([], .error e)
      | .ok rows =>
          let (entries, outcome) := readEntries log table cs
          (⟨c, rows⟩ :: entries, outcome)

/-- The chunks of a history and whether they are all of it. Where rows cannot be read, the chunk
that is being filled is lost. -/
def chunks (log : RowLog) (table : TableId) (max : Nat) : List BackupChunk × Except Error Unit :=
  let (entries, outcome) := readEntries log table (log.history table)
  let all := number table 0 (pack max entries)
  match outcome with
  | .ok () => (all, .ok ())
  | .error e => (all.dropLast, .error e)

/-- Hands chunks to a consumer, which is a function of its own state, until it refuses one. -/
def deliver {σ : Type} (consume : BackupChunk → σ → Except Error Unit × σ) :
    List BackupChunk → σ → Except Error Unit × σ
  | [], s => (.ok (), s)
  | c :: cs, s =>
      match consume c s with
      | (.error e, s) => (.error e, s)
      | (.ok (), s) => deliver consume cs s

/-- Hands the chunks of a history to a consumer, one after the other. A chunk has at most `max` rows
or holds one change. Answers the number of chunks. -/
def exportWith {σ : Type} (log : RowLog) (table : TableId) (max : UInt64)
    (consume : BackupChunk → σ → Except Error Unit × σ) (s : σ) : Except Error Nat × σ :=
  if max = 0 then (.error .zeroChunkRows, s)
  else
    let (cs, outcome) := chunks log table max.toNat
    match deliver consume cs s with
    | (.error e, s) => (.error e, s)
    | (.ok (), s) => (outcome.map (fun _ => cs.length), s)

def exportAll (log : RowLog) (table : TableId) (max : UInt64) :
    Except Error (List BackupChunk) :=
  match exportWith log table max (fun c cs => (.ok (), cs ++ [c])) [] with
  | (.ok _, cs) => .ok cs
  | (.error e, _) => .error e

end BackupChunk

end VersionedTables
