import VersionedTables.Backup.Basic
import VersionedTables.Log.Ledger

/-!
# Restoring a history

The chunks of a backup are committed entry by entry to a table that has no history. The first chunk
or entry that is out of place, or that no commit could have made, ends the restoration; what was
committed before it stays.

* **`BackupChunk.restore`** — commits the chunks of a backup.
-/

namespace VersionedTables

namespace BackupChunk

def restoreEntry (initial : Counter) (table : TableId) (l : Ledger) (e : BackupEntry) :
    Except Error Ledger :=
  if e.change.table ≠ table then .error .foreignEntry
  else l.restore initial e.change e.rows

/-- Commits the entries of a chunk, counting them in. -/
def restoreEntries (initial : Counter) :
    List BackupEntry → RestoreSummary → Ledger → Except Error RestoreSummary × Ledger
  | [], summary, l => (.ok summary, l)
  | e :: es, summary, l =>
      match restoreEntry initial summary.table l e with
      | .error error => (.error error, l)
      | .ok l => restoreEntries initial es (summary.add e) l

/-- What is held before a chunk is restored: what the chunks before it held, or, for the first
chunk, nothing of a table that has no history. -/
def restoreStart (l : Ledger) (c : BackupChunk) (summary : Option RestoreSummary) :
    Except Error RestoreSummary :=
  match summary with
  | some summary => if summary.table = c.table then .ok summary else .error .mixedChunks
  | none =>
      if (l.log.latest? c.table).isSome then .error (.historyExists c.table)
      else .ok (.empty c.table)

/-- Refuses a chunk that is not in its place. -/
def checkPlace (c : BackupChunk) (expected : Nat) : Except Error Unit :=
  if c.sequence.toNat = expected then .ok () else .error (.chunkOutOfOrder c.sequence expected)

/-- Commits chunks, the first of which is to be in place `expected`. -/
def restoreChunks (initial : Counter) : List BackupChunk → Nat → Option RestoreSummary → Ledger →
    Except Error (Option RestoreSummary) × Ledger
  | [], _, summary, l => (.ok summary, l)
  | c :: cs, expected, summary, l =>
      match c.checkPlace expected >>= fun _ => c.restoreStart l summary with
      | .error error => (.error error, l)
      | .ok start =>
          match restoreEntries initial c.entries start l with
          | (.error error, l) => (.error error, l)
          | (.ok summary, l) => restoreChunks initial cs (expected + 1) (some summary) l

/-- Commits the chunks of a backup. Answers what they held, or nothing if there are none. -/
def restore (initial : Counter) (cs : List BackupChunk) (l : Ledger) :
    Except Error (Option RestoreSummary) × Ledger :=
  restoreChunks initial cs 0 none l

end BackupChunk

end VersionedTables
