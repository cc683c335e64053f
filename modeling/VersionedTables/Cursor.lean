import VersionedTables.Log.Basic

/-!
# Cursors

A cursor is the place up to which a consumer has followed the changes of a table. It moves past a
change only when the consumer has taken it, so that no change is lost and none is handed out again.

* **`Cursor`** — the place.
* **`Cursor.poll`** — hands the changes behind the place to the consumer.
-/

namespace VersionedTables

/-- The place up to which a consumer has followed a table. -/
structure Cursor where
  table : TableId
  appliedVersion : Option Version
deriving DecidableEq

namespace Cursor

def start (table : TableId) : Cursor := ⟨table, none⟩

/-- Whether the consumer took a version already. -/
def passed (c : Cursor) (version : Version) : Bool := c.appliedVersion.any (version ≤ ·)

/-- What remains of a poll of `changes`. The consumer is a function of its own state; `count`
changes were taken before. -/
def pollAll {σ : Type} (log : RowLog) (consume : Change → RowSet → σ → Except Error Unit × σ) :
    List Change → Cursor → Nat → σ → Except Error Nat × Cursor × σ
  | [], c, count, s => (.ok count, c, s)
  | change :: changes, c, count, s =>
      if c.passed change.version then pollAll log consume changes c count s
      else
        match log.rowSet c.table change.version with
        | .error e => (.error e, c, s)
        | .ok rows =>
            match consume change rows s with
            | (.error e, s) => (.error e, c, s)
            | (.ok (), s) =>
                pollAll log consume changes { c with appliedVersion := some change.version }
                  (count + 1) s

/-- Hands every change behind the place to the consumer, in the order of the versions, until there
is none left or one is refused. Answers the number of changes that were taken. -/
def poll {σ : Type} (c : Cursor) (log : RowLog)
    (consume : Change → RowSet → σ → Except Error Unit × σ) (s : σ) :
    Except Error Nat × Cursor × σ :=
  pollAll log consume (log.history c.table) c 0 s

def fieldNames : List String := ["table_id", "applied_version"]

instance : JsonFormat Cursor where
  write c := .record (fieldNames.zip
    [JsonFormat.write c.table, JsonFormat.write c.appliedVersion])
  read? v := do
    let [table, version] ← v.slots? fieldNames | none
    return ⟨← table.required?, ← version.nullable?⟩

end Cursor

end VersionedTables
