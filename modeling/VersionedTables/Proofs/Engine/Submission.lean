import VersionedTables.Engine.Basic
import VersionedTables.Proofs.Log.Ledger

/-!
# Submitted row sets

A row set that is submitted to an engine is refused for want of access, for the schema of the table, by
the check or by the counters, or it is committed.  Whoever reasons about a submission goes through these
cases and no others.

* **`Engine.Submitted`** — everything that can become of a submitted row set.
* **`Engine.appendUnder_submitted`**, **`Engine.append_submitted`** — nothing else becomes of it.
-/

namespace VersionedTables

namespace Engine

/-- A question of access fails for want of access only. -/
theorem failsOnly_requireAccess (e : Engine) {p : Error → Prop} {caller : Caller} {table : TableId}
    {mode : AccessMode} (h : p (.accessDenied caller.userId mode table)) :
    Outcome.FailsOnly p (e.requireAccess caller table mode) :=
  .ite (Outcome.failsOnly_ok ()) (Outcome.failsOnly_error h)

/-- Everything that can become of a row set that is submitted to a table: what is answered, and the
engine behind it. -/
inductive Submitted (e : Engine) (millis : UInt64) (caller : Caller) (table : TableId)
    (delta : RowSet) : Except Error RowReferences × Engine → Prop
  | denied {error : Error} (h : e.requireAccess caller table .update = .error error) :
      Submitted e millis caller table delta (.error error, e)
  | unresolved {error : Error} (h : Schema.columns e.catalog e.bindings table = .error error) :
      Submitted e millis caller table delta (.error error, e)
  | rejected {error : Error} {schema : List Column}
      (h : delta.check table schema (e.counter table).lastRowId = .error error) :
      Submitted e millis caller table delta (.error error, e)
  | exhausted {error : Error}
      (h : (e.counter table).reserve table delta.newRows = .error error) :
      Submitted e millis caller table delta (.error error, e.withLedger
        { e.ledger with counters := e.ledger.counters.insert table (e.counter table) })
  | committed {schema columns : List Column} {r : Reservation} {c : Counter} {rows : List Row}
      {references : RowReferences} {ledger : Ledger}
      (hs : delta.Acceptable table schema (e.counter table).lastRowId columns)
      (h : Ledger.Commits e.initial e.ledger caller.userId millis delta r c rows references ledger) :
      Submitted e millis caller table delta (.ok references, e.withLedger ledger)

variable {e : Engine}

theorem appendUnder_submitted (hl : e.ledger.Sound e.initial) (millis : UInt64) (caller : Caller)
    (table : TableId) (schema : List Column) (delta : RowSet) :
    e.Submitted millis caller table delta (e.appendUnder millis caller table schema delta) := by
  unfold appendUnder
  split
  · next error haccess => exact .denied haccess
  · rcases Ledger.append_cases hl caller.userId millis table schema delta with
      ⟨error, hcheck, h⟩ | ⟨columns, hs, ⟨error, hres, h⟩ | ⟨r, c, rows, refs, ledger, hc, h⟩⟩
    · rw [h]
      exact .rejected hcheck
    · rw [h]
      exact .exhausted hres
    · rw [h]
      exact .committed hs hc

theorem append_submitted (hl : e.ledger.Sound e.initial) (millis : UInt64) (caller : Caller)
    (table : TableId) (delta : RowSet) :
    e.Submitted millis caller table delta (e.append millis caller table delta) := by
  unfold append
  split
  · next error h =>
      cases haccess : e.requireAccess caller table .update with
      | error error' =>
          rw [haccess] at h
          cases h
          exact .denied haccess
      | ok u =>
          rw [haccess] at h
          exact .unresolved h
  · exact appendUnder_submitted hl millis caller table _ delta

end Engine

end VersionedTables
