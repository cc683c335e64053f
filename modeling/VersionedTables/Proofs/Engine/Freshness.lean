import VersionedTables.Proofs.Engine.Reachable
import VersionedTables.Proofs.Schema.Columns

/-!
# Every commit is new

A commit of a submitted row set takes a version above all versions of the table, and the rows that
come without an id get ids that no committed row has.  The counters see to it although they are kept
apart from the log, at the top of the numbers too: there a reservation is refused.

* **`RowReferences.Fresh`** — what is new about a commit.
* **`Engine.Reachable.perform_fresh`** — every commit is new, and none fails for a version that is
  taken.
-/

namespace VersionedTables

/-- The table and the row set that an operation submits, if it submits one. -/
def Operation.submitted? : Operation → Option (TableId × RowSet)
  | .append table delta => some (table, delta)
  | .appendUnder table _ delta => some (table, delta)
  | _ => none

/-- The ids that the new rows of a submitted row set were given. -/
def RowReferences.newIds (references : RowReferences) (delta : RowSet) : List RowId :=
  ((delta.rows.zip references.rowIds).filter (·.1.rowId.isNone)).map (·.2)

/-- What is new about a commit of `delta` to a table, of which the log was `l` before and is `l'`
behind it. -/
structure RowReferences.Fresh (references : RowReferences) (table : TableId) (delta : RowSet)
    (l l' : RowLog) : Prop where
  version : ∀ c ∈ l.history table, c.version < references.version
  committed : ∀ c ∈ l.history table, ∃ s, l.rowSet table c.version = .ok s ∧
    ∀ id ∈ references.newIds delta, id ∉ s.rowIds
  /-- No row that is updated or deleted at the same time has the id of a new row. -/
  updated : ∀ id ∈ references.newIds delta, id ∉ delta.rowIds
  distinct : (references.newIds delta).Nodup
  complete : (references.newIds delta).length = delta.newRows
  kept : ∀ p ∈ delta.rows.zip references.rowIds, ∀ id ∈ p.1.rowId, p.2 = id
  history : ∃ c, l'.history table = l.history table ++ [c] ∧ c.version = references.version
  rows : ∃ s, l'.rowSet table references.version = .ok s ∧ s.rowIds = references.rowIds ∧
    s.headers = delta.headers ∧ s.rows.map (·.values) = delta.rows.map (·.values)

namespace Ledger

/-- What is committed under a reservation is new. -/
theorem Commits.fresh {initial c : Counter} {l l' : Ledger} {user : UserId} {millis : UInt64}
    {table : TableId} {schema columns : List Column} {delta : RowSet} {r : Reservation}
    {rows : List Row} {references : RowReferences}
    (h : Commits initial l user millis delta r c rows references l') (hl : l.Sound initial)
    (hs : delta.Acceptable table schema (l.counters.current table initial).lastRowId columns) :
    references.Fresh table delta l.log l'.log := by
  have ht := hs.table
  subst ht
  have hc := hl.counter delta.table
  have hnew : references.newIds delta = r.rowIds := by
    rw [RowReferences.newIds, h.references]
    exact h.stamped.newIds_eq
  have hversion : references.version = r.version := by rw [h.references]
  have hlt : ∀ v, (l.log.entry? delta.table v).isSome → v < r.version :=
    fun _ hv => hl.lt_version h.reserves hv
  refine ⟨?_, ?_, ?_, ?_, ?_, ?_, ?_, ?_⟩
  · intro change hchange
    obtain ⟨e, s, he, -⟩ := hl.log.entry?_of_mem_history hchange
    rw [hversion]
    exact hlt change.version (by rw [he]; rfl)
  · intro change hchange
    obtain ⟨e, s, he, -, hs'⟩ := hl.log.entry?_of_mem_history hchange
    have hrowSet := RowLog.rowSet_of_holds he hs'
    refine ⟨s, hrowSet, ?_⟩
    intro id hid hmem
    rw [hnew] at hid
    exact Std.lt_irrefl (hl.lt_rowId h.reserves hrowSet hmem hid)
  · intro id hid hmem
    rw [hnew] at hid
    have hbelow := hs.lt_of_mem_rowIds hc hmem
    exact absurd hbelow (UInt64.not_lt.2 (h.reserves.mem_rowIds hid).1)
  · rw [hnew]
    exact h.reserves.nodup_rowIds
  · rw [hnew, h.reserves.length_rowIds]
  · rw [h.references]
    exact h.stamped.kept
  · refine ⟨_, RowLog.history_commit h.log hlt, ?_⟩
    rw [hversion]
    rfl
  · refine ⟨{ delta with rows }, ?_, ?_, rfl, h.stamped.map_values⟩
    · rw [hversion]
      exact h.rowSet_eq hl hs
    · rw [h.references]
      rfl

end Ledger

namespace Engine

variable {e : Engine} {r : Request} {table : TableId} {delta : RowSet}

def NotDatastore (error : Error) : Prop := error.kind ≠ .datastore

/-- What may become of a row set: it is committed as something new, or it is refused, and not for a
failure of the store. -/
def CommitsOrRefuses (e : Engine) (table : TableId) (delta : RowSet)
    (settled : Except Error RowReferences × Engine) : Prop :=
  (∃ references, settled.1 = .ok references ∧
    references.Fresh table delta e.ledger.log settled.2.ledger.log) ∨
  ∃ error, settled.1 = .error error ∧ NotDatastore error

theorem Submitted.fresh (hl : e.ledger.Sound e.initial) {millis : UInt64} {caller : Caller}
    {settled : Except Error RowReferences × Engine}
    (h : e.Submitted millis caller table delta settled) : e.CommitsOrRefuses table delta settled := by
  cases h with
  | denied h =>
      exact Or.inr ⟨_, rfl, e.failsOnly_requireAccess (by simp [NotDatastore, Error.kind]) _ h⟩
  | unresolved h =>
      have hunknown : ∀ id, NotDatastore (.unknownColumn id) := by simp [NotDatastore, Error.kind]
      exact Or.inr ⟨_, rfl, Catalog.failsOnly_resolve _ hunknown _ _ _ h⟩
  | @rejected error _ hcheck =>
      have hkind : error.kind = .invalidArgument := RowSet.failsOnly_check delta error hcheck
      exact Or.inr ⟨error, rfl, by simp [NotDatastore, hkind]⟩
  | @exhausted error hres =>
      refine Or.inr ⟨error, rfl, ?_⟩
      rcases Counter.reserve_eq_error hres with ⟨rfl, -⟩ | ⟨rfl, -⟩
      · simp [NotDatastore, Error.kind]
      · simp [NotDatastore, Error.kind]
  | committed hs hc => exact Or.inl ⟨_, rfl, hc.fresh hl hs⟩

theorem appendUnder_fresh (hl : e.ledger.Sound e.initial) (millis : UInt64) (caller : Caller)
    (table : TableId) (schema : List Column) (delta : RowSet) :
    e.CommitsOrRefuses table delta (e.appendUnder millis caller table schema delta) :=
  (appendUnder_submitted hl millis caller table schema delta).fresh hl

theorem append_fresh (hl : e.ledger.Sound e.initial) (millis : UInt64) (caller : Caller)
    (table : TableId) (delta : RowSet) :
    e.CommitsOrRefuses table delta (e.append millis caller table delta) :=
  (append_submitted hl millis caller table delta).fresh hl

/-- The answer to a request says what became of the row set. -/
theorem CommitsOrRefuses.conclude {settled : Except Error RowReferences × Engine}
    (h : e.CommitsOrRefuses table delta settled)
    (hperform : e.perform r = Engine.conclude .references settled) :
    (∃ references, (e.perform r).1 = .ok (.references references) ∧
      references.Fresh table delta e.ledger.log (e.perform r).2.ledger.log) ∨
    ∃ error, (e.perform r).1 = .error error ∧ error.kind ≠ .datastore := by
  rw [hperform]
  rcases h with ⟨references, hok, hfresh⟩ | ⟨error, herror, hne⟩
  · exact Or.inl ⟨references, by rw [Engine.conclude, hok]; rfl, hfresh⟩
  · exact Or.inr ⟨error, by rw [Engine.conclude, herror]; rfl, hne⟩

/-- **Every commit is new**: a submitted row set is committed under a version above all versions of
the table and with new ids for its new rows, or it is refused; it is never refused for a version that
is taken already. -/
theorem Reachable.perform_fresh (h : Reachable e)
    (hr : r.operation.submitted? = some (table, delta)) :
    (∃ references, (e.perform r).1 = .ok (.references references) ∧
      references.Fresh table delta e.ledger.log (e.perform r).2.ledger.log) ∨
    ∃ error, (e.perform r).1 = .error error ∧ error.kind ≠ .datastore := by
  cases hop : r.operation with
  | append table' delta' =>
      rw [hop] at hr
      cases hr
      refine (append_fresh h.sound r.millis r.caller table delta).conclude ?_
      rw [Engine.perform, hop]
  | appendUnder table' schema delta' =>
      rw [hop] at hr
      cases hr
      refine (appendUnder_fresh h.sound r.millis r.caller table schema delta).conclude ?_
      rw [Engine.perform, hop]
  | _ =>
      rw [hop] at hr
      cases hr

/-- A commit that updates one row and adds another: the new row gets the next id. -/
theorem perform_fresh_update_and_new :
    Sample.engine.Reachable ∧
    ∃ references delta,
      (Sample.submit [.update 1 [none], .new [some "y"]]).operation.submitted? =
        some (Sample.table, delta) ∧
      (Sample.engine.perform (Sample.submit [.update 1 [none], .new [some "y"]])).1 =
        .ok (.references references) ∧
      references.newIds delta = [2] ∧
      references.Fresh Sample.table delta Sample.engine.ledger.log
        (Sample.engine.perform
          (Sample.submit [.update 1 [none], .new [some "y"]])).2.ledger.log := by
  refine ⟨Sample.reachable_engine, ⟨Sample.table, 2, [Sample.column.id], [1, 2]⟩, _, rfl, rfl,
    rfl, ?_⟩
  rcases Reachable.perform_fresh Sample.reachable_engine
      (r := Sample.submit [.update 1 [none], .new [some "y"]]) rfl with
    ⟨references, hok, hfresh⟩ | ⟨error, herror, -⟩
  · cases hok
    exact hfresh
  · cases herror

end Engine

end VersionedTables
