import VersionedTables.Engine.Operation
import VersionedTables.Proofs.Backup.Restore
import VersionedTables.Proofs.Engine.Submission

/-!
# The engines that there can be

An engine starts without columns, schemas and rows, and from then on requests are performed and rights
are given or taken away.  Whatever is asked of it, its ledger makes a run of moves.

* **`Engine.Reachable`** — the engines that there can be.
* **`Engine.Moves`**, **`Engine.perform_moves`** — what a request can do to an engine.
* **`Engine.Reachable.sound`** — the ledger of an engine is sound at any time.
-/

namespace VersionedTables

namespace Engine

open Relation (ReflTransGen)

/-- An engine that there can be: requests were performed on it, refused ones included, and rights
were given and taken away. -/
inductive Reachable : Engine → Prop
  | start (settings : Settings) (authority : Authority) : Reachable { settings, authority }
  | perform {e : Engine} (r : Request) (h : Reachable e) : Reachable (e.perform r).2
  | authorize {e : Engine} (authority : Authority) (h : Reachable e) :
      Reachable { e with authority }

/-- What a request for an operation can do to an engine: it leaves the engine as it is, or it changes
one of the stores, or it removes everything if that is what was asked for. -/
inductive Moves (e : Engine) (operation : Operation) : Engine → Prop
  | stay : Moves e operation e
  | define (specs : List ColumnSpec) (columns : List Column)
      (h : specs.mapM (ColumnSpec.define e.settings) = .ok columns) :
      Moves e operation { e with catalog := columns.foldl Catalog.add e.catalog }
  | bind (fresh : Etag) (table : TableId) (ids : List ColumnId) (expected : Option Etag)
      (changed : Bool) (bindings : Bindings)
      (h : Schema.bind e.settings e.catalog fresh e.bindings table ids expected =
        .ok (changed, bindings)) :
      Moves e operation { e with bindings }
  | unbind (table : TableId) : Moves e operation (e.unbind table)
  | write (ledger : Ledger) (h : ReflTransGen (Ledger.Step e.initial) e.ledger ledger) :
      Moves e operation (e.withLedger ledger)
  | truncate (h : operation = .truncate) :
      Moves e operation { e with catalog := ∅, bindings := ∅, ledger := {} }

theorem Reachable.run {e : Engine} (h : Reachable e) (rs : List Request) :
    Reachable (e.run rs).2 := by
  induction rs generalizing e with
  | nil => exact h
  | cons r rs ih => exact ih (.perform r h)

/-! ### What the operations do -/

section

variable {α : Type} {e : Engine} {operation : Operation}

/-- An operation that is refused leaves the engine as it is. -/
theorem Moves.settle (answer : α → Answer) {outcome : Except Error (α × Engine)}
    (h : ∀ a e', outcome = .ok (a, e') → e.Moves operation e') :
    e.Moves operation (e.settle answer outcome).2 := by
  cases outcome with
  | error error => exact .stay
  | ok p => exact h p.1 p.2 rfl

theorem createColumn_moves {caller : Caller} {spec : ColumnSpec} {c : Column} {e' : Engine}
    (h : e.createColumn caller spec = .ok (c, e')) : e.Moves operation e' := by
  obtain ⟨⟨⟩, -, h⟩ := Outcome.bind_eq_ok_iff.1 h
  obtain ⟨c', hc, h⟩ := Outcome.bind_eq_ok_iff.1 h
  cases h
  have hcs : [spec].mapM (ColumnSpec.define e.settings) = .ok [c] := by
    rw [List.mapM_cons, hc]
    rfl
  exact .define [spec] [c] hcs

/-- To define columns is to add them to the catalog. -/
theorem createColumns_eq_ok {caller : Caller} {specs : List ColumnSpec} {cs : List Column}
    {e' : Engine} (h : e.createColumns caller specs = .ok (cs, e')) :
    specs.mapM (ColumnSpec.define e.settings) = .ok cs ∧
      e' = { e with catalog := cs.foldl Catalog.add e.catalog } := by
  obtain ⟨⟨⟩, -, h⟩ := Outcome.bind_eq_ok_iff.1 h
  obtain ⟨cs', hcs, h⟩ := Outcome.bind_eq_ok_iff.1 h
  cases h
  exact ⟨hcs, rfl⟩

theorem createColumns_moves {caller : Caller} {specs : List ColumnSpec} {cs : List Column}
    {e' : Engine} (h : e.createColumns caller specs = .ok (cs, e')) : e.Moves operation e' := by
  obtain ⟨hcs, rfl⟩ := createColumns_eq_ok h
  exact .define specs cs hcs

/-- To bind a table is to bind it in the bindings, for a caller who may update the table. -/
theorem bind_eq_ok_iff {fresh : Etag} {caller : Caller} {table : TableId} {ids : List ColumnId}
    {expected : Option Etag} {changed : Bool} {e' : Engine} :
    e.bind fresh caller table ids expected = .ok (changed, e') ↔
      e.authority.allows caller table .update = true ∧ ∃ bindings,
        Schema.bind e.settings e.catalog fresh e.bindings table ids expected =
          .ok (changed, bindings) ∧ e' = { e with bindings } := by
  rw [bind, Outcome.bind_eq_ok_iff]
  constructor
  · intro h
    obtain ⟨⟨⟩, haccess, h⟩ := h
    obtain ⟨⟨changed', bindings⟩, hb, h⟩ := Outcome.bind_eq_ok_iff.1 h
    cases h
    exact ⟨Outcome.guard_eq_ok_iff.1 haccess, bindings, hb, rfl⟩
  · intro h
    obtain ⟨haccess, bindings, hb, rfl⟩ := h
    exact ⟨(), Outcome.guard_eq_ok_iff.2 haccess,
      Outcome.bind_eq_ok_iff.2 ⟨(changed, bindings), hb, rfl⟩⟩

theorem bind_moves {fresh : Etag} {caller : Caller} {table : TableId} {ids : List ColumnId}
    {expected : Option Etag} {changed : Bool} {e' : Engine}
    (h : e.bind fresh caller table ids expected = .ok (changed, e')) : e.Moves operation e' := by
  obtain ⟨-, bindings, hb, rfl⟩ := bind_eq_ok_iff.1 h
  exact .bind fresh table ids expected changed bindings hb

/-- To change a schema is to bind the schema that the changes make. -/
theorem changeSchema_moves {fresh : Etag} {caller : Caller} {table : TableId}
    {changes : List SchemaChange} {expected : Option Etag} {binding : Binding} {e' : Engine}
    (h : e.changeSchema fresh caller table changes expected = .ok (binding, e')) :
    e.Moves operation e' := by
  obtain ⟨⟨⟩, -, h⟩ := Outcome.bind_eq_ok_iff.1 h
  obtain ⟨⟨binding', bindings⟩, ha, h⟩ := Outcome.bind_eq_ok_iff.1 h
  cases h
  obtain ⟨⟨⟩, -, ha⟩ := Outcome.bind_eq_ok_iff.1 ha
  obtain ⟨ids, -, ha⟩ := Outcome.bind_eq_ok_iff.1 ha
  obtain ⟨⟨changed, bindings'⟩, hb, ha⟩ := Outcome.bind_eq_ok_iff.1 ha
  cases ha
  exact .bind fresh table ids _ changed bindings hb

theorem truncate_moves {caller : Caller} {e' : Engine} (h : e.truncate caller = .ok e') :
    e.Moves .truncate e' := by
  unfold Engine.truncate at h
  split at h
  · cases h
    exact .truncate rfl
  · cases h

theorem reserve_moves (table : TableId) (count : Nat) :
    e.Moves operation (e.reserve table count).2 := by
  cases h : e.ledger.counters.reserve table count e.initial with
  | mk outcome counters =>
      have he : (e.reserve table count).2 = e.withLedger { e.ledger with counters } := by
        rw [reserve, h]
      rw [he]
      refine .write _ ?_
      cases outcome with
      | error error =>
          obtain ⟨-, rfl⟩ := Counters.reserve_eq_error h
          exact .single (.raise table _ (.refl _) id)
      | ok r =>
          obtain ⟨c, hc, rfl⟩ := Counters.reserve_eq_ok h
          exact .single (.raise table c hc.raised hc.sound)

theorem advance_moves (table : TableId) (rowId : RowId) (version : Version) :
    e.Moves operation (e.advance table rowId version).2 :=
  .write _ (.single (.raise table _ (Counter.raised_advance _ rowId version)
    (fun hs => Counter.sound_advance hs rowId version)))

theorem Submitted.moves (hl : e.ledger.Sound e.initial) {millis : UInt64} {caller : Caller}
    {table : TableId} {delta : RowSet} {settled : Except Error RowReferences × Engine}
    (h : e.Submitted millis caller table delta settled) : e.Moves operation settled.2 := by
  cases h with
  | denied | unresolved | rejected => exact .stay
  | exhausted => exact .write _ (.single (.raise table _ (.refl _) id))
  | committed hs hc => exact .write _ (.single (hc.step hl hs))

end

/-- **What a request can do to an engine.** -/
theorem perform_moves {e : Engine} (hl : e.ledger.Sound e.initial) (r : Request) :
    e.Moves r.operation (e.perform r).2 := by
  unfold perform
  cases r.operation with
  | createColumn spec => exact .settle _ (fun _ _ => createColumn_moves)
  | createColumns specs => exact .settle _ (fun _ _ => createColumns_moves)
  | bind table ids expected => exact .settle _ (fun _ _ => bind_moves)
  | changeSchema table changes expected => exact .settle _ (fun _ _ => changeSchema_moves)
  | unbind table => exact .unbind table
  | reserve table count => exact reserve_moves table count.toNat
  | advance table rowId version => exact advance_moves table rowId version
  | append table delta => exact (append_submitted hl r.millis r.caller table delta).moves hl
  | appendUnder table schema delta =>
      exact (appendUnder_submitted hl r.millis r.caller table schema delta).moves hl
  | restore chunks => exact .write _ (BackupChunk.restore_steps e.initial chunks e.ledger)
  | truncate =>
      refine .settle _ (fun _ _ h => ?_)
      obtain ⟨e', he, h⟩ := Outcome.map_eq_ok_iff.1 h
      cases h
      exact truncate_moves he
  | column | columns | listColumns | tableColumns | currentColumns | binding | schema
  | calculate | details | checkSchema | boundObjects | counter | rowSet | change | history
  | latest | replay | exportTable => exact .stay

/-! ### The ledger of an engine -/

/-- Whatever a request does, unless it removes everything the ledger makes a run of moves. -/
theorem Moves.steps {e e' : Engine} {operation : Operation} (h : e.Moves operation e')
    (ho : operation ≠ .truncate) : ReflTransGen (Ledger.Step e.initial) e.ledger e'.ledger := by
  cases h with
  | write ledger h => exact h
  | truncate h => exact absurd h ho
  | stay | define | bind | unbind => exact .refl

/-- Whatever a request does, the ledger stays sound. -/
theorem Moves.sound {e e' : Engine} {operation : Operation} (h : e.Moves operation e')
    (hl : e.ledger.Sound e.initial) : e'.ledger.Sound e'.initial := by
  cases h with
  | write ledger h => exact hl.steps h
  | truncate _ => exact Ledger.sound_empty rfl
  | stay | define | bind | unbind => exact hl

/-- **The ledger of an engine is sound at any time.** -/
theorem Reachable.sound {e : Engine} (h : Reachable e) : e.ledger.Sound e.initial := by
  induction h with
  | start settings authority => exact Ledger.sound_empty rfl
  | perform r _ ih => exact (perform_moves ih r).sound ih
  | authorize authority _ ih => exact ih

end Engine

/-! ### A small engine -/

namespace Sample

def table : TableId := ⟨.zero⟩

def annex : TableId := ⟨⟨1⟩⟩

def column : Column := ⟨⟨"a"⟩, { name := "a", type := .string }⟩

/-- An administrator's request to commit rows to the table. -/
def submit (rows : List Row) : Request :=
  ⟨.administrator 1, .unbound, 0, .appendUnder table [column] ⟨table, [column.id], rows⟩⟩

/-- An engine with one row, which has the id 1. -/
def engine : Engine := (({} : Engine).perform (submit [.new [some "x"]])).2

theorem reachable_engine : engine.Reachable := .perform _ (.start {} {})

def rows : RowSet := ⟨table, [column.id], [⟨some 1, some 1, [some "x"]⟩]⟩

def change : Change := ⟨table, 1, 1, some 1, some 1, [column.id], 1, 0, ⟨table, 1⟩⟩

/-- An engine of which row ids start at 100, where the row was restored from a backup. -/
def elsewhere : Engine :=
  (Engine.perform { settings := { firstRowId := 100 } }
    ⟨.administrator 1, .unbound, 0,
      .restore [⟨table, 0, [⟨change, rows⟩]⟩]⟩).2

theorem reachable_elsewhere : elsewhere.Reachable := .perform _ (.start _ {})

def remark : Column := ⟨⟨"b"⟩, { name := "b", type := .string }⟩

/-- An administrator's request to commit rows of which some of the two columns are given. -/
def revise (headers : List ColumnId) (rows : List Row) : Request :=
  ⟨.administrator 1, .unbound, 0, .appendUnder table [column, remark] ⟨table, headers, rows⟩⟩

/-- An engine with two rows, which have the ids 9 and 10.  One cell of the first is written again; the second
is deleted, and then only one cell of it is written. -/
def revised : Engine :=
  (Engine.run { settings := { firstRowId := 9 } }
    [revise [column.id, remark.id] [.new [some "x", some "y"], .new [none, some "z"]],
      revise [remark.id] [.update 9 [some "w"]],
      revise [column.id] [.delete 10],
      revise [column.id] [.update 10 [some "v"]]]).2

theorem reachable_revised : revised.Reachable := .run (.start _ {}) _

end Sample

end VersionedTables
