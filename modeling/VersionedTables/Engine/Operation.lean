import VersionedTables.Engine.Basic

/-!
# Runs of an engine

Everything that an engine can be asked to do is an operation. What the world has to supply, a stamp
that was never used before and the time, comes with each request, so that a run depends on nothing
but its requests.

* **`Operation`** — what an engine can be asked to do, **`Answer`** — what it answers.
* **`Request`** — an operation with its caller and what the world supplies.
* **`Engine.perform`**, **`Engine.run`** — one request, and a list of them.
-/

namespace VersionedTables

inductive Operation where
  | createColumn (spec : ColumnSpec)
  | createColumns (specs : List ColumnSpec)
  | column (id : ColumnId)
  /-- Look several columns up, one for one or sorted. -/
  | columns (ids : List ColumnId) (keepOrder : Bool)
  | listColumns (beginning : Option String) (limit offset : UInt64)
  | tableColumns (table : TableId)
  | currentColumns (table : TableId) (ids : List ColumnId)
  | binding (table : TableId)
  | schema (table : TableId)
  /-- Give a table a schema, if it still has the expected stamp. -/
  | bind (table : TableId) (ids : List ColumnId) (expected : Option Etag)
  | calculate (table : TableId) (changes : List SchemaChange)
  | changeSchema (table : TableId) (changes : List SchemaChange) (expected : Option Etag)
  | details (changes : List SchemaChange)
  | checkSchema (ids : List ColumnId)
  /-- List the tables that have one of some columns, or ever had one. -/
  | boundObjects (ids : List ColumnId) (currentOnly : Bool) (limit offset : UInt64)
  | unbind (table : TableId)
  | reserve (table : TableId) (count : UInt64)
  | counter (table : TableId)
  | advance (table : TableId) (rowId : RowId) (version : Version)
  | append (table : TableId) (delta : RowSet)
  | appendUnder (table : TableId) (schema : List Column) (delta : RowSet)
  | rowSet (table : TableId) (version : Version)
  | change (table : TableId) (version : Version)
  | history (table : TableId)
  | latest (table : TableId)
  | replay (table : TableId) (upTo : Option Version)
  | exportTable (table : TableId) (max : UInt64)
  | restore (chunks : List BackupChunk)
  | truncate
deriving DecidableEq

inductive Answer where
  | done
  /-- Whether there was something to do. -/
  | changed (b : Bool)
  | column (c : Column)
  | columns (cs : List Column)
  | columnPage (p : Page Column)
  | columnIds (ids : List ColumnId)
  | binding (b : Binding)
  | details (ds : List ChangeDetails)
  | tablePage (p : Page TableId)
  | reservation (r : Reservation)
  | counter (c : Counter)
  | references (r : RowReferences)
  | rowSet (s : RowSet)
  | change (c : Change)
  | changes (cs : List Change)
  | version (v : Option Version)
  | snapshot (s : Snapshot)
  | chunks (cs : List BackupChunk)
  | summary (s : Option RestoreSummary)
deriving DecidableEq

/-- An operation with its caller and what the world supplies. -/
structure Request where
  caller : Caller
  /-- The stamp for a schema that the operation makes. -/
  fresh : Etag
  /-- The time in milliseconds since 1970. -/
  millis : UInt64
  operation : Operation
deriving DecidableEq

namespace Engine

/-- The outcome of an operation that leaves the engine as it is. -/
def query {α : Type} (e : Engine) (answer : α → Answer) (outcome : Except Error α) :
    Except Error Answer × Engine := (outcome.map answer, e)

/-- The outcome of an operation that leaves the engine as it is when refused. -/
def settle {α : Type} (e : Engine) (answer : α → Answer) :
    Except Error (α × Engine) → Except Error Answer × Engine
  | .ok (a, e) => (.ok (answer a), e)
  | .error error => (.error error, e)

/-- The outcome of an operation that may have effects when refused. -/
def conclude {α : Type} (answer : α → Answer) (outcome : Except Error α × Engine) :
    Except Error Answer × Engine := (outcome.1.map answer, outcome.2)

/-- One request: what is answered, and the engine behind it. -/
def perform (e : Engine) (r : Request) : Except Error Answer × Engine :=
  match r.operation with
  | .createColumn spec => e.settle .column (e.createColumn r.caller spec)
  | .createColumns specs => e.settle .columns (e.createColumns r.caller specs)
  | .column id => e.query .column (e.catalog.find id)
  | .columns ids keepOrder => e.query .columns (e.catalog.resolve ids keepOrder)
  | .listColumns beginning limit offset =>
      e.query .columnPage (e.listColumns beginning limit offset)
  | .tableColumns table => e.query .columns (e.tableColumns r.caller table)
  | .currentColumns table ids => e.query .columns (e.currentColumns r.caller table ids)
  | .binding table => e.query .binding (.ok (e.bindings.current table))
  | .schema table => e.query .columnIds (.ok (e.bindings.current table).columns)
  | .bind table ids expected => e.settle .changed (e.bind r.fresh r.caller table ids expected)
  | .calculate table changes => e.query .columnIds (Schema.calculate e.bindings table changes)
  | .changeSchema table changes expected =>
      e.settle .binding (e.changeSchema r.fresh r.caller table changes expected)
  | .details changes => e.query .details (Schema.details e.catalog changes)
  | .checkSchema ids => e.query .columns (e.checkSchema ids)
  | .boundObjects ids currentOnly limit offset =>
      e.query .tablePage (e.boundObjects ids currentOnly limit offset)
  | .unbind table => (.ok .done, e.unbind table)
  | .reserve table count => conclude .reservation (e.reserve table count.toNat)
  | .counter table => e.query .counter (.ok (e.counter table))
  | .advance table rowId version =>
      let (counter, e) := e.advance table rowId version
      (.ok (.counter counter), e)
  | .append table delta => conclude .references (e.append r.millis r.caller table delta)
  | .appendUnder table schema delta =>
      conclude .references (e.appendUnder r.millis r.caller table schema delta)
  | .rowSet table version => e.query .rowSet (e.ledger.log.rowSet table version)
  | .change table version => e.query .change (e.ledger.log.change table version)
  | .history table => e.query .changes (.ok (e.ledger.log.history table))
  | .latest table => e.query .version (.ok (e.ledger.log.latest? table))
  | .replay table upTo => e.query .snapshot (e.replay table upTo)
  | .exportTable table max => e.query .chunks (e.exportTable table max)
  | .restore chunks => conclude .summary (e.restore chunks)
  | .truncate => e.settle (fun () => .done) ((e.truncate r.caller).map ((), ·))

def run (e : Engine) : List Request → List (Except Error Answer) × Engine
  | [] => ([], e)
  | r :: rs =>
      let (answer, e) := e.perform r
      let (answers, e) := e.run rs
      (answer :: answers, e)

end Engine

end VersionedTables
