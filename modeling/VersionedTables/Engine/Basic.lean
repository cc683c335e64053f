import VersionedTables.Backup.Export
import VersionedTables.Backup.Restore
import VersionedTables.Schema.Basic
import VersionedTables.Snapshot

/-!
# The engine

An engine holds the columns, the schemas and the rows of tables, and puts the question of access in
front of what callers may not do on their own. Operations that change the engine give the new engine
back; a refused one of them gives no engine, unless a part of its effects stays.

* **`Engine`** — the settings, the authority and the stores of an engine.
* **`Engine.createColumns`**, **`Engine.bind`**, **`Engine.append`**, **`Engine.restore`** — the
  main operations.
-/

namespace VersionedTables

/-- The settings, the authority and the stores of an engine. -/
structure Engine where
  settings : Settings := {}
  authority : Authority := {}
  catalog : Catalog := ∅
  bindings : Bindings := ∅
  /-- The rows, and the counters that number them. -/
  ledger : Ledger := {}
deriving DecidableEq

namespace Engine

/-- Refuses a caller who lacks access to a table. -/
def requireAccess (e : Engine) (caller : Caller) (table : TableId) (mode : AccessMode) :
    Except Error Unit :=
  if e.authority.allows caller table mode then .ok ()
  else .error (.accessDenied caller.userId mode table)

/-- The counters that every table starts with. -/
def initial (e : Engine) : Counter := .ofSettings e.settings

def withLedger (e : Engine) (ledger : Ledger) : Engine := { e with ledger }

/-! ### Columns -/

def requireLogin (caller : Caller) : Except Error Unit :=
  if caller.anonymous then .error .loginRequired else .ok ()

/-- Defines columns. None is kept unless all can be. -/
def createColumns (e : Engine) (caller : Caller) (specs : List ColumnSpec) :
    Except Error (List Column × Engine) := do
  requireLogin caller
  let columns ← specs.mapM (ColumnSpec.define e.settings)
  return (columns, { e with catalog := columns.foldl Catalog.add e.catalog })

def createColumn (e : Engine) (caller : Caller) (spec : ColumnSpec) :
    Except Error (Column × Engine) := do
  requireLogin caller
  let column ← spec.define e.settings
  return (column, { e with catalog := e.catalog.add column })

def listColumns (e : Engine) (beginning : Option String) (limit offset : UInt64) :
    Except Error (Page Column) := do
  Page.checkLimit e.settings.maxPageSize limit
  return e.catalog.page beginning limit offset

/-- The columns of a table, for a caller who may see them. -/
def tableColumns (e : Engine) (caller : Caller) (table : TableId) :
    Except Error (List Column) := do
  e.requireAccess caller table .read
  Schema.columns e.catalog e.bindings table

/-- Those columns of a table that are asked for, for a caller who may see them. -/
def currentColumns (e : Engine) (caller : Caller) (table : TableId) (ids : List ColumnId) :
    Except Error (List Column) := do
  e.requireAccess caller table .read
  Schema.selected e.catalog e.bindings table ids

/-! ### Schemas -/

/-- Gives a table a schema, under the stamp `fresh` if that is a change. Answers whether it is. -/
def bind (e : Engine) (fresh : Etag) (caller : Caller) (table : TableId) (ids : List ColumnId)
    (expected : Option Etag) : Except Error (Bool × Engine) := do
  e.requireAccess caller table .update
  let (changed, bindings) ←
    Schema.bind e.settings e.catalog fresh e.bindings table ids expected
  return (changed, { e with bindings })

/-- Changes the schema of a table. Answers the binding that the table has then. -/
def changeSchema (e : Engine) (fresh : Etag) (caller : Caller) (table : TableId)
    (changes : List SchemaChange) (expected : Option Etag) :
    Except Error (Binding × Engine) := do
  e.requireAccess caller table .update
  let (binding, bindings) ←
    Schema.applyChanges e.settings e.catalog fresh e.bindings table changes expected
  return (binding, { e with bindings })

/-- The columns of a schema that keeps the capacity rules. -/
def checkSchema (e : Engine) (ids : List ColumnId) : Except Error (List Column) :=
  Capacity.resolve e.settings e.catalog ids

/-- A page of the tables that have one of the columns, or ever had one. -/
def boundObjects (e : Engine) (ids : List ColumnId) (currentOnly : Bool)
    (limit offset : UInt64) : Except Error (Page TableId) :=
  Schema.boundObjects e.settings e.bindings ids currentOnly limit offset

/-- Takes the schema of a table away, and the memory of what columns it had. -/
def unbind (e : Engine) (table : TableId) : Engine :=
  { e with bindings := e.bindings.erase table }

/-! ### Rows -/

def reserve (e : Engine) (table : TableId) (count : Nat) : Except Error Reservation × Engine :=
  let (outcome, counters) := e.ledger.counters.reserve table count e.initial
  (outcome, e.withLedger { e.ledger with counters })

def counter (e : Engine) (table : TableId) : Counter :=
  e.ledger.counters.current table e.initial

def advance (e : Engine) (table : TableId) (rowId : RowId) (version : Version) :
    Counter × Engine :=
  let (counter, counters) := e.ledger.counters.advance table rowId version e.initial
  (counter, e.withLedger { e.ledger with counters })

/-- Commits a row set to a table as if it had the given schema. -/
def appendUnder (e : Engine) (millis : UInt64) (caller : Caller) (table : TableId)
    (schema : List Column) (delta : RowSet) : Except Error RowReferences × Engine :=
  match e.requireAccess caller table .update with
  | .error error => (.error error, e)
  | .ok () =>
      let (outcome, ledger) :=
        e.ledger.append e.initial caller.userId millis table schema delta
      (outcome, e.withLedger ledger)

def append (e : Engine) (millis : UInt64) (caller : Caller) (table : TableId)
    (delta : RowSet) : Except Error RowReferences × Engine :=
  match e.requireAccess caller table .update >>= fun _ =>
      Schema.columns e.catalog e.bindings table with
  | .error error => (.error error, e)
  | .ok schema => e.appendUnder millis caller table schema delta

def replay (e : Engine) (table : TableId) (upTo : Option Version) : Except Error Snapshot :=
  Snapshot.replay e.ledger.log table upTo

def exportTable (e : Engine) (table : TableId) (max : UInt64) :
    Except Error (List BackupChunk) :=
  BackupChunk.exportAll e.ledger.log table max

def restore (e : Engine) (cs : List BackupChunk) :
    Except Error (Option RestoreSummary) × Engine :=
  let (outcome, ledger) := BackupChunk.restore e.initial cs e.ledger
  (outcome, e.withLedger ledger)

/-! ### Administration -/

/-- Removes all columns, schemas and rows, for an administrator. -/
def truncate (e : Engine) (caller : Caller) : Except Error Engine :=
  if caller.admin then
    .ok { e with catalog := ∅, bindings := ∅, ledger := {} }
  else .error .adminRequired

end Engine

end VersionedTables
