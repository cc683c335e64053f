import VersionedTables.Access
import VersionedTables.Column.Type
import VersionedTables.Log.Change

/-!
# Refusals

An operation that is refused says why. Every cause is a case of its own; callers tell causes apart
by their kind, and the wording stands in one place.

* **`ErrorKind`** — the six kinds.
* **`Error`** — the causes.
* **`Error.kind`**, **`Error.message`** — the kind and the text of a cause.
-/

namespace VersionedTables

/-- What callers tell apart. -/
inductive ErrorKind where
  | invalidArgument
  | notFound
  | unauthorized
  | schemaTooLarge
  | conflictingUpdate
  | datastore
deriving DecidableEq, Repr

namespace ErrorKind

/-- How the messages of a kind begin. -/
def label : ErrorKind → String
  | invalidArgument => "invalid argument: "
  | notFound => "not found: "
  | unauthorized => "unauthorized: "
  | schemaTooLarge => "schema too large: "
  | conflictingUpdate => "conflicting update on "
  | datastore => "datastore failure: "

end ErrorKind

/-- What a capacity ceiling counts. -/
inductive SizeLimit where
  | columnCount
  | rowBytes
deriving DecidableEq, Repr

def SizeLimit.text : SizeLimit → String
  | columnCount => "column count"
  | rowBytes => "row size in bytes"

/-- Why an operation is refused. -/
inductive Error where
  | blankName
  | nameTooLong (name : String) (limit : UInt64)
  | reservedName (name : String)
  | keywordName (name : String)
  | zeroMaxSize (column : String)
  | malformedValue (column value : String) (type : ColumnType)
  | valueTooLong (column : String) (length : Nat) (limit : UInt64)
  | valueNotAllowed (column value : String)
  | pageTooLong (limit : UInt64)
  | replacedColumnMissing (column : ColumnId)
  | emptyChange
  | columnNotBound (column : ColumnId) (table : TableId)
  | repeatedColumn (column : ColumnId)
  | versionsExhausted (table : TableId)
  | rowIdsExhausted (table : TableId)
  | foreignRowSet (target table : TableId)
  | emptyRowSet
  | repeatedHeader (column : ColumnId)
  | unknownHeader (column : ColumnId) (table : TableId)
  | unallocatedRow (row : RowId) (table : TableId)
  | repeatedRow (row : RowId)
  | missingHeaders
  /-- A row has more or fewer values than there are headers. The row is given by its number in the
  row set, or by its id when the row set is restored. -/
  | rowWidth (row values headers : Nat)
  | restoredElsewhere
  | restoredEmpty (version : Version)
  | restoredRowCount (version : Version) (claimed : UInt64) (carried : Nat)
  | restoredColumns (version : Version)
  | restoredBounds (version : Version) (least greatest : RowId)
  | restoredWithoutId (index : Nat)
  | restoredStamp (row : RowId) (stamp : Option Version) (version : Version)
  | restoredStale (version : Version) (table : TableId) (latest : Version)
  | zeroChunkRows
  | chunkOutOfOrder (sequence : UInt64) (expected : Nat)
  | historyExists (table : TableId)
  | mixedChunks
  | foreignEntry
  | unknownColumn (column : ColumnId)
  | unknownVersion (version : Version) (table : TableId)
  | loginRequired
  | accessDenied (user : UserId) (mode : AccessMode) (table : TableId)
  | adminRequired
  | tooLarge (limit : SizeLimit) (actual max : UInt64)
  | staleEtag (table : TableId) (expected actual : Etag)
  | unreadable
  | payloadMissing (key : ContentKey)
  | changeExists (key : ContentKey)
  | reservationTooSmall
  /-- A consumer of changes or chunks refuses one, for a reason of its own. -/
  | refused (kind : ErrorKind) (reason : String)
deriving DecidableEq

namespace Error

def kind : Error → ErrorKind
  | unknownColumn .. | unknownVersion .. => .notFound
  | loginRequired | accessDenied .. | adminRequired => .unauthorized
  | tooLarge .. => .schemaTooLarge
  | staleEtag .. => .conflictingUpdate
  | unreadable | payloadMissing .. | changeExists .. | reservationTooSmall => .datastore
  | refused kind _ => kind
  | _ => .invalidArgument

/-- The version that a row is stamped with, in messages. -/
def stampText : Option Version → String
  | none => "None"
  | some v => s!"Some({v})"

/-- The text of a cause without the label of its kind. -/
def detail : Error → String
  | blankName => "column name cannot be empty"
  | nameTooLong name limit => s!"column name '{name}' exceeds {limit} characters"
  | reservedName name => s!"the column name: {name} is a system reserved column name"
  | keywordName name =>
      s!"the name: {name} is a SQL key word and cannot be used as a column name"
  | zeroMaxSize column => s!"column '{column}' must have a maximum size greater than zero"
  | malformedValue column value type =>
      s!"column '{column}': '{value}' is not a valid {type.title}"
  | valueTooLong column length limit =>
      s!"value of {length} characters exceeds the maximum size {limit} of column '{column}'"
  | valueNotAllowed column value =>
      s!"'{value}' is not one of the allowed values of column '{column}'"
  | pageTooLong limit => s!"limit cannot be greater than {limit}"
  | replacedColumnMissing column =>
      s!"cannot update column {column.text} since it is not currently a column of the table"
  | emptyChange => "a column change must name an old column, a new column, or both"
  | columnNotBound column table =>
      s!"column header {column.text} is not a known column for table {table.text}"
  | repeatedColumn column => s!"column {column.text} appears more than once in the schema"
  | versionsExhausted table => s!"version space of table {table.text} is exhausted"
  | rowIdsExhausted table => s!"row id space of table {table.text} is exhausted"
  | foreignRowSet target table =>
      s!"row set targets table {target.text} but was appended to {table.text}"
  | emptyRowSet => "a row set must contain at least one row"
  | repeatedHeader column => s!"header {column.text} appears more than once"
  | unknownHeader column table =>
      s!"column {column.text} is not a current column of table {table.text}"
  | unallocatedRow row table => s!"row id {row} has not been allocated for table {table.text}"
  | repeatedRow row => s!"row id {row} appears more than once"
  | missingHeaders => "a row set without headers may only delete rows"
  | rowWidth row values headers =>
      s!"row {row} has {values} values but the row set has {headers} headers"
  | restoredElsewhere => "restored rows belong to a different table"
  | restoredEmpty version => s!"restored version {version} has no rows"
  | restoredRowCount version claimed carried =>
      s!"restored version {version} claims {claimed} rows but carries {carried}"
  | restoredColumns version =>
      s!"restored version {version} lists different columns than its rows"
  | restoredBounds version least greatest =>
      s!"restored version {version} has row id bounds {least}..{greatest}"
  | restoredWithoutId index => s!"restored row {index} has no row id"
  | restoredStamp row stamp version =>
      s!"restored row {row} is stamped {stampText stamp} inside version {version}"
  | restoredStale version table latest =>
      s!"cannot restore version {version} onto table {table.text} at version {latest}"
  | zeroChunkRows => "maximum rows per chunk must be greater than zero"
  | chunkOutOfOrder sequence expected =>
      s!"backup chunk {sequence} arrived where chunk {expected} was expected"
  | historyExists table => s!"table {table.text} already has history"
  | mixedChunks => "backup chunks belong to more than one table"
  | foreignEntry => "backup entry belongs to a different table"
  | unknownColumn column => s!"column {column.text} does not exist"
  | unknownVersion version table => s!"version {version} of table {table.text} does not exist"
  | loginRequired => "you must login to create a column"
  | accessDenied user mode table =>
      s!"user {user} lacks {mode.name} access on table {table.text}"
  | adminRequired => "only an administrator can truncate all table data"
  | tooLarge limit actual max => s!"{limit.text} is {actual}, the maximum is {max}"
  | staleEtag table expected actual =>
      s!"{table.text}: expected etag {expected.text}, current etag is {actual.text}"
  | unreadable => "serialization"
  | payloadMissing key => s!"payload {key.text} is missing"
  | changeExists key => s!"change {key.text} already exists"
  | reservationTooSmall => "reserved id range is too small"
  | refused _ reason => reason

def message (e : Error) : String := e.kind.label ++ e.detail

end Error

end VersionedTables
