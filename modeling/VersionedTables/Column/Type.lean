import VersionedTables.Bounded
import VersionedTables.Text.Blank
import VersionedTables.Text.Numeral

/-!
# Column types

The type of a column says which texts its cells may hold and how many bytes a cell takes at most.

* **`ColumnType`** — the ten types.
* **`ColumnType.admits`** — whether a text is a value of a type.
* **`ColumnType.maxBytes`** — the most bytes that a cell takes in a row.
-/

namespace VersionedTables

/-- What the cells of a column hold. -/
inductive ColumnType where
  | string
  | integer
  | double
  | boolean
  /-- A point in time, as a signed number. -/
  | date
  | fileHandleId
  /-- The number of an entity, with or without `syn` in front. -/
  | entityId
  | userId
  | link
  | largeText
deriving DecidableEq, Repr

namespace ColumnType

def all : List ColumnType :=
  [string, integer, double, boolean, date, fileHandleId, entityId, userId, link, largeText]

/-- The name of a type in documents. -/
def name : ColumnType → String
  | string => "STRING"
  | integer => "INTEGER"
  | double => "DOUBLE"
  | boolean => "BOOLEAN"
  | date => "DATE"
  | fileHandleId => "FILE_HANDLE_ID"
  | entityId => "ENTITY_ID"
  | userId => "USER_ID"
  | link => "LINK"
  | largeText => "LARGE_TEXT"

/-- The name of a type in messages. -/
def title : ColumnType → String
  | string => "String"
  | integer => "Integer"
  | double => "Double"
  | boolean => "Boolean"
  | date => "Date"
  | fileHandleId => "FileHandleId"
  | entityId => "EntityId"
  | userId => "UserId"
  | link => "Link"
  | largeText => "LargeText"

/-- Whether the length of a type's values is bounded column by column. -/
def isSized : ColumnType → Bool
  | string | link => true
  | _ => false

/-- The most bytes that the UTF-8 form of a character takes. -/
def bytesPerChar : UInt64 := 4

/-- The most bytes that a cell of a column with the given size bound takes in a row. Sized types
without a bound take none. -/
def maxBytes (type : ColumnType) (maxSize : Option UInt64) : UInt64 :=
  match type with
  | string | link => Bounded.mulSat (maxSize.getD 0) bytesPerChar
  | largeText => 12
  | integer | date | fileHandleId | entityId | userId => 20
  | double => 23
  | boolean => 5

/-! ### Values -/

/-- The characters of an entity number without the mark `syn` in front, if it stands there in small
letters or in capitals. -/
def dropMark : List Char → List Char
  | 's' :: 'y' :: 'n' :: cs => cs
  | 'S' :: 'Y' :: 'N' :: cs => cs
  | cs => cs

/-- Whether a text is a value of the type. Blank characters around a value of a type other than text
do not count. -/
def admits (type : ColumnType) (value : String) : Bool :=
  let cs := Blank.trimChars value.toList
  match type with
  | string | link | largeText => true
  | integer | date | fileHandleId | userId => Numeral.isSigned cs
  | entityId => (Numeral.word? (dropMark cs)).isSome
  | double => Numeral.isFloating cs
  | boolean => ["TRUE".toList, "FALSE".toList].contains (cs.map Char.toUpper)

end ColumnType

end VersionedTables
