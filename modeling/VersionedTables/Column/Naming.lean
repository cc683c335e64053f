import VersionedTables.Settings

/-!
# Names of columns

* **`ColumnName.isReserved`**, **`ColumnName.isKeyword`** — names that are taken, whatever the case
  of their letters.
* **`ColumnName.check`** — whether a name may be given to a column.
-/

namespace VersionedTables

namespace ColumnName

/-- The columns that every table has of itself. -/
def reserved : List String := ["ROW_ID", "ROW_VERSION", "ROW_ETAG", "ROW_BENEFACTOR"]

/-- The words that the query language does not take as names. -/
def keywords : List String :=
  ["ALL", "AND", "AS", "ASC", "BETWEEN", "BY", "CASE", "CAST", "COUNT", "CREATE", "DELETE", "DESC",
   "DISTINCT", "DROP", "ELSE", "END", "ESCAPE", "EXISTS", "FALSE", "FROM", "GROUP", "HAVING", "IN",
   "INSERT", "INTO", "IS", "JOIN", "LIKE", "LIMIT", "NOT", "NULL", "OFFSET", "ON", "OR", "ORDER",
   "SELECT", "SET", "TABLE", "THEN", "TRUE", "UNION", "UPDATE", "VALUES", "WHEN", "WHERE"]

/-- Whether `name` is one of `words`, which are in capitals. Blank characters at its ends and the
case of ASCII letters do not count. -/
def isAmong (words : List String) (name : String) : Bool :=
  words.any (fun w => w.toList == (Blank.trimChars name.toList).map Char.toUpper)

def isReserved (name : String) : Bool := isAmong reserved name

def isKeyword (name : String) : Bool := isAmong keywords name

/-- Refuses a name that is blank, too long or taken, in this order. -/
def check (settings : Settings) (name : String) : Except Error Unit :=
  let trimmed := Blank.trim name
  if trimmed.isEmpty then .error .blankName
  else if settings.maxColumnNameLength.toNat < trimmed.length then
    .error (.nameTooLong trimmed settings.maxColumnNameLength)
  else if isReserved trimmed then .error (.reservedName trimmed)
  else if isKeyword trimmed then .error (.keywordName trimmed)
  else .ok ()

end ColumnName

end VersionedTables
