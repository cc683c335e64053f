import VersionedTables.Json.Quoted
import VersionedTables.Text.Numeral

/-!
# JSON documents

A document as it is written: numbers and strings are kept as their tokens, so that reading decides
only where a value is used, and what nobody uses is never judged.

* **`Json`** — the type.
* **`Json.text`**, **`Json.word`**, **`Json.record`** — a text, a number and a record as documents.
* **`Json.isSpace`** — what may stand between tokens.
-/

namespace VersionedTables

/-- A JSON document whose tokens keep their spelling. -/
inductive Json where
  | null
  | bool (b : Bool)
  | number (token : List Char)
  /-- A string, by what stands between its quotes. -/
  | string (token : List Char)
  | array (items : List Json)
  /-- Documents under keys, in the order written; a key is what stands between its quotes. -/
  | object (members : List (List Char × Json))
deriving Inhabited

namespace Json

def text (s : String) : Json := .string (Quoted.encode s)

def word (n : UInt64) : Json := .number (Numeral.ofWord n)

/-- Documents under the given names, in the order given. -/
def record (fields : List (String × Json)) : Json :=
  .object (fields.map (fun f => (Quoted.encode f.1, f.2)))

/-- Whether `c` may stand between tokens. -/
def isSpace (c : Char) : Bool := c == ' ' || c == '\n' || c == '\t' || c == '\x0d'

end Json

end VersionedTables
