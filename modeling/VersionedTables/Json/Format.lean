import VersionedTables.Json.Parser
import VersionedTables.Json.Printer

/-!
# Formats

A format says how the values of a type are written as documents and read back. A record is written
with its fields by name; it is read by name, where unknown names do not count, or by position.

* **`JsonFormat`** — the class of types with a format.
* **`JsonFormat.encode`**, **`JsonFormat.decode?`** — between values and texts.
* **`Json.slots?`** — what a document holds for each field of a record.
* **`Slot.required?`**, **`Slot.nullable?`**, **`Slot.orElse?`** — how a field is read.
-/

namespace VersionedTables

/-- Types whose values are written as JSON documents and read back. -/
class JsonFormat (α : Type) where
  write : α → Json
  read? : Json → Option α

namespace JsonFormat

variable {α : Type} [JsonFormat α]

/-- The text of a value, without spaces. -/
def encode (a : α) : String := (write a).compact

def decode? (s : String) : Option α := (Json.read? s).bind read?

end JsonFormat

/-! ### Plain values -/

instance : JsonFormat String where
  write := Json.text
  read?
    | .string token => Quoted.decode? token
    | _ => none

/-- Reads the token of a natural number: digits, without sign, point, exponent or leading zero. -/
def Json.naturalOfToken? (token : List Char) : Option Nat :=
  if token.head? = some '0' ∧ token.length ≠ 1 then none else Numeral.natural? token

instance : JsonFormat Nat where
  write n := .number (Numeral.ofNat n)
  read?
    | .number token => Json.naturalOfToken? token
    | _ => none

def Json.wordOfToken? (token : List Char) : Option UInt64 :=
  (Json.naturalOfToken? token).bind Bounded.ofNat?

instance : JsonFormat UInt64 where
  write := Json.word
  read?
    | .number token => Json.wordOfToken? token
    | _ => none

instance : JsonFormat Bool where
  write := .bool
  read?
    | .bool b => some b
    | _ => none

/-- The absent value is written `null`. -/
instance {α : Type} [JsonFormat α] : JsonFormat (Option α) where
  write
    | some a => JsonFormat.write a
    | none => .null
  read?
    | .null => some none
    | v => (JsonFormat.read? v).map some

instance {α : Type} [JsonFormat α] : JsonFormat (List α) where
  write as := .array (as.map JsonFormat.write)
  read?
    | .array vs => vs.mapM JsonFormat.read?
    | _ => none

/-! ### Records -/

/-- What a document holds for one field of a record. -/
inductive Slot where
  | present (v : Json)
  | absent
  /-- The record is given by position and ends before the field. -/
  | beyond
deriving Inhabited

namespace Json

/-- The members of an object with the texts of their keys, if each key has one. -/
def keyed? (ms : List (List Char × Json)) : Option (List (String × Json)) :=
  ms.mapM (fun m => (Quoted.decode? m.1).map (·, m.2))

/-- What the member named `name` holds; a name may stand once only. -/
def named? (ms : List (String × Json)) (name : String) : Option Slot :=
  match ms.filter (·.1 = name) with
  | [] => some .absent
  | [m] => some (.present m.2)
  | _ => none

/-- What a document holds for each of the fields `names` of a record: an object by name, a list by
position. -/
def slots? (names : List String) : Json → Option (List Slot)
  | .object ms => (keyed? ms).bind (fun ms => names.mapM (named? ms))
  | .array vs =>
      if vs.length ≤ names.length then
        some (vs.map .present ++ List.replicate (names.length - vs.length) .beyond)
      else none
  | _ => none

end Json

namespace Slot

variable {α : Type} [JsonFormat α]

def required? : Slot → Option α
  | .present v => JsonFormat.read? v
  | _ => none

/-- Reads a field that may be `null` or unnamed, but not beyond the end of a positional record. -/
def nullable? : Slot → Option (Option α)
  | .present v => JsonFormat.read? v
  | .absent => some none
  | .beyond => none

/-- Reads a field that may be missing in either form, and is then `d`. -/
def orElse? (d : α) : Slot → Option α
  | .present v => JsonFormat.read? v
  | _ => some d

end Slot

/-! ### Names of enumerated values -/

/-- Reads one of finitely many values by its name: the name itself, or an object that holds `null`
under the name. -/
def Json.named {α : Type} (name : α → String) (all : List α) : Json → Option α
  | .string token => do
      let s ← Quoted.decode? token
      all.find? (name · = s)
  | .object [(token, .null)] => do
      let s ← Quoted.decode? token
      all.find? (name · = s)
  | _ => none

end VersionedTables
