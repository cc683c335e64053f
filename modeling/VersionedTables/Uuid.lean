import VersionedTables.Text.Hex

/-!
# UUIDs

A UUID is a 128-bit number. It is written in lower case with hyphens between its five groups of
digits; reading takes either case, and also the plain digits, the hyphenated form in braces and the
hyphenated form behind `urn:uuid:`.

* **`Uuid`** — the type, ordered as numbers.
* **`Uuid.text`** — the written form.
* **`Uuid.read?`** — the readable forms.
-/

namespace VersionedTables

structure Uuid where
  bits : BitVec 128
deriving DecidableEq

namespace Uuid

/-- UUIDs are ordered as numbers, and so as their written forms. -/
instance : Ord Uuid where
  compare := compareOn (·.bits)

instance : Std.TransOrd Uuid := inferInstanceAs (Std.TransCmp (compareOn _))

instance : Std.LawfulEqOrd Uuid where
  eq_of_compare {a b} h := by
    cases a
    cases b
    have e := Std.LawfulEqOrd.eq_of_compare (α := BitVec 128) h
    simpa using e

instance : Inhabited Uuid := ⟨⟨0⟩⟩

def zero : Uuid := ⟨0⟩

/-! ### Writing -/

/-- The thirty-two digits, the high one first. -/
def digits (u : Uuid) : List Char :=
  (List.range 32).map (fun i => Hex.digit (u.bits.toNat >>> (4 * (31 - i))))

/-- Puts hyphens between the five groups of digits. -/
def hyphenate (ds : List Char) : List Char :=
  ds.take 8 ++ '-' :: (ds.drop 8).take 4 ++ '-' :: (ds.drop 12).take 4
    ++ '-' :: (ds.drop 16).take 4 ++ '-' :: ds.drop 20

/-- The written form: lower-case digits in five groups. -/
def text (u : Uuid) : String := String.ofList (hyphenate u.digits)

/-! ### Reading -/

def plain? (cs : List Char) : Option Uuid :=
  if cs.length = 32 then (Hex.number? cs).map (fun n => ⟨BitVec.ofNat 128 n⟩) else none

/-- Reads digits in five groups with hyphens between them. -/
def hyphenated? (cs : List Char) : Option Uuid :=
  if cs.length = 36 ∧ ∀ i ∈ [8, 13, 18, 23], cs[i]? = some '-' then
    plain? (cs.take 8 ++ (cs.drop 9).take 4 ++ (cs.drop 14).take 4 ++ (cs.drop 19).take 4
      ++ cs.drop 24)
  else none

/-- Reads the hyphenated form in braces. -/
def braced? : List Char → Option Uuid
  | '\x7b' :: cs => if cs.getLast? = some '\x7d' then hyphenated? cs.dropLast else none
  | _ => none

/-- Reads the hyphenated form as a name, behind `urn:uuid:` in either case. -/
def urn? (cs : List Char) : Option Uuid :=
  if (cs.take 9).map Char.toLower = "urn:uuid:".toList then hyphenated? (cs.drop 9) else none

/-- Reads any of the four forms. -/
def read? (s : String) : Option Uuid :=
  let cs := s.toList
  plain? cs <|> hyphenated? cs <|> braced? cs <|> urn? cs

end Uuid

end VersionedTables
