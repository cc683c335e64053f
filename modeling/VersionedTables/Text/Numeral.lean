import VersionedTables.Bounded

/-!
# Numerals

Numbers are written in decimal. Writing knows one form, reading is laxer where people type values:
a sign may stand in front and zeros may lead.

* **`Numeral.ofWord`** — the shortest decimal numeral of a number.
* **`Numeral.natural?`** — the value of a run of digits.
* **`Numeral.word?`** — an unsigned 64-bit numeral, with an optional plus sign.
* **`Numeral.isSigned`** — whether a text is a signed 64-bit numeral.
* **`Numeral.isFloating`** — whether a text is a floating-point numeral.
-/

namespace VersionedTables

namespace Numeral

/-- The shortest decimal numeral of `n`. -/
def ofNat (n : Nat) : List Char := Nat.toDigits 10 n

def ofWord (n : UInt64) : List Char := ofNat n.toNat

/-- The value of a run of digits, or nothing when a character is no digit or there is none. -/
def natural? (cs : List Char) : Option Nat :=
  if !cs.isEmpty && cs.all Char.isDigit then some (Nat.ofDigitChars 10 cs 0) else none

/-- The value of an unsigned 64-bit numeral: digits with an optional plus sign in front. -/
def word? : List Char → Option UInt64
  | '+' :: cs => (natural? cs).bind Bounded.ofNat?
  | cs => (natural? cs).bind Bounded.ofNat?

/-- Whether the text is a signed 64-bit numeral: digits with an optional sign in front, whose value
lies between `-2^63` and `2^63 - 1`. -/
def isSigned : List Char → Bool
  | '-' :: cs => (natural? cs).any (· ≤ 0x8000000000000000)
  | '+' :: cs => (natural? cs).any (· < 0x8000000000000000)
  | cs => (natural? cs).any (· < 0x8000000000000000)

/-! ### Floating-point numerals -/

/-- The characters of `cs` after a sign, if one stands in front. -/
def dropSign : List Char → List Char
  | '+' :: cs => cs
  | '-' :: cs => cs
  | cs => cs

def isDigits (cs : List Char) : Bool := !cs.isEmpty && cs.all Char.isDigit

/-- Whether the text ends a floating-point numeral: nothing, or `e` with a signed run of digits. -/
def isExponent : List Char → Bool
  | [] => true
  | c :: cs => (c == 'e' || c == 'E') && isDigits (dropSign cs)

/-- Whether the text is a floating-point numeral without sign that stands for a finite number:
digits before or after a point, which may be missing, and an optional exponent. -/
def isFinite (cs : List Char) : Bool :=
  let whole := cs.takeWhile Char.isDigit
  match cs.dropWhile Char.isDigit with
  | '.' :: r =>
      let part := r.takeWhile Char.isDigit
      !(whole.isEmpty && part.isEmpty) && isExponent (r.dropWhile Char.isDigit)
  | r => !whole.isEmpty && isExponent r

/-- The spellings of the floating-point values that are not finite, in capitals. -/
def unbounded : List (List Char) :=
  ["INF".toList, "INFINITY".toList, "NAN".toList]

def isFloating (cs : List Char) : Bool :=
  let r := dropSign cs
  unbounded.contains (r.map Char.toUpper) || isFinite r

/-! ### Reading back -/

theorem natural?_ofNat (n : Nat) : natural? (ofNat n) = some n := by
  have hne : (ofNat n).isEmpty = false := by
    simp only [ofNat, List.isEmpty_eq_false_iff]
    exact Nat.toDigits_ne_nil
  have hall : (ofNat n).all Char.isDigit = true := by
    simp only [List.all_eq_true]
    intro c hc
    exact Nat.isDigit_of_mem_toDigits (by decide) (by decide) hc
  simp only [natural?, hne, hall]
  simp [ofNat, Nat.ofDigitChars_ten_toDigits]

theorem ofNat?_toNat (n : UInt64) : Bounded.ofNat? n.toNat = some n :=
  Bounded.ofNat?_eq_some_iff.2 rfl

theorem natural?_bind_ofWord (n : UInt64) :
    (natural? (ofWord n)).bind Bounded.ofNat? = some n := by
  simp only [ofWord, natural?_ofNat, Option.bind_some, ofNat?_toNat]

end Numeral

end VersionedTables
