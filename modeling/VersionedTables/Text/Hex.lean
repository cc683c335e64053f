/-!
# Hexadecimal digits

* **`Hex.digit`**, **`Hex.value?`** — a digit of a value below sixteen, and the value of a digit.
* **`Hex.ofByte`** — the two digits of a byte, the high half first.
-/

namespace VersionedTables

namespace Hex

/-- The digit of `n`, in lower case; only the four low bits of `n` count. -/
def digit (n : Nat) : Char := Nat.digitChar (n % 16)

/-- The value of a hexadecimal digit in either case. -/
def value? (c : Char) : Option Nat :=
  if '0' ≤ c ∧ c ≤ '9' then some (c.toNat - '0'.toNat)
  else if 'a' ≤ c ∧ c ≤ 'f' then some (c.toNat - 'a'.toNat + 10)
  else if 'A' ≤ c ∧ c ≤ 'F' then some (c.toNat - 'A'.toNat + 10)
  else none

/-- The two digits of a byte, the high half first. -/
def ofByte (b : UInt8) : List Char := [digit (b.toNat / 16), digit b.toNat]

/-- The number that a run of digits stands for, the high digit first. -/
def number? (cs : List Char) : Option Nat :=
  cs.foldlM (fun n c => (value? c).map (16 * n + ·)) 0

theorem value?_digit (n : Nat) : value? (digit n) = some (n % 16) := by
  have h : n % 16 < 16 := Nat.mod_lt _ (by decide)
  simp only [digit]
  generalize n % 16 = m at h
  revert m
  decide

end Hex

end VersionedTables
