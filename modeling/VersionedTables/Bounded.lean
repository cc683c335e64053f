/-!
# Counting that stops at the top

Row ids, versions and sizes are 64-bit unsigned numbers, and none of them ever wraps around: a sum
that does not fit is either refused or stays at the greatest number.

* **`Bounded.ofNat?`** — the number, if it fits.
* **`Bounded.add?`** — the sum, if it fits.
* **`Bounded.ofNatSat`**, **`Bounded.addSat`**, **`Bounded.mulSat`** — the result, or the greatest
  number where the exact result lies above it.
-/

namespace VersionedTables

namespace Bounded

def greatest : Nat := UInt64.size - 1

def ofNat? (n : Nat) : Option UInt64 :=
  if n < UInt64.size then some (UInt64.ofNat n) else none

/-- The number `n`, or the greatest number if `n` lies above it. -/
def ofNatSat (n : Nat) : UInt64 := UInt64.ofNat (min n greatest)

def add? (a b : UInt64) : Option UInt64 := ofNat? (a.toNat + b.toNat)

/-- The sum of two numbers, stopping at the greatest one. -/
def addSat (a b : UInt64) : UInt64 := ofNatSat (a.toNat + b.toNat)

def mulSat (a b : UInt64) : UInt64 := ofNatSat (a.toNat * b.toNat)

/-! ### Values -/

@[simp] theorem toNat_ofNatSat (n : Nat) : (ofNatSat n).toNat = min n greatest := by
  have h : min n greatest < UInt64.size := by
    simp only [greatest, UInt64.size]; omega
  simp only [ofNatSat]
  exact UInt64.toNat_ofNat_of_lt h

@[simp] theorem toNat_addSat (a b : UInt64) :
    (addSat a b).toNat = min (a.toNat + b.toNat) greatest := toNat_ofNatSat _

@[simp] theorem toNat_mulSat (a b : UInt64) :
    (mulSat a b).toNat = min (a.toNat * b.toNat) greatest := toNat_ofNatSat _

theorem ofNat?_eq_some_iff {n : Nat} {a : UInt64} : ofNat? n = some a ↔ a.toNat = n := by
  simp only [ofNat?]
  split
  · next h =>
      constructor
      · intro e
        cases e
        exact UInt64.toNat_ofNat_of_lt h
      · intro e
        rw [← e, UInt64.ofNat_toNat]
  · next h =>
      constructor
      · intro e
        cases e
      · intro e
        exact absurd (e ▸ a.toNat_lt) h

theorem ofNat?_eq_none_iff {n : Nat} : ofNat? n = none ↔ UInt64.size ≤ n := by
  simp only [ofNat?]
  split <;> simp <;> omega

theorem add?_eq_some_iff {a b c : UInt64} : add? a b = some c ↔ c.toNat = a.toNat + b.toNat :=
  ofNat?_eq_some_iff

theorem add?_eq_none_iff {a b : UInt64} : add? a b = none ↔ UInt64.size ≤ a.toNat + b.toNat :=
  ofNat?_eq_none_iff

end Bounded

end VersionedTables
