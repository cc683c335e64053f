import Mathlib.Tactic.Ring
import VersionedTables.Uuid

/-!
# Written UUIDs are read back

* **`Hex.number?_lowDigits`** — a run of digits stands for the number that it was taken from.
* **`Uuid.read?_text`** — the written form of a UUID is read as the UUID.
-/

namespace VersionedTables

namespace Hex

/-- The `k` low digits of `n`, the high one first. -/
def lowDigits (n k : Nat) : List Char :=
  (List.range k).map (fun i => digit (n >>> (4 * (k - 1 - i))))

theorem lowDigits_succ (n k : Nat) :
    lowDigits n (k + 1) = digit (n >>> (4 * k)) :: lowDigits n k := by
  simp only [lowDigits, List.range_succ_eq_map, List.map_cons, List.map_map, List.cons.injEq]
  refine ⟨by simp, List.map_congr_left ?_⟩
  intro i _
  simp only [Function.comp_apply]
  congr 3
  omega

theorem shiftRight_four_mul (n k : Nat) : n >>> (4 * k) = n / 16 ^ k := by
  rw [Nat.shiftRight_eq_div_pow, Nat.pow_mul]

theorem foldlM_lowDigits (n k m : Nat) :
    (lowDigits n k).foldlM (fun n c => (value? c).map (16 * n + ·)) m
      = some (m * 16 ^ k + n % 16 ^ k) := by
  induction k generalizing m with
  | zero => simp [lowDigits, Nat.mod_one]
  | succ k ih =>
      rw [lowDigits_succ]
      simp only [List.foldlM_cons, value?_digit, Option.map_some, Option.bind_eq_bind,
        Option.bind_some]
      rw [ih, Nat.mod_pow_succ, shiftRight_four_mul]
      congr 1
      ring

/-- A run of digits stands for the number that it was taken from. -/
theorem number?_lowDigits (n k : Nat) : number? (lowDigits n k) = some (n % 16 ^ k) := by
  rw [number?, foldlM_lowDigits, Nat.zero_mul, Nat.zero_add]

end Hex

namespace Uuid

theorem digits_eq_lowDigits (u : Uuid) : u.digits = Hex.lowDigits u.bits.toNat 32 := rfl

theorem plain?_digits (u : Uuid) : plain? u.digits = some u := by
  have hlen : u.digits.length = 32 := by simp [digits]
  have hlt : u.bits.toNat < 16 ^ 32 := by
    have := u.bits.isLt
    omega
  rw [plain?, if_pos hlen, digits_eq_lowDigits, Hex.number?_lowDigits, Nat.mod_eq_of_lt hlt]
  simp

/-- Hyphens stand between the groups only, whatever the digits are. -/
theorem hyphenated?_hyphenate (f : Nat → Char) :
    hyphenated? (hyphenate ((List.range 32).map f)) = plain? ((List.range 32).map f) := rfl

theorem plain?_hyphenate (f : Nat → Char) : plain? (hyphenate ((List.range 32).map f)) = none := rfl

/-- **The written form of a UUID is read as the UUID.** -/
theorem read?_text (u : Uuid) : read? u.text = some u := by
  have hplain := plain?_hyphenate (fun i => Hex.digit (u.bits.toNat >>> (4 * (31 - i))))
  have hhyphen := hyphenated?_hyphenate (fun i => Hex.digit (u.bits.toNat >>> (4 * (31 - i))))
  have hdigits := plain?_digits u
  rw [digits] at hdigits
  rw [hdigits] at hhyphen
  simp [read?, text, digits, hplain, hhyphen]

end Uuid

end VersionedTables
