import Mathlib.Algebra.GroupWithZero.Nat
import VersionedTables.Text.Blank
import VersionedTables.Text.Numeral

/-!
# How many bytes a numeral takes

Every character of a numeral takes one byte.  All of them are digits but for a sign, a point, what stands
in front of an exponent and the mark of an entity, so that the number of digits bounds the bytes.

* **`Utf8.bytes`** — the bytes that characters take.
* **`Numeral.Spelled`** — characters of one byte each, most of them digits.
* **`Numeral.spelled_of_isSigned`**, **`Numeral.spelled_of_word?`**,
  **`Numeral.bytes_le_of_isFloating`** — the three kinds of numerals.
-/

namespace VersionedTables

/-! ### Bytes -/

namespace Utf8

def bytes (cs : List Char) : Nat := (cs.map Char.utf8Size).sum

@[simp] theorem bytes_nil : bytes [] = 0 := rfl

@[simp] theorem bytes_cons (c : Char) (cs : List Char) : bytes (c :: cs) = c.utf8Size + bytes cs :=
  rfl

theorem utf8ByteSize_ofList (cs : List Char) : (String.ofList cs).utf8ByteSize = bytes cs := by
  induction cs with
  | nil => rfl
  | cons c cs ih =>
      rw [String.ofList_cons, String.utf8ByteSize_append, String.utf8ByteSize_singleton, ih,
        bytes_cons]

theorem utf8ByteSize_eq (s : String) : s.utf8ByteSize = bytes s.toList := by
  rw [← utf8ByteSize_ofList, String.ofList_toList]

/-- No character takes more than four bytes. -/
theorem bytes_le (cs : List Char) : bytes cs ≤ cs.length * 4 := by
  induction cs with
  | nil => exact Nat.zero_le _
  | cons c cs ih =>
      have hc := c.utf8Size_le_four
      rw [bytes_cons, List.length_cons]
      omega

theorem bytes_eq_length {cs : List Char} (h : ∀ c ∈ cs, c.utf8Size = 1) :
    bytes cs = cs.length := by
  induction cs with
  | nil => rfl
  | cons c cs ih =>
      obtain ⟨hc, hcs⟩ := List.forall_mem_cons.1 h
      rw [bytes_cons, List.length_cons, hc, ih hcs, Nat.add_comm]

theorem utf8Size_of_toUpper {c : Char} (h : c.toUpper.utf8Size = 1) : c.utf8Size = 1 := by
  rw [Char.utf8Size_eq_one_iff] at h ⊢
  unfold Char.toUpper at h
  split at h
  · grind
  · exact h

/-- A text takes as many bytes as the same text in capitals, if each capital takes one. -/
theorem bytes_of_map_toUpper {cs ds : List Char} (h : cs.map Char.toUpper = ds)
    (hds : ds.all (·.utf8Size = 1)) : bytes cs = ds.length := by
  rw [← h, List.length_map]
  refine bytes_eq_length (fun c hc => utf8Size_of_toUpper ?_)
  have hmem : c.toUpper ∈ ds := h ▸ List.mem_map_of_mem hc
  simpa using List.all_eq_true.1 hds _ hmem

end Utf8

/-! ### Numerals -/

namespace Numeral

/-- Characters of one byte each, of which all but `marks` are digits. -/
structure Spelled (cs : List Char) (marks : Nat) : Prop where
  ascii : ∀ c ∈ cs, c.utf8Size = 1
  length : cs.length ≤ cs.countP Char.isDigit + marks

variable {cs ds : List Char} {m n : Nat}

theorem Spelled.bytes_le (h : Spelled cs m) : Utf8.bytes cs ≤ cs.countP Char.isDigit + m := by
  rw [Utf8.bytes_eq_length h.ascii]
  exact h.length

theorem Spelled.mono (h : Spelled cs m) (hmn : m ≤ n) : Spelled cs n :=
  ⟨h.ascii, Nat.le_trans h.length (Nat.add_le_add_left hmn _)⟩

theorem Spelled.append (h : Spelled cs m) (h' : Spelled ds n) : Spelled (cs ++ ds) (m + n) := by
  refine ⟨fun c hc => (List.mem_append.1 hc).elim (h.ascii c) (h'.ascii c), ?_⟩
  have hlen := h.length
  have hlen' := h'.length
  rw [List.length_append, List.countP_append]
  omega

/-- A character in front that takes one byte. -/
theorem Spelled.cons {c : Char} (hc : c.utf8Size = 1) (h : Spelled cs n) :
    Spelled (c :: cs) (n + 1) := by
  refine ⟨List.forall_mem_cons.2 ⟨hc, h.ascii⟩, ?_⟩
  have hlen := h.length
  rw [List.length_cons, List.countP_cons]
  omega

theorem utf8Size_of_isDigit {c : Char} (h : c.isDigit = true) : c.utf8Size = 1 := by
  rw [Char.utf8Size_eq_one_iff]
  simp only [Char.isDigit, Bool.and_eq_true, decide_eq_true_eq] at h
  grind

theorem spelled_of_digits (h : cs.all Char.isDigit = true) : Spelled cs 0 := by
  rw [List.all_eq_true] at h
  refine ⟨fun c hc => utf8Size_of_isDigit (h c hc), ?_⟩
  rw [List.countP_eq_length.2 h]
  exact Nat.le_refl _

theorem spelled_of_natural? {k : Nat} (h : natural? cs = some k) : Spelled cs 0 := by
  unfold natural? at h
  split at h
  · next hdigits => exact spelled_of_digits (Bool.and_eq_true_iff.1 hdigits).2
  · cases h

theorem spelled_of_any {p : Nat → Bool} (h : (natural? cs).any p = true) : Spelled cs 0 := by
  cases hk : natural? cs with
  | none =>
      rw [hk] at h
      cases h
  | some k => exact spelled_of_natural? hk

theorem spelled_of_isSigned (h : isSigned cs = true) : Spelled cs 1 := by
  unfold isSigned at h
  split at h
  · exact (spelled_of_any h).cons rfl
  · exact (spelled_of_any h).cons rfl
  · exact (spelled_of_any h).mono (Nat.zero_le 1)

theorem spelled_of_word? (h : (word? cs).isSome) : Spelled cs 1 := by
  have hdigits : ∀ {ds}, ((natural? ds).bind Bounded.ofNat?).isSome → Spelled ds 0 := by
    intro ds hds
    obtain ⟨n, hn⟩ := Option.isSome_iff_exists.1 hds
    obtain ⟨k, hk, -⟩ := Option.bind_eq_some_iff.1 hn
    exact spelled_of_natural? hk
  unfold word? at h
  split at h
  · exact (hdigits h).cons rfl
  · exact (hdigits h).mono (Nat.zero_le 1)

/-! ### Floating-point numerals -/

theorem spelled_of_dropSign (h : Spelled (dropSign cs) n) : Spelled cs (n + 1) := by
  unfold dropSign at h
  split at h
  · exact h.cons rfl
  · exact h.cons rfl
  · exact h.mono (Nat.le_succ n)

theorem bytes_le_dropSign (cs : List Char) : Utf8.bytes cs ≤ Utf8.bytes (dropSign cs) + 1 := by
  unfold dropSign
  split
  · exact Nat.le_of_eq (Nat.add_comm _ _)
  · exact Nat.le_of_eq (Nat.add_comm _ _)
  · exact Nat.le_succ _

theorem spelled_of_isExponent (h : isExponent cs = true) : Spelled cs 2 := by
  cases cs with
  | nil => exact ⟨nofun, Nat.zero_le _⟩
  | cons c cs =>
      obtain ⟨hc, hdigits⟩ := Bool.and_eq_true_iff.1 h
      have hspelled := spelled_of_dropSign
        (spelled_of_digits (Bool.and_eq_true_iff.1 hdigits).2)
      refine hspelled.cons ?_
      rcases Bool.or_eq_true_iff.1 hc with hc | hc
      · rw [eq_of_beq hc]
        rfl
      · rw [eq_of_beq hc]
        rfl

theorem spelled_takeWhile (cs : List Char) : Spelled (cs.takeWhile Char.isDigit) 0 :=
  spelled_of_digits (List.all_takeWhile)

theorem spelled_of_isFinite (h : isFinite cs = true) : Spelled cs 3 := by
  have hsplit := List.takeWhile_append_dropWhile (p := Char.isDigit) (l := cs)
  unfold isFinite at h
  split at h
  · next r hr =>
      have hpart := List.takeWhile_append_dropWhile (p := Char.isDigit) (l := r)
      have hexp := spelled_of_isExponent (Bool.and_eq_true_iff.1 h).2
      have hrest := (spelled_takeWhile r).append hexp
      rw [hpart] at hrest
      rw [← hsplit, hr]
      exact (spelled_takeWhile cs).append (hrest.cons rfl)
  · have hexp := spelled_of_isExponent (Bool.and_eq_true_iff.1 h).2
    rw [← hsplit]
    exact ((spelled_takeWhile cs).append hexp).mono (by decide)

/-- A floating-point numeral takes four bytes besides its digits, or it is a name of at most nine
bytes. -/
theorem bytes_le_of_isFloating (h : isFloating cs = true) :
    Utf8.bytes cs ≤ max (cs.countP Char.isDigit + 4) 9 := by
  rcases Bool.or_eq_true_iff.1 h with hname | hfinite
  · have hnames : ∀ ds ∈ unbounded, ds.length ≤ 8 ∧ ds.all (·.utf8Size = 1) := by decide
    obtain ⟨hlength, hascii⟩ := hnames _ (List.contains_iff_mem.1 hname)
    have hbytes := Utf8.bytes_of_map_toUpper rfl hascii
    have hsign := bytes_le_dropSign cs
    omega
  · have hbytes := (spelled_of_dropSign (spelled_of_isFinite hfinite)).bytes_le
    omega

end Numeral

end VersionedTables
