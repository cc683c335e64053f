import Mathlib.Data.List.Lex
import Mathlib.Data.String.Basic

/-!
# The order of texts

Texts are ordered as the lists of their characters, and a character by its number.  Written in UTF-8 a
character takes up to four bytes.  The order of the bytes is the order of the texts: the leading byte tells
how many bytes there are, and greater numbers have greater leading bytes or the same one and a greater digit
behind it.

* **`Utf8.append_lt_append`** — how the bytes of two characters compare.
* **`Utf8.encoding_lt_iff`** — texts are ordered as their bytes.
-/

namespace VersionedTables

namespace Utf8

def encoding (text : String) : List UInt8 := text.toUTF8.data.toList

theorem encoding_eq (text : String) : encoding text = text.toList.flatMap String.utf8EncodeChar := by
  conv => lhs; rw [← String.ofList_toList (s := text)]
  rw [encoding, String.toUTF8_eq_toByteArray, String.toByteArray_ofList, List.utf8Encode,
    List.data_toByteArray, List.toList_toArray]

/-- The bytes of a lesser character are less, whatever follows. -/
theorem append_lt_append {c d : Char} (h : c < d) (cs ds : List UInt8) :
    String.utf8EncodeChar c ++ cs < String.utf8EncodeChar d ++ ds := by
  have hlt : c.val.toNat < d.val.toNat := h
  have hd : d.val.toNat ≤ 0x10ffff := by
    rcases d.valid with hd | hd <;> omega
  unfold String.utf8EncodeChar
  generalize c.val.toNat = v at *
  generalize d.val.toNat = w at *
  -- Where the leading digits agree, the next digit decides.
  have hlast : v / 64 < w / 64 ∨ v / 64 = w / 64 ∧ v % 64 < w % 64 := by omega
  have hthird : v / 64 < w / 64 →
      v / 4096 < w / 4096 ∨ v / 4096 = w / 4096 ∧ v / 64 % 64 < w / 64 % 64 := by omega
  have hsecond : v / 4096 < w / 4096 →
      v / 262144 < w / 262144 ∨ v / 262144 = w / 262144 ∧ v / 4096 % 64 < w / 4096 % 64 := by omega
  dsimp only
  split_ifs <;>
    simp (disch := omega) only [List.cons_append, List.nil_append, List.cons_lt_cons_iff,
      UInt8.lt_iff_toNat_lt, ← UInt8.toNat_inj, UInt8.toNat_ofNat', Nat.mod_eq_of_lt] <;>
    omega

theorem flatMap_lt_flatMap {cs ds : List Char} (h : cs < ds) :
    cs.flatMap String.utf8EncodeChar < ds.flatMap String.utf8EncodeChar := by
  induction h with
  | @nil d ds =>
      rw [List.flatMap_nil, List.flatMap_cons]
      cases hd : String.utf8EncodeChar d with
      | nil => exact absurd hd String.utf8EncodeChar_ne_nil
      | cons b bs => exact List.nil_lt_cons b _
  | rel h => exact append_lt_append h _ _
  | cons _ ih => exact List.append_left_lt ih

/-- **Texts are ordered as their bytes.** -/
theorem encoding_lt_iff {s t : String} : encoding s < encoding t ↔ s < t := by
  rw [encoding_eq, encoding_eq, String.lt_iff]
  constructor
  · intro h
    rcases lt_trichotomy s.toList t.toList with hlt | heq | hgt
    · exact hlt
    · rw [heq] at h
      exact absurd h (List.lt_irrefl _)
    · exact absurd (flatMap_lt_flatMap hgt) (List.lt_asymm h)
  · exact flatMap_lt_flatMap

end Utf8

end VersionedTables
