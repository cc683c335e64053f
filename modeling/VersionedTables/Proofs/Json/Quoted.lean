import Mathlib.Tactic.SplitIfs
import VersionedTables.Json.Quoted

/-!
# Tokens of texts

A text and its token determine each other, and the token ends where it was meant to end.

* **`Quoted.encodeChar_cases`** — the three written forms of a character.
* **`Quoted.decode?_encode`** — the token of a text is read back as the text.
* **`Quoted.token?_encode`** — a token in front of a closing quote is split off whole.
-/

namespace VersionedTables

namespace Quoted

/-! ### The written forms of a character -/

theorem named?_letter? {c l : Char} (h : letter? c = some l) : l ≠ 'u' ∧ named? l = some c := by
  simp only [letter?] at h
  split_ifs at h with h₁ h₂ h₃ h₄ h₅ h₆ h₇ <;> cases h <;> subst c <;> decide

theorem unit?_encodeChar {c : Char} (h : c.toNat < 0x20) :
    unit? '0' '0' (Hex.digit (c.toNat / 16)) (Hex.digit c.toNat) = some c.toNat := by
  have h0 : Hex.value? '0' = some 0 := by decide
  simp only [unit?, Hex.number?, List.foldlM_cons, List.foldlM_nil, h0, Hex.value?_digit,
    Option.map_some, Option.bind_eq_bind, Option.bind_some]
  show some _ = some _
  congr 1
  omega

/-- A character is written as a letter behind a backslash, as a four-digit escape, or as itself. -/
theorem encodeChar_cases (c : Char) :
    (∃ l, l ≠ 'u' ∧ named? l = some c ∧ encodeChar c = ['\\', l]) ∨
    (c.toNat < 0x20 ∧
      encodeChar c = ['\\', 'u', '0', '0', Hex.digit (c.toNat / 16), Hex.digit c.toNat]) ∨
    (c ≠ '"' ∧ c ≠ '\\' ∧ ¬ c.toNat < 0x20 ∧ encodeChar c = [c]) := by
  cases hl : letter? c with
  | some l =>
      obtain ⟨hu, hn⟩ := named?_letter? hl
      exact Or.inl ⟨l, hu, hn, by simp only [encodeChar, hl]⟩
  | none =>
      right
      have hq : c ≠ '"' := by rintro rfl; exact absurd hl (by decide)
      have hb : c ≠ '\\' := by rintro rfl; exact absurd hl (by decide)
      by_cases h : c.toNat < 0x20
      · exact Or.inl ⟨h, by simp only [encodeChar, hl, h, if_true]⟩
      · exact Or.inr ⟨hq, hb, h, by simp only [encodeChar, hl, h, if_false]⟩

/-! ### Reading a token back -/

theorem decodeChars?_cons {c : Char} {cs : List Char} (h : c ≠ '\\') :
    decodeChars? (c :: cs) = (decodeChars? cs).map (c :: ·) := by
  rw [decodeChars?]
  simp only [h, if_false]

theorem decodeChars?_escape {cs rest : List Char} {d : Char}
    (h : takeEscape? cs = some (d, rest)) :
    decodeChars? ('\\' :: cs) = (decodeChars? rest).map (d :: ·) := by
  rw [decodeChars?]
  simp only [if_true]
  split
  · next d' rest' h' =>
      rw [h] at h'
      cases h'
      rfl
  · next h' =>
      rw [h] at h'
      cases h'

theorem takeEscape?_letter {l c : Char} (hu : l ≠ 'u') (h : named? l = some c)
    (rest : List Char) : takeEscape? (l :: rest) = some (c, rest) := by
  unfold takeEscape?
  split
  · next he => cases he
  · next he =>
      cases he
      exact absurd rfl hu
  · next he =>
      cases he
      simp only [h, Option.map_some]

theorem takeEscape?_unit {c : Char} (h : c.toNat < 0x20) (rest : List Char) :
    takeEscape? ('u' :: '0' :: '0' :: Hex.digit (c.toNat / 16) :: Hex.digit c.toNat :: rest)
      = some (c, rest) := by
  have hh : isHigh c.toNat = false := by simp only [isHigh]; grind
  have hl : isLow c.toNat = false := by simp only [isLow]; grind
  simp [takeEscape?, takeUnit?, unit?_encodeChar h, hh, hl, Char.ofNat_toNat]

theorem decodeChars?_encodeChar (c : Char) (rest : List Char) :
    decodeChars? (encodeChar c ++ rest) = (decodeChars? rest).map (c :: ·) := by
  rcases encodeChar_cases c with ⟨l, hu, hn, he⟩ | ⟨hc, he⟩ | ⟨-, hb, -, he⟩
  · rw [he]
    exact decodeChars?_escape (takeEscape?_letter hu hn rest)
  · rw [he]
    exact decodeChars?_escape (takeEscape?_unit hc rest)
  · rw [he]
    exact decodeChars?_cons hb

theorem decodeChars?_flatMap (cs : List Char) :
    decodeChars? (cs.flatMap encodeChar) = some cs := by
  induction cs with
  | nil =>
      rw [List.flatMap_nil, decodeChars?]
  | cons c cs ih =>
      rw [List.flatMap_cons, decodeChars?_encodeChar, ih]
      rfl

/-- **The token of a text is read back as the text.** -/
theorem decode?_encode (s : String) : decode? (encode s) = some s := by
  simp only [decode?, encode, decodeChars?_flatMap, Option.map_some, String.ofList_toList]

/-! ### Finding the end of a token -/

theorem token?_letter {l c : Char} (hu : l ≠ 'u') (h : named? l = some c) (rest : List Char) :
    token? ('\\' :: l :: rest) = (token? rest).map (fun (t, rest) => ('\\' :: l :: t, rest)) := by
  rw [token?]
  · simp only [h, Option.isSome_some, if_true]
  · intro _ _ _ _ _ he _
    exact hu he

theorem token?_encodeChar (c : Char) (rest : List Char) :
    token? (encodeChar c ++ rest) =
      (token? rest).map (fun (t, rest) => (encodeChar c ++ t, rest)) := by
  rcases encodeChar_cases c with ⟨l, hu, hn, he⟩ | ⟨hc, he⟩ | ⟨hq, hb, hs, he⟩
  · rw [he]
    exact token?_letter hu hn rest
  · rw [he]
    simp [token?, unit?_encodeChar hc]
  · rw [he]
    simp [token?, hb, hs]

theorem token?_flatMap (cs rest : List Char) :
    token? (cs.flatMap encodeChar ++ '"' :: rest) = some (cs.flatMap encodeChar, rest) := by
  induction cs with
  | nil => simp [token?]
  | cons c cs ih =>
      rw [List.flatMap_cons, List.append_assoc, token?_encodeChar, ih]
      rfl

/-- **A token in front of a closing quote is split off whole.** -/
theorem token?_encode (s : String) (rest : List Char) :
    token? (encode s ++ '"' :: rest) = some (encode s, rest) :=
  token?_flatMap s.toList rest

end Quoted

end VersionedTables
