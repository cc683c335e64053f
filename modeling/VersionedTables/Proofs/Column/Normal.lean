import Mathlib.Data.List.DropRight
import VersionedTables.Proofs.Column.Cells

/-!
# Columns in normal form

A specification is checked before it is brought into normal form and named in between, but the order does
not show: a specification is accepted exactly if its normal form is well made, that is, if the form passes
every check on its own.  What is accepted once is therefore accepted again, in the form in which it is
kept, as the same column.

* **`Blank.trimmed_trimChars`** — a text without blank ends has no blank ends.
* **`ColumnName.Allowed`**, **`ColumnName.check_eq_ok_iff`** — the names that may be given to columns.
* **`ColumnSpec.Normal`**, **`ColumnSpec.Normal.normalize_eq`** — specifications that are their own normal
  form.
* **`ColumnSpec.define_eq_ok_iff`** — which specifications are accepted, and as what.
-/

namespace VersionedTables

/-! ### Names -/

namespace Blank

/-- **Where blank ends are taken away, no blank ends are left.** -/
theorem trimmed_trimChars (cs : List Char) : Trimmed (trimChars cs) := by
  have hfront : trimEnd (cs.dropWhile isBlank) <+: cs.dropWhile isBlank :=
    List.rdropWhile_prefix isBlank _
  have hhead := List.head?_dropWhile_not isBlank cs
  have hstart : (trimChars cs).dropWhile isBlank = trimChars cs := by
    rw [trimChars]
    -- The first character that is left was the first one in front of the end, so it is not blank.
    cases h : trimEnd (cs.dropWhile isBlank) with
    | nil => rfl
    | cons c rest =>
        rw [h] at hfront
        obtain ⟨tail, htail⟩ := hfront
        rw [← htail, List.cons_append, List.head?_cons] at hhead
        exact List.dropWhile_cons_of_neg (by simpa using hhead)
  rw [Trimmed, trimChars, hstart]
  exact List.rdropWhile_idempotent isBlank _

theorem trim_of_trimmed {s : String} (h : Trimmed s.toList) : trim s = s := by
  rw [trim, h, String.ofList_toList]

end Blank

namespace ColumnName

/-- Two texts that differ in the case of ASCII letters at most. -/
def SameLetters (s t : String) : Prop := s.toList.map Char.toUpper = t.toList.map Char.toUpper

def taken : List String := reserved ++ keywords

theorem map_toUpper_of_mem_taken : ∀ word ∈ taken, word.toList.map Char.toUpper = word.toList := by
  decide

/-- A name that may be given to a column, as it is kept. -/
structure Allowed (settings : Settings) (name : String) : Prop where
  trimmed : Blank.Trimmed name.toList
  nonempty : name ≠ ""
  length : name.length ≤ settings.maxColumnNameLength.toNat
  untaken : ∀ word ∈ taken, ¬SameLetters name word

theorem isAmong_iff {words : List String} {name : String} (hwords : words ⊆ taken)
    (hname : Blank.Trimmed name.toList) :
    isAmong words name = true ↔ ∃ word ∈ words, SameLetters name word := by
  have hsame : ∀ word ∈ words, word.toList = name.toList.map Char.toUpper ↔ SameLetters name word := by
    intro word hword
    rw [SameLetters, map_toUpper_of_mem_taken word (hwords hword)]
    exact eq_comm
  rw [isAmong, hname, List.any_eq_true]
  exact exists_congr fun word => and_congr_right fun hword => beq_iff_eq.trans (hsame word hword)

/-- **A name passes the check exactly if it may be given to a column without its blank ends.** -/
theorem check_eq_ok_iff {settings : Settings} {name : String} :
    check settings name = .ok () ↔ Allowed settings (Blank.trim name) := by
  have htrimmed : Blank.Trimmed (Blank.trim name).toList := by
    rw [Blank.toList_trim]
    exact Blank.trimmed_trimChars name.toList
  have hreserved := isAmong_iff (List.subset_append_left reserved keywords) htrimmed
  have hkeyword := isAmong_iff (List.subset_append_right reserved keywords) htrimmed
  have htaken : (∀ word ∈ taken, ¬SameLetters (Blank.trim name) word) ↔
      isReserved (Blank.trim name) = false ∧ isKeyword (Blank.trim name) = false := by
    rw [isReserved, isKeyword, ← Bool.not_eq_true, ← Bool.not_eq_true, hreserved, hkeyword, taken]
    simp only [List.mem_append, not_exists, not_and, or_imp, forall_and]
  unfold check
  dsimp only
  constructor
  · intro h
    split at h
    · cases h
    · next hempty =>
        split at h
        · cases h
        · next hlength =>
            split at h
            · cases h
            · next hfree =>
                split at h
                · cases h
                · next hfree' =>
                    exact ⟨htrimmed, by simpa using hempty, Nat.not_lt.1 hlength,
                      htaken.2 ⟨by simpa using hfree, by simpa using hfree'⟩⟩
  · intro h
    obtain ⟨hfree, hfree'⟩ := htaken.1 h.untaken
    rw [if_neg (by simpa using h.nonempty), if_neg (Nat.not_lt.2 h.length), hfree, hfree']
    rfl

end ColumnName

/-! ### Specifications -/

namespace ColumnSpec

/-- The specification is in normal form, and well made: its own checks let pass all that it says. -/
structure Normal (settings : Settings) (s : ColumnSpec) : Prop where
  name : ColumnName.Allowed settings s.name
  /-- A size bound stands exactly where the type is sized. -/
  sized : s.maxSize.isSome = s.type.isSized
  positive : ∀ limit ∈ s.maxSize, 0 < limit
  choices : ∀ choices ∈ s.choices, ∀ value ∈ choices, s.checkCell (some value) = .ok ()
  defaultValue : s.checkCell s.defaultValue = .ok ()

variable {settings : Settings} {s : ColumnSpec}

/-- **A specification in normal form is its own normal form.** -/
theorem Normal.normalize_eq (h : s.Normal settings) : s.normalize settings = s := by
  have hname := Blank.trim_of_trimmed h.name.trimmed
  have hsize : (if s.type.isSized then some (s.maxSize.getD settings.defaultStringMaxSize) else none) =
      s.maxSize := by
    rw [← h.sized]
    cases s.maxSize with
    | none => rfl
    | some limit => rfl
  rw [normalize, hname, hsize]

/-- The normal form has a size bound exactly where the type is sized. -/
theorem isSome_maxSize_normalize (settings : Settings) (s : ColumnSpec) :
    (s.normalize settings).maxSize.isSome = (s.normalize settings).type.isSized := by
  show (if s.type.isSized then _ else none : Option UInt64).isSome = s.type.isSized
  split
  · next hsized => rw [hsized]; rfl
  · next hsized => simpa using hsized

/-- A choice is allowed in a cell exactly if it is a value of the type that is not too long. -/
theorem checkCell_of_mem {choices : List String} (hchoices : s.choices = some choices) {value : String}
    (hvalue : value ∈ choices) : s.checkCell (some value) = .ok () ↔ s.checkText value = .ok () := by
  rw [checkCell, Outcome.check_bind_eq_ok_iff, checkChoice_eq_ok_iff, hchoices]
  simp [hvalue]

/-- **A specification is accepted exactly if its normal form is well made**, and then as the column of the
normal form. -/
theorem define_eq_ok_iff {column : Column} :
    s.define settings = .ok column ↔
      (s.normalize settings).Normal settings ∧
        column = ⟨(s.normalize settings).id, s.normalize settings⟩ := by
  have hchoices : ((s.normalize settings).choices.getD []).forM (s.normalize settings).checkText = .ok () ↔
      ∀ choices ∈ (s.normalize settings).choices, ∀ value ∈ choices,
        (s.normalize settings).checkCell (some value) = .ok () := by
    rw [Outcome.forM_eq_ok_iff]
    cases h : (s.normalize settings).choices with
    | none => simp
    | some choices =>
        simp only [Option.getD_some, Option.mem_some_iff, forall_eq']
        exact forall₂_congr fun value hvalue => (checkCell_of_mem h hvalue).symm
  have hpositive : ¬(s.normalize settings).maxSize = some 0 ↔
      ∀ limit ∈ (s.normalize settings).maxSize, 0 < limit := by
    cases (s.normalize settings).maxSize with
    | none => simp
    | some limit => simp [UInt64.pos_iff_ne_zero]
  unfold define
  rw [Outcome.bind_eq_ok_iff]
  constructor
  · intro h
    obtain ⟨⟨⟩, hname, h⟩ := h
    obtain ⟨hsize, h⟩ := Outcome.throw_bind_eq_ok_iff.1 h
    obtain ⟨⟨⟩, hvalues, h⟩ := Outcome.bind_eq_ok_iff.1 h
    obtain ⟨⟨⟩, hdefault, h⟩ := Outcome.bind_eq_ok_iff.1 h
    cases h
    exact ⟨⟨ColumnName.check_eq_ok_iff.1 hname, isSome_maxSize_normalize settings s,
      hpositive.1 hsize, hchoices.1 hvalues, hdefault⟩, rfl⟩
  · rintro ⟨h, rfl⟩
    refine ⟨(), ColumnName.check_eq_ok_iff.2 h.name, ?_⟩
    refine Outcome.throw_bind_eq_ok_iff.2 ⟨hpositive.2 h.positive, ?_⟩
    refine Outcome.bind_eq_ok_iff.2 ⟨(), hchoices.2 h.choices, ?_⟩
    exact Outcome.bind_eq_ok_iff.2 ⟨(), h.defaultValue, rfl⟩

/-- A specification in normal form is accepted as it is. -/
theorem Normal.define_eq (h : s.Normal settings) : s.define settings = .ok ⟨s.id, s⟩ := by
  have hself := h.normalize_eq
  exact define_eq_ok_iff.2 ⟨by rwa [hself], by rw [hself]⟩

end ColumnSpec

end VersionedTables
