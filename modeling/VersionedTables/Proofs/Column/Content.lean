import Mathlib.Data.List.TakeWhile
import VersionedTables.Proofs.Column.Cells
import VersionedTables.Proofs.Column.Format

/-!
# Columns are named by their content

The name of a column is the hash of all that its specification says in normal form.  As long as the hash
does not collide, two specifications get the same name if and only if they say the same once the blanks
around their names and the size bounds of unsized types are left aside, and then they make the same column,
whatever the settings are under which each of them is submitted.

* **`Blank.trimChars_append`** — blanks around a text are left aside.
* **`Sha256.hexDigest_eq_iff`** — the digits of a hash say what the hash is.
* **`ColumnSpec.SameContent`** — two specifications say the same.
* **`ColumnSpec.normalize_eq_iff`** — they have the same normal form if and only if they say the same.
* **`ColumnSpec.content_addressed`** — columns are named by their content.
-/

namespace VersionedTables

/-! ### Blanks -/

namespace Blank

theorem trimEnd_append {right : List Char} (h : ∀ c ∈ right, isBlank c = true) (cs : List Char) :
    trimEnd (cs ++ right) = trimEnd cs := by
  have hright : ∀ c ∈ right.reverse, isBlank c = true :=
    fun c hc => h c (List.mem_reverse.1 hc)
  rw [trimEnd, List.reverse_append, List.dropWhile_append_of_pos hright, ← trimEnd]

/-- **Blanks around a text are left aside.** -/
theorem trimChars_append {left right : List Char} (hleft : ∀ c ∈ left, isBlank c = true)
    (hright : ∀ c ∈ right, isBlank c = true) (cs : List Char) :
    trimChars (left ++ cs ++ right) = trimChars cs := by
  rw [trimChars, List.append_assoc, List.dropWhile_append_of_pos hleft, List.dropWhile_append]
  split
  · next hblank =>
      rw [List.dropWhile_eq_nil_iff.2 hright, trimChars, List.isEmpty_iff.1 hblank]
  · exact trimEnd_append hright _

end Blank

/-! ### Hashes -/

theorem Hex.ofByte_injective {a b : UInt8} (h : ofByte a = ofByte b) : a = b := by
  obtain ⟨hhigh, hlow⟩ : digit (a.toNat / 16) = digit (b.toNat / 16) ∧
      digit a.toNat = digit b.toNat := by simpa [ofByte] using h
  have hhigh := congrArg value? hhigh
  have hlow := congrArg value? hlow
  rw [value?_digit, value?_digit, Option.some.injEq] at hhigh hlow
  have ha := a.toNat_lt
  have hb := b.toNat_lt
  rw [← UInt8.toNat_inj]
  omega

theorem Hex.flatMap_ofByte_injective {as bs : List UInt8}
    (h : as.flatMap ofByte = bs.flatMap ofByte) : as = bs := by
  induction as generalizing bs with
  | nil =>
      cases bs with
      | nil => rfl
      | cons b bs => cases h
  | cons a as ih =>
      cases bs with
      | nil => cases h
      | cons b bs =>
          obtain ⟨hhead, htail⟩ := List.append_inj h rfl
          rw [ofByte_injective hhead, ih htail]

namespace Sha256

def ofText (text : String) : List UInt8 := digest text.toUTF8.data.toList

/-- The hash does not collide on two texts: only the same text has the same hash. -/
def Separates (s t : String) : Prop := ofText s = ofText t → s = t

/-- The digits of a hash say what the hash is. -/
theorem hexDigest_eq_iff {s t : String} : hexDigest s = hexDigest t ↔ ofText s = ofText t := by
  constructor
  · intro h
    exact Hex.flatMap_ofByte_injective (String.ofList_injective h)
  · intro h
    exact congrArg (fun bytes => String.ofList (bytes.flatMap Hex.ofByte)) h

end Sha256

/-! ### What specifications say -/

namespace ColumnSpec

/-- The size bound that counts: the one that is given, or that of the settings, where the type is
sized. -/
def sizeBound (settings : Settings) (s : ColumnSpec) : Option UInt64 :=
  if s.type.isSized then some (s.maxSize.getD settings.defaultStringMaxSize) else none

/-- Two specifications, each under settings of its own, say the same. -/
structure SameContent (settings settings' : Settings) (s t : ColumnSpec) : Prop where
  name : Blank.trim s.name = Blank.trim t.name
  type : s.type = t.type
  sizeBound : s.sizeBound settings = t.sizeBound settings'
  defaultValue : s.defaultValue = t.defaultValue
  /-- The same choices in the same order; no choices are not an empty list of choices. -/
  choices : s.choices = t.choices

/-- Two specifications have the same normal form if and only if they say the same. -/
theorem normalize_eq_iff {settings settings' : Settings} {s t : ColumnSpec} :
    s.normalize settings = t.normalize settings' ↔ SameContent settings settings' s t := by
  constructor
  · intro h
    obtain ⟨hname, htype, hsize, hdefault, hchoices⟩ := ColumnSpec.mk.inj h
    exact ⟨hname, htype, hsize, hdefault, hchoices⟩
  · intro h
    exact (ColumnSpec.mk.injEq ..).mpr ⟨h.name, h.type, h.sizeBound, h.defaultValue, h.choices⟩

/-- Where the hash does not collide, a specification is what its name says. -/
theorem id_eq_iff {s t : ColumnSpec}
    (hash : Sha256.Separates s.canonicalText t.canonicalText) : s.id = t.id ↔ s = t := by
  constructor
  · intro h
    have hdigits : Sha256.hexDigest s.canonicalText = Sha256.hexDigest t.canonicalText :=
      congrArg ColumnId.text h
    exact canonicalText_injective (hash (Sha256.hexDigest_eq_iff.1 hdigits))
  · intro h
    rw [h]

/-- The check and the column depend on the normal form only. -/
theorem define_congr {settings : Settings} {s t : ColumnSpec}
    (h : SameContent settings settings s t) : s.define settings = t.define settings := by
  have hcheck : ColumnName.check settings s.name = ColumnName.check settings t.name := by
    unfold ColumnName.check
    rw [h.name]
  unfold define
  rw [hcheck, normalize_eq_iff.2 h]

/-- **Columns are named by their content.**  Two accepted specifications get the same name if and only if
they say the same, and then they make the same column.  A specification with other blanks around its name,
or with another size bound where the type is unsized, is accepted as the same column. -/
theorem content_addressed {settings settings' : Settings} {s t : ColumnSpec} {a b : Column}
    (ha : s.define settings = .ok a) (hb : t.define settings' = .ok b)
    (hash : Sha256.Separates a.spec.canonicalText b.spec.canonicalText) :
    (a.id = b.id ↔ SameContent settings settings' s t) ∧ (a.id = b.id → a = b) ∧
    ∀ (left right : List Char) (maxSize : Option UInt64),
      (∀ c ∈ left, Blank.isBlank c = true) → (∀ c ∈ right, Blank.isBlank c = true) →
      (maxSize = s.maxSize ∨ s.type.isSized = false) →
      define settings { s with
        name := String.ofList (left ++ s.name.toList ++ right), maxSize } = .ok a := by
  have hspec : a.spec = s.normalize settings := congrArg Column.spec (define_eq_ok ha)
  have hspec' : b.spec = t.normalize settings' := congrArg Column.spec (define_eq_ok hb)
  rw [hspec, hspec'] at hash
  have hid : a.id = b.id ↔ s.normalize settings = t.normalize settings' := by
    rw [define_eq_ok ha, define_eq_ok hb]
    exact id_eq_iff hash
  refine ⟨hid.trans normalize_eq_iff, ?_, ?_⟩
  · intro h
    rw [define_eq_ok ha, define_eq_ok hb, hid.1 h]
  · intro left right maxSize hleft hright hsize
    have hname : Blank.trim (String.ofList (left ++ s.name.toList ++ right)) = Blank.trim s.name := by
      rw [Blank.trim, String.toList_ofList, Blank.trimChars_append hleft hright, Blank.trim]
    have hbound : sizeBound settings { s with maxSize } = sizeBound settings s := by
      rcases hsize with rfl | hunsized
      · rfl
      · simp [sizeBound, hunsized]
    have hsame : SameContent settings settings
        { s with name := String.ofList (left ++ s.name.toList ++ right), maxSize } s :=
      ⟨hname, rfl, hbound, rfl, rfl⟩
    exact (define_congr hsame).trans ha

end ColumnSpec

namespace Sample

/-- A column of texts: blanks around the name, and no size bound. -/
def padded : ColumnSpec := { name := " a\t", type := .string }

/-- The same with a size bound, which is that of the default settings. -/
def bounded : ColumnSpec := { name := "a", type := .string, maxSize := some 50 }

/-- A column of texts that has an empty list of choices. -/
def choiceless : ColumnSpec := { name := "a", type := .string, choices := some [] }

def short : Settings := { defaultStringMaxSize := 7 }

end Sample

namespace ColumnSpec

/-- Two specifications under different settings make one column, and an empty list of choices makes
another. -/
theorem content_addressed_choices :
    ∃ a b c : Column, Sample.padded.define {} = .ok a ∧ Sample.bounded.define Sample.short = .ok b ∧
      Sample.choiceless.define {} = .ok c ∧
      Sha256.Separates a.spec.canonicalText b.spec.canonicalText ∧
      Sha256.Separates a.spec.canonicalText c.spec.canonicalText ∧ a = b ∧ a.id ≠ c.id := by
  have ha : Sample.padded.define {} =
      .ok ⟨(Sample.padded.normalize {}).id, Sample.padded.normalize {}⟩ := by rfl
  have hb : Sample.bounded.define Sample.short =
      .ok ⟨(Sample.bounded.normalize Sample.short).id, Sample.bounded.normalize Sample.short⟩ := by rfl
  have hc : Sample.choiceless.define {} =
      .ok ⟨(Sample.choiceless.normalize {}).id, Sample.choiceless.normalize {}⟩ := by rfl
  have hsame : Sha256.Separates (Sample.padded.normalize {}).canonicalText
      (Sample.bounded.normalize Sample.short).canonicalText := fun _ => rfl
  have hother : Sha256.Separates (Sample.padded.normalize {}).canonicalText
      (Sample.choiceless.normalize {}).canonicalText := fun h => absurd h (by decide +kernel)
  obtain ⟨hiff, heq, -⟩ := content_addressed ha hb hsame
  obtain ⟨hiff', -, -⟩ := content_addressed ha hc hother
  refine ⟨_, _, _, ha, hb, hc, hsame, hother, heq (hiff.2 ⟨by decide, rfl, by decide, rfl, rfl⟩), ?_⟩
  intro h
  exact absurd (hiff'.1 h).choices (by decide)

end ColumnSpec

end VersionedTables
