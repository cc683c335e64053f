import Mathlib.Data.List.Nodup
import VersionedTables.Proofs.Column.Width
import VersionedTables.Proofs.Log.Check
import VersionedTables.Proofs.Text.Spelling

/-!
# How many bytes a cell takes

The width of a column is to be the most bytes that one of its cells takes.  It is for texts of a bounded
length, which take at most four bytes for each character.  It is not for the other types: blank
characters around a value do not count, zeros may lead, nothing bounds the digits of a floating-point
numeral, and the mark of an entity is not reckoned with.  Values without such extras keep the width.

* **`ColumnType.Plain`** — values without extras.
* **`ColumnType.plain_ofNat`** — numbers without leading zeros are such values.
* **`ColumnType.bytes_le_width`** — they keep the width of the type.
* **`ColumnSpec.Allows`** — what a column allows in a cell.
* **`ColumnSpec.bytes_le_width`** — what a column allows keeps its width.
* **`Column.rowBytes_le_rowWidth`** — a row of such values keeps the width of its columns.
-/

namespace VersionedTables

namespace Blank

/-- No blank characters stand at the ends. -/
def Trimmed (cs : List Char) : Prop := trimChars cs = cs

theorem dropWhile_isBlank {cs : List Char} (h : ∀ c ∈ cs, isBlank c = false) :
    cs.dropWhile isBlank = cs := by
  cases cs with
  | nil => rfl
  | cons c cs => exact List.dropWhile_cons_of_neg (by simp [h c List.mem_cons_self])

theorem trimmed_of_forall {cs : List Char} (h : ∀ c ∈ cs, isBlank c = false) : Trimmed cs := by
  have hreverse : ∀ c ∈ cs.reverse, isBlank c = false := fun c hc => h c (List.mem_reverse.1 hc)
  rw [Trimmed, trimChars, dropWhile_isBlank h, trimEnd, dropWhile_isBlank hreverse,
    List.reverse_reverse]

theorem isBlank_of_isDigit {c : Char} (h : c.isDigit = true) : isBlank c = false := by
  simp only [Char.isDigit, Bool.and_eq_true, decide_eq_true_eq, UInt32.le_iff_toNat_le] at h
  have hzero : 48 ≤ c.toNat := h.1
  have hnine : c.toNat ≤ 57 := h.2
  simp only [isBlank, codePoints, List.contains_eq_mem, decide_eq_false_iff_not]
  simp only [List.mem_cons, List.not_mem_nil, or_false]
  omega

end Blank

namespace ColumnType

/-- A value without extras.  Texts are plain.  Any other value has no blank characters around it, and
unless it is a truth value it has no more digits than 64 bits have need of: 19, where a sign may stand in
front, and for an entity 16 where the mark `syn` and a sign may stand in front, or 20 and nothing else. -/
def Plain (type : ColumnType) (value : String) : Prop :=
  match type with
  | string | link | largeText => True
  | boolean => Blank.Trimmed value.toList
  | integer | date | fileHandleId | userId | double =>
      Blank.Trimmed value.toList ∧ value.toList.countP Char.isDigit ≤ 19
  | entityId =>
      Blank.Trimmed value.toList ∧ (value.toList.countP Char.isDigit ≤ 16 ∨
        value.toList.all Char.isDigit = true ∧ value.toList.length ≤ 20)

/-- A number without leading zeros is plain, with or without a sign, if it has no more digits than a
64-bit number with a sign has. -/
theorem plain_ofNat {n : Nat} (h : n < 10 ^ 19) {sign : List Char}
    (hsign : sign = [] ∨ sign = ['-']) :
    integer.Plain (String.ofList (sign ++ Numeral.ofNat n)) := by
  have hdigits : ∀ c ∈ Numeral.ofNat n, c.isDigit = true := fun c hc =>
    Nat.isDigit_of_mem_toDigits (by decide) (by decide) hc
  have hlength : (Numeral.ofNat n).length ≤ 19 :=
    (Nat.length_toDigits_le_iff (by decide) (by decide)).2 h
  have hcount : (Numeral.ofNat n).countP Char.isDigit ≤ 19 :=
    Nat.le_trans List.countP_le_length hlength
  simp only [Plain, String.toList_ofList]
  rcases hsign with rfl | rfl
  · exact ⟨Blank.trimmed_of_forall fun c hc => Blank.isBlank_of_isDigit (hdigits c hc), hcount⟩
  · refine ⟨Blank.trimmed_of_forall fun c hc => ?_, ?_⟩
    · rcases List.mem_cons.1 hc with rfl | hc
      · rfl
      · exact Blank.isBlank_of_isDigit (hdigits c hc)
    · rw [List.singleton_append, List.countP_cons_of_neg (by decide)]
      exact hcount

theorem spelled_of_dropMark {cs : List Char} {n : Nat}
    (h : Numeral.Spelled (dropMark cs) n) : Numeral.Spelled cs (n + 3) := by
  unfold dropMark at h
  split at h
  · exact ((h.cons rfl).cons rfl).cons rfl
  · exact ((h.cons rfl).cons rfl).cons rfl
  · exact h.mono (Nat.le_add_right n 3)

/-- **A plain value of a type that is not sized keeps the width of the type**, unless it is kept outside
the row. -/
theorem bytes_le_width {type : ColumnType} {value : String} (hplain : type.Plain value)
    (hadmits : type.admits value = true) (hsized : type.isSized = false)
    (hinline : type ≠ largeText) (maxSize : Option UInt64) :
    value.utf8ByteSize ≤ type.width maxSize := by
  rw [Utf8.utf8ByteSize_eq]
  cases type with
  | string | link => cases hsized
  | largeText => exact absurd rfl hinline
  | integer | date | fileHandleId | userId =>
      obtain ⟨htrim, hdigits⟩ := hplain
      have hsigned : Numeral.isSigned (Blank.trimChars value.toList) = true := hadmits
      rw [htrim] at hsigned
      have hbytes := (Numeral.spelled_of_isSigned hsigned).bytes_le
      simp only [width]
      omega
  | entityId =>
      obtain ⟨htrim, hdigits⟩ := hplain
      have hword : (Numeral.word? (dropMark (Blank.trimChars value.toList))).isSome := hadmits
      rw [htrim] at hword
      simp only [width]
      rcases hdigits with hdigits | ⟨hall, hlength⟩
      · have hbytes := (spelled_of_dropMark (Numeral.spelled_of_word? hword)).bytes_le
        omega
      · rw [Utf8.bytes_eq_length (Numeral.spelled_of_digits hall).ascii]
        exact hlength
  | double =>
      obtain ⟨htrim, hdigits⟩ := hplain
      have hfloating : Numeral.isFloating (Blank.trimChars value.toList) = true := hadmits
      rw [htrim] at hfloating
      have hbytes := Numeral.bytes_le_of_isFloating hfloating
      simp only [width]
      omega
  | boolean =>
      have hname : ["TRUE".toList, "FALSE".toList].contains
          ((Blank.trimChars value.toList).map Char.toUpper) = true := hadmits
      have hnames : ∀ ds ∈ ["TRUE".toList, "FALSE".toList],
          ds.length ≤ 5 ∧ ds.all (·.utf8Size = 1) := by decide
      obtain ⟨hlength, hascii⟩ := hnames _ (List.contains_iff_mem.1 hname)
      rw [hplain] at hlength hascii
      rw [Utf8.bytes_of_map_toUpper rfl hascii]
      exact hlength

end ColumnType

namespace ColumnSpec

/-- A size bound stands where the type is sized. -/
def Sized (s : ColumnSpec) : Prop := s.type.isSized = true → s.maxSize.isSome

theorem checkText_eq_ok_iff {s : ColumnSpec} {value : String} :
    s.checkText value = .ok () ↔
      s.type.admits value = true ∧ ∀ limit ∈ s.maxSize, value.length ≤ limit.toNat := by
  unfold checkText
  cases hadmits : s.type.admits value with
  | false => simp
  | true =>
      cases s.maxSize with
      | none => simp
      | some limit => simp

/-- A cell may hold the value: it is one of the type, it is not too long, and it is among the choices
where there are any. -/
structure Allows (s : ColumnSpec) (value : String) : Prop where
  admits : s.type.admits value = true
  length : ∀ limit ∈ s.maxSize, value.length ≤ limit.toNat
  choice : ∀ choices ∈ s.choices, value ∈ choices

theorem checkChoice_eq_ok_iff {s : ColumnSpec} {value : String} :
    s.checkChoice value = .ok () ↔ ∀ choices ∈ s.choices, value ∈ choices := by
  unfold checkChoice
  cases s.choices with
  | none => simp
  | some choices => simp

/-- **A value passes the check of a cell exactly if the cell may hold it.** -/
theorem checkCell_some_eq_ok_iff {s : ColumnSpec} {value : String} :
    s.checkCell (some value) = .ok () ↔ s.Allows value := by
  rw [checkCell, Outcome.check_bind_eq_ok_iff, checkText_eq_ok_iff, checkChoice_eq_ok_iff]
  constructor
  · intro h
    obtain ⟨⟨hadmits, hlength⟩, hchoice⟩ := h
    exact ⟨hadmits, hlength, hchoice⟩
  · intro h
    exact ⟨⟨h.admits, h.length⟩, h.choice⟩

/-- **What a column allows in a cell keeps its width**, if it is plain and kept in the row. -/
theorem bytes_le_width {s : ColumnSpec} (hs : s.Sized) {value : String}
    (hcell : s.checkCell (some value) = .ok ()) (hplain : s.type.Plain value)
    (hinline : s.type ≠ .largeText) : value.utf8ByteSize ≤ s.width := by
  obtain ⟨hadmits, hlength, -⟩ := checkCell_some_eq_ok_iff.1 hcell
  cases hsized : s.type.isSized with
  | false => exact ColumnType.bytes_le_width hplain hadmits hsized hinline s.maxSize
  | true =>
      obtain ⟨limit, hlimit⟩ := Option.isSome_iff_exists.1 (hs hsized)
      have hchars := hlength limit hlimit
      have hbytes := Utf8.bytes_le value.toList
      have hwidth : s.width = limit.toNat * 4 := by
        unfold width
        rw [hlimit]
        cases htype : s.type with
        | string | link => rfl
        | _ =>
            rw [htype] at hsized
            cases hsized
      rw [Utf8.utf8ByteSize_eq, hwidth]
      rw [← String.length_toList] at hchars
      omega

/-- A column is made of the normal form, under the name of the normal form. -/
theorem define_eq_ok {settings : Settings} {s : ColumnSpec} {column : Column}
    (h : s.define settings = .ok column) :
    column = ⟨(s.normalize settings).id, s.normalize settings⟩ := by
  obtain ⟨⟨⟩, -, h⟩ := Outcome.bind_eq_ok_iff.1 h
  obtain ⟨-, h⟩ := Outcome.throw_bind_eq_ok_iff.1 h
  obtain ⟨⟨⟩, -, h⟩ := Outcome.bind_eq_ok_iff.1 h
  obtain ⟨⟨⟩, -, h⟩ := Outcome.bind_eq_ok_iff.1 h
  cases h
  rfl

/-- A defined column has a size bound where its type is sized. -/
theorem sized_of_define {settings : Settings} {s : ColumnSpec} {column : Column}
    (h : s.define settings = .ok column) : column.spec.Sized := by
  rw [define_eq_ok h]
  intro hsized
  have hs : s.type.isSized = true := hsized
  simp only [normalize, hs, if_true]
  rfl

end ColumnSpec

/-! ### Rows -/

namespace Column

/-- The bytes that a cell takes in the row: texts of the type `LARGE_TEXT` are kept outside. -/
def cellBytes (c : Column) (value : Option String) : Nat :=
  if c.spec.type = .largeText then 0 else (value.getD "").utf8ByteSize

def rowBytes (columns : List Column) (values : List (Option String)) : Nat :=
  ((columns.zip values).map (fun c => c.1.cellBytes c.2)).sum

def PlainRow (columns : List Column) (values : List (Option String)) : Prop :=
  ∀ c ∈ columns.zip values, ∀ value ∈ c.2, c.1.spec.type.Plain value

theorem cellBytes_le_width {c : Column} (hc : c.spec.Sized) {value : Option String}
    (hcell : c.spec.checkCell value = .ok ()) (hplain : ∀ v ∈ value, c.spec.type.Plain v) :
    c.cellBytes value ≤ c.spec.width := by
  unfold cellBytes
  split
  · exact Nat.zero_le _
  · next hinline =>
      cases value with
      | none => exact Nat.zero_le _
      | some v => exact ColumnSpec.bytes_le_width hc hcell (hplain v rfl) hinline

/-- **A row of plain values keeps the width of its columns.** -/
theorem rowBytes_le_rowWidth {columns : List Column} {values : List (Option String)}
    (hcolumns : ∀ c ∈ columns, c.spec.Sized)
    (hcells : ∀ c ∈ columns.zip values, c.1.spec.checkCell c.2 = .ok ())
    (hplain : PlainRow columns values) : rowBytes columns values ≤ rowWidth columns := by
  induction columns generalizing values with
  | nil => exact Nat.zero_le _
  | cons c columns ih =>
      cases values with
      | nil => exact Nat.zero_le _
      | cons value values =>
          obtain ⟨hsized, hrest⟩ := List.forall_mem_cons.1 hcolumns
          obtain ⟨hcell, hcells⟩ := List.forall_mem_cons.1 hcells
          obtain ⟨hvalue, hplain⟩ := List.forall_mem_cons.1 hplain
          exact Nat.add_le_add (cellBytes_le_width hsized hcell hvalue) (ih hrest hcells hplain)

/-- Some columns of a schema are not wider than all of them. -/
theorem rowWidth_le_of_subset {columns schema : List Column} (hnodup : columns.Nodup)
    (hsub : columns ⊆ schema) : rowWidth columns ≤ rowWidth schema := by
  obtain ⟨some, hperm, hsublist⟩ := hnodup.subperm hsub
  rw [← rowWidth_perm hperm]
  exact rowWidth_le_of_sublist hsublist

end Column

/-- The columns that headers name stand in the schema, and each of them once. -/
theorem RowSet.Acceptable.columns {s : RowSet} {table : TableId} {schema columns : List Column}
    {last : Option RowId} (h : s.Acceptable table schema last columns) :
    columns.Nodup ∧ columns ⊆ schema := by
  have hids : columns.map (·.id) = s.headers := by
    refine Outcome.map_of_map_eq_some (fun id c hfind => ?_) h.named
    simpa using List.find?_some hfind
  refine ⟨List.Nodup.of_map (·.id) (hids ▸ h.headers), ?_⟩
  intro c hc
  obtain ⟨id, -, hfind⟩ := Outcome.exists_of_mem_of_map_eq_some h.named hc
  exact List.mem_of_find?_eq_some hfind

end VersionedTables
