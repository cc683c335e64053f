import VersionedTables.Proofs.Json.Document

/-!
# Lawful formats

A format is lawful when every value is read back from the text that it is written as.

* **`LawfulFormat`** — the formats whose values are read back.
* **`SolidFormat`** — those that never write `null`, so that an absent value can be told apart.
* **`JsonFormat.decode?_encode`** — the text of a value is decoded as the value.
* **`Json.slots?_record`** — what the document of a record holds for each field.
-/

namespace VersionedTables

/-- Formats whose values are written as canonical documents and read back. -/
class LawfulFormat (α : Type) [JsonFormat α] : Prop where
  canonical (a : α) : (JsonFormat.write a).Canonical
  read?_write (a : α) : JsonFormat.read? (JsonFormat.write a) = some a

/-- Lawful formats that never write `null`. -/
class SolidFormat (α : Type) [JsonFormat α] : Prop extends LawfulFormat α where
  write_ne_null (a : α) : JsonFormat.write a ≠ .null

export LawfulFormat (canonical read?_write)
export SolidFormat (write_ne_null)

namespace JsonFormat

variable {α : Type} [JsonFormat α] [LawfulFormat α]

/-- **The text of a value is decoded as the value.** -/
theorem decode?_encode (a : α) : decode? (encode a) = some a := by
  rw [decode?, encode, Json.read?_compact (canonical a), Option.bind_some, read?_write]

theorem encode_injective {a b : α} (h : encode a = encode b) : a = b := by
  have e := decode?_encode a
  rw [h, decode?_encode] at e
  exact (Option.some.inj e).symm

end JsonFormat

/-! ### Plain values -/

instance : SolidFormat String where
  canonical s := .string s
  read?_write s := Quoted.decode?_encode s
  write_ne_null _ h := by cases h

instance : SolidFormat Nat where
  canonical n := .number n
  read?_write n := Json.naturalOfToken?_ofNat n
  write_ne_null _ h := by cases h

instance : SolidFormat UInt64 where
  canonical n := .number n.toNat
  read?_write n := Json.wordOfToken?_ofWord n
  write_ne_null _ h := by cases h

instance : SolidFormat Bool where
  canonical b := .bool b
  read?_write _ := rfl
  write_ne_null _ h := by cases h

instance {α : Type} [JsonFormat α] [SolidFormat α] : LawfulFormat (Option α) where
  canonical
    | none => .null
    | some a => canonical a
  read?_write
    | none => rfl
    | some a => by
        have hne := write_ne_null a
        simp only [JsonFormat.write, JsonFormat.read?]
        rw [read?_write a, Option.map_some]

/-- Items that are read back one by one are read back as a list. -/
theorem mapM_map_eq_some {α β : Type} {f : α → β} {g : β → Option α} (e : ∀ a, g (f a) = some a)
    (as : List α) : (as.map f).mapM g = some as := by
  induction as with
  | nil => rfl
  | cons a as ih => simp [e a, ih]

instance {α : Type} [JsonFormat α] [LawfulFormat α] : SolidFormat (List α) where
  canonical as := .array (by
    intro v hv
    obtain ⟨a, -, rfl⟩ := List.mem_map.1 hv
    exact canonical a)
  read?_write as := mapM_map_eq_some (read?_write (α := α)) as
  write_ne_null _ h := by cases h

/-! ### Records -/

namespace Json

def slotOf (fields : List (String × Json)) (name : String) : Slot :=
  match fields.lookup name with
  | some v => .present v
  | none => .absent

theorem canonical_record {fields : List (String × Json)} (h : ∀ f ∈ fields, f.2.Canonical) :
    (record fields).Canonical := by
  refine .object ?_ ?_
  · intro m hm
    obtain ⟨f, -, rfl⟩ := List.mem_map.1 hm
    exact ⟨f.1, rfl⟩
  · intro m hm
    obtain ⟨f, hf, rfl⟩ := List.mem_map.1 hm
    exact h f hf

theorem canonical_record_zip {names : List String} {docs : List Json}
    (h : ∀ d ∈ docs, d.Canonical) : (record (names.zip docs)).Canonical :=
  canonical_record (fun f hf => h f.2 (List.of_mem_zip hf).2)

theorem keyed?_map_encode (fields : List (String × Json)) :
    keyed? (fields.map (fun f => (Quoted.encode f.1, f.2))) = some fields := by
  induction fields with
  | nil => rfl
  | cons f fields ih =>
      rw [keyed?] at ih ⊢
      simp [Quoted.decode?_encode, ih]

theorem filter_eq_nil_of_not_mem {fields : List (String × Json)} {name : String}
    (h : name ∉ fields.map (·.1)) : fields.filter (·.1 = name) = [] := by
  rw [List.filter_eq_nil_iff]
  intro f hf
  simp only [decide_eq_true_eq]
  rintro rfl
  exact h (List.mem_map_of_mem hf)

theorem named?_eq_slotOf {fields : List (String × Json)} (h : (fields.map (·.1)).Nodup)
    (name : String) : named? fields name = some (slotOf fields name) := by
  induction fields with
  | nil => rfl
  | cons f fields ih =>
      obtain ⟨hf, hfs⟩ := List.nodup_cons.1 h
      have ih := ih hfs
      simp only [named?, slotOf] at ih ⊢
      by_cases he : f.1 = name
      · subst he
        rw [List.filter_cons_of_pos (by simp), filter_eq_nil_of_not_mem hf, List.lookup_cons]
        simp
      · rw [List.filter_cons_of_neg (by simpa using he), List.lookup_cons]
        have hne : (name == f.1) = false := by simpa using fun e => he e.symm
        simpa [hne] using ih

/-- **What the document of a record holds for each field.** -/
theorem slots?_record {fields : List (String × Json)} (h : (fields.map (·.1)).Nodup)
    (names : List String) : (record fields).slots? names = some (names.map (slotOf fields)) := by
  have hk := keyed?_map_encode fields
  have hm := fun name => named?_eq_slotOf h name
  simp only [record, slots?, hk, Option.bind_some]
  induction names with
  | nil => rfl
  | cons name names ih => simp [hm name, ih]

theorem map_slotOf_zip {names : List String} {docs : List Json} (hn : names.Nodup)
    (hl : names.length = docs.length) :
    names.map (slotOf (names.zip docs)) = docs.map .present := by
  induction names generalizing docs with
  | nil =>
      cases docs with
      | nil => rfl
      | cons d docs => cases hl
  | cons name names ih =>
      cases docs with
      | nil => cases hl
      | cons d docs =>
          obtain ⟨hname, hnames⟩ := List.nodup_cons.1 hn
          have htail := ih hnames (Nat.succ.inj hl)
          have hhead : names.map (slotOf ((name, d) :: names.zip docs))
              = names.map (slotOf (names.zip docs)) := by
            refine List.map_congr_left ?_
            intro n hmem
            have hne : (n == name) = false := by
              simp only [beq_eq_false_iff_ne]
              rintro rfl
              exact hname hmem
            simp only [slotOf, List.lookup_cons, hne]
          simp only [List.zip_cons_cons, List.map_cons, hhead, htail]
          simp [slotOf]

/-- A record with one document for each of its fields holds them in order. -/
theorem slots?_record_zip {names : List String} {docs : List Json} (hn : names.Nodup)
    (hl : names.length = docs.length) :
    (record (names.zip docs)).slots? names = some (docs.map .present) := by
  have hz : ((names.zip docs).map (·.1)).Nodup := by
    rw [List.map_fst_zip (by omega)]
    exact hn
  rw [slots?_record hz, map_slotOf_zip hn hl]

/-- A record with one document for each of its fields is read from these, one after the other. -/
theorem read_record_zip {α : Type} {names : List String} {docs : List Json}
    {ofSlots? : List Slot → Option α} {a : α} (hn : names.Nodup) (hl : names.length = docs.length)
    (h : ofSlots? (docs.map .present) = some a) :
    ((record (names.zip docs)).slots? names >>= ofSlots?) = some a := by
  rw [slots?_record_zip hn hl]
  exact h

@[simp] theorem canonical_word (n : UInt64) : (word n).Canonical := .number n.toNat

end Json

/-! ### Fields -/

namespace Slot

variable {α : Type} [JsonFormat α]

@[simp] theorem required?_present [LawfulFormat α] (a : α) :
    (Slot.present (JsonFormat.write a)).required? = some a := read?_write a

@[simp] theorem nullable?_present [SolidFormat α] (a : Option α) :
    (Slot.present (JsonFormat.write a)).nullable? = some a := read?_write a

@[simp] theorem orElse?_present [LawfulFormat α] (a d : α) :
    (Slot.present (JsonFormat.write a)).orElse? d = some a := read?_write a

@[simp] theorem required?_word (n : UInt64) : (Slot.present (.word n)).required? = some n :=
  read?_write n

@[simp] theorem orElse?_word (n d : UInt64) : (Slot.present (.word n)).orElse? d = some n :=
  read?_write n

end Slot

end VersionedTables
