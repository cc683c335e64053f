import VersionedTables.Column.Basic
import VersionedTables.Proofs.Json.Records

/-!
# Lawful formats of columns

A specification leaves out what it does not say, so its document has no field of that name, and reading
takes a field that is not there for something that is not said.  What was said is read back, and a column
besides keeps its name.

* **`ColumnSpec.map_slotOf_fields`** — what the document of a specification holds for each field.
* **`ColumnSpec.canonicalText_injective`** — the canonical text says everything.
-/

namespace VersionedTables

instance : SolidFormat ColumnType where
  canonical t := .string t.name
  read?_write t := by cases t <;> decide +kernel
  write_ne_null _ h := by cases h

/-! ### Fields that are left out -/

section

variable {α : Type} [JsonFormat α]

/-- What a record holds for a field that is left out when there is no value. -/
def Slot.ofOption : Option α → Slot
  | some a => .present (JsonFormat.write a)
  | none => .absent

@[simp] theorem Slot.orElse?_ofOption [SolidFormat α] (a : Option α) :
    (Slot.ofOption a).orElse? (none : Option α) = some a := by
  cases a with
  | none => rfl
  | some a => exact read?_write (some a)

theorem ColumnSpec.optionalField_sublist (name : String) (a : Option α) :
    ((optionalField name a).map (·.1)).Sublist [name] := by
  cases a with
  | none => exact List.nil_sublist _
  | some a => exact List.Sublist.refl _

theorem ColumnSpec.canonical_optionalField [LawfulFormat α] (name : String) (a : Option α) :
    ∀ f ∈ optionalField name a, f.2.Canonical := by
  cases a with
  | none => simp [optionalField]
  | some a => simp [optionalField, canonical]

end

/-! ### Specifications -/

namespace ColumnSpec

/-- The fields that are written are among those that are read, in the same order. -/
theorem fieldNames_sublist (s : ColumnSpec) : (s.fields.map (·.1)).Sublist fieldNames := by
  have hsaid : ([("name", Json.text s.name), ("type", JsonFormat.write s.type)].map (·.1)).Sublist
      ["name", "type"] := List.Sublist.refl _
  simp only [fields, List.map_append]
  exact ((hsaid.append (optionalField_sublist "max_size" s.maxSize)).append
    (optionalField_sublist "default_value" s.defaultValue)).append
      (optionalField_sublist "enum_values" s.choices)

/-- What the document of a specification holds for each field. -/
theorem map_slotOf_fields (s : ColumnSpec) :
    fieldNames.map (Json.slotOf s.fields) =
      [.present (.text s.name), .present (JsonFormat.write s.type), .ofOption s.maxSize,
        .ofOption s.defaultValue, .ofOption s.choices] := by
  obtain ⟨name, type, maxSize, defaultValue, choices⟩ := s
  cases maxSize <;> cases defaultValue <;> cases choices <;> rfl

theorem ofSlots?_fields (s : ColumnSpec) :
    ofSlots? (fieldNames.map (Json.slotOf s.fields)) = some s := by
  have hname : (Slot.present (.text s.name)).required? = some s.name := read?_write s.name
  rw [map_slotOf_fields]
  simp [ofSlots?, hname]

theorem canonical_fields (s : ColumnSpec) : ∀ f ∈ s.fields, f.2.Canonical := by
  have hname : (Json.text s.name).Canonical := canonical s.name
  simp only [fields, List.forall_mem_append]
  refine ⟨⟨⟨?_, canonical_optionalField _ _⟩, canonical_optionalField _ _⟩,
    canonical_optionalField _ _⟩
  simp [hname, canonical]

instance : SolidFormat ColumnSpec where
  canonical s := Json.canonical_record s.canonical_fields
  read?_write s := by
    have hslots := Json.slots?_record (s.fieldNames_sublist.nodup (by decide)) fieldNames
    show ((Json.record s.fields).slots? fieldNames).bind ofSlots? = some s
    rw [hslots, Option.bind_some, ofSlots?_fields]
  write_ne_null _ h := by cases h

/-- **The canonical text says everything** that a specification says. -/
theorem canonicalText_injective {s t : ColumnSpec} (h : s.canonicalText = t.canonicalText) : s = t :=
  JsonFormat.encode_injective h

end ColumnSpec

/-! ### Columns -/

namespace Column

/-- The document of a column: its name, and what the specification says. -/
theorem slots?_write (c : Column) :
    (JsonFormat.write c).slots? fieldNames =
      some (.present (JsonFormat.write c.id) ::
        ColumnSpec.fieldNames.map (Json.slotOf c.spec.fields)) := by
  have hnames : (("id", JsonFormat.write c.id) :: c.spec.fields).map (·.1) |>.Nodup :=
    (c.spec.fieldNames_sublist.cons_cons "id").nodup (by decide)
  exact Json.slots?_record hnames fieldNames

end Column

instance : SolidFormat Column where
  canonical c := Json.canonical_record
    (List.forall_mem_cons.2 ⟨canonical c.id, c.spec.canonical_fields⟩)
  read?_write c := by
    have hslots := c.slots?_write
    unfold Column.instJsonFormat at hslots ⊢
    dsimp only at hslots ⊢
    rw [hslots]
    simp [ColumnSpec.ofSlots?_fields]
  write_ne_null _ h := by cases h

end VersionedTables
