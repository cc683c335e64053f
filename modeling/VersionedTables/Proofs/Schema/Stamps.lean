import VersionedTables.Proofs.Schema.Legal

/-!
# Other stamps

A stamp says that a schema is new and nothing else.  Where another stamp is brought along the same schemas
are refused and the same are bound, under the other stamp; all that is read of the bindings is what they
hold of the table.

* **`Binding.restamp`**, **`BindingRecord.restamp`** — the same under another stamp.
* **`Bindings.Restamped`** — bindings that hold the same of a table, under another stamp.
* **`Schema.bind_restamped`**, **`Schema.applyChanges_restamped`** — what becomes of a schema.
-/

namespace VersionedTables

def Binding.restamp (ρ : Etag → Etag) (b : Binding) : Binding := { b with etag := ρ b.etag }

def BindingRecord.restamp (ρ : Etag → Etag) (r : BindingRecord) : BindingRecord :=
  { r with binding := r.binding.restamp ρ }

theorem Binding.restamp_id (b : Binding) : b.restamp id = b := rfl

theorem Binding.restamp_eq {ρ : Etag → Etag} {b : Binding} (h : ρ b.etag = b.etag) :
    b.restamp ρ = b := by
  unfold restamp
  rw [h]

theorem BindingRecord.restamp_eq {ρ : Etag → Etag} {r : BindingRecord}
    (h : ρ r.binding.etag = r.binding.etag) : r.restamp ρ = r := by
  unfold restamp
  rw [Binding.restamp_eq h]

namespace Bindings

variable {ρ : Etag → Etag} {b b' : Bindings} {table : TableId}

/-- What `b'` holds of a table is what `b` holds of it, under another stamp. -/
structure Restamped (ρ : Etag → Etag) (table : TableId) (b b' : Bindings) : Prop where
  record : b'.get? table = (b.get? table).map (BindingRecord.restamp ρ)
  current : b'.current table = (b.current table).restamp ρ

/-- A renaming that leaves the stamp of a table as it is leaves as it is what is held of the table. -/
theorem map_restamp (h : ρ (b.current table).etag = (b.current table).etag) :
    (b.get? table).map (BindingRecord.restamp ρ) = b.get? table := by
  cases hr : b.get? table with
  | none => rfl
  | some r =>
      have hcurrent : b.current table = r.binding := by
        rw [current, find?, hr]
        rfl
      rw [hcurrent] at h
      exact congrArg some (BindingRecord.restamp_eq h)

theorem current_congr (h : b'.get? table = b.get? table) : b'.current table = b.current table := by
  rw [current, current, find?, find?, h]

theorem everBound_congr (h : b'.get? table = b.get? table) :
    b'.everBound table = b.everBound table := by
  rw [everBound, everBound, h]

theorem checkEtag_congr (h : b'.get? table = b.get? table) (expected : Option Etag) :
    b'.checkEtag table expected = b.checkEtag table expected := by
  cases expected with
  | none => rfl
  | some etag => rw [checkEtag, checkEtag, current_congr h]

theorem Restamped.of_get? (h : b'.get? table = b.get? table)
    (hρ : ρ (b.current table).etag = (b.current table).etag) : Restamped ρ table b b' := by
  constructor
  · rw [h, map_restamp hρ]
  · rw [current_congr h, Binding.restamp_eq hρ]

end Bindings

namespace Schema

variable {ρ : Etag → Etag} {b b' : Bindings} {table : TableId}

/-- **A schema is refused or bound** for what is held of the table, and under the stamp that is brought
along. -/
theorem bind_restamped (settings : Settings) (catalog : Catalog) (fresh : Etag)
    (ids : List ColumnId) (expected : Option Etag) (h : b'.get? table = b.get? table)
    (hρ : ρ (b.current table).etag = (b.current table).etag) :
    Outcome.Agree (fun p p' => p'.1 = p.1 ∧ Bindings.Restamped ρ table p.2 p'.2)
      (bind settings catalog fresh b table ids expected)
      (bind settings catalog (ρ fresh) b' table ids expected) := by
  unfold bind
  rw [Bindings.checkEtag_congr h, Bindings.current_congr h]
  refine .bind _ (fun _ => .bind _ (fun _ => .bind _ (fun _ => ?_)))
  split
  · exact .ok ⟨rfl, .of_get? h hρ⟩
  · unfold Bindings.replace
    rw [Bindings.checkEtag_congr h, Bindings.everBound_congr h]
    cases b.checkEtag table expected with
    | error e => exact .error e
    | ok u =>
        refine .ok ⟨rfl, ?_, ?_⟩
        · show SortedMap.get? (b'.insert table _) table = (SortedMap.get? (b.insert table _) table).map _
          rw [SortedMap.get?_insert_self, SortedMap.get?_insert_self]
          rfl
        · show Bindings.current (b'.insert table _) table =
            (Bindings.current (b.insert table _) table).restamp ρ
          rw [Bindings.current_insert, Bindings.current_insert, if_pos rfl, if_pos rfl]
          rfl

/-- **Changes of a schema** are refused or made likewise. -/
theorem applyChanges_restamped (settings : Settings) (catalog : Catalog) (fresh : Etag)
    (changes : List SchemaChange) (expected : Option Etag) (h : b'.get? table = b.get? table)
    (hρ : ρ (b.current table).etag = (b.current table).etag) :
    Outcome.Agree (fun p p' => p'.1 = p.1.restamp ρ ∧ Bindings.Restamped ρ table p.2 p'.2)
      (applyChanges settings catalog fresh b table changes expected)
      (applyChanges settings catalog (ρ fresh) b' table changes expected) := by
  unfold applyChanges
  rw [Bindings.checkEtag_congr h, Bindings.current_congr h]
  refine .bind _ (fun _ => .bind _ (fun ids => ?_))
  refine (bind_restamped settings catalog fresh ids _ h hρ).andThen ?_
  intro p p' hp
  exact .ok ⟨hp.2.current, hp.2⟩

end Schema

end VersionedTables
