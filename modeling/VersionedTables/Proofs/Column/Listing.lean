import VersionedTables.Proofs.Schema.Columns
import VersionedTables.Proofs.Text.Order

/-!
# The listing of columns

The columns of a catalog are listed by the names that people see, and columns of one name by the names of
their content.  Names are compared byte by byte.  Each column stands in the listing once.

* **`Column.Before`** — one column is listed before another.
* **`Catalog.mem_list_iff`** — what is listed.
* **`Catalog.Keyed.list_ascending`** — the order of the listing.
-/

namespace VersionedTables

/-- The name of a column has lesser bytes than that of another, or the names are the same and the name of
its content has lesser bytes. -/
def Column.Before (a b : Column) : Prop :=
  Utf8.encoding a.spec.name < Utf8.encoding b.spec.name ∨
    a.spec.name = b.spec.name ∧ Utf8.encoding a.id.text < Utf8.encoding b.id.text

theorem Column.Before.asymm {a b : Column} (h : a.Before b) : ¬b.Before a := by
  rintro (h' | ⟨hname', h'⟩)
  · rcases h with h | ⟨hname, -⟩
    · exact List.lt_asymm h h'
    · rw [hname] at h'
      exact List.lt_irrefl _ h'
  · rcases h with h | ⟨-, h⟩
    · rw [hname'] at h
      exact List.lt_irrefl _ h
    · exact List.lt_asymm h h'

/-- Columns that stand in this order are determined by which they are. -/
theorem Column.eq_of_ascending {as bs : List Column} (ha : as.Pairwise Column.Before)
    (hb : bs.Pairwise Column.Before) (hmem : ∀ column, column ∈ as ↔ column ∈ bs) : as = bs := by
  have hnodup : ∀ columns : List Column, columns.Pairwise Column.Before → columns.Nodup := by
    intro columns h
    refine h.imp ?_
    rintro a b hlt rfl
    exact hlt.asymm hlt
  have hperm := (List.perm_ext_iff_of_nodup (hnodup as ha) (hnodup bs hb)).2 hmem
  exact hperm.eq_of_pairwise (fun _ _ _ _ h h' => absurd h' h.asymm) ha hb

namespace Catalog

variable {c : Catalog} {column : Column}

def comparison (a b : Column) : Ordering :=
  compareLex (compareOn (·.spec.name)) (compareOn (·.id)) a b

instance : Std.TransCmp comparison :=
  inferInstanceAs (Std.TransCmp (compareLex (compareOn _) (compareOn _)))

theorem before_of_comparison {a b : Column} (h : comparison a b = .lt) : a.Before b := by
  have hcases : compare a.spec.name b.spec.name = .lt ∨
      compare a.spec.name b.spec.name = .eq ∧ compare a.id.text b.id.text = .lt :=
    Ordering.then_eq_lt.1 h
  rcases hcases with hname | ⟨hname, hid⟩
  · exact Or.inl (Utf8.encoding_lt_iff.2 (compareOfLessAndEq_eq_lt.1 hname))
  · exact Or.inr ⟨Std.LawfulEqOrd.eq_of_compare hname,
      Utf8.encoding_lt_iff.2 (compareOfLessAndEq_eq_lt.1 hid)⟩

theorem mem_values_iff : column ∈ c.values ↔ ∃ id, c.get? id = some column := by
  unfold SortedMap.values
  rw [List.mem_map]
  constructor
  · rintro ⟨⟨id, column⟩, hmem, rfl⟩
    exact ⟨id, SortedMap.mem_toList_iff.1 hmem⟩
  · rintro ⟨id, hget⟩
    exact ⟨(id, column), SortedMap.mem_toList_iff.2 hget, rfl⟩

theorem startsWith_iff {beginning : Option String} :
    startsWith beginning column = true ↔ ∀ b ∈ beginning, b.toList <+: column.spec.name.toList := by
  cases beginning with
  | none => exact iff_of_true rfl nofun
  | some b => simp [startsWith]

/-- **What is listed** are the columns whose name begins with the text. -/
theorem mem_list_iff {beginning : Option String} :
    column ∈ c.list beginning ↔
      (∃ id, c.get? id = some column) ∧ ∀ b ∈ beginning, b.toList <+: column.spec.name.toList := by
  rw [list, List.mem_mergeSort, List.mem_filter, mem_values_iff, startsWith_iff]

/-- **The order of the listing.**  Every column is listed before those that follow. -/
theorem Keyed.list_ascending (hc : c.Keyed) (beginning : Option String) :
    (c.list beginning).Pairwise Column.Before := by
  have hsorted : (c.list beginning).Pairwise (fun a b => listedBefore a b = true) := by
    refine List.pairwise_mergeSort ?_ ?_ _
    · intro a b d hab hbd
      exact @Std.TransCmp.isLE_trans _ comparison _ a b d hab hbd
    · intro a b
      have htotal : (comparison a b).isLE ∨ (comparison b a).isLE := by
        rw [@Std.OrientedCmp.eq_swap _ comparison _ a b]
        cases comparison b a <;> simp
      exact Bool.or_eq_true_iff.2 htotal
  have hkeys : (c.values.map (·.id)) = c.keys := by
    unfold SortedMap.values SortedMap.keys
    rw [List.map_map]
    refine List.map_congr_left (fun p hp => ?_)
    exact hc p.1 p.2 (SortedMap.mem_toList_iff.1 hp)
  have hdistinct : (c.list beginning).Pairwise (fun a b => a.id ≠ b.id) := by
    have hvalues : c.values.Pairwise (fun a b => a.id ≠ b.id) := by
      refine List.pairwise_map.1 (hkeys ▸ c.keys_ascending.imp ?_)
      rintro id id' hlt rfl
      rw [Std.ReflOrd.compare_self] at hlt
      cases hlt
    exact (hvalues.filter _).perm (List.mergeSort_perm _ _).symm (fun h => Ne.symm h)
  refine (hsorted.and hdistinct).imp ?_
  rintro a b ⟨hle, hne⟩
  refine before_of_comparison ?_
  have hcases : comparison a b = .lt ∨ comparison a b = .eq := Ordering.isLE_iff_eq_lt_or_eq_eq.1 hle
  refine hcases.resolve_right (fun heq => hne ?_)
  exact Std.LawfulEqOrd.eq_of_compare (Ordering.then_eq_eq.1 heq).2

end Catalog

end VersionedTables
