import VersionedTables.SortedMap.Lemmas

/-!
# The order of sorted maps

* **`SortedMap.toList_insert_of_forall_lt`** — an insertion above all keys goes to the end.
* **`SortedMap.mem_keys_iff`** — the keys are what look-ups find.
* **`SortedMap.ofList_toList`** — a map is built up again from its entries.
* **`SortedMap.le_of_getLast?_keys`** — the last key is the greatest.
* **`SortedMap.mapValues`** — the map with other values at the same keys.
-/

namespace VersionedTables

namespace SortedMap

variable {κ υ : Type} [Ord κ]

theorem ext_toList {m₁ m₂ : SortedMap κ υ} (h : m₁.toList = m₂.toList) : m₁ = m₂ := by
  cases m₁
  cases m₂
  cases h
  rfl

theorem keys_ascending (m : SortedMap κ υ) : m.keys.Pairwise (fun a b => compare a b = .lt) :=
  List.pairwise_map.2 m.ascending

theorem put_of_forall_lt {k : κ} (v : υ) {l : List (κ × υ)} [Std.OrientedOrd κ]
    (h : ∀ e ∈ l, compare e.1 k = .lt) : put k v l = l ++ [(k, v)] := by
  induction l with
  | nil => rfl
  | cons e l ih =>
      obtain ⟨he, hl⟩ := List.forall_mem_cons.1 h
      have hgt : compare k e.1 = .gt := Std.OrientedCmp.gt_of_lt he
      simp only [put, hgt, ih hl, List.cons_append]

/-- An insertion above all keys goes to the end. -/
theorem toList_insert_of_forall_lt [Std.TransOrd κ] {m : SortedMap κ υ} {k : κ} (v : υ)
    (h : ∀ k' ∈ m.keys, compare k' k = .lt) : (m.insert k v).toList = m.toList ++ [(k, v)] :=
  put_of_forall_lt v (fun _ he => h _ (List.mem_map_of_mem he))

theorem toList_foldl_insert [Std.TransOrd κ] {l : List (κ × υ)} {m : SortedMap κ υ}
    (h : (m.toList ++ l).Pairwise (fun a b => compare a.1 b.1 = .lt)) :
    (l.foldl (fun m e => m.insert e.1 e.2) m).toList = m.toList ++ l := by
  induction l generalizing m with
  | nil => exact (List.append_nil _).symm
  | cons e l ih =>
      have hlast : (m.insert e.1 e.2).toList = m.toList ++ [e] := by
        refine toList_insert_of_forall_lt e.2 ?_
        intro k hk
        obtain ⟨e', he', rfl⟩ := List.mem_map.1 hk
        exact (List.pairwise_append.1 h).2.2 e' he' e List.mem_cons_self
      rw [List.append_cons, ← hlast] at h
      rw [List.foldl_cons, ih h, hlast, ← List.append_cons]

/-- A map is built up again from its entries. -/
theorem ofList_toList [Std.TransOrd κ] (m : SortedMap κ υ) : ofList m.toList = m :=
  ext_toList (toList_foldl_insert (m := ∅) m.ascending)

/-- The keys are what look-ups find. -/
theorem mem_keys_iff [Std.LawfulEqOrd κ] {m : SortedMap κ υ} {k : κ} : k ∈ m.keys ↔ (m.get? k).isSome := by
  simp only [keys, List.mem_map, Prod.exists, mem_toList_iff, Option.isSome_iff_exists]
  constructor
  · intro h
    obtain ⟨k, v, h, rfl⟩ := h
    exact ⟨v, h⟩
  · intro h
    obtain ⟨v, h⟩ := h
    exact ⟨k, v, h, rfl⟩

theorem toList_eq_nil_iff [Std.TransOrd κ] [Std.LawfulEqOrd κ] {m : SortedMap κ υ} :
    m.toList = [] ↔ ∀ k, m.get? k = none := by
  constructor
  · intro h k
    simp only [get?, h, find?]
  · intro h
    have e : m = ∅ := ext_get? h
    rw [e, toList_empty]

/-- The last key is the greatest. -/
theorem le_of_getLast?_keys [LE κ] [LT κ] [Std.LawfulOrderOrd κ] [Std.LawfulOrderLT κ]
    [Std.IsLinearOrder κ] {m : SortedMap κ υ} {k k' : κ} (h : m.keys.getLast? = some k)
    (hk : k' ∈ m.keys) : k' ≤ k := by
  obtain ⟨ks, hks⟩ := List.getLast?_eq_some_iff.1 h
  have hp := m.keys_ascending
  rw [hks] at hp hk
  obtain ⟨-, -, hlt⟩ := List.pairwise_append.1 hp
  rcases List.mem_append.1 hk with hk | hk
  · exact Std.le_of_lt (Std.compare_eq_lt.1 (hlt k' hk k (by simp)))
  · rw [List.mem_singleton.1 hk]
    exact Std.le_refl k

/-! ### Other values -/

def mapValues {υ' : Type} (f : υ → υ') (m : SortedMap κ υ) : SortedMap κ υ' :=
  ⟨m.toList.map (fun e => (e.1, f e.2)), List.pairwise_map.2 m.ascending⟩

theorem get?_mapValues {υ' : Type} (f : υ → υ') (m : SortedMap κ υ) (k : κ) :
    (m.mapValues f).get? k = (m.get? k).map f := by
  show find? k (m.toList.map fun e => (e.1, f e.2)) = (find? k m.toList).map f
  induction m.toList with
  | nil => rfl
  | cons e l ih =>
      simp only [List.map_cons, find?]
      split
      · rfl
      · exact ih

end SortedMap

end VersionedTables
