import VersionedTables.SortedMap.Basic

/-!
# Look-ups in sorted maps

Every operation of a sorted map is characterised by what it does to look-ups.

* **`SortedMap.get?_insert`**, **`SortedMap.get?_erase`** — look-ups after an insertion and after a
  removal.
* **`SortedMap.mem_toList_iff`** — the entries are what look-ups find.
* **`SortedMap.ext_get?`** — maps with equal look-ups are equal.
-/

namespace VersionedTables

namespace SortedMap

variable {κ υ : Type} [Ord κ]

/-! ### Look-ups -/

@[simp] theorem toList_empty : (∅ : SortedMap κ υ).toList = [] := rfl

@[simp] theorem get?_empty (k : κ) : (∅ : SortedMap κ υ).get? k = none := rfl

section

variable [Std.TransOrd κ]

theorem find?_put_self (k : κ) (v : υ) (l : List (κ × υ)) : find? k (put k v l) = some v := by
  induction l with
  | nil => simp [put, find?]
  | cons a r ih =>
      obtain ⟨k', v'⟩ := a
      simp only [put]
      split
      · simp [find?]
      · simp [find?]
      · next hc => simp [find?, hc, ih]

@[simp] theorem get?_insert_self (m : SortedMap κ υ) (k : κ) (v : υ) :
    (m.insert k v).get? k = some v := find?_put_self k v m.toList

end

section

variable [Std.LawfulEqOrd κ]

theorem find?_put_of_ne {k k' : κ} (v : υ) (l : List (κ × υ)) (h : k' ≠ k) :
    find? k' (put k v l) = find? k' l := by
  have hne : compare k' k ≠ .eq := fun e => h (Std.LawfulEqCmp.eq_of_compare e)
  induction l with
  | nil => simp [put, find?, hne]
  | cons a r ih =>
      obtain ⟨k'', v''⟩ := a
      simp only [put]
      split
      · simp [find?, hne]
      · next hc =>
          have e : k = k'' := Std.LawfulEqCmp.eq_of_compare hc
          subst e
          simp [find?, hne]
      · simp only [find?, ih]

theorem find?_drop [DecidableEq κ] (k k' : κ) (l : List (κ × υ)) :
    find? k' (drop k l) = if k' = k then none else find? k' l := by
  induction l with
  | nil => simp [drop, find?]
  | cons a r ih =>
      obtain ⟨k'', v''⟩ := a
      simp only [drop] at ih
      simp only [drop, List.filter_cons]
      by_cases hk : compare k k'' = .eq
      · have e : k = k'' := Std.LawfulEqCmp.eq_of_compare hk
        subst e
        by_cases h : k' = k
        · subst h
          simpa using ih
        · have hne : compare k' k ≠ .eq := fun e => h (Std.LawfulEqCmp.eq_of_compare e)
          simp [h, find?, ih, hne]
      · by_cases h : k' = k
        · subst h
          simp [find?, ih, hk]
        · simp [find?, ih, hk, h]

theorem get?_erase [DecidableEq κ] (m : SortedMap κ υ) (k k' : κ) :
    (m.erase k).get? k' = if k' = k then none else m.get? k' := find?_drop k k' m.toList

/-- The entries are what look-ups find. -/
theorem mem_toList_iff {m : SortedMap κ υ} {k : κ} {v : υ} :
    (k, v) ∈ m.toList ↔ m.get? k = some v := by
  obtain ⟨l, h⟩ := m
  simp only [get?]
  induction l with
  | nil => simp [find?]
  | cons a r ih =>
      obtain ⟨k', v'⟩ := a
      obtain ⟨hlt, hr⟩ := List.pairwise_cons.1 h
      simp only [List.mem_cons, Prod.mk.injEq, find?]
      by_cases hk : k = k'
      · subst hk
        simp only [true_and, Std.ReflCmp.compare_self, if_true, Option.some.injEq]
        constructor
        · intro h
          rcases h with e | e
          · exact e.symm
          · have := hlt _ e
            simp at this
        · intro e
          exact Or.inl e.symm
      · have hne : compare k k' ≠ .eq := fun e => hk (Std.LawfulEqCmp.eq_of_compare e)
        simp only [hk, false_and, false_or, hne, if_false]
        exact ih hr

end

variable [Std.TransOrd κ] [Std.LawfulEqOrd κ]

theorem get?_insert_of_ne (m : SortedMap κ υ) {k k' : κ} (v : υ) (h : k' ≠ k) :
    (m.insert k v).get? k' = m.get? k' := find?_put_of_ne v m.toList h

theorem get?_insert [DecidableEq κ] (m : SortedMap κ υ) (k k' : κ) (v : υ) :
    (m.insert k v).get? k' = if k' = k then some v else m.get? k' := by
  split
  · next h => rw [h, get?_insert_self]
  · next h => exact get?_insert_of_ne m v h

/-! ### Equality -/

theorem eq_of_find?_eq {l₁ l₂ : List (κ × υ)}
    (h₁ : l₁.Pairwise (fun a b => compare a.1 b.1 = .lt))
    (h₂ : l₂.Pairwise (fun a b => compare a.1 b.1 = .lt))
    (h : ∀ k, find? k l₁ = find? k l₂) : l₁ = l₂ := by
  refine List.Perm.eq_of_pairwise ?_ h₁ h₂ ?_
  · intro a b _ _ hab hba
    have := Std.TransCmp.lt_trans hab hba
    simp at this
  · have nodup : ∀ {l : List (κ × υ)}, l.Pairwise (fun a b => compare a.1 b.1 = .lt) →
        l.Nodup := by
      intro l hl
      refine hl.imp ?_
      intro a b hab e
      subst e
      simp at hab
    refine (List.perm_ext_iff_of_nodup (nodup h₁) (nodup h₂)).2 ?_
    intro h
    obtain ⟨k, v⟩ := h
    have e₁ := mem_toList_iff (m := ⟨l₁, h₁⟩) (k := k) (v := v)
    have e₂ := mem_toList_iff (m := ⟨l₂, h₂⟩) (k := k) (v := v)
    simp only [get?] at e₁ e₂
    rw [e₁, e₂, h k]

/-- Maps with equal look-ups are equal. -/
theorem ext_get? {m₁ m₂ : SortedMap κ υ} (h : ∀ k, m₁.get? k = m₂.get? k) : m₁ = m₂ := by
  obtain ⟨l₁, h₁⟩ := m₁
  obtain ⟨l₂, h₂⟩ := m₂
  have e : l₁ = l₂ := eq_of_find?_eq h₁ h₂ h
  subst e
  rfl

end SortedMap

end VersionedTables
