/-!
# Sorted maps

A finite map kept as the list of its entries in strictly ascending key order. The order of the
entries is the order in which the map is listed, and two maps with the same look-ups are equal.

* **`SortedMap`** — the type; the order is part of it.
* **`SortedMap.get?`**, **`SortedMap.insert`**, **`SortedMap.erase`** — look-up, insertion with
  replacement, and removal.

What the operations do to look-ups is in `VersionedTables.SortedMap.Lemmas`.
-/

namespace VersionedTables

/-- A finite map, listed in strictly ascending key order. -/
structure SortedMap (κ υ : Type) [Ord κ] where
  toList : List (κ × υ)
  ascending : toList.Pairwise (fun a b => compare a.1 b.1 = .lt)
deriving DecidableEq

namespace SortedMap

variable {κ υ : Type} [Ord κ]

instance : EmptyCollection (SortedMap κ υ) := ⟨⟨[], List.Pairwise.nil⟩⟩

instance : Inhabited (SortedMap κ υ) := ⟨∅⟩

/-! ### Entries in a list -/

/-- The value at `k` in a list of entries. -/
def find? (k : κ) : List (κ × υ) → Option υ
  | [] => none
  | (k', v) :: r => if compare k k' = .eq then some v else find? k r

/-- Puts `v` at `k` into a list of ascending entries. -/
def put (k : κ) (v : υ) : List (κ × υ) → List (κ × υ)
  | [] => [(k, v)]
  | (k', v') :: r =>
      match compare k k' with
      | .lt => (k, v) :: (k', v') :: r
      | .eq => (k, v) :: r
      | .gt => (k', v') :: put k v r

def drop (k : κ) (l : List (κ × υ)) : List (κ × υ) := l.filter (fun e => compare k e.1 != .eq)

theorem mem_put {k : κ} {v : υ} {l : List (κ × υ)} {e : κ × υ} (h : e ∈ put k v l) :
    e = (k, v) ∨ e ∈ l := by
  induction l with
  | nil => simpa [put] using h
  | cons a r ih =>
      obtain ⟨k', v'⟩ := a
      simp only [put] at h
      split at h <;> grind

theorem put_ascending [Std.TransOrd κ] (k : κ) (v : υ) {l : List (κ × υ)}
    (h : l.Pairwise (fun a b => compare a.1 b.1 = .lt)) :
    (put k v l).Pairwise (fun a b => compare a.1 b.1 = .lt) := by
  induction l with
  | nil => simp [put]
  | cons a r ih =>
      obtain ⟨k', v'⟩ := a
      obtain ⟨hlt, hr⟩ := List.pairwise_cons.1 h
      simp only [put]
      split
      · next hc =>
          refine List.pairwise_cons.2 ⟨?_, h⟩
          intro e he
          rcases List.mem_cons.1 he with rfl | he
          · exact hc
          · exact Std.TransCmp.lt_trans hc (hlt e he)
      · next hc =>
          refine List.pairwise_cons.2 ⟨?_, hr⟩
          intro e he
          exact Std.TransCmp.lt_of_eq_of_lt hc (hlt e he)
      · next hc =>
          refine List.pairwise_cons.2 ⟨?_, ih hr⟩
          intro e he
          rcases mem_put he with rfl | he
          · exact Std.OrientedCmp.lt_of_gt hc
          · exact hlt e he

/-! ### Operations -/

def get? (m : SortedMap κ υ) (k : κ) : Option υ := find? k m.toList

/-- The map with `v` at `k`, in place of what stood there. -/
def insert [Std.TransOrd κ] (m : SortedMap κ υ) (k : κ) (v : υ) : SortedMap κ υ :=
  ⟨put k v m.toList, put_ascending k v m.ascending⟩

def erase (m : SortedMap κ υ) (k : κ) : SortedMap κ υ :=
  ⟨drop k m.toList, m.ascending.filter _⟩

def contains (m : SortedMap κ υ) (k : κ) : Bool := (m.get? k).isSome

/-- The keys, ascending. -/
def keys (m : SortedMap κ υ) : List κ := m.toList.map (·.1)

/-- The values, in the order of their keys. -/
def values (m : SortedMap κ υ) : List υ := m.toList.map (·.2)

/-- The map that a list of entries builds up, later entries replacing earlier ones at their key. -/
def ofList [Std.TransOrd κ] (l : List (κ × υ)) : SortedMap κ υ :=
  l.foldl (fun m e => m.insert e.1 e.2) ∅

end SortedMap

end VersionedTables
