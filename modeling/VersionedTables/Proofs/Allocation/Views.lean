import VersionedTables.Proofs.Allocation

/-!
# The views of a reservation

A reservation gives the bounds of its row ids, both of them included.  Its row ids are drawn from these bounds,
and so are their number and whether there are any.  To list the row ids the upper bound is raised by one,
which is not possible at the greatest number of all: a row id that stands there is counted but not listed.
This is the only place where the views differ, and no counter ever gets that far.

* **`Reservation.mem_rowIds_iff`**, **`Reservation.rowIds_ascending`** — which row ids are listed.
* **`Reservation.ViewsAgree`** — list, number and emptiness are those of the bounds.
* **`Reservation.views_agree_iff`** — when they are.
* **`Counter.Reserves.viewsAgree`** — they are in what a counter hands out.
-/

namespace VersionedTables

namespace Reservation

variable {r : Reservation} {least greatest : RowId}

/-! ### The row ids -/

theorem span_of_bounds (hleast : r.minRowId = some least) (hgreatest : r.maxRowId = some greatest) :
    r.span = (least, Bounded.addSat greatest 1) := by
  rw [span, hleast, hgreatest]

/-- Without both bounds nothing is spanned. -/
theorem span_of_unbounded
    (h : ¬∃ least greatest, r.minRowId = some least ∧ r.maxRowId = some greatest) :
    r.span = (0, 0) := by
  unfold span
  split
  · next least greatest hleast hgreatest => exact absurd ⟨least, greatest, hleast, hgreatest⟩ h
  · rfl

/-- A row id is listed if it lies in the span. -/
theorem mem_rowIds_iff_span {id : RowId} :
    id ∈ r.rowIds ↔ r.span.1 ≤ id ∧ id < r.span.2 := by
  have hinj : Function.Injective UInt64.toNat := fun _ _ heq => UInt64.toNat_inj.1 heq
  rw [← List.mem_map_of_injective hinj, r.map_toNat_rowIds, List.mem_range'_1,
    UInt64.le_iff_toNat_le, UInt64.lt_iff_toNat_lt]
  omega

/-- **The row ids that are listed** are the numbers between the bounds, both included, except for the
greatest number of all. -/
theorem mem_rowIds_iff {id : RowId} :
    id ∈ r.rowIds ↔ ∃ least greatest, r.minRowId = some least ∧ r.maxRowId = some greatest ∧
      least ≤ id ∧ id ≤ greatest ∧ id.toNat < Bounded.greatest := by
  have hone : (1 : UInt64).toNat = 1 := rfl
  rw [mem_rowIds_iff_span]
  constructor
  · intro h
    by_cases hbounds : ∃ least greatest, r.minRowId = some least ∧ r.maxRowId = some greatest
    · obtain ⟨least, greatest, hleast, hgreatest⟩ := hbounds
      rw [span_of_bounds hleast hgreatest, UInt64.lt_iff_toNat_lt, Bounded.toNat_addSat] at h
      refine ⟨least, greatest, hleast, hgreatest, h.1, UInt64.le_iff_toNat_le.2 ?_, ?_⟩ <;> omega
    · rw [span_of_unbounded hbounds] at h
      exact absurd h.2 UInt64.not_lt_zero
  · rintro ⟨least, greatest, hleast, hgreatest, hle, hle', hlt⟩
    rw [UInt64.le_iff_toNat_le] at hle'
    rw [span_of_bounds hleast hgreatest, UInt64.lt_iff_toNat_lt, Bounded.toNat_addSat]
    refine ⟨hle, ?_⟩
    omega

/-- The row ids are listed in ascending order, each once. -/
theorem rowIds_ascending (r : Reservation) : r.rowIds.Pairwise (· < ·) := by
  have hnat : (r.rowIds.map UInt64.toNat).Pairwise (· < ·) := by
    rw [r.map_toNat_rowIds]
    exact List.pairwise_lt_range'
  exact (List.pairwise_map.1 hnat).imp UInt64.lt_iff_toNat_lt.2

theorem length_rowIds (r : Reservation) :
    r.rowIds.length = r.span.2.toNat - r.span.1.toNat := by
  have hlength := congrArg List.length r.map_toNat_rowIds
  rwa [List.length_map, List.length_range'] at hlength

/-! ### The number of row ids -/

/-- There are as many row ids as numbers between the bounds, as far as numbers go. -/
theorem toNat_size_of_bounds (hleast : r.minRowId = some least)
    (hgreatest : r.maxRowId = some greatest) :
    r.size.toNat = min (greatest.toNat + 1 - least.toNat) Bounded.greatest := by
  unfold size
  rw [hleast, hgreatest]
  dsimp only
  split
  · next hle =>
      rw [UInt64.le_iff_toNat_le] at hle
      rw [Bounded.toNat_ofNatSat, Nat.sub_add_comm hle]
  · next hle =>
      rw [UInt64.le_iff_toNat_le] at hle
      have hzero : (0 : UInt64).toNat = 0 := rfl
      omega

theorem size_of_unbounded
    (h : ¬∃ least greatest, r.minRowId = some least ∧ r.maxRowId = some greatest) : r.size = 0 := by
  unfold size
  split
  · next least greatest hleast hgreatest => exact absurd ⟨least, greatest, hleast, hgreatest⟩ h
  · rfl

theorem isEmpty_iff : r.isEmpty = true ↔ r.size.toNat = 0 := by
  rw [isEmpty, decide_eq_true_iff, ← UInt64.toNat_inj]
  rfl

/-! ### Views that agree -/

/-- The views of a reservation are those of its bounds. -/
structure ViewsAgree (r : Reservation) : Prop where
  mem_iff : ∀ id, id ∈ r.rowIds ↔ ∃ least greatest,
    r.minRowId = some least ∧ r.maxRowId = some greatest ∧ least ≤ id ∧ id ≤ greatest
  ascending : r.rowIds.Pairwise (· < ·)
  size : r.size.toNat = min r.rowIds.length Bounded.greatest
  isEmpty : r.isEmpty = true ↔ r.rowIds = []

/-- The row ids of a reservation go up to the greatest number that there is. -/
def ReachesTop (r : Reservation) : Prop :=
  r.minRowId.isSome ∧ ∃ top ∈ r.maxRowId, top.toNat = Bounded.greatest

theorem lt_greatest_of_not_reachesTop (h : ¬r.ReachesTop) (hleast : r.minRowId = some least)
    (hgreatest : r.maxRowId = some greatest) : greatest.toNat < Bounded.greatest := by
  have hle := Bounded.toNat_le_greatest greatest
  have hne : greatest.toNat ≠ Bounded.greatest :=
    fun heq => h ⟨Option.isSome_of_eq_some hleast, greatest, hgreatest, heq⟩
  omega

/-- Below the greatest number the number of row ids is that of the list. -/
theorem toNat_size (h : ¬r.ReachesTop) : r.size.toNat = min r.rowIds.length Bounded.greatest := by
  rw [length_rowIds]
  by_cases hbounds : ∃ least greatest, r.minRowId = some least ∧ r.maxRowId = some greatest
  · obtain ⟨least, greatest, hleast, hgreatest⟩ := hbounds
    have hlt := lt_greatest_of_not_reachesTop h hleast hgreatest
    have hone : (1 : UInt64).toNat = 1 := rfl
    have hend : (Bounded.addSat greatest 1).toNat = greatest.toNat + 1 := by
      rw [Bounded.toNat_addSat]
      omega
    rw [toNat_size_of_bounds hleast hgreatest, span_of_bounds hleast hgreatest, hend]
  · rw [size_of_unbounded hbounds, span_of_unbounded hbounds]
    rfl

/-- Below the greatest number the views agree. -/
theorem viewsAgree_of_not_reachesTop (h : ¬r.ReachesTop) : r.ViewsAgree where
  mem_iff id := by
    rw [mem_rowIds_iff]
    constructor
    · rintro ⟨least, greatest, hleast, hgreatest, hle, hle', -⟩
      exact ⟨least, greatest, hleast, hgreatest, hle, hle'⟩
    · rintro ⟨least, greatest, hleast, hgreatest, hle, hle'⟩
      have hlt := lt_greatest_of_not_reachesTop h hleast hgreatest
      exact ⟨least, greatest, hleast, hgreatest, hle, hle',
        Nat.lt_of_le_of_lt (UInt64.le_iff_toNat_le.1 hle') hlt⟩
  ascending := r.rowIds_ascending
  size := toNat_size h
  isEmpty := by
    have hpos : 0 < Bounded.greatest := by decide
    rw [isEmpty_iff, toNat_size h, ← List.length_eq_zero_iff]
    omega

/-- At the greatest number they do not: it lies between the bounds and is not listed. -/
theorem not_viewsAgree_of_reachesTop (h : r.ReachesTop) : ¬r.ViewsAgree := by
  intro hagree
  obtain ⟨hsome, top, hgreatest, htop⟩ := h
  obtain ⟨least, hleast⟩ := Option.isSome_iff_exists.1 hsome
  have hle : least ≤ top := by
    rw [UInt64.le_iff_toNat_le, htop]
    exact Bounded.toNat_le_greatest least
  have hlisted := (hagree.mem_iff top).2 ⟨least, top, hleast, hgreatest, hle, UInt64.le_refl top⟩
  obtain ⟨-, -, -, -, -, -, hlt⟩ := mem_rowIds_iff.1 hlisted
  omega

/-- **When the views of a reservation agree.**  The numbers between the bounds are listed in ascending order,
each once, their number is that of the list, and it is said that there are none if the list is empty, exactly
if the bounds do not go up to the greatest number that there is. -/
theorem views_agree_iff (r : Reservation) : r.ViewsAgree ↔ ¬r.ReachesTop :=
  ⟨fun hagree htop => not_viewsAgree_of_reachesTop htop hagree, viewsAgree_of_not_reachesTop⟩

end Reservation

/-- The views of what a counter hands out agree: the last row id lies below the counter. -/
theorem Counter.Reserves.viewsAgree {c c' : Counter} {count : Nat} {r : Reservation}
    (h : c.Reserves count r c') : r.ViewsAgree := by
  refine Reservation.viewsAgree_of_not_reachesTop ?_
  rintro ⟨-, top, hmax, htop⟩
  rw [h.maxRowId] at hmax
  split at hmax
  · cases hmax
  · next h0 =>
      cases hmax
      have hpred := h.toNat_pred h0
      have hnext := h.nextRowId
      have hle := Bounded.toNat_le_greatest c'.nextRowId
      omega

namespace Sample

def topmost : Reservation := ⟨some 0xFFFFFFFFFFFFFFFF, some 0xFFFFFFFFFFFFFFFF, 1, none⟩

end Sample

namespace Reservation

/-- The greatest row id is counted, but it is not listed. -/
theorem not_views_agree : ¬∀ r : Reservation, r.ViewsAgree := by
  intro hall
  have hlisted : Sample.topmost.rowIds = [] := rfl
  have hempty := (hall Sample.topmost).isEmpty.2 hlisted
  revert hempty
  decide

end Reservation

end VersionedTables
