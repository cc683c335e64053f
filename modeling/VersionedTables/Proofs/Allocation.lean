import Mathlib.Data.List.Nodup
import Mathlib.Data.List.Perm.Subperm
import VersionedTables.Allocation
import VersionedTables.Proofs.SortedMap

/-!
# What the counters hand out

A reservation hands out the numbers from the counters on and leaves the counters behind them; numbers
that would not fit are refused. All of it is said with natural numbers, where nothing wraps around.

* **`Counter.Reserves`** — what a reservation that is granted does.
* **`Counter.reserve_eq_error`** — when a reservation is refused, **`Counter.HasRoom`** — when not.
* **`Reservation.rowIds`** — the row ids of a reservation are those from the counter on.
* **`Counter.Sound`** — what is true of the counters of a table at any time.
-/

namespace VersionedTables

/-! ### Words -/

instance lawfulOrderMax_uint64 : Std.LawfulOrderMax UInt64 where
  max_eq_or a b := by
    show (if a ≤ b then b else a) = a ∨ (if a ≤ b then b else a) = b
    split <;> simp
  max_le_iff a b c := by
    show (if a ≤ b then b else a) ≤ c ↔ a ≤ c ∧ b ≤ c
    split
    · next h => exact ⟨fun hc => ⟨UInt64.le_trans h hc, hc⟩, fun hc => hc.2⟩
    · next h =>
        have h' := UInt64.le_of_lt (UInt64.not_le.1 h)
        exact ⟨fun hc => ⟨hc, UInt64.le_trans h' hc⟩, fun hc => hc.1⟩

namespace Bounded

theorem toNat_le_greatest (a : UInt64) : a.toNat ≤ greatest := Nat.le_pred_of_lt a.toNat_lt

theorem addSat_le_addSat {a b : UInt64} (h : a ≤ b) (c : UInt64) : addSat a c ≤ addSat b c := by
  rw [UInt64.le_iff_toNat_le] at h ⊢
  rw [toNat_addSat, toNat_addSat]
  omega

theorem toNat_max (a b : UInt64) : (max a b).toNat = max a.toNat b.toNat := by
  show (if a ≤ b then b else a).toNat = _
  split
  · next h =>
      rw [UInt64.le_iff_toNat_le] at h
      omega
  · next h =>
      rw [UInt64.le_iff_toNat_le] at h
      omega

theorem toNat_ofNat_of_le {n : Nat} (h : n ≤ greatest) : (UInt64.ofNat n).toNat = n :=
  UInt64.toNat_ofNat_of_lt (Nat.lt_of_le_pred (by decide) h)

theorem greatest_add_one : greatest + 1 = UInt64.size := by decide

/-- A number lies at or below a counter that was raised above it, unless both are at the top. -/
theorem lt_of_addSat_le {a b : UInt64} (h : addSat a 1 ≤ b) (hb : b.toNat < greatest) : a < b := by
  rw [UInt64.le_iff_toNat_le, toNat_addSat] at h
  rw [UInt64.lt_iff_toNat_lt]
  have h1 : (1 : UInt64).toNat = 1 := rfl
  omega

theorem addSat_one_le_of_lt {a b : UInt64} (h : a < b) : addSat a 1 ≤ b := by
  rw [UInt64.lt_iff_toNat_lt] at h
  rw [UInt64.le_iff_toNat_le, toNat_addSat]
  have h1 : (1 : UInt64).toNat = 1 := rfl
  omega

/-- Distinct numbers below `n` are no more than `n`. -/
theorem length_le_of_nodup {as : List UInt64} {n : Nat} (hn : as.Nodup)
    (hlt : ∀ a ∈ as, a.toNat < n) : as.length ≤ n := by
  have hnodup : (as.map UInt64.toNat).Nodup := hn.map (fun _ _ e => UInt64.toNat_inj.1 e)
  have hsub : (as.map UInt64.toNat) ⊆ List.range n := by
    intro m hmem
    obtain ⟨a, ha, rfl⟩ := List.mem_map.1 hmem
    exact List.mem_range.2 (hlt a ha)
  have hle := (List.subperm_of_subset hnodup hsub).length_le
  rwa [List.length_map, List.length_range] at hle

end Bounded

/-! ### Reservations -/

/-- The row ids of a reservation are the numbers of its span. -/
theorem Reservation.map_toNat_rowIds (r : Reservation) :
    r.rowIds.map UInt64.toNat =
      List.range' r.span.1.toNat (r.span.2.toNat - r.span.1.toNat) := by
  rw [rowIds, firstRowIds, Nat.min_self, List.map_map, List.range'_eq_map_range]
  refine List.map_congr_left (fun i hi => ?_)
  have hi := List.mem_range.1 hi
  have hend := Bounded.toNat_le_greatest r.span.2
  exact Bounded.toNat_ofNat_of_le (by omega)

namespace Counter

/-- What a reservation of `count` row ids that is granted does. -/
structure Reserves (c : Counter) (count : Nat) (r : Reservation) (c' : Counter) : Prop where
  version : r.version = c.nextVersion
  maxUpdateRowId : r.maxUpdateRowId = c.lastRowId
  minRowId : r.minRowId = if count = 0 then none else some c.nextRowId
  maxRowId : r.maxRowId = if count = 0 then none else some (c'.nextRowId - 1)
  nextVersion : c'.nextVersion.toNat = c.nextVersion.toNat + 1
  nextRowId : c'.nextRowId.toNat = c.nextRowId.toNat + count
  lastRowId : c'.lastRowId = if count = 0 then c.lastRowId else some (c'.nextRowId - 1)

theorem reserves_of_reserve {c c' : Counter} {table : TableId} {count : Nat} {r : Reservation}
    (h : c.reserve table count = .ok (r, c')) : c.Reserves count r c' := by
  unfold reserve at h
  split at h
  · cases h
  · cases h
  · next version rowId hv hr =>
      have hv := Bounded.add?_eq_some_iff.1 hv
      have hr := Bounded.ofNat?_eq_some_iff.1 hr
      split at h
      · next h0 =>
          cases h
          exact ⟨rfl, rfl, by simp [h0], by simp [h0], hv, by simp [h0], by simp [h0]⟩
      · next h0 =>
          cases h
          exact ⟨rfl, rfl, by simp [h0], by simp [h0], hv, hr, by simp [h0]⟩

/-- A reservation is refused when the versions are used up, or else the row ids. -/
theorem reserve_eq_error {c : Counter} {table : TableId} {count : Nat} {e : Error}
    (h : c.reserve table count = .error e) :
    (e = .versionsExhausted table ∧ Bounded.greatest ≤ c.nextVersion.toNat) ∨
    (e = .rowIdsExhausted table ∧ Bounded.greatest < c.nextRowId.toNat + count) := by
  have hsize := Bounded.greatest_add_one
  unfold reserve at h
  split at h
  · next hv =>
      have hv := Bounded.add?_eq_none_iff.1 hv
      have h1 : (1 : UInt64).toNat = 1 := rfl
      cases h
      exact Or.inl ⟨rfl, by omega⟩
  · next hr _ =>
      have hr := Bounded.ofNat?_eq_none_iff.1 hr
      cases h
      exact Or.inr ⟨rfl, by omega⟩
  · split at h <;> cases h

/-- There is room for one version more and for `count` row ids more. -/
def HasRoom (c : Counter) (count : Nat) : Prop :=
  c.nextVersion.toNat + 1 ≤ Bounded.greatest ∧ c.nextRowId.toNat + count ≤ Bounded.greatest

namespace Reserves

variable {c c' : Counter} {count : Nat} {r : Reservation}

theorem nextVersion_lt (h : c.Reserves count r c') : c.nextVersion.toNat < Bounded.greatest := by
  have hv := h.nextVersion
  have := Bounded.toNat_le_greatest c'.nextVersion
  omega

/-- A reservation that is granted had room. -/
theorem hasRoom (h : c.Reserves count r c') : c.HasRoom count := by
  have hversion := h.nextVersion
  have hrowId := h.nextRowId
  have hversion' := Bounded.toNat_le_greatest c'.nextVersion
  have hrowId' := Bounded.toNat_le_greatest c'.nextRowId
  constructor <;> omega

theorem toNat_pred (h : c.Reserves count r c') (h0 : count ≠ 0) :
    (c'.nextRowId - 1).toNat = c'.nextRowId.toNat - 1 := by
  have hr := h.nextRowId
  have hle : (1 : UInt64) ≤ c'.nextRowId := by
    rw [UInt64.le_iff_toNat_le]
    have h1 : (1 : UInt64).toNat = 1 := rfl
    omega
  rw [UInt64.toNat_sub_of_le _ _ hle]
  rfl

/-- The row ids of a reservation are those from the counter on. -/
theorem map_toNat_rowIds (h : c.Reserves count r c') :
    r.rowIds.map UInt64.toNat = List.range' c.nextRowId.toNat count := by
  rw [Reservation.map_toNat_rowIds]
  by_cases h0 : count = 0
  · simp [Reservation.span, h.minRowId, h.maxRowId, h0]
  · have hpred := h.toNat_pred h0
    have hnext := h.nextRowId
    have hlast := Bounded.toNat_le_greatest c'.nextRowId
    have hspan : r.span = (c.nextRowId, Bounded.addSat (c'.nextRowId - 1) 1) := by
      simp [Reservation.span, h.minRowId, h.maxRowId, h0]
    have h1 : (1 : UInt64).toNat = 1 := rfl
    have hend : (Bounded.addSat (c'.nextRowId - 1) 1).toNat = c.nextRowId.toNat + count := by
      rw [Bounded.toNat_addSat, hpred]
      omega
    rw [hspan, hend, Nat.add_sub_cancel_left]

theorem length_rowIds (h : c.Reserves count r c') : r.rowIds.length = count := by
  have e := congrArg List.length h.map_toNat_rowIds
  rwa [List.length_map, List.length_range'] at e

theorem nodup_rowIds (h : c.Reserves count r c') : r.rowIds.Nodup := by
  refine List.Nodup.of_map UInt64.toNat ?_
  rw [h.map_toNat_rowIds]
  exact List.nodup_range'

/-- The row ids are all the numbers from the counter before to the counter behind. -/
theorem mem_rowIds_iff (h : c.Reserves count r c') {id : RowId} :
    id ∈ r.rowIds ↔ c.nextRowId ≤ id ∧ id < c'.nextRowId := by
  have hnext := h.nextRowId
  have hinj : Function.Injective UInt64.toNat := fun _ _ heq => UInt64.toNat_inj.1 heq
  rw [← List.mem_map_of_injective hinj, h.map_toNat_rowIds, List.mem_range'_1,
    UInt64.le_iff_toNat_le, UInt64.lt_iff_toNat_lt, hnext]

theorem mem_rowIds (h : c.Reserves count r c') {id : RowId} (hid : id ∈ r.rowIds) :
    c.nextRowId ≤ id ∧ id < c'.nextRowId := h.mem_rowIds_iff.1 hid

/-- The first row id of the reservation is the least one. -/
theorem minRowId_eq (h : c.Reserves count r c') : r.minRowId = r.rowIds.head? := by
  have hids := congrArg List.head? h.map_toNat_rowIds
  rw [List.head?_map, List.head?_range'] at hids
  refine Option.map_injective (fun _ _ heq => UInt64.toNat_inj.1 heq) ?_
  rw [hids, h.minRowId]
  split <;> rfl

/-- The last row id of the reservation is the greatest one. -/
theorem maxRowId_eq (h : c.Reserves count r c') : r.maxRowId = r.rowIds.getLast? := by
  have hids := congrArg List.getLast? h.map_toNat_rowIds
  rw [List.getLast?_map, List.getLast?_range'] at hids
  refine Option.map_injective (fun _ _ heq => UInt64.toNat_inj.1 heq) ?_
  rw [hids, h.maxRowId]
  by_cases h0 : count = 0
  · rw [if_pos h0, if_pos h0]
    rfl
  · have hpred := h.toNat_pred h0
    have hnext := h.nextRowId
    rw [if_neg h0, if_neg h0, Option.map_some, hpred, hnext]

end Reserves

/-! ### The course of a counter -/

/-- No number of a counter goes down. -/
structure Raised (c c' : Counter) : Prop where
  rowId : c.nextRowId ≤ c'.nextRowId
  version : c.nextVersion ≤ c'.nextVersion

/-- What is true of the counters of a table at any time: either no row id was handed out or passed
over yet, or the last one lies right below the counter. -/
def Sound (initial c : Counter) : Prop :=
  (c.lastRowId = none ∧ c.nextRowId = initial.nextRowId) ∨
  (initial.nextRowId < c.nextRowId ∧ c.lastRowId = some (c.nextRowId - 1))

theorem Raised.refl (c : Counter) : c.Raised c := ⟨UInt64.le_refl _, UInt64.le_refl _⟩

theorem sound_initial {initial : Counter} (h : initial.lastRowId = none) :
    initial.Sound initial := Or.inl ⟨h, rfl⟩

theorem toNat_sub_one {a b : UInt64} (h : a < b) : (b - 1).toNat = b.toNat - 1 := by
  rw [UInt64.lt_iff_toNat_lt] at h
  have hle : (1 : UInt64) ≤ b := by
    rw [UInt64.le_iff_toNat_le]
    have h1 : (1 : UInt64).toNat = 1 := rfl
    omega
  rw [UInt64.toNat_sub_of_le _ _ hle]
  rfl

/-- The last row id lies right below the counter. -/
theorem Sound.toNat_lastRowId {initial c : Counter} (h : initial.Sound c) {last : RowId}
    (hl : c.lastRowId = some last) :
    last.toNat + 1 = c.nextRowId.toNat ∧ initial.nextRowId.toNat ≤ last.toNat := by
  rcases h with ⟨hn, -⟩ | ⟨hlt, hs⟩
  · rw [hn] at hl
    cases hl
  · have hpred := toNat_sub_one hlt
    rw [hs] at hl
    cases hl
    rw [UInt64.lt_iff_toNat_lt] at hlt
    omega

/-- The ids that may be updated lie below the counter. -/
theorem Sound.lt_nextRowId {initial c : Counter} (h : initial.Sound c) {last : RowId}
    (hl : c.lastRowId = some last) : last < c.nextRowId := by
  have hnext := (h.toNat_lastRowId hl).1
  rw [UInt64.lt_iff_toNat_lt]
  omega

/-- A last row id lies at or above the first one. -/
theorem Sound.le_lastRowId {initial c : Counter} (h : initial.Sound c) {last : RowId}
    (hl : c.lastRowId = some last) : initial.nextRowId ≤ last :=
  UInt64.le_iff_toNat_le.2 (h.toNat_lastRowId hl).2

theorem Reserves.raised {c c' : Counter} {count : Nat} {r : Reservation}
    (h : c.Reserves count r c') : c.Raised c' := by
  have hv := h.nextVersion
  have hr := h.nextRowId
  constructor
  · rw [UInt64.le_iff_toNat_le]
    omega
  · rw [UInt64.le_iff_toNat_le]
    omega

theorem Reserves.sound {initial c c' : Counter} {count : Nat} {r : Reservation}
    (h : c.Reserves count r c') (hc : initial.Sound c) : initial.Sound c' := by
  have hr := h.nextRowId
  have hl := h.lastRowId
  by_cases h0 : count = 0
  · have he : c'.nextRowId = c.nextRowId := UInt64.toNat_inj.1 (by omega)
    rw [if_pos h0] at hl
    simpa only [Sound, he, hl] using hc
  · rw [if_neg h0] at hl
    refine Or.inr ⟨?_, hl⟩
    rcases hc with ⟨-, hn⟩ | ⟨hlt, -⟩
    · rw [UInt64.lt_iff_toNat_lt, ← hn]
      omega
    · rw [UInt64.lt_iff_toNat_lt] at hlt ⊢
      omega

theorem nextVersion_advance (c : Counter) (rowId : RowId) (version : Version) :
    (c.advance rowId version).nextVersion = max c.nextVersion version := by
  unfold advance
  split <;> rfl

theorem nextRowId_advance (c : Counter) (rowId : RowId) (version : Version) :
    (c.advance rowId version).nextRowId = if c.nextRowId < rowId then rowId else c.nextRowId := by
  unfold advance
  split <;> rfl

/-- An advance raises the row ids to the greater one of the two numbers. -/
theorem toNat_nextRowId_advance (c : Counter) (rowId : RowId) (version : Version) :
    (c.advance rowId version).nextRowId.toNat = max c.nextRowId.toNat rowId.toNat := by
  rw [nextRowId_advance]
  split
  · next h =>
      rw [UInt64.lt_iff_toNat_lt] at h
      omega
  · next h =>
      rw [UInt64.lt_iff_toNat_lt] at h
      omega

theorem nextRowId_advance_eq_max (c : Counter) (rowId : RowId) (version : Version) :
    (c.advance rowId version).nextRowId = max c.nextRowId rowId := by
  rw [← UInt64.toNat_inj, toNat_nextRowId_advance, Bounded.toNat_max]

/-- An advance raises the versions to the greater one of the two numbers. -/
theorem toNat_nextVersion_advance (c : Counter) (rowId : RowId) (version : Version) :
    (c.advance rowId version).nextVersion.toNat = max c.nextVersion.toNat version.toNat := by
  rw [nextVersion_advance, Bounded.toNat_max]

theorem lastRowId_advance (c : Counter) (rowId : RowId) (version : Version) :
    (c.advance rowId version).lastRowId =
      if c.nextRowId < rowId then some (rowId - 1) else c.lastRowId := by
  unfold advance
  split <;> rfl

theorem advance_zero (c : Counter) : c.advance 0 0 = c := by
  have hrowId : ¬c.nextRowId < 0 := UInt64.not_lt_zero
  have hversion : max c.nextVersion 0 = c.nextVersion :=
    UInt64.le_antisymm (Std.max_le_iff.2 ⟨UInt64.le_refl _, UInt64.zero_le⟩) Std.left_le_max
  rw [advance, if_neg hrowId, hversion]

/-- Two advances are one. -/
theorem advance_advance (c : Counter) (rowId rowId' : RowId) (version version' : Version) :
    (c.advance rowId version).advance rowId' version' =
      c.advance (max rowId rowId') (max version version') := by
  have hversion : max (max c.nextVersion version) version' = max c.nextVersion (max version version') :=
    Std.Associative.assoc _ _ _
  have hrowId : max rowId rowId' = if rowId ≤ rowId' then rowId' else rowId := rfl
  unfold advance
  rw [hrowId]
  -- What is left is which of the two numbers lies above the counter.
  grind

theorem raised_advance (c : Counter) (rowId : RowId) (version : Version) :
    c.Raised (c.advance rowId version) := by
  constructor
  · rw [nextRowId_advance]
    split
    · next h => exact Std.le_of_lt h
    · exact UInt64.le_refl _
  · rw [nextVersion_advance]
    exact Std.left_le_max

/-- Behind an advance the counters stand at or above what they were to be raised to. -/
theorem le_advance (c : Counter) (rowId : RowId) (version : Version) :
    rowId ≤ (c.advance rowId version).nextRowId ∧
      version ≤ (c.advance rowId version).nextVersion := by
  constructor
  · rw [nextRowId_advance]
    split
    · exact UInt64.le_refl _
    · next h => exact UInt64.not_lt.1 h
  · rw [nextVersion_advance]
    exact Std.right_le_max

theorem sound_advance {initial c : Counter} (h : initial.Sound c) (rowId : RowId)
    (version : Version) : initial.Sound (c.advance rowId version) := by
  simp only [Sound, nextRowId_advance, lastRowId_advance]
  split
  · next hlt =>
      refine Or.inr ⟨?_, rfl⟩
      rcases h with ⟨-, hn⟩ | ⟨hi, -⟩
      · rwa [← hn]
      · exact UInt64.lt_trans hi hlt
  · exact h

end Counter

/-! ### The counters of all tables -/

namespace Counters

theorem current_insert (cs : Counters) (table t : TableId) (c initial : Counter) :
    Counters.current (cs.insert table c) t initial =
      if t = table then c else cs.current t initial := by
  simp only [current, SortedMap.get?_insert]
  split <;> rfl

theorem reserve_eq_ok {cs cs' : Counters} {table : TableId} {count : Nat} {initial : Counter}
    {r : Reservation} (h : cs.reserve table count initial = (.ok r, cs')) :
    ∃ c', (cs.current table initial).Reserves count r c' ∧ cs' = cs.insert table c' := by
  simp only [reserve] at h
  split at h
  · next r' c' hc =>
      cases h
      exact ⟨c', Counter.reserves_of_reserve hc, rfl⟩
  · cases h

/-- A reservation that is refused leaves the numbers as they are. -/
theorem reserve_eq_error {cs cs' : Counters} {table : TableId} {count : Nat} {initial : Counter}
    {e : Error} (h : cs.reserve table count initial = (.error e, cs')) :
    (cs.current table initial).reserve table count = .error e ∧
      cs' = cs.insert table (cs.current table initial) := by
  simp only [reserve] at h
  split at h
  · cases h
  · next e' hc =>
      cases h
      exact ⟨hc, rfl⟩

end Counters

end VersionedTables
