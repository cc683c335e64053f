import VersionedTables.Proofs.Log.Ledger

/-!
# The row ids that a change allocates

The bounds of a change say which row ids its commit took for new rows.  Of a committed row set the ids
from the least one on are just these, one after the other, and they stand at rows with values; whatever
else the row set touches was there before and lies below.

* **`Change.Allocates`** — the bounds of a change say which row ids it took.
* **`RowSet.Stamped.allocates`** — those of a commit do.
* **`Change.Allocates.exists_first`** — where the numbers of a commit begin.
* **`RowSet.stamped_unstamped`** — what was submitted, seen from what was committed.
-/

namespace VersionedTables

/-- The row id bounds of a change say which ids its row set gives to new rows. -/
structure Change.Allocates (c : Change) (s : RowSet) : Prop where
  paired : c.minRowId.isSome = c.maxRowId.isSome
  /-- The ids from the least one on are, in order and each once, all up to the greatest one. -/
  rowIds : ∀ least ∈ c.minRowId, ∀ greatest ∈ c.maxRowId,
    (s.rowIds.filter (least ≤ ·)).map UInt64.toNat =
      List.range' least.toNat (greatest.toNat + 1 - least.toNat)
  values : ∀ least ∈ c.minRowId, ∀ r ∈ s.rows, ∀ id ∈ r.rowId, least ≤ id → r.isDeletion = false

namespace RowSet

namespace Stamped

variable {version : Version} {fresh : List RowId} {rows out : List Row} {least : RowId}

theorem length_fresh (h : Stamped version fresh rows out) :
    fresh.length = rows.countP (·.rowId.isNone) := by
  induction h with
  | nil => rfl
  | keep r hr rest ih =>
      obtain ⟨id, hid⟩ := Option.isSome_iff_exists.1 hr
      rw [List.countP_cons_of_neg (by simp [hid]), ih]
  | give r id hr rest ih =>
      rw [List.countP_cons_of_pos (by simp [hr]), List.length_cons, ih]

/-- Rows are stamped in one way only. -/
theorem unique {out' : List Row} (h : Stamped version fresh rows out)
    (h' : Stamped version fresh rows out') : out' = out := by
  induction h generalizing out' with
  | nil =>
      cases h'
      rfl
  | keep r hr rest ih =>
      cases h' with
      | keep _ _ rest' => rw [ih rest']
      | give _ _ hr' => simp [hr'] at hr
  | give r id hr rest ih =>
      cases h' with
      | keep _ hr' => simp [hr] at hr'
      | give _ _ _ rest' => rw [ih rest']

/-- Where the reserved ids lie above all that were there, they are the ids from the least one on. -/
theorem filter_rowIds (h : Stamped version fresh rows out)
    (hold : ∀ id ∈ rows.filterMap (·.rowId), id < least) (hnew : ∀ id ∈ fresh, least ≤ id) :
    (out.filterMap (·.rowId)).filter (least ≤ ·) = fresh := by
  induction h with
  | nil => rfl
  | keep r hr rest ih =>
      obtain ⟨id, hid⟩ := Option.isSome_iff_exists.1 hr
      simp only [List.filterMap_cons, hid, List.forall_mem_cons] at hold ⊢
      rw [List.filter_cons_of_neg (by simpa using hold.1)]
      exact ih hold.2 hnew
  | give r id hr rest ih =>
      simp only [List.filterMap_cons, hr] at hold ⊢
      obtain ⟨hid, hnew⟩ := List.forall_mem_cons.1 hnew
      rw [List.filter_cons_of_pos (by simpa using hid), ih hold hnew]

/-- An id above all that were there is the id of a new row. -/
theorem new_of_le (h : Stamped version fresh rows out)
    (hold : ∀ id ∈ rows.filterMap (·.rowId), id < least) {r' : Row} (hr' : r' ∈ out) {id : RowId}
    (hid : r'.rowId = some id) (hle : least ≤ id) :
    ∃ r ∈ rows, r.rowId = none ∧ r'.values = r.values := by
  induction h with
  | nil => cases hr'
  | keep r hr rest ih =>
      obtain ⟨id', hid'⟩ := Option.isSome_iff_exists.1 hr
      simp only [List.filterMap_cons, hid', List.forall_mem_cons] at hold
      rcases List.mem_cons.1 hr' with rfl | hr'
      · cases hid'.symm.trans hid
        exact absurd hold.1 (UInt64.not_lt.2 hle)
      · obtain ⟨r₀, hr₀, hnone, hvalues⟩ := ih hold.2 hr'
        exact ⟨r₀, List.mem_cons_of_mem r hr₀, hnone, hvalues⟩
  | give r id' hr rest ih =>
      simp only [List.filterMap_cons, hr] at hold
      rcases List.mem_cons.1 hr' with rfl | hr'
      · exact ⟨r, List.mem_cons_self, hr, rfl⟩
      · obtain ⟨r₀, hr₀, hnone, hvalues⟩ := ih hold hr'
        exact ⟨r₀, List.mem_cons_of_mem r hr₀, hnone, hvalues⟩

/-- **The bounds of a commit say which row ids it took.** -/
theorem allocates {initial c c' : Counter} {s : RowSet} {table : TableId}
    {schema columns : List Column} {r : Reservation}
    (hst : Stamped r.version r.rowIds s.rows rows)
    (hs : s.Acceptable table schema c.lastRowId columns) (hc : initial.Sound c)
    (hr : c.Reserves s.newRows r c') (user : UserId) (millis : UInt64) :
    (Change.ofRowSet { s with rows } r user millis).Allocates { s with rows } := by
  have hold : ∀ id ∈ s.rows.filterMap (·.rowId), id < c.nextRowId :=
    fun id hid => hs.lt_of_mem_rowIds hc hid
  have hmin : (Change.ofRowSet { s with rows } r user millis).minRowId = _ := hr.minRowId
  have hmax : (Change.ofRowSet { s with rows } r user millis).maxRowId = _ := hr.maxRowId
  by_cases h0 : s.newRows = 0
  · rw [if_pos h0] at hmin hmax
    refine ⟨by rw [hmin, hmax], ?_, ?_⟩
    · rw [hmin]
      exact nofun
    · rw [hmin]
      exact nofun
  · rw [if_neg h0] at hmin hmax
    have hpred := hr.toNat_pred h0
    have hnext := hr.nextRowId
    refine ⟨by rw [hmin, hmax]; rfl, ?_, ?_⟩
    · intro least hleast greatest hgreatest
      cases hmin.symm.trans hleast
      cases hmax.symm.trans hgreatest
      have hcount : (c'.nextRowId - 1).toNat + 1 - c.nextRowId.toNat = s.newRows := by omega
      rw [hcount, ← hr.map_toNat_rowIds]
      exact congrArg _ (hst.filter_rowIds hold (fun id hid => (hr.mem_rowIds hid).1))
    · intro least hleast r' hr' id hid hle
      cases hmin.symm.trans hleast
      obtain ⟨r₀, hr₀, hnone, hvalues⟩ := hst.new_of_le hold hr' hid hle
      rcases hs.rows r₀ hr₀ with hdelete | hfits
      · simp [Row.isDeletion, hnone] at hdelete
      · have hne : r₀.values ≠ [] := by
          intro hnil
          have hwidth := hfits.width
          rw [hnil] at hwidth
          exact hfits.nonempty (List.eq_nil_of_length_eq_zero hwidth.symm)
        simp [Row.isDeletion, hvalues, hne]

end Stamped

end RowSet

/-- **Where the numbers of a commit begin**: from some id on, the row set has a stretch of ids, which the
bounds of the change say. -/
theorem Change.Allocates.exists_first {c : Change} {s : RowSet} (h : c.Allocates s)
    (hd : c.Describes s) (htop : ∀ id ∈ s.rowIds, id.toNat < Bounded.greatest) :
    ∃ (n : RowId) (count : Nat), n.toNat + count ≤ Bounded.greatest ∧
      (s.rowIds.filter (n ≤ ·)).map UInt64.toNat = List.range' n.toNat count ∧
      c.minRowId = (if count = 0 then none else some n) ∧
      c.maxRowId = (if count = 0 then none else some (UInt64.ofNat (n.toNat + count - 1))) ∧
      ∀ r ∈ s.rows, ∀ id ∈ r.rowId, n ≤ id → r.isDeletion = false := by
  have hpaired := h.paired
  cases hmin : c.minRowId with
  | none =>
      cases hmax : c.maxRowId with
      | some greatest => simp [hmin, hmax] at hpaired
      | none =>
          have hn : (UInt64.ofNat Bounded.greatest).toNat = Bounded.greatest :=
            Bounded.toNat_ofNat_of_le (Nat.le_refl _)
          have hbelow : ∀ id ∈ s.rowIds, ¬UInt64.ofNat Bounded.greatest ≤ id := by
            intro id hid
            rw [UInt64.le_iff_toNat_le, hn, Nat.not_le]
            exact htop id hid
          refine ⟨UInt64.ofNat Bounded.greatest, 0, by rw [hn]; exact Nat.le_refl _, ?_, rfl, rfl, ?_⟩
          · rw [List.filter_eq_nil_iff.2 (by simpa using hbelow)]
            rfl
          · intro r hr id hid hle
            exact absurd hle (hbelow id (List.mem_filterMap.2 ⟨r, hr, hid⟩))
  | some least =>
      cases hmax : c.maxRowId with
      | none => simp [hmin, hmax] at hpaired
      | some greatest =>
          have hle := UInt64.le_iff_toNat_le.1 (hd.bounds least hmin greatest hmax)
          have hids := h.rowIds least hmin greatest hmax
          have hlast : greatest.toNat < Bounded.greatest := by
            have hmem : greatest.toNat ∈ (s.rowIds.filter (least ≤ ·)).map UInt64.toNat := by
              rw [hids]
              exact List.mem_range'_1.2 (by omega)
            obtain ⟨id, hid, he⟩ := List.mem_map.1 hmem
            rw [← he]
            exact htop id (List.mem_filter.1 hid).1
          refine ⟨least, greatest.toNat + 1 - least.toNat, by omega, hids, ?_, ?_, h.values least hmin⟩
          · rw [if_neg (by omega)]
          · have hsum : least.toNat + (greatest.toNat + 1 - least.toNat) - 1 = greatest.toNat := by
              omega
            rw [if_neg (by omega), hsum, UInt64.ofNat_toNat]

/-! ### What was submitted -/

/-- A row as it was submitted if it was new and the ids from `n` on were given to new rows. -/
def Row.unstamped (n : RowId) (r : Row) : Row :=
  if r.rowId.any (n ≤ ·) then { r with rowId := none } else r

namespace RowSet

variable {n : RowId} {version : Version} {rows : List Row}

/-- **What was committed is what comes of stamping what was submitted.** -/
theorem stamped_unstamped (n : RowId)
    (h : ∀ r ∈ rows, r.rowId.isSome ∧ r.version = some version) :
    Stamped version ((rows.filterMap (·.rowId)).filter (n ≤ ·)) (rows.map (Row.unstamped n))
      rows := by
  induction rows with
  | nil => exact .nil
  | cons r rows ih =>
      obtain ⟨⟨hsome, hversion⟩, hrest⟩ := List.forall_mem_cons.1 h
      obtain ⟨id, hid⟩ := Option.isSome_iff_exists.1 hsome
      have hsame : r = { r with rowId := some id, version := some version } := by
        rw [← hid, ← hversion]
      have htail := ih hrest
      by_cases hle : n ≤ id
      · have hrow : Row.unstamped n r = { r with rowId := none } := by
          rw [Row.unstamped, if_pos (by simpa [hid] using hle)]
        have hstep := Stamped.give { r with rowId := none } id rfl htail
        rw [List.map_cons, hrow, List.filterMap_cons, hid, List.filter_cons_of_pos (by simpa using hle)]
        rw [← hsame] at hstep
        exact hstep
      · have hrow : Row.unstamped n r = r := by
          rw [Row.unstamped, if_neg (by simpa [hid] using hle)]
        have hstep := Stamped.keep r hsome htail
        rw [List.map_cons, hrow, List.filterMap_cons, hid, List.filter_cons_of_neg (by simpa using hle)]
        rw [← hversion] at hstep
        exact hstep

/-- The ids that were there lie below those that were given. -/
theorem lt_of_mem_unstamped {id : RowId}
    (h : id ∈ (rows.map (Row.unstamped n)).filterMap (·.rowId)) : id < n := by
  obtain ⟨r', hr', hid⟩ := List.mem_filterMap.1 h
  obtain ⟨r, -, rfl⟩ := List.mem_map.1 hr'
  unfold Row.unstamped at hid
  split at hid
  · cases hid
  · next hany =>
      rw [hid] at hany
      simpa using hany

end RowSet

end VersionedTables
