import VersionedTables.Log.Ledger
import VersionedTables.Proofs.Allocation
import VersionedTables.Proofs.Log.Check

/-!
# Stamping rows

A row set is stamped before it is committed: every row is given the version, and each new row takes
the next of the ids that were reserved.  Nothing else about the rows changes, so that what the check
let through is described by the change that is committed with it.

* **`RowSet.Stamped`** — rows and what they are stamped as.
* **`RowSet.Stamped.rowIds_perm`** — the ids are those that were there and those that were reserved.
* **`RowSet.Stamped.describes`** — the committed change describes the stamped rows.
-/

namespace VersionedTables

namespace RowSet

/-- Rows and what they are stamped as: all of `fresh` goes, in order, to the rows without an id. -/
inductive Stamped (version : Version) : List RowId → List Row → List Row → Prop
  | nil : Stamped version [] [] []
  | keep {fresh : List RowId} {rows out : List Row} (r : Row) (h : r.rowId.isSome)
      (rest : Stamped version fresh rows out) :
      Stamped version fresh (r :: rows) ({ r with version := some version } :: out)
  | give {fresh : List RowId} {rows out : List Row} (r : Row) (id : RowId) (h : r.rowId = none)
      (rest : Stamped version fresh rows out) :
      Stamped version (id :: fresh) (r :: rows)
        ({ r with rowId := some id, version := some version } :: out)

/-- With as many ids as there are new rows the stamping succeeds. -/
theorem exists_stampRows (version : Version) {fresh : List RowId} {rows : List Row}
    (h : fresh.length = rows.countP (·.rowId.isNone)) :
    ∃ out, stampRows version fresh rows = .ok out ∧ Stamped version fresh rows out := by
  induction rows generalizing fresh with
  | nil =>
      have hf : fresh = [] := List.eq_nil_of_length_eq_zero h
      subst hf
      exact ⟨[], by rw [stampRows], .nil⟩
  | cons r rows ih =>
      cases hid : r.rowId with
      | some id =>
          rw [List.countP_cons_of_neg (by simp [hid])] at h
          obtain ⟨out, hout, hst⟩ := ih h
          refine ⟨_, ?_, .keep r (by simp [hid]) hst⟩
          simp only [stampRows, hid, hout, Except.map]
      | none =>
          rw [List.countP_cons_of_pos (by simp [hid])] at h
          cases fresh with
          | nil => cases h
          | cons id fresh =>
              obtain ⟨out, hout, hst⟩ := ih (Nat.succ.inj h)
              refine ⟨_, ?_, .give r id hid hst⟩
              simp only [stampRows, hid, hout, Except.map]

/-- A reservation of as many row ids as there are new rows stamps a row set. -/
theorem exists_stamped {s : RowSet} {r : Reservation} (h : r.rowIds.length = s.newRows) :
    ∃ rows, s.stamped r = .ok { s with rows } ∧ Stamped r.version r.rowIds s.rows rows := by
  obtain ⟨rows, hrows, hst⟩ := exists_stampRows r.version h
  refine ⟨rows, ?_, hst⟩
  rw [stamped, hrows]
  rfl

namespace Stamped

variable {version : Version} {fresh : List RowId} {rows out : List Row}

theorem length_eq (h : Stamped version fresh rows out) : out.length = rows.length := by
  induction h with
  | nil => rfl
  | keep r hr rest ih => rw [List.length_cons, List.length_cons, ih]
  | give r id hr rest ih => rw [List.length_cons, List.length_cons, ih]

/-- Every stamped row has an id and the version, and the values of a row that was submitted; a
deletion stays one. -/
theorem of_mem (h : Stamped version fresh rows out) {r' : Row} (hr' : r' ∈ out) :
    r'.rowId.isSome ∧ r'.version = some version ∧
      ∃ r ∈ rows, r'.values = r.values := by
  induction h with
  | nil => cases hr'
  | keep r hr rest ih =>
      rcases List.mem_cons.1 hr' with rfl | hr'
      · exact ⟨hr, rfl, r, List.mem_cons_self, rfl⟩
      · obtain ⟨hid, hv, r₀, hr₀, he⟩ := ih hr'
        exact ⟨hid, hv, r₀, List.mem_cons_of_mem r hr₀, he⟩
  | give r id hr rest ih =>
      rcases List.mem_cons.1 hr' with rfl | hr'
      · exact ⟨rfl, rfl, r, List.mem_cons_self, rfl⟩
      · obtain ⟨hid, hv, r₀, hr₀, he⟩ := ih hr'
        exact ⟨hid, hv, r₀, List.mem_cons_of_mem r hr₀, he⟩

/-- **The ids of the stamped rows are those that were there and those that were reserved.** -/
theorem rowIds_perm (h : Stamped version fresh rows out) :
    (out.filterMap (·.rowId)).Perm (rows.filterMap (·.rowId) ++ fresh) := by
  induction h with
  | nil => rfl
  | keep r hr rest ih =>
      obtain ⟨id, hid⟩ := Option.isSome_iff_exists.1 hr
      simp only [List.filterMap_cons, hid, List.cons_append]
      exact ih.cons id
  | give r id hr rest ih =>
      simp only [List.filterMap_cons, hr]
      exact (ih.cons id).trans List.perm_middle.symm

/-- Every stamped row has an id, so that there are as many ids as rows. -/
theorem length_rowIds (h : Stamped version fresh rows out) :
    (out.filterMap (·.rowId)).length = rows.length := by
  induction h with
  | nil => rfl
  | keep r hr rest ih =>
      obtain ⟨id, hid⟩ := Option.isSome_iff_exists.1 hr
      simp only [List.filterMap_cons, hid, List.length_cons, ih]
  | give r id hr rest ih =>
      simp only [List.filterMap_cons, List.length_cons, ih]

/-- The ids at the places of the new rows are the reserved ones. -/
theorem newIds_eq (h : Stamped version fresh rows out) :
    ((rows.zip (out.filterMap (·.rowId))).filter (·.1.rowId.isNone)).map (·.2) = fresh := by
  induction h with
  | nil => rfl
  | keep r hr rest ih =>
      obtain ⟨id, hid⟩ := Option.isSome_iff_exists.1 hr
      simp only [List.filterMap_cons, hid, List.zip_cons_cons]
      rw [List.filter_cons_of_neg (by simp [hid]), ih]
  | give r id hr rest ih =>
      simp only [List.filterMap_cons, List.zip_cons_cons]
      rw [List.filter_cons_of_pos (by simp [hr]), List.map_cons, ih]

/-- A row that has an id keeps it. -/
theorem kept (h : Stamped version fresh rows out) :
    ∀ p ∈ rows.zip (out.filterMap (·.rowId)), ∀ id ∈ p.1.rowId, p.2 = id := by
  induction h with
  | nil =>
      intro p hp
      cases hp
  | keep r hr rest ih =>
      obtain ⟨id, hid⟩ := Option.isSome_iff_exists.1 hr
      simp only [List.filterMap_cons, hid, List.zip_cons_cons]
      intro p hp
      rcases List.mem_cons.1 hp with rfl | hp
      · intro id' hid'
        exact Option.some.inj (hid.symm.trans hid')
      · exact ih p hp
  | give r id hr rest ih =>
      simp only [List.filterMap_cons, List.zip_cons_cons]
      intro p hp
      rcases List.mem_cons.1 hp with rfl | hp
      · intro id' hid'
        cases hr.symm.trans hid'
      · exact ih p hp

/-- Values are committed as they were submitted. -/
theorem map_values (h : Stamped version fresh rows out) :
    out.map (·.values) = rows.map (·.values) := by
  induction h with
  | nil => rfl
  | keep r hr rest ih => rw [List.map_cons, List.map_cons, ih]
  | give r id hr rest ih => rw [List.map_cons, List.map_cons, ih]

end Stamped

section

variable {initial c c' : Counter} {s : RowSet} {table : TableId} {schema columns : List Column}
  {r : Reservation} {rows : List Row}

/-- Ids that may be updated were handed out, so the reserved ones are above them. -/
theorem Acceptable.lt_of_mem_rowIds (hs : s.Acceptable table schema c.lastRowId columns)
    (hc : initial.Sound c) {id : RowId} (hid : id ∈ s.rowIds) : id < c.nextRowId := by
  obtain ⟨last, hlast, hle⟩ := hs.allocated id hid
  exact UInt64.lt_of_le_of_lt hle (hc.lt_nextRowId hlast)

theorem Stamped.nodup_rowIds (hst : Stamped r.version r.rowIds s.rows rows)
    (hs : s.Acceptable table schema c.lastRowId columns) (hc : initial.Sound c)
    (hr : c.Reserves s.newRows r c') : (rows.filterMap (·.rowId)).Nodup := by
  rw [hst.rowIds_perm.nodup_iff, List.nodup_append]
  refine ⟨hs.rowIds, hr.nodup_rowIds, ?_⟩
  rintro id hid _ hid' rfl
  have hlt := hs.lt_of_mem_rowIds hc hid
  have hle := (hr.mem_rowIds hid').1
  exact absurd hlt (UInt64.not_lt.2 hle)

/-- All ids of the stamped rows lie below the counter behind the reservation. -/
theorem Stamped.lt_nextRowId (hst : Stamped r.version r.rowIds s.rows rows)
    (hs : s.Acceptable table schema c.lastRowId columns) (hc : initial.Sound c)
    (hr : c.Reserves s.newRows r c') {id : RowId} (hid : id ∈ rows.filterMap (·.rowId)) :
    id < c'.nextRowId := by
  rcases List.mem_append.1 (hst.rowIds_perm.mem_iff.1 hid) with hid | hid
  · exact UInt64.lt_of_lt_of_le (hs.lt_of_mem_rowIds hc hid) hr.raised.rowId
  · exact (hr.mem_rowIds hid).2

/-- The row id bounds of a reservation are the right way round. -/
theorem bounds_of_reserves {count : Nat} (hr : c.Reserves count r c') :
    ∀ least ∈ r.minRowId, ∀ greatest ∈ r.maxRowId, least ≤ greatest := by
  intro least hl greatest hg
  have hmin := hr.minRowId
  have hmax := hr.maxRowId
  by_cases h0 : count = 0
  · rw [if_pos h0] at hmin
    rw [hmin] at hl
    cases hl
  · have hpred := hr.toNat_pred h0
    have hnext := hr.nextRowId
    rw [if_neg h0] at hmin hmax
    rw [hmin] at hl
    rw [hmax] at hg
    cases hl
    cases hg
    rw [UInt64.le_iff_toNat_le]
    omega

/-- **The committed change describes the stamped rows.** -/
theorem Stamped.describes (hst : Stamped r.version r.rowIds s.rows rows)
    (hs : s.Acceptable table schema c.lastRowId columns) (hc : initial.Sound c)
    (hr : c.Reserves s.newRows r c') (user : UserId) (millis : UInt64) :
    (Change.ofRowSet { s with rows } r user millis).Describes { s with rows } := by
  have hnodup := hst.nodup_rowIds hs hc hr
  have hlen : rows.length = s.rows.length := hst.length_eq
  refine ⟨rfl, ?_, ?_, rfl, bounds_of_reserves hr, hs.headers, hnodup, ?_⟩
  · intro hnil
    have hnil : rows = [] := hnil
    rw [hnil] at hlen
    exact hs.nonempty (List.eq_nil_of_length_eq_zero hlen.symm)
  · have hle := Bounded.length_le_of_nodup hnodup
      (fun id hid => UInt64.lt_iff_toNat_lt.1 (hst.lt_nextRowId hs hc hr hid))
    have hmax := Bounded.toNat_le_greatest c'.nextRowId
    rw [hst.length_rowIds] at hle
    show (Bounded.ofNatSat rows.length).toNat = rows.length
    rw [Bounded.toNat_ofNatSat]
    omega
  · intro r' hr'
    obtain ⟨hid, hv, r₀, hr₀, he⟩ := hst.of_mem hr'
    refine ⟨hid, hv, ?_⟩
    have hwidth : s.headers.length = columns.length := by
      have e := congrArg List.length hs.named
      rwa [List.length_map, List.length_map] at e
    rcases hs.rows r₀ hr₀ with hd | hf
    · exact Or.inl (he.trans (Row.isDeletion_iff.1 hd).2)
    · refine Or.inr ?_
      show r'.values.length = s.headers.length
      rw [he, hf.width, hwidth]

end

end RowSet

end VersionedTables
