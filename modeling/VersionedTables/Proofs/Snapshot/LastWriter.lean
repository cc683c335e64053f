import VersionedTables.Proofs.Snapshot.Rows

/-!
# The last writer wins

What a snapshot holds of a row is told by the row sets that were applied: the row is there unless the
last mention of it is a deletion, and a cell is the one that was written last since the row was last
deleted.  One more row set is applied in one step, and what is told of the row sets before carries
over to those behind.

* **`Snapshot.Mentions`**, **`Snapshot.Last`**, **`Snapshot.Stands`** — the mentions of a row, the last
  of them, and the writes of a cell that no deletion has undone.
* **`Snapshot.RowTold`**, **`Snapshot.RowTold.rowAfter`** — what is told of a row, and that one more
  mention keeps it.
* **`Snapshot.Told`**, **`Snapshot.Told.apply`** — what is told of a snapshot, and that one more row
  set keeps it.
* **`Snapshot.Told.foldl_apply`** — so a run of row sets does.
-/

namespace VersionedTables

namespace Snapshot

/-! ### Mentions -/

abbrev RowSets := Version → RowSet → Prop

abbrev Mentioned := Version → RowSet → Row → Prop

/-- The mentions of a row in row sets. -/
def Mentions (A : RowSets) (id : RowId) : Mentioned :=
  fun v s r => A v s ∧ r ∈ s.rows ∧ r.rowId = some id

def Last (M : Mentioned) (v : Version) (s : RowSet) (r : Row) : Prop :=
  M v s r ∧ ∀ v' s' r', M v' s' r' → v' ≤ v

/-- A mention that writes the cell under `c` and that is later than every deletion. -/
def Stands (M : Mentioned) (c : ColumnId) : Mentioned :=
  fun v s r => (M v s r ∧ r.isDeletion = false ∧ c ∈ s.headers) ∧
    ∀ v' s' r', M v' s' r' → r'.isDeletion = true → v' < v

structure RowTold (M : Mentioned) (found : Option SnapshotRow) : Prop where
  /-- Of the mentions, if there are any, one is the last. -/
  last : (∃ v s r, M v s r) → ∃ v s r, Last M v s r
  present : found.isSome ↔ ∃ v s r, Last M v s r ∧ r.isDeletion = false
  version : ∀ row ∈ found, ∃ s r, Last M row.version s r
  /-- A row has a cell under `c` if and only if that was written since the last deletion. -/
  written : ∀ row ∈ found, ∀ c, (row.values.get? c).isSome ↔ ∃ v s r, Stands M c v s r
  /-- The cell is the one that was written last. -/
  cell : ∀ row ∈ found, ∀ c x, row.values.get? c = some x ↔
    ∃ v s r, Last (Stands M c) v s r ∧ cellOf? s.headers r.values c = some x

theorem rowTold_none {M : Mentioned} (h : ∀ v s r, ¬M v s r) : RowTold M none := by
  refine ⟨?_, ?_, ?_, ?_, ?_⟩
  · intro h
    obtain ⟨v, s, r, hm⟩ := h
    exact absurd hm (h v s r)
  · constructor
    · intro hs
      cases hs
    · intro h
      obtain ⟨v, s, r, ⟨hm, -⟩, -⟩ := h
      exact absurd hm (h v s r)
  · intro row hrow
    cases hrow
  · intro row hrow
    cases hrow
  · intro row hrow
    cases hrow

/-! ### One more mention -/

def Mentioned.add (M : Mentioned) (v : Version) (s : RowSet) (r : Row) : Mentioned :=
  fun v' s' r' => M v' s' r' ∨ (v' = v ∧ s' = s ∧ r' = r)

section

variable {M : Mentioned} {v : Version} {s : RowSet} {r : Row}

theorem last_add_iff (hlt : ∀ v' s' r', M v' s' r' → v' < v) {v' : Version} {s' : RowSet}
    {r' : Row} : Last (M.add v s r) v' s' r' ↔ v' = v ∧ s' = s ∧ r' = r := by
  constructor
  · intro h
    rcases h with ⟨hm | hm, hlast⟩
    · have hle := hlast v s r (Or.inr ⟨rfl, rfl, rfl⟩)
      exact absurd (hlt v' s' r' hm) (UInt64.not_lt.2 hle)
    · exact hm
  · intro h
    obtain ⟨rfl, rfl, rfl⟩ := h
    refine ⟨Or.inr ⟨rfl, rfl, rfl⟩, ?_⟩
    rintro v'' s'' r'' (hm | ⟨rfl, -, -⟩)
    · exact UInt64.le_of_lt (hlt v'' s'' r'' hm)
    · exact UInt64.le_refl _

/-- One more mention that writes undoes nothing and adds its cells. -/
theorem stands_add_iff (hlt : ∀ v' s' r', M v' s' r' → v' < v) (hr : r.isDeletion = false)
    {c : ColumnId} {v' : Version} {s' : RowSet} {r' : Row} :
    Stands (M.add v s r) c v' s' r' ↔
      Stands M c v' s' r' ∨ ((v' = v ∧ s' = s ∧ r' = r) ∧ c ∈ s.headers) := by
  constructor
  · intro h
    rcases h with ⟨⟨hm | ⟨rfl, rfl, rfl⟩, hd, hc⟩, hdel⟩
    · exact Or.inl ⟨⟨hm, hd, hc⟩, fun v'' s'' r'' hm' => hdel v'' s'' r'' (Or.inl hm')⟩
    · exact Or.inr ⟨⟨rfl, rfl, rfl⟩, hc⟩
  · intro h
    rcases h with ⟨⟨hm, hd, hc⟩, hdel⟩ | ⟨⟨rfl, rfl, rfl⟩, hc⟩
    · refine ⟨⟨Or.inl hm, hd, hc⟩, ?_⟩
      rintro v'' s'' r'' (hm' | ⟨-, -, rfl⟩) hd'
      · exact hdel v'' s'' r'' hm' hd'
      · rw [hr] at hd'
        cases hd'
    · refine ⟨⟨Or.inr ⟨rfl, rfl, rfl⟩, hr, hc⟩, ?_⟩
      rintro v'' s'' r'' (hm' | ⟨-, -, rfl⟩) hd'
      · exact hlt v'' s'' r'' hm'
      · rw [hr] at hd'
        cases hd'

/-- Under a header that it has, the one more mention is the last write. -/
theorem last_stands_add_iff_of_mem (hlt : ∀ v' s' r', M v' s' r' → v' < v)
    (hr : r.isDeletion = false) {c : ColumnId} (hc : c ∈ s.headers) {v' : Version} {s' : RowSet}
    {r' : Row} : Last (Stands (M.add v s r) c) v' s' r' ↔ v' = v ∧ s' = s ∧ r' = r := by
  have hadd : Stands (M.add v s r) c = (Stands M c).add v s r := by
    funext v' s' r'
    refine propext ?_
    rw [stands_add_iff hlt hr, Mentioned.add]
    simp only [hc, and_true]
  rw [hadd]
  exact last_add_iff (fun v' s' r' hs => hlt v' s' r' hs.1.1)

/-- Under any other header nothing changes. -/
theorem stands_add_eq_of_not_mem (hlt : ∀ v' s' r', M v' s' r' → v' < v)
    (hr : r.isDeletion = false) {c : ColumnId} (hc : c ∉ s.headers) :
    Stands (M.add v s r) c = Stands M c := by
  funext v' s' r'
  refine propext ?_
  rw [stands_add_iff hlt hr]
  simp only [hc, and_false, or_false]

/-- Of a row that is not there no cell stands. -/
theorem RowTold.not_stands (h : RowTold M none) (c : ColumnId) (v : Version) (s : RowSet)
    (r : Row) : ¬Stands M c v s r := by
  intro hs
  obtain ⟨v', s', r', hlast⟩ := h.last ⟨v, s, r, hs.1.1⟩
  have hdel : r'.isDeletion = true := by
    by_contra hd
    rw [Bool.not_eq_true] at hd
    have hnone := h.present.2 ⟨v', s', r', hlast, hd⟩
    cases hnone
  have hlt := hs.2 v' s' r' hlast.1 hdel
  exact absurd hlt (UInt64.not_lt.2 (hlast.2 v s r hs.1.1))

/-- The cells of a row that is told, or of one that is not there, are those that stand. -/
theorem RowTold.get?_cellsOf {found : Option SnapshotRow} (h : RowTold M found) (c : ColumnId) :
    (((cellsOf found).get? c).isSome ↔ ∃ v s r, Stands M c v s r) ∧
    ∀ x, (cellsOf found).get? c = some x ↔
      ∃ v s r, Last (Stands M c) v s r ∧ cellOf? s.headers r.values c = some x := by
  cases found with
  | some row => exact ⟨h.written row rfl c, h.cell row rfl c⟩
  | none =>
      have hno := h.not_stands c
      refine ⟨?_, fun x => ?_⟩
      · simp [cellsOf, hno]
      · simp [cellsOf, Last, hno]

/-- A deletion leaves nothing of a row. -/
theorem RowTold.delete (hlt : ∀ v' s' r', M v' s' r' → v' < v) (hr : r.isDeletion = true) :
    RowTold (M.add v s r) none := by
  have hnew : Last (M.add v s r) v s r := (last_add_iff hlt).2 ⟨rfl, rfl, rfl⟩
  refine ⟨fun _ => ⟨v, s, r, hnew⟩, ?_, ?_, ?_, ?_⟩
  · constructor
    · intro hs
      cases hs
    · intro h
      obtain ⟨v', s', r', hlast, hd⟩ := h
      obtain ⟨-, -, rfl⟩ := (last_add_iff hlt).1 hlast
      rw [hr] at hd
      cases hd
  · intro row hrow
    cases hrow
  · intro row hrow
    cases hrow
  · intro row hrow
    cases hrow

/-- A row that writes leaves its cells over those that were there. -/
theorem RowTold.get?_written {found : Option SnapshotRow} (h : RowTold M found)
    (hlt : ∀ v' s' r', M v' s' r' → v' < v) (hr : r.isDeletion = false) (hn : s.headers.Nodup)
    (hw : r.values.length = s.headers.length) (c : ColumnId) :
    (((Snapshot.write s.headers r.values (cellsOf found)).get? c).isSome ↔
      ∃ v' s' r', Stands (M.add v s r) c v' s' r') ∧
    ∀ x, (Snapshot.write s.headers r.values (cellsOf found)).get? c = some x ↔
      ∃ v' s' r', Last (Stands (M.add v s r) c) v' s' r' ∧
        cellOf? s'.headers r'.values c = some x := by
  rw [get?_write hn]
  by_cases hc : c ∈ s.headers
  · -- The cell is written here, so that this mention is the last that writes it.
    obtain ⟨y, hy⟩ := Option.isSome_iff_exists.1 ((isSome_cellOf?_iff hw c).2 hc)
    have hnew := (last_stands_add_iff_of_mem hlt hr hc).2 ⟨rfl, rfl, rfl⟩
    rw [hy, Option.some_or]
    refine ⟨?_, fun x => ?_⟩
    · simp only [Option.isSome_some, true_iff]
      exact ⟨v, s, r, hnew.1⟩
    · constructor
      · intro hx
        exact ⟨v, s, r, hnew, hy.trans hx⟩
      · intro h
        obtain ⟨v', s', r', hlast, hx⟩ := h
        obtain ⟨-, rfl, rfl⟩ := (last_stands_add_iff_of_mem hlt hr hc).1 hlast
        exact hy.symm.trans hx
  · -- The cell is passed over, so that what was told of it before still holds.
    have hcell : cellOf? s.headers r.values c = none := by
      rw [← Option.not_isSome_iff_eq_none]
      exact fun hs => hc ((isSome_cellOf?_iff hw c).1 hs)
    rw [hcell, Option.none_or, stands_add_eq_of_not_mem hlt hr hc]
    exact h.get?_cellsOf c

theorem RowTold.write {found : Option SnapshotRow} (h : RowTold M found)
    (hlt : ∀ v' s' r', M v' s' r' → v' < v) (hr : r.isDeletion = false) (hn : s.headers.Nodup)
    (hw : r.values.length = s.headers.length) :
    RowTold (M.add v s r) (some ⟨v, Snapshot.write s.headers r.values (cellsOf found)⟩) := by
  have hnew : Last (M.add v s r) v s r := (last_add_iff hlt).2 ⟨rfl, rfl, rfl⟩
  refine ⟨fun _ => ⟨v, s, r, hnew⟩, ?_, ?_, ?_, ?_⟩
  · simp only [Option.isSome_some, true_iff]
    exact ⟨v, s, r, hnew, hr⟩
  · intro row hrow
    cases hrow
    exact ⟨s, r, hnew⟩
  · intro row hrow c
    cases hrow
    exact (h.get?_written hlt hr hn hw c).1
  · intro row hrow c
    cases hrow
    exact (h.get?_written hlt hr hn hw c).2

/-- **One more mention keeps what is told of a row.** -/
theorem RowTold.rowAfter {found : Option SnapshotRow} (h : RowTold M found)
    (hlt : ∀ v' s' r', M v' s' r' → v' < v) (hn : s.headers.Nodup)
    (hw : r.isDeletion = true ∨ r.values.length = s.headers.length) :
    RowTold (M.add v s r) (rowAfter v s.headers r found) := by
  rw [Snapshot.rowAfter]
  split
  · next hr => exact RowTold.delete hlt hr
  · next hr => exact h.write hlt (Bool.eq_false_iff.2 hr) hn (hw.resolve_left hr)

end

/-! ### One more row set -/

/-- What is told of a snapshot by the row sets that were applied. -/
structure Told (A : RowSets) (s : Snapshot) : Prop where
  version : ∀ v, s.version = some v ↔ (∃ rs, A v rs) ∧ ∀ v' rs', A v' rs' → v' ≤ v
  unversioned : s.version = none ↔ ∀ v rs, ¬A v rs
  rows : ∀ id, RowTold (Mentions A id) (s.rows.get? id)

def RowSets.add (A : RowSets) (v : Version) (rs : RowSet) : RowSets :=
  fun v' rs' => A v' rs' ∨ (v' = v ∧ rs' = rs)

/-- The rows of a row set are of different ids, and unless they delete they have one value for each
of its headers, which are different too. -/
structure EvenRows (rs : RowSet) : Prop where
  headers : rs.headers.Nodup
  rowIds : rs.rowIds.Nodup
  widths : ∀ r ∈ rs.rows, r.isDeletion = true ∨ r.values.length = rs.headers.length

theorem told_empty (table : TableId) : Told (fun _ _ => False) (.empty table) := by
  refine ⟨?_, ?_, ?_⟩
  · intro v
    simp [empty]
  · simp [empty]
  · intro id
    exact rowTold_none (fun v s r h => h.1)

theorem mentions_add_of_mem {A : RowSets} {v : Version} {rs : RowSet} (hrs : EvenRows rs) {r : Row}
    (hr : r ∈ rs.rows) {id : RowId} (hid : r.rowId = some id) :
    Mentions (A.add v rs) id = (Mentions A id).add v rs r := by
  funext v' rs' r'
  refine propext ?_
  constructor
  · intro h
    rcases h with ⟨hA | ⟨rfl, rfl⟩, hr', hid'⟩
    · exact Or.inl ⟨hA, hr', hid'⟩
    · exact Or.inr ⟨rfl, rfl, eq_of_rowId_eq hrs.rowIds hr hr' hid hid'⟩
  · intro h
    rcases h with ⟨hA, hr', hid'⟩ | ⟨rfl, rfl, rfl⟩
    · exact ⟨Or.inl hA, hr', hid'⟩
    · exact ⟨Or.inr ⟨rfl, rfl⟩, hr, hid⟩

theorem mentions_add_of_not_mem {A : RowSets} {v : Version} {rs : RowSet} {id : RowId}
    (h : id ∉ rs.rowIds) : Mentions (A.add v rs) id = Mentions A id := by
  funext v' rs' r'
  refine propext ?_
  constructor
  · intro h
    rcases h with ⟨hA | ⟨rfl, rfl⟩, hr', hid'⟩
    · exact ⟨hA, hr', hid'⟩
    · exact absurd (List.mem_filterMap.2 ⟨r', hr', hid'⟩) h
  · intro h
    obtain ⟨hA, hr', hid'⟩ := h
    exact ⟨Or.inl hA, hr', hid'⟩

/-- A row set above all that were applied is not passed over. -/
theorem Told.covers_eq_false {A : RowSets} {s : Snapshot} (h : Told A s) {v : Version}
    (hlt : ∀ v' rs', A v' rs' → v' < v) : s.covers v = false := by
  cases hv : s.version with
  | none =>
      rw [covers, hv]
      rfl
  | some v' =>
      obtain ⟨rs', hrs'⟩ := ((h.version v').1 hv).1
      have hle := UInt64.not_le.2 (hlt v' rs' hrs')
      rw [covers, hv]
      simpa using hle

/-- **One more row set keeps what is told of a snapshot.** -/
theorem Told.apply {A : RowSets} {s : Snapshot} (h : Told A s) {v : Version} {rs : RowSet}
    (hlt : ∀ v' rs', A v' rs' → v' < v) (hrs : EvenRows rs) : Told (A.add v rs) (s.apply v rs) := by
  rw [Snapshot.apply, h.covers_eq_false hlt]
  refine ⟨?_, ?_, ?_⟩
  · intro v'
    show some v = some v' ↔ _
    constructor
    · rintro ⟨⟩
      refine ⟨⟨rs, Or.inr ⟨rfl, rfl⟩⟩, ?_⟩
      rintro v' rs' (hA | ⟨rfl, -⟩)
      · exact UInt64.le_of_lt (hlt v' rs' hA)
      · exact UInt64.le_refl _
    · intro h
      rcases h with ⟨⟨rs', hA | ⟨rfl, -⟩⟩, hall⟩
      · exact absurd (hlt v' rs' hA) (UInt64.not_lt.2 (hall v rs (Or.inr ⟨rfl, rfl⟩)))
      · rfl
  · show some v = none ↔ _
    simp only [reduceCtorEq, false_iff]
    intro hnone
    exact hnone v rs (Or.inr ⟨rfl, rfl⟩)
  · intro id
    show RowTold _ ((rs.rows.foldl (applyRow v rs.headers) s.rows).get? id)
    by_cases hid : id ∈ rs.rowIds
    · obtain ⟨r, hr, he⟩ := List.mem_filterMap.1 hid
      rw [get?_foldl_applyRow hrs.rowIds s.rows hr he, mentions_add_of_mem hrs hr he]
      exact (h.rows id).rowAfter (fun v' rs' r' hm => hlt v' rs' hm.1) hrs.headers
        (hrs.widths r hr)
    · rw [get?_foldl_applyRow_of_not_mem s.rows hid, mentions_add_of_not_mem hid]
      exact h.rows id

/-- **A run of row sets of ascending versions keeps what is told of a snapshot.** -/
theorem Told.foldl_apply {A : RowSets} {s : Snapshot} (h : Told A s)
    (cs : List (Version × RowSet)) (hlt : ∀ v' rs', A v' rs' → ∀ c ∈ cs, v' < c.1)
    (hasc : cs.Pairwise (fun a b => a.1 < b.1)) (hcs : ∀ c ∈ cs, EvenRows c.2) :
    Told (fun v rs => A v rs ∨ (v, rs) ∈ cs) (cs.foldl (fun s c => s.apply c.1 c.2) s) := by
  induction cs generalizing A s with
  | nil => simpa using h
  | cons c cs ih =>
      obtain ⟨hc, hrest⟩ := List.forall_mem_cons.1 hcs
      obtain ⟨hcs', hasc'⟩ := List.pairwise_cons.1 hasc
      -- The row sets that were applied grow by one and stay below those to come.
      have hstep := h.apply (fun v' rs' hA => hlt v' rs' hA c List.mem_cons_self) hc
      have hlt' : ∀ v' rs', (A.add c.1 c.2) v' rs' → ∀ c' ∈ cs, v' < c'.1 := by
        rintro v' rs' (hA | ⟨rfl, -⟩) c' hc'
        · exact hlt v' rs' hA c' (List.mem_cons_of_mem c hc')
        · exact hcs' c' hc'
      have hrun := ih hstep hlt' hasc' hrest
      have hsets : (fun v rs => A v rs ∨ (v, rs) ∈ c :: cs) =
          (fun v rs => (A.add c.1 c.2) v rs ∨ (v, rs) ∈ cs) := by
        funext v rs
        refine propext ?_
        rw [RowSets.add, List.mem_cons, Prod.ext_iff, or_assoc]
      rw [hsets]
      exact hrun

end Snapshot

end VersionedTables
