import VersionedTables.Proofs.Log.Commit
import VersionedTables.Proofs.Snapshot.LastWriter

/-!
# Replaying a history

A replay applies the row sets of a table one by one, up to the version that is asked for.  In a sound
log every row set can be read back, so that a replay always ends with a snapshot, and the snapshot is
told by the row sets.

* **`Snapshot.exists_replay`** — what a replay ends with.
* **`Snapshot.replay_congr`** — a replay reads nothing of other tables.
* **`Snapshot.mem_project_iff`** — what a snapshot shows under given headers.
-/

namespace VersionedTables

namespace Snapshot

theorem table_apply (s : Snapshot) (version : Version) (rs : RowSet) :
    (s.apply version rs).table = s.table := by
  rw [apply]
  split
  · rfl
  · rfl

theorem table_foldl_apply (cs : List (Version × RowSet)) (s : Snapshot) :
    (cs.foldl (fun s c => s.apply c.1 c.2) s).table = s.table := by
  induction cs generalizing s with
  | nil => rfl
  | cons c cs ih => exact (ih _).trans (table_apply s c.1 c.2)

/-! ### The row sets of a replay -/

/-- The row sets of a table up to version `upTo`, if it is given. -/
def committed (l : RowLog) (table : TableId) (upTo : Option Version) : RowSets :=
  fun v rs => l.rowSet table v = .ok rs ∧ ∀ u ∈ upTo, v ≤ u

/-- One log has of a table the changes of another, with the same rows in any order. -/
def Reorders (l l' : RowLog) (table : TableId) : Prop :=
  l'.history table = l.history table ∧
    ∀ v rs, l.rowSet table v = .ok rs → ∃ rs', l'.rowSet table v = .ok rs' ∧
      rs'.headers = rs.headers ∧ rs'.rows.Perm rs.rows

section

variable {l l' : RowLog} {table : TableId}

theorem Reorders.refl (l : RowLog) (table : TableId) : Reorders l l table :=
  ⟨rfl, fun _ rs h => ⟨rs, h, rfl, List.Perm.refl _⟩⟩

theorem apply_perm {rs rs' : RowSet} (hrs : EvenRows rs) (hh : rs'.headers = rs.headers)
    (hp : rs'.rows.Perm rs.rows) (s : Snapshot) (v : Version) : s.apply v rs' = s.apply v rs := by
  rw [apply, apply, hh, foldl_applyRow_perm hrs.rowIds hp]

/-- The rows that a sound log has are even. -/
theorem evenRows_of_rowSet (hl : l.Sound) {v : Version} {rs : RowSet}
    (h : l.rowSet table v = .ok rs) : EvenRows rs := by
  obtain ⟨e, -, he⟩ := hl.rowSet_eq_ok_iff.1 h
  refine ⟨he.describes.headers, he.describes.rowIds, ?_⟩
  intro r hr
  have hc := he.describes.rows r hr
  rcases hc.width with hw | hw
  · exact Or.inl (Row.isDeletion_iff.2 ⟨hc.hasId, hw⟩)
  · exact Or.inr hw

/-- A replay applies the row sets that are within its bound one after the other. -/
theorem foldlM_applyChange (hl : l.Sound) (hr : Reorders l l' table) (p : Version → Bool)
    {hs : List Change} {cs : List (Version × RowSet)} {s : Snapshot}
    (hversions : hs.map (·.version) = cs.map (·.1))
    (hcs : ∀ c ∈ cs, l.rowSet table c.1 = .ok c.2) (ht : s.table = table) :
    (hs.takeWhile (fun c => p c.version)).foldlM (applyChange l') s =
      .ok ((cs.takeWhile (fun c => p c.1)).foldl (fun s c => s.apply c.1 c.2) s) := by
  induction hs generalizing cs s with
  | nil =>
      rw [List.eq_nil_of_map_eq_nil hversions.symm]
      rfl
  | cons h hs ih =>
      cases cs with
      | nil => cases hversions
      | cons c cs =>
          obtain ⟨hc, hrest⟩ := List.forall_mem_cons.1 hcs
          have hv : h.version = c.1 := (List.cons.inj hversions).1
          rw [List.takeWhile_cons, List.takeWhile_cons, hv]
          cases p c.1 with
          | false => rfl
          | true =>
              obtain ⟨rs', hrs', hheaders, hperm⟩ := hr.2 c.1 c.2 hc
              have hstep : applyChange l' s h = .ok (s.apply c.1 c.2) := by
                rw [applyChange, ht, hv, hrs']
                show Except.ok (s.apply c.1 rs') = _
                rw [apply_perm (evenRows_of_rowSet hl hc) hheaders hperm]
              rw [if_pos rfl, if_pos rfl, List.foldlM_cons, hstep]
              exact ih (List.cons.inj hversions).2 hrest ((table_apply s _ _).trans ht)

theorem mem_takeWhile_iff {cs : List (Version × RowSet)} {p : Version → Bool}
    (hasc : cs.Pairwise (fun a b => a.1 < b.1)) (hp : ∀ a b, a < b → p b = true → p a = true)
    (c : Version × RowSet) : c ∈ cs.takeWhile (fun c => p c.1) ↔ c ∈ cs ∧ p c.1 = true := by
  induction cs with
  | nil => simp
  | cons a cs ih =>
      obtain ⟨hlt, hasc⟩ := List.pairwise_cons.1 hasc
      rw [List.takeWhile_cons]
      cases ha : p a.1 with
      | true =>
          rw [if_pos rfl, List.mem_cons, List.mem_cons, ih hasc]
          constructor
          · intro h
            rcases h with rfl | ⟨hc, hpc⟩
            · exact ⟨Or.inl rfl, ha⟩
            · exact ⟨Or.inr hc, hpc⟩
          · intro h
            rcases h with ⟨rfl | hc, hpc⟩
            · exact Or.inl rfl
            · exact Or.inr ⟨hc, hpc⟩
      | false =>
          rw [if_neg Bool.false_ne_true]
          constructor
          · intro h
            cases h
          · intro h
            obtain ⟨hc, hpc⟩ := h
            rcases List.mem_cons.1 hc with rfl | hc
            · rw [ha] at hpc
              cases hpc
            · have hpa := hp a.1 c.1 (hlt c hc) hpc
              rw [ha] at hpa
              cases hpa

theorem within_of_lt {upTo : Option Version} {a b : Version} (hab : a < b)
    (hb : upTo.all (b ≤ ·) = true) : upTo.all (a ≤ ·) = true := by
  cases upTo with
  | none => rfl
  | some u =>
      have hbu : b ≤ u := by simpa using hb
      simpa using UInt64.le_trans (UInt64.le_of_lt hab) hbu

/-- **What a replay ends with**: a snapshot that is told by the row sets within its bound, in
whatever order they have their rows. -/
theorem exists_replay (hl : l.Sound) (table : TableId) (upTo : Option Version) :
    ∃ s, (∀ l', Reorders l l' table → replay l' table upTo = .ok s) ∧ s.table = table ∧
      Told (committed l table upTo) s := by
  obtain ⟨cs, hversions, hasc, hmem⟩ := hl.exists_rowSets table
  have hcs : ∀ c ∈ cs, l.rowSet table c.1 = .ok c.2 := fun c hc => (hmem c.1 c.2).1 hc
  have hsub := List.takeWhile_sublist (l := cs) (fun c => upTo.all (c.1 ≤ ·))
  have hwithin := mem_takeWhile_iff hasc (p := fun v => upTo.all (v ≤ ·))
    (fun _ _ => within_of_lt)
  refine ⟨(cs.takeWhile (fun c => upTo.all (c.1 ≤ ·))).foldl (fun s c => s.apply c.1 c.2)
    (.empty table), ?_, ?_, ?_⟩
  · intro l' hr
    rw [replay, hr.1]
    exact foldlM_applyChange hl hr (fun v => upTo.all (v ≤ ·)) hversions hcs rfl
  · exact table_foldl_apply _ _
  · have htold := (told_empty table).foldl_apply (cs.takeWhile (fun c => upTo.all (c.1 ≤ ·)))
      (fun v rs h => h.elim) (hasc.sublist hsub)
      (fun c hc => evenRows_of_rowSet hl (hcs c (hsub.subset hc)))
    have hsets : committed l table upTo = (fun v rs => False ∨
        (v, rs) ∈ cs.takeWhile (fun c => upTo.all (c.1 ≤ ·))) := by
      funext v rs
      refine propext ?_
      rw [false_or, hwithin (v, rs), hmem, committed]
      cases upTo <;> simp
    rw [hsets]
    exact htold

/-- A replay of a table reads nothing but what the log keeps of that table. -/
theorem replay_congr (hl : l.Sound) (h : l'.ofTable table = l.ofTable table)
    (upTo : Option Version) : replay l' table upTo = replay l table upTo := by
  obtain ⟨s, hs, -⟩ := exists_replay hl table upTo
  have hr : Reorders l l' table := by
    refine ⟨by rw [RowLog.history, RowLog.history, h], ?_⟩
    intro v rs hrs
    exact ⟨rs, (hl.rowSet_congr h v).trans hrs, rfl, List.Perm.refl _⟩
  rw [hs l' hr, hs l (.refl l table)]

end

/-! ### Views -/

/-- A snapshot shows its rows in ascending order. -/
theorem project_ascending (s : Snapshot) (headers : List ColumnId) :
    (s.project headers).Pairwise (fun a b => a.1 < b.1) := by
  rw [project, List.pairwise_map]
  exact s.rows.ascending.imp (fun h => Std.compare_eq_lt.1 h)

/-- **What a snapshot shows** are the rows that it has, each with its cell under each header. -/
theorem mem_project_iff {s : Snapshot} {headers : List ColumnId} {id : RowId}
    {cells : List (Option String)} : (id, cells) ∈ s.project headers ↔
      ∃ row, s.rows.get? id = some row ∧
        cells = headers.map (fun h => (row.values.get? h).join) := by
  rw [project, List.mem_map]
  constructor
  · intro h
    obtain ⟨⟨id', row⟩, hmem, he⟩ := h
    cases he
    exact ⟨row, SortedMap.mem_toList_iff.1 hmem, rfl⟩
  · intro h
    obtain ⟨row, hrow, rfl⟩ := h
    exact ⟨(id, row), SortedMap.mem_toList_iff.2 hrow, rfl⟩

end Snapshot

end VersionedTables
