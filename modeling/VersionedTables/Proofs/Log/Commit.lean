import VersionedTables.Log.Basic
import VersionedTables.Proofs.Allocation
import VersionedTables.Proofs.Json.Records
import VersionedTables.Proofs.Log.Check
import VersionedTables.Proofs.SortedMap

/-!
# What the log keeps

A commit adds one version to one table and touches nothing else.  Every log that commits have built
up keeps, under each version of each table, a change that belongs there and a text that is read as
the rows the change describes; in such a log every committed row set can be read back.

* **`RowLog.entry?_commit`** — what a commit adds.
* **`RowLog.mem_history_iff`**, **`RowLog.le_of_latest?`** — the history of a table and its last
  version, said by versions.
* **`LogEntry.Holds`**, **`RowLog.Sound`** — the invariant.
* **`RowLog.Sound.rowSet_eq_ok_iff`** — which row sets are read back.
-/

namespace VersionedTables

namespace RowLog

variable {l l' : RowLog} {c : Change} {payload : String} {table t : TableId} {version v : Version}

theorem entry?_eq (l : RowLog) (t : TableId) (v : Version) :
    l.entry? t v = (l.ofTable t).get? v := rfl

/-! ### Commits -/

theorem commit_eq_ok_iff : l.commit c payload = .ok l' ↔
    l.entry? c.table c.version = none ∧
      l' = l.insert c.table ((l.ofTable c.table).insert c.version ⟨c, payload⟩) := by
  unfold commit
  split
  · next h => simp [Option.isSome_iff_ne_none.1 h]
  · next h =>
      rw [Option.not_isSome_iff_eq_none] at h
      simp [h, eq_comm]

theorem ofTable_insert (m : SortedMap Version LogEntry) :
    RowLog.ofTable (l.insert table m) t = if t = table then m else l.ofTable t := by
  unfold ofTable
  rw [SortedMap.get?_insert]
  split
  · rfl
  · rfl

/-- A commit adds one version to one table. -/
theorem ofTable_commit (h : l.commit c payload = .ok l') (t : TableId) :
    l'.ofTable t =
      if t = c.table then (l.ofTable c.table).insert c.version ⟨c, payload⟩ else l.ofTable t := by
  rw [(commit_eq_ok_iff.1 h).2, ofTable_insert]

/-- **What a commit adds.** -/
theorem entry?_commit (h : l.commit c payload = .ok l') (t : TableId) (v : Version) :
    l'.entry? t v = if t = c.table ∧ v = c.version then some ⟨c, payload⟩ else l.entry? t v := by
  rw [entry?_eq, ofTable_commit h]
  by_cases ht : t = c.table
  · rw [if_pos ht, SortedMap.get?_insert]
    by_cases hv : v = c.version
    · rw [if_pos hv, if_pos ⟨ht, hv⟩]
    · rw [if_neg hv, if_neg (fun hc => hv hc.2), entry?_eq, ht]
  · rw [if_neg ht, if_neg (fun hc => ht hc.1), entry?_eq]

/-! ### Queries -/

theorem mem_toList_ofTable_iff {e : LogEntry} :
    (v, e) ∈ (l.ofTable t).toList ↔ l.entry? t v = some e := SortedMap.mem_toList_iff

theorem mem_history_iff :
    c ∈ l.history t ↔ ∃ v e, l.entry? t v = some e ∧ e.change = c := by
  simp only [history, SortedMap.values, List.map_map, List.mem_map, Prod.exists,
    mem_toList_ofTable_iff, Function.comp_apply]

theorem history_eq_nil_iff : l.history t = [] ↔ ∀ v, l.entry? t v = none := by
  rw [history, List.map_eq_nil_iff, SortedMap.values, List.map_eq_nil_iff,
    SortedMap.toList_eq_nil_iff]
  rfl

theorem latest?_eq_none_iff : l.latest? t = none ↔ ∀ v, l.entry? t v = none := by
  rw [latest?, List.getLast?_eq_none_iff, SortedMap.keys, List.map_eq_nil_iff,
    SortedMap.toList_eq_nil_iff]
  rfl

/-- The last version of a table is one of its versions. -/
theorem isSome_entry?_of_latest? (h : l.latest? t = some v) : (l.entry? t v).isSome := by
  have hmem : v ∈ (l.ofTable t).keys := List.mem_of_getLast? h
  exact SortedMap.mem_keys_iff.1 hmem

/-- The last version of a table is the greatest. -/
theorem le_of_latest? (h : l.latest? t = some v) {v' : Version}
    (h' : (l.entry? t v').isSome) : v' ≤ v :=
  SortedMap.le_of_getLast?_keys h (SortedMap.mem_keys_iff.2 h')

/-- A table has no more changes than there are versions. -/
theorem length_history_le (l : RowLog) (t : TableId) :
    (l.history t).length ≤ Bounded.greatest + 1 := by
  have hn : (l.ofTable t).keys.Nodup := by
    refine (l.ofTable t).keys_ascending.imp ?_
    rintro a _ hab rfl
    exact Std.lt_irrefl (Std.compare_eq_lt.1 hab)
  have hle := Bounded.length_le_of_nodup hn
    (fun v _ => Nat.lt_succ_of_le (Bounded.toNat_le_greatest v))
  rw [SortedMap.keys, List.length_map] at hle
  rwa [history, List.length_map, SortedMap.values, List.length_map]

/-- A version above all those of a table is not taken. -/
theorem entry?_eq_none_of_forall_lt (h : ∀ v', (l.entry? t v').isSome → v' < v) :
    l.entry? t v = none := by
  rw [← Option.not_isSome_iff_eq_none]
  intro hv
  exact Std.lt_irrefl (h v hv)

/-- A commit above all versions of a table goes to the end of its history. -/
theorem toList_commit (h : l.commit c payload = .ok l')
    (hlt : ∀ v, (l.entry? c.table v).isSome → v < c.version) :
    (l'.ofTable c.table).toList = (l.ofTable c.table).toList ++ [(c.version, ⟨c, payload⟩)] := by
  rw [ofTable_commit h, if_pos rfl]
  refine SortedMap.toList_insert_of_forall_lt _ ?_
  intro k hk
  exact Std.compare_eq_lt.2 (hlt k (SortedMap.mem_keys_iff.1 hk))

theorem history_commit (h : l.commit c payload = .ok l')
    (hlt : ∀ v, (l.entry? c.table v).isSome → v < c.version) :
    l'.history c.table = l.history c.table ++ [c] := by
  simp only [history, SortedMap.values, toList_commit h hlt, List.map_append, List.map_cons,
    List.map_nil]

end RowLog

/-! ### Sound logs -/

/-- What the log keeps under a version of a table is the change of that version, filed there, and
the text of the rows that it describes. -/
structure LogEntry.Holds (e : LogEntry) (table : TableId) (version : Version) (s : RowSet) :
    Prop where
  ofTable : e.change.table = table
  ofVersion : e.change.version = version
  contentKey : e.change.contentKey = ⟨table, version⟩
  payload : e.payload = JsonFormat.encode s
  describes : e.change.Describes s

def RowLog.Sound (l : RowLog) : Prop :=
  ∀ table version e, l.entry? table version = some e → ∃ s, e.Holds table version s

namespace LogEntry.Holds

variable {e : LogEntry} {table : TableId} {version : Version} {s s' : RowSet}

/-- The rows are what the text is read as, so an entry holds one row set only. -/
theorem unique (h : e.Holds table version s) (h' : e.Holds table version s') : s = s' :=
  JsonFormat.encode_injective (h.payload.symm.trans h'.payload)

end LogEntry.Holds

/-- What a log keeps of a change with its rows: the change and the text of the rows, under the
version. -/
def LogEntry.keep (p : Change × RowSet) : Version × LogEntry :=
  (p.1.version, ⟨p.1, JsonFormat.encode p.2⟩)

namespace RowLog

variable {l l' : RowLog} {c : Change} {table : TableId} {version : Version} {s : RowSet}

theorem sound_empty : Sound ∅ := by
  intro table version e h
  cases h

/-- A commit of a change under the key that belongs to it, with the rows that it describes, keeps
the log sound. -/
theorem Sound.commit (hl : l.Sound) (hc : c.Describes s)
    (hkey : c.contentKey = ⟨c.table, c.version⟩)
    (h : l.commit c (JsonFormat.encode s) = .ok l') : l'.Sound := by
  intro t v e he
  rw [entry?_commit h] at he
  split at he
  · next htv =>
      obtain ⟨rfl, rfl⟩ := htv
      cases he
      exact ⟨s, rfl, rfl, hkey, rfl, hc⟩
  · exact hl t v e he

/-- Every change of a sound log stands under its own version. -/
theorem Sound.entry?_of_mem_history (hl : l.Sound) (h : c ∈ l.history table) :
    ∃ e s, l.entry? table c.version = some e ∧ e.change = c ∧ e.Holds table c.version s := by
  obtain ⟨v, e, he, rfl⟩ := mem_history_iff.1 h
  obtain ⟨s, hs⟩ := hl table v e he
  refine ⟨e, s, ?_, rfl, ?_⟩
  · rw [hs.ofVersion, he]
  · rw [hs.ofVersion]
    exact hs

theorem rowSet_of_holds {e : LogEntry} (h : l.entry? table version = some e)
    (he : e.Holds table version s) : l.rowSet table version = .ok s := by
  have hc : l.change table version = .ok e.change := by
    rw [change, change?, h]
    rfl
  have hr : l.rowsAt ⟨table, version⟩ = .ok s := by
    simp only [rowsAt, payload?, h, Option.map_some, he.payload, JsonFormat.decode?_encode]
  rw [rowSet, hc]
  show l.rowsAt e.change.contentKey = .ok s
  rw [he.contentKey, hr]

/-- **The row sets that are read back from a sound log are those that its entries hold.** -/
theorem Sound.rowSet_eq_ok_iff (hl : l.Sound) : l.rowSet table version = .ok s ↔
    ∃ e, l.entry? table version = some e ∧ e.Holds table version s := by
  constructor
  · intro h
    cases he : l.entry? table version with
    | none =>
        rw [rowSet, change, change?, he] at h
        cases h
    | some e =>
        obtain ⟨s', hs'⟩ := hl table version e he
        rw [rowSet_of_holds he hs'] at h
        cases h
        exact ⟨e, rfl, hs'⟩
  · intro h
    obtain ⟨e, he, hs⟩ := h
    exact rowSet_of_holds he hs

theorem Sound.exists_keep (hl : l.Sound) {kept : List (Version × LogEntry)}
    (hkept : ∀ p ∈ kept, l.entry? table p.1 = some p.2) :
    ∃ cs : List (Change × RowSet), kept = cs.map LogEntry.keep ∧
      ∀ p ∈ cs, (LogEntry.keep p).2.Holds table p.1.version p.2 := by
  induction kept with
  | nil => exact ⟨[], rfl, List.forall_mem_nil _⟩
  | cons p kept ih =>
      obtain ⟨hp, hrest⟩ := List.forall_mem_cons.1 hkept
      obtain ⟨cs, rfl, hcs⟩ := ih hrest
      obtain ⟨s, hs⟩ := hl table p.1 p.2 hp
      have hkeep : LogEntry.keep (p.2.change, s) = p := by
        show (p.2.change.version, (⟨p.2.change, JsonFormat.encode s⟩ : LogEntry)) = p
        rw [hs.ofVersion, ← hs.payload]
      refine ⟨(p.2.change, s) :: cs, ?_, List.forall_mem_cons.2 ⟨?_, hcs⟩⟩
      · rw [List.map_cons, hkeep]
      · rw [hkeep]
        show p.2.Holds table p.2.change.version s
        rw [hs.ofVersion]
        exact hs

/-- The changes of a table with their rows are what a sound log keeps of it. -/
theorem Sound.exists_changes (hl : l.Sound) (table : TableId) :
    ∃ cs : List (Change × RowSet), (l.ofTable table).toList = cs.map LogEntry.keep ∧
      ∀ p ∈ cs, (LogEntry.keep p).2.Holds table p.1.version p.2 :=
  hl.exists_keep (fun _ hp => mem_toList_ofTable_iff.1 hp)

/-- The rows of a change are read back. -/
theorem rowSet_of_keep {cs : List (Change × RowSet)}
    (hcs : (l.ofTable table).toList = cs.map LogEntry.keep)
    (hholds : ∀ p ∈ cs, (LogEntry.keep p).2.Holds table p.1.version p.2) :
    ∀ p ∈ cs, l.rowSet table p.1.version = .ok p.2 := by
  intro p hp
  have hmem : LogEntry.keep p ∈ (l.ofTable table).toList := by
    rw [hcs]
    exact List.mem_map_of_mem hp
  exact rowSet_of_holds (mem_toList_ofTable_iff.1 hmem) (hholds p hp)

/-- The changes of a table are its history. -/
theorem history_of_keep {cs : List (Change × RowSet)}
    (hcs : (l.ofTable table).toList = cs.map LogEntry.keep) :
    l.history table = cs.map (·.1) := by
  rw [history, SortedMap.values, hcs, List.map_map, List.map_map]
  rfl

/-- The row sets of a table, one for each change of its history, in ascending order. -/
theorem Sound.exists_rowSets (hl : l.Sound) (table : TableId) :
    ∃ cs : List (Version × RowSet), (l.history table).map (·.version) = cs.map (·.1) ∧
      cs.Pairwise (fun a b => a.1 < b.1) ∧
      ∀ v s, (v, s) ∈ cs ↔ l.rowSet table v = .ok s := by
  obtain ⟨cs, hcs, hholds⟩ := hl.exists_changes table
  have hread := rowSet_of_keep hcs hholds
  have hkeys : (l.ofTable table).keys = cs.map (·.1.version) := by
    rw [SortedMap.keys, hcs, List.map_map]
    rfl
  refine ⟨cs.map (fun p => (p.1.version, p.2)), ?_, ?_, ?_⟩
  · rw [history_of_keep hcs, List.map_map, List.map_map]
    rfl
  · have hasc := (l.ofTable table).keys_ascending
    rw [hkeys, List.pairwise_map] at hasc
    rw [List.pairwise_map]
    exact hasc.imp (fun h => Std.compare_eq_lt.1 h)
  · intro v s
    constructor
    · intro hmem
      obtain ⟨p, hp, hpv⟩ := List.mem_map.1 hmem
      cases hpv
      exact hread p hp
    · intro hv
      obtain ⟨e, he, -⟩ := hl.rowSet_eq_ok_iff.1 hv
      have hmem : v ∈ cs.map (·.1.version) := by
        rw [← hkeys]
        exact SortedMap.mem_keys_iff.2 (Option.isSome_of_eq_some he)
      obtain ⟨p, hp, rfl⟩ := List.mem_map.1 hmem
      have hsame := (hread p hp).symm.trans hv
      cases hsame
      exact List.mem_map_of_mem hp

/-- What is read back of a table depends on nothing but what the log keeps of that table. -/
theorem Sound.rowSet_congr (hl : l.Sound) (h : l'.ofTable table = l.ofTable table)
    (version : Version) : l'.rowSet table version = l.rowSet table version := by
  have hentry : l'.entry? table version = l.entry? table version := by
    rw [entry?_eq, entry?_eq, h]
  cases he : l.entry? table version with
  | none =>
      rw [he] at hentry
      rw [rowSet, rowSet, change, change, change?, change?, he, hentry]
      rfl
  | some e =>
      rw [he] at hentry
      obtain ⟨s, hs⟩ := hl table version e he
      rw [rowSet_of_holds he hs, rowSet_of_holds hentry hs]

/-- What a commit does to the row sets that are read back. -/
theorem rowSet_commit (hl : l.Sound) (hc : c.Describes s)
    (hkey : c.contentKey = ⟨c.table, c.version⟩)
    (h : l.commit c (JsonFormat.encode s) = .ok l') (t : TableId) (v : Version) (s' : RowSet) :
    l'.rowSet t v = .ok s' ↔
      (t = c.table ∧ v = c.version ∧ s' = s) ∨
        (¬(t = c.table ∧ v = c.version) ∧ l.rowSet t v = .ok s') := by
  have hnew : LogEntry.Holds ⟨c, JsonFormat.encode s⟩ c.table c.version s :=
    ⟨rfl, rfl, hkey, rfl, hc⟩
  rw [(hl.commit hc hkey h).rowSet_eq_ok_iff, hl.rowSet_eq_ok_iff, entry?_commit h]
  by_cases htv : t = c.table ∧ v = c.version
  · obtain ⟨rfl, rfl⟩ := htv
    simp only [true_and, if_true, not_true, false_and, or_false, Option.some.injEq]
    constructor
    · intro h
      obtain ⟨e, rfl, he⟩ := h
      exact he.unique hnew
    · rintro rfl
      exact ⟨_, rfl, hnew⟩
  · rw [if_neg htv]
    simp only [htv, not_false_eq_true, true_and]
    constructor
    · intro he
      exact Or.inr he
    · intro h
      rcases h with ⟨ht, hv, -⟩ | he
      · exact absurd ⟨ht, hv⟩ htv
      · exact he

end RowLog

end VersionedTables
