import VersionedTables.Proofs.Log.Ledger

/-!
# How a log grows

A ledger commits behind all changes of a table, so that its log grows at the ends only: what it had of
a table stays in front, and whatever was read back of a committed version is read back later as well.

* **`RowLog.Extends`** — a later log against an earlier one.
* **`Ledger.Step.extends_log`** — every move of a ledger extends its log.
* **`RowLog.Keeps`** — the changes of a table with their rows, as the log keeps them.
* **`RowLog.Keeps.exists_append`** — behind an extension there are the same changes, and then others.
-/

namespace VersionedTables

namespace RowLog

/-- Of every table one log keeps all that another one keeps, in front of anything else. -/
def Extends (l' l : RowLog) : Prop :=
  ∀ table, (l.ofTable table).toList <+: (l'.ofTable table).toList

variable {l l' l'' : RowLog} {c : Change} {payload : String} {table : TableId} {v : Version}

namespace Extends

theorem refl (l : RowLog) : l.Extends l := fun _ => List.prefix_rfl

theorem trans (h : l'.Extends l) (h' : l''.Extends l') : l''.Extends l :=
  fun table => (h table).trans (h' table)

/-- A commit behind all changes of its table extends the log. -/
theorem of_commit (h : l.commit c payload = .ok l')
    (hnewer : ∀ v, (l.entry? c.table v).isSome → v < c.version) : l'.Extends l := by
  intro t
  by_cases ht : t = c.table
  · rw [ht, toList_commit h hnewer]
    exact List.prefix_append _ _
  · have hsame : l'.ofTable t = l.ofTable t := by rw [ofTable_commit h, if_neg ht]
    exact hsame ▸ List.prefix_rfl

theorem history (h : l'.Extends l) (table : TableId) : l.history table <+: l'.history table := by
  rw [RowLog.history, RowLog.history, SortedMap.values, SortedMap.values, List.map_map, List.map_map]
  exact (h table).map _

end Extends

/-! ### Changes with their rows -/

/-- What a log keeps of a table are these changes with the rows that they describe. -/
structure Keeps (l : RowLog) (table : TableId) (cs : List (Change × RowSet)) : Prop where
  toList : (l.ofTable table).toList = cs.map LogEntry.keep
  holds : ∀ p ∈ cs, (LogEntry.keep p).2.Holds table p.1.version p.2

theorem Sound.exists_keeps (hl : l.Sound) (table : TableId) : ∃ cs, l.Keeps table cs := by
  obtain ⟨cs, hcs, hholds⟩ := hl.exists_changes table
  exact ⟨cs, hcs, hholds⟩

/-- Different changes with their rows are kept differently. -/
theorem keep_injective : Function.Injective LogEntry.keep := by
  rintro ⟨c, rs⟩ ⟨c', rs'⟩ h
  simp only [LogEntry.keep, Prod.mk.injEq, LogEntry.mk.injEq] at h
  obtain ⟨-, hc, hrs⟩ := h
  rw [hc, JsonFormat.encode_injective hrs]

/-- What a sound log keeps of a table are the changes by which its entries are told. -/
theorem Sound.keeps (hl : l.Sound) {cs : List (Change × RowSet)}
    (h : (l.ofTable table).toList = cs.map LogEntry.keep) : l.Keeps table cs := by
  obtain ⟨cs', h'⟩ := hl.exists_keeps table
  obtain rfl : cs' = cs := keep_injective.list_map (h'.toList.symm.trans h)
  exact h'

namespace Keeps

variable {cs : List (Change × RowSet)}

theorem history (h : l.Keeps table cs) : l.history table = cs.map (·.1) := history_of_keep h.toList

theorem rowSet (h : l.Keeps table cs) {p : Change × RowSet} (hp : p ∈ cs) :
    l.rowSet table p.1.version = .ok p.2 := rowSet_of_keep h.toList h.holds p hp

theorem change (h : l.Keeps table cs) {p : Change × RowSet} (hp : p ∈ cs) :
    l.change table p.1.version = .ok p.1 := by
  have hmem : LogEntry.keep p ∈ (l.ofTable table).toList := by
    rw [h.toList]
    exact List.mem_map_of_mem hp
  have hentry := mem_toList_ofTable_iff.1 hmem
  rw [RowLog.change, change?, hentry]
  rfl

theorem keys (h : l.Keeps table cs) : (l.ofTable table).keys = cs.map (·.1.version) := by
  rw [SortedMap.keys, h.toList, List.map_map]
  rfl

theorem ascending (h : l.Keeps table cs) :
    cs.Pairwise (fun a b => a.1.version < b.1.version) := by
  have hasc := (l.ofTable table).keys_ascending
  rw [h.keys, List.pairwise_map] at hasc
  exact hasc.imp (fun h => Std.compare_eq_lt.1 h)

theorem latest? (h : l.Keeps table cs) : l.latest? table = cs.getLast?.map (·.1.version) := by
  rw [RowLog.latest?, h.keys, List.getLast?_map]

/-- **Behind an extension there are the same changes, and then others.** -/
theorem exists_append (h : l.Keeps table cs) (hl' : l'.Sound) (he : l'.Extends l) :
    ∃ more, l'.Keeps table (cs ++ more) := by
  obtain ⟨cs', h'⟩ := hl'.exists_keeps table
  obtain ⟨rest, hrest⟩ := he table
  rw [h.toList, h'.toList] at hrest
  obtain ⟨front, more, rfl, hfront, -⟩ := List.map_eq_append_iff.1 hrest.symm
  rw [keep_injective.list_map hfront] at h'
  exact ⟨more, h'⟩

end Keeps

end RowLog

/-! ### Moves of a ledger -/

namespace Ledger

variable {initial : Counter} {l l' : Ledger}

/-- **Every move of a ledger extends its log.** -/
theorem Step.extends_log (h : l.Step initial l') : l'.log.Extends l.log := by
  cases h with
  | raise table c raised sound => exact .refl l.log
  | commit change s log c describes contentKey commits newer raised sound version rowId =>
      exact .of_commit commits newer

/-- A run of moves extends the log. -/
theorem extends_log_of_steps (h : Relation.ReflTransGen (Step initial) l l') :
    l'.log.Extends l.log := by
  induction h with
  | refl => exact .refl l.log
  | tail _ hstep ih => exact ih.trans hstep.extends_log

end Ledger

end VersionedTables
