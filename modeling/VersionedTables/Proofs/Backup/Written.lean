import VersionedTables.Proofs.Backup.Restore

/-!
# What restored entries leave behind

Entries that are restored one after the other stand behind what the log kept of their table, each under the
key that belongs to it.  The counters of the table pass over all numbers that the entries name, and come to
the same as if they had passed over the greatest of them at once.  Of no other table anything changes.

* **`Bounded.past`** — one past a number.
* **`Ledger.Gains`** — how a ledger differs from an earlier one by entries of a backup.
* **`Ledger.gains_restored`**, **`Ledger.Gains.trans`** — one entry, and entries one after the other.
* **`Ledger.Restores.gains`** — what restored entries leave behind.
-/

namespace VersionedTables

namespace Bounded

/-- One past a number, stopping at the greatest, if there is one. -/
def past : Option UInt64 → UInt64
  | some n => addSat n 1
  | none => 0

/-- One past the greatest of some numbers lies above one past each of them, and no higher. -/
theorem past_max?_le_iff {as : List UInt64} {n : UInt64} :
    past as.max? ≤ n ↔ ∀ a ∈ as, addSat a 1 ≤ n := by
  cases hmax : as.max? with
  | none =>
      rw [List.max?_eq_none_iff.1 hmax]
      exact ⟨fun _ => nofun, fun _ => UInt64.zero_le⟩
  | some m =>
      obtain ⟨hmem, hle⟩ := List.max?_eq_some_iff.1 hmax
      constructor
      · intro h a ha
        exact UInt64.le_trans (addSat_le_addSat (hle a ha) 1) h
      · intro h
        exact h m hmem

theorem past_max?_append (as bs : List UInt64) :
    past (as ++ bs).max? = max (past as.max?) (past bs.max?) := by
  have hle : ∀ n, past (as ++ bs).max? ≤ n ↔ max (past as.max?) (past bs.max?) ≤ n := by
    intro n
    rw [Std.max_le_iff, past_max?_le_iff, past_max?_le_iff, past_max?_le_iff, List.forall_mem_append]
  exact UInt64.le_antisymm ((hle _).2 (UInt64.le_refl _)) ((hle _).1 (UInt64.le_refl _))

/-- The last of ascending numbers is the greatest. -/
theorem max?_eq_getLast? {as : List UInt64} (h : as.Pairwise (· < ·)) : as.max? = as.getLast? := by
  cases hlast : as.getLast? with
  | none =>
      rw [List.getLast?_eq_none_iff.1 hlast]
      rfl
  | some last =>
      obtain ⟨front, rfl⟩ := List.getLast?_eq_some_iff.1 hlast
      refine List.max?_eq_some_iff.2 ⟨by simp, ?_⟩
      intro a ha
      rcases List.mem_append.1 ha with ha | ha
      · exact UInt64.le_of_lt ((List.pairwise_append.1 h).2.2 a ha last (by simp))
      · rw [List.mem_singleton.1 ha]
        exact UInt64.le_refl _

end Bounded

namespace BackupEntry

/-- What a log keeps of an entry that was restored: its change, under the key that belongs to it, and the
text of its rows. -/
def restored (b : BackupEntry) : Version × LogEntry :=
  (b.change.version, ⟨{ b.change with contentKey := ⟨b.change.table, b.change.version⟩ },
    JsonFormat.encode b.rows⟩)

/-- The row ids that an entry names: those of its rows, and the greatest one of its change. -/
def rowIds (b : BackupEntry) : List RowId := b.rows.rowIds ++ b.change.maxRowId.toList

end BackupEntry

namespace Ledger

variable {initial : Counter} {table : TableId} {es es' : List BackupEntry} {l l' l'' : Ledger}

/-- How a ledger differs from the earlier one `l`: entries of a backup of the table were restored. -/
structure Gains (initial : Counter) (table : TableId) (es : List BackupEntry) (l l' : Ledger) :
    Prop where
  log : (l'.log.ofTable table).toList = (l.log.ofTable table).toList ++ es.map BackupEntry.restored
  counter : l'.counters.current table initial = (l.counters.current table initial).advance
    (Bounded.past (es.flatMap (·.rowIds)).max?) (Bounded.past (es.map (·.change.version)).max?)
  otherLogs : ∀ t, t ≠ table → l'.log.ofTable t = l.log.ofTable t
  otherCounters : ∀ t, t ≠ table → l'.counters.current t initial = l.counters.current t initial

theorem Gains.refl (initial : Counter) (table : TableId) (l : Ledger) :
    Gains initial table [] l l :=
  ⟨(List.append_nil _).symm, (Counter.advance_zero _).symm, fun _ _ => rfl, fun _ _ => rfl⟩

theorem Gains.trans (h : Gains initial table es l l') (h' : Gains initial table es' l' l'') :
    Gains initial table (es ++ es') l l'' := by
  refine ⟨?_, ?_, fun t ht => (h'.otherLogs t ht).trans (h.otherLogs t ht),
    fun t ht => (h'.otherCounters t ht).trans (h.otherCounters t ht)⟩
  · rw [h'.log, h.log, List.map_append, List.append_assoc]
  · rw [h'.counter, h.counter, Counter.advance_advance, List.flatMap_append, List.map_append,
      Bounded.past_max?_append, Bounded.past_max?_append]

/-- An entry that is newer than what the log keeps of its table comes behind it. -/
theorem toList_restored {c : Change} (hnewer : ∀ v, (l.log.entry? c.table v).isSome → v < c.version)
    (initial : Counter) (s : RowSet) :
    ((l.restored initial c s).log.ofTable c.table).toList =
      (l.log.ofTable c.table).toList ++ [(c.version, ⟨c.rekeyed, JsonFormat.encode s⟩)] := by
  rw [restored, RowLog.ofTable_insert, if_pos rfl]
  refine SortedMap.toList_insert_of_forall_lt _ ?_
  intro v hv
  exact Std.compare_eq_lt.2 (hnewer v (SortedMap.mem_keys_iff.1 hv))

/-- One entry more. -/
theorem gains_restored (initial : Counter) {b : BackupEntry}
    (hnewer : ∀ v, (l.log.entry? b.change.table v).isSome → v < b.change.version) :
    Gains initial b.change.table [b] l (l.restored initial b.change b.rows) := by
  refine ⟨toList_restored hnewer initial b.rows, ?_, ?_, ?_⟩
  · have hrowId : nextRowId b.change b.rows = Bounded.past b.rowIds.max? := by
      unfold nextRowId Bounded.past
      rfl
    have hids : [b].flatMap (·.rowIds) = b.rowIds := List.flatMap_singleton _ _
    rw [restored, Counters.current_insert, if_pos rfl, hrowId, hids]
    rfl
  · intro t ht
    rw [restored, RowLog.ofTable_insert, if_neg ht]
  · intro t ht
    rw [restored, Counters.current_insert, if_neg ht]

/-- **What restored entries leave behind.** -/
theorem Restores.gains (h : Restores initial es l l') (htable : ∀ b ∈ es, b.change.table = table) :
    Gains initial table es l l' := by
  induction h with
  | nil l => exact .refl initial table l
  | cons hb rest ih =>
      obtain ⟨⟨-, hnewer⟩, rfl⟩ := restore_eq_ok_iff.1 hb
      obtain ⟨rfl, hrest⟩ := List.forall_mem_cons.1 htable
      exact (gains_restored initial hnewer).trans (ih hrest)

end Ledger

end VersionedTables
