import VersionedTables.Proofs.Engine.Reachable
import VersionedTables.Proofs.Snapshot.History

/-!
# What a table holds

In an engine every change of a table can be read back, so that a replay never fails.  What it shows of
the table is what the last writers left there.

* **`Engine.Reachable.replay_last_writer_wins`** — what a replay shows of a table.
-/

namespace VersionedTables

namespace Engine

/-- **The last writer wins.**  A replay of a table, whole or up to a version, is told by the row sets
of the table up to there: which rows there are, under which versions and with which cells.  Every
change of the table has its row set, the rows are shown in ascending order, and the order that the
rows have in a row set does not matter. -/
theorem Reachable.replay_last_writer_wins {e : Engine} (h : e.Reachable) (table : TableId)
    (upTo : Option Version) :
    (∀ c ∈ e.ledger.log.history table, ∃ rs, e.ledger.log.rowSet table c.version = .ok rs) ∧
    ∃ s, e.replay table upTo = .ok s ∧ s.table = table ∧
      Snapshot.Told (Snapshot.committed e.ledger.log table upTo) s ∧
      (∀ headers, (s.project headers).Pairwise (fun a b => a.1 < b.1) ∧
        ∀ id cells, (id, cells) ∈ s.project headers ↔ ∃ row, s.rows.get? id = some row ∧
          cells = headers.map (fun h => (row.values.get? h).join)) ∧
      ∀ log, Snapshot.Reorders e.ledger.log log table →
        Snapshot.replay log table upTo = .ok s := by
  have hl := h.sound.log
  constructor
  · intro c hc
    obtain ⟨entry, rs, he, -, hrs⟩ := hl.entry?_of_mem_history hc
    exact ⟨rs, RowLog.rowSet_of_holds he hrs⟩
  · obtain ⟨s, hreplay, htable, htold⟩ := Snapshot.exists_replay hl table upTo
    refine ⟨s, hreplay _ (.refl _ table), htable, htold, ?_, hreplay⟩
    intro headers
    exact ⟨s.project_ascending headers, fun id cells => Snapshot.mem_project_iff⟩

end Engine

namespace Sample

/-- The changes of the table with the rows that they record. -/
def revisions : List (Change × RowSet) :=
  [(⟨table, 1, 2, some 9, some 10, [column.id, remark.id], 1, 0, ⟨table, 1⟩⟩,
      ⟨table, [column.id, remark.id],
        [⟨some 9, some 1, [some "x", some "y"]⟩, ⟨some 10, some 1, [none, some "z"]⟩]⟩),
    (⟨table, 2, 1, none, none, [remark.id], 1, 0, ⟨table, 2⟩⟩,
      ⟨table, [remark.id], [⟨some 9, some 2, [some "w"]⟩]⟩),
    (⟨table, 3, 1, none, none, [column.id], 1, 0, ⟨table, 3⟩⟩,
      ⟨table, [column.id], [⟨some 10, some 3, []⟩]⟩),
    (⟨table, 4, 1, none, none, [column.id], 1, 0, ⟨table, 4⟩⟩,
      ⟨table, [column.id], [⟨some 10, some 4, [some "v"]⟩]⟩)]

theorem replay_revised (upTo : Option Version) :
    revised.replay table upTo = .ok ((Snapshot.empty table).applyAll
      (revisions.takeWhile (fun c => upTo.all (c.1.version ≤ ·)))) :=
  Snapshot.replay_of_keeps reachable_revised.sound.log
    (reachable_revised.sound.log.keeps rfl) upTo

end Sample

namespace Engine

/-- The first row has a cell of its first version and one of the second.  The other row is gone at version
three, and later on it has the one cell that was written since. -/
theorem replay_last_writer_wins_revised :
    Sample.revised.Reachable ∧
    (∃ s, Sample.revised.replay Sample.table (some 3) = .ok s ∧
      Snapshot.Told (Snapshot.committed Sample.revised.ledger.log Sample.table (some 3)) s ∧
      s.version = some 3 ∧ s.project [Sample.remark.id, Sample.column.id] =
        [(9, [some "w", some "x"])]) ∧
    ∃ s, Sample.revised.replay Sample.table none = .ok s ∧
      Snapshot.Told (Snapshot.committed Sample.revised.ledger.log Sample.table none) s ∧
      s = ⟨Sample.table, some 4, .ofList
        [(9, ⟨2, .ofList [(Sample.column.id, some "x"), (Sample.remark.id, some "w")]⟩),
          (10, ⟨4, .ofList [(Sample.column.id, some "v")]⟩)]⟩ := by
  have htold : ∀ upTo s, Sample.revised.replay Sample.table upTo = .ok s →
      Snapshot.Told (Snapshot.committed Sample.revised.ledger.log Sample.table upTo) s := by
    intro upTo s hs
    obtain ⟨s', hreplay, -, htold, -⟩ :=
      (Reachable.replay_last_writer_wins Sample.reachable_revised Sample.table upTo).2
    obtain rfl : s' = s := Except.ok.inj (hreplay.symm.trans hs)
    exact htold
  have hthree := Sample.replay_revised (some 3)
  have hall := Sample.replay_revised none
  exact ⟨Sample.reachable_revised, ⟨_, hthree, htold _ _ hthree, rfl, rfl⟩,
    ⟨_, hall, htold _ _ hall, rfl⟩⟩

end Engine

end VersionedTables
