import VersionedTables.Proofs.Backup.Restore
import VersionedTables.Proofs.Engine.Appended

/-!
# What a restoration writes

A restoration writes the entries of a backup one after the other, up to the first that it refuses.  What
it writes is described by its change, but that is not enough: that the bounds of a change say which row
ids its rows allocate is not looked at, so that more is let in than an append can have committed.  It is
just this, and the use of the greatest number, that tells what is let in from what was committed.

* **`Change.appended_rekeyed_iff`** — what tells the one from the other.
* **`Engine.restore_writes`** — what is in the log behind a restoration.
* **`Engine.not_restore_allocates`** — the bounds of what is written need not say what is allocated.
-/

namespace VersionedTables

/-- A change that is kept under its own key can have been committed by an append just if it describes the
rows, says what they allocate, and uses no number that is the greatest. -/
theorem Change.appended_rekeyed_iff {c : Change} {s : RowSet} (hd : c.Describes s) :
    c.rekeyed.Appended s ↔ c.Allocates s ∧ c.version.toNat < Bounded.greatest ∧
      ∀ id ∈ s.rowIds, id.toNat < Bounded.greatest := by
  rw [Change.appended_iff]
  constructor
  · intro h
    exact ⟨⟨h.allocates.paired, h.allocates.rowIds, h.allocates.values⟩, h.version, h.rowIds⟩
  · intro h
    obtain ⟨ha, hversion, hids⟩ := h
    exact ⟨Ledger.describes_rekeyed.2 hd, ⟨ha.paired, ha.rowIds, ha.values⟩, rfl, hversion, hids⟩

namespace Engine

/-- **What is in the log behind a restoration.**  The entries of a backup are written up to the first that
is refused, and all of them if none is; nothing else changes in the log.  Each entry that is written is
described by its change.  It can have been committed by an append just if the bounds of its change also
say which row ids its rows allocate, and if none of its numbers is the greatest that there is. -/
theorem restore_writes (e : Engine) (chunks : List BackupChunk) :
    ∃ written rest, chunks.flatMap (·.entries) = written ++ rest ∧
      (∀ summary, (e.restore chunks).1 = .ok summary → rest = []) ∧
      (∀ t v entry, (e.restore chunks).2.ledger.log.entry? t v = some entry ↔
        e.ledger.log.entry? t v = some entry ∨
          ∃ p ∈ written, p.change.table = t ∧ p.change.version = v ∧
            entry = ⟨p.change.rekeyed, JsonFormat.encode p.rows⟩) ∧
      ∀ p ∈ written, p.change.Describes p.rows ∧
        (p.change.rekeyed.Appended p.rows ↔ p.change.Allocates p.rows ∧
          p.change.version.toNat < Bounded.greatest ∧
          ∀ id ∈ p.rows.rowIds, id.toNat < Bounded.greatest) := by
  obtain ⟨written, rest, hentries, hrestores, hok⟩ :=
    BackupChunk.restore_restores e.initial chunks e.ledger
  refine ⟨written, rest, hentries, hok, hrestores.entry?_eq_some_iff, ?_⟩
  intro p hp
  have hd := hrestores.describes p hp
  exact ⟨hd, Change.appended_rekeyed_iff hd⟩

end Engine

namespace Sample

def inflated : Change := { change with maxRowId := some 1000 }

/-- The bounds say what they should not. -/
theorem not_allocates_inflated : ¬inflated.Allocates rows := by
  intro h
  have hlength := congrArg List.length (h.rowIds 1 rfl 1000 rfl)
  rw [List.length_range'] at hlength
  cases hlength

theorem allocates_change : change.Allocates rows := by
  refine ⟨rfl, ?_, ?_⟩
  · intro least hleast greatest hgreatest
    cases hleast
    cases hgreatest
    rfl
  · intro least hleast r hr id hid hle
    rw [List.mem_singleton.1 hr]
    rfl

end Sample

namespace Engine

/-- A change that an engine has committed is written as it was, and can have been committed. -/
theorem restore_writes_one_row :
    (restore {} [⟨Sample.table, 0, [⟨Sample.change, Sample.rows⟩]⟩]).1 =
        .ok (some ⟨Sample.table, 1, 1, some 1⟩) ∧
      (restore {} [⟨Sample.table, 0, [⟨Sample.change, Sample.rows⟩]⟩]).2.ledger.log.entry?
        Sample.table 1 = some ⟨Sample.change, JsonFormat.encode Sample.rows⟩ ∧
      Sample.change.Appended Sample.rows := by
  have hanswer : (restore {} [⟨Sample.table, 0, [⟨Sample.change, Sample.rows⟩]⟩]).1 =
      .ok (some ⟨Sample.table, 1, 1, some 1⟩) := rfl
  obtain ⟨written, rest, hentries, hok, hentry, hwritten⟩ :=
    restore_writes {} [⟨Sample.table, 0, [⟨Sample.change, Sample.rows⟩]⟩]
  cases hok _ hanswer
  rw [List.append_nil] at hentries
  have hmem : ⟨Sample.change, Sample.rows⟩ ∈ written := hentries ▸ List.mem_singleton_self _
  have hids : ∀ id ∈ Sample.rows.rowIds, id.toNat < Bounded.greatest := by
    intro id hid
    rw [List.mem_singleton.1 hid]
    decide
  refine ⟨hanswer, ?_, ?_⟩
  · exact (hentry _ _ _).2 (Or.inr ⟨_, hmem, rfl, rfl, rfl⟩)
  · exact (hwritten _ hmem).2.2 ⟨Sample.allocates_change, by decide, hids⟩

/-- A change that is said to have taken a thousand row ids for one row is written. -/
theorem not_restore_allocates :
    ¬∀ (e : Engine) (chunks : List BackupChunk) (summary : Option RestoreSummary), e.Reachable →
      (e.restore chunks).1 = .ok summary →
      ∀ p ∈ chunks.flatMap (·.entries), p.change.Allocates p.rows := by
  intro hall
  have hallocates := hall {} [⟨Sample.table, 0, [⟨Sample.inflated, Sample.rows⟩]⟩]
    (some ⟨Sample.table, 1, 1, some 1⟩) (.start _ _) rfl ⟨Sample.inflated, Sample.rows⟩
    (List.mem_singleton_self _)
  exact Sample.not_allocates_inflated hallocates

end Engine

end VersionedTables
