import VersionedTables.Backup.Restore
import VersionedTables.Proofs.Allocation
import VersionedTables.Proofs.Outcome

/-!
# Ledgers that read the same

A table that was asked for numbers has counters of its own from then on, also when it got none; they
read as they did before.  Two ledgers that differ in no more than that cannot be told apart: whatever
is done to both has the same outcome, and leaves ledgers behind that read the same.

* **`Ledger.Alike`** — two ledgers that read the same.
* **`Counters.exists_reserve`** — a reservation depends on the counters of its table only.
* **`Ledger.Alike.append`**, **`Ledger.Alike.restoreAll`** — the same is done to both.
-/

namespace VersionedTables

/-- **A reservation depends on the counters of its table only**, as far as they are read. -/
theorem Counters.exists_reserve (initial : Counter) (c : Counter) (table : TableId) (count : Nat) :
    ∃ outcome c', ∀ cs : Counters, cs.current table initial = c →
      cs.reserve table count initial = (outcome, cs.insert table c') := by
  cases h : c.reserve table count with
  | error e =>
      refine ⟨.error e, c, ?_⟩
      intro cs hc
      simp only [reserve, hc, h]
  | ok p =>
      refine ⟨.ok p.1, p.2, ?_⟩
      intro cs hc
      simp only [reserve, hc, h]

namespace Ledger

/-- Two ledgers that read the same, where counters start at `initial`. -/
structure Alike (initial : Counter) (l l' : Ledger) : Prop where
  log : l'.log = l.log
  counters : ∀ t, l'.counters.current t initial = l.counters.current t initial

structure SameOutcome (initial : Counter) {α : Type} (o o' : α × Ledger) : Prop where
  outcome : o'.1 = o.1
  ledger : Alike initial o.2 o'.2

namespace Alike

variable {initial : Counter} {l l' : Ledger}

/-- Counters that are set in both read the same. -/
theorem insert (h : Alike initial l l') {log log' : RowLog} (hlog : log' = log) (table : TableId)
    (c : Counter) :
    Alike initial ⟨log, l.counters.insert table c⟩ ⟨log', l'.counters.insert table c⟩ := by
  refine ⟨hlog, ?_⟩
  intro t
  rw [Counters.current_insert, Counters.current_insert, h.counters t]

/-- A table that has counters of its own reads as it did before. -/
theorem insert_current (initial : Counter) (l : Ledger) (table : TableId) :
    Alike initial l
      { l with counters := l.counters.insert table (l.counters.current table initial) } := by
  refine ⟨rfl, ?_⟩
  intro t
  show Counters.current (l.counters.insert table _) t initial = _
  rw [Counters.current_insert]
  split
  · next h => rw [h]
  · rfl

/-! ### The same is done to both -/

theorem reserve (h : Alike initial l l') (table : TableId) (count : Nat) :
    ∃ outcome c, l.counters.reserve table count initial = (outcome, l.counters.insert table c) ∧
      l'.counters.reserve table count initial = (outcome, l'.counters.insert table c) := by
  obtain ⟨outcome, c, hreserve⟩ :=
    Counters.exists_reserve initial (l.counters.current table initial) table count
  exact ⟨outcome, c, hreserve _ rfl, hreserve _ (h.counters table)⟩

theorem advance (h : Alike initial l l') (table : TableId) (rowId : RowId) (version : Version) :
    ∃ c, l.counters.advance table rowId version initial = (c, l.counters.insert table c) ∧
      l'.counters.advance table rowId version initial = (c, l'.counters.insert table c) := by
  refine ⟨_, rfl, ?_⟩
  rw [← h.counters table]
  rfl

/-- **A row set that is submitted to both** is refused by both, or committed to both. -/
theorem append (h : Alike initial l l') (user : UserId) (millis : UInt64) (table : TableId)
    (schema : List Column) (delta : RowSet) :
    SameOutcome initial (l.append initial user millis table schema delta)
      (l'.append initial user millis table schema delta) := by
  obtain ⟨outcome, c, hl, hl'⟩ := h.reserve table delta.newRows
  unfold Ledger.append
  rw [h.counters table, h.log, hl, hl']
  cases hcheck : delta.check table schema (l.counters.current table initial).lastRowId with
  | error e => exact ⟨rfl, h⟩
  | ok u =>
      cases outcome with
      | error e => exact ⟨rfl, h.insert rfl table c⟩
      | ok r =>
          cases hcommit : commit l.log delta r user millis with
          | error e =>
              simp only [hcommit]
              exact ⟨rfl, h.insert rfl table c⟩
          | ok p =>
              simp only [hcommit]
              exact ⟨rfl, h.insert rfl table c⟩

/-- A change of another log is refused by both, or committed to both. -/
theorem restore (h : Alike initial l l') (c : Change) (s : RowSet) :
    Outcome.Agree (Alike initial) (l.restore initial c s) (l'.restore initial c s) := by
  obtain ⟨counter, hl, hl'⟩ := h.advance c.table (nextRowId c s) (Bounded.addSat c.version 1)
  unfold Ledger.restore
  rw [h.log, hl, hl']
  exact .bind _ (fun _ => .bind _ (fun _ => .bind _ (fun log => .ok (h.insert rfl c.table counter))))

theorem restoreEntry (h : Alike initial l l') (table : TableId) (e : BackupEntry) :
    Outcome.Agree (Alike initial) (BackupChunk.restoreEntry initial table l e)
      (BackupChunk.restoreEntry initial table l' e) := by
  unfold BackupChunk.restoreEntry
  split
  · exact .error _
  · exact h.restore e.change e.rows

theorem restoreEntries (h : Alike initial l l') (es : List BackupEntry) (summary : RestoreSummary) :
    SameOutcome initial (BackupChunk.restoreEntries initial es summary l)
      (BackupChunk.restoreEntries initial es summary l') := by
  induction es generalizing l l' summary with
  | nil => exact ⟨rfl, h⟩
  | cons e es ih =>
      have hentry := h.restoreEntry summary.table e
      unfold BackupChunk.restoreEntries
      generalize BackupChunk.restoreEntry initial summary.table l e = outcome at hentry ⊢
      generalize BackupChunk.restoreEntry initial summary.table l' e = outcome' at hentry ⊢
      cases hentry with
      | error e => exact ⟨rfl, h⟩
      | ok hnext => exact ih hnext _

theorem restoreChunks (h : Alike initial l l') (cs : List BackupChunk) (expected : Nat)
    (summary : Option RestoreSummary) :
    SameOutcome initial (BackupChunk.restoreChunks initial cs expected summary l)
      (BackupChunk.restoreChunks initial cs expected summary l') := by
  induction cs generalizing l l' expected summary with
  | nil => exact ⟨rfl, h⟩
  | cons c cs ih =>
      have hstart : c.restoreStart l' summary = c.restoreStart l summary := by
        simp only [BackupChunk.restoreStart, h.log]
      unfold BackupChunk.restoreChunks
      rw [hstart]
      cases c.checkPlace expected >>= fun _ => c.restoreStart l summary with
      | error e => exact ⟨rfl, h⟩
      | ok start =>
          dsimp only
          obtain ⟨houtcome, hledger⟩ := h.restoreEntries c.entries start
          generalize BackupChunk.restoreEntries initial c.entries start l = o at houtcome hledger ⊢
          generalize BackupChunk.restoreEntries initial c.entries start l' = o' at houtcome hledger ⊢
          obtain ⟨outcome, l₁⟩ := o
          obtain ⟨outcome', l₁'⟩ := o'
          cases houtcome
          cases outcome with
          | error e => exact ⟨rfl, hledger⟩
          | ok summary' => exact ih hledger _ _

/-- **A backup that is restored to both** gets as far in both. -/
theorem restoreAll (h : Alike initial l l') (cs : List BackupChunk) :
    SameOutcome initial (BackupChunk.restore initial cs l) (BackupChunk.restore initial cs l') :=
  h.restoreChunks cs 0 none

end Alike

end Ledger

end VersionedTables
