import VersionedTables.Backup.Restore
import VersionedTables.Proofs.Log.Ledger

/-!
# Restorations as moves of the ledger

A restoration commits one entry after the other and stops at the first that is refused.  Wherever it
stops, what it has done is a run of moves of the ledger, and the log keeps what it kept and the entries
that were committed.

* **`Ledger.Restores`** — changes of another log are committed one after the other.
* **`Ledger.Restores.entry?_eq_some_iff`** — what the log keeps behind them.
* **`BackupChunk.restoreEntry_eq_ok_iff`** — when an entry is let through.
* **`BackupChunk.restore_restores`** — how far a restoration gets.
* **`BackupChunk.restore_steps`** — a restoration is a run of moves.
-/

namespace VersionedTables

open Relation (ReflTransGen)

namespace Ledger

variable {initial : Counter}

/-- Changes of another log are committed one after the other. -/
inductive Restores (initial : Counter) : List BackupEntry → Ledger → Ledger → Prop
  | nil (l : Ledger) : Restores initial [] l l
  | cons {p : BackupEntry} {ps : List BackupEntry} {l l' l'' : Ledger}
      (h : l.restore initial p.change p.rows = .ok l') (rest : Restores initial ps l' l'') :
      Restores initial (p :: ps) l l''

namespace Restores

variable {ps qs : List BackupEntry} {l l' l'' : Ledger}

theorem append (h : Restores initial ps l l') (h' : Restores initial qs l' l'') :
    Restores initial (ps ++ qs) l l'' := by
  induction h with
  | nil l => exact h'
  | cons hp rest ih => exact .cons hp (ih h')

/-- Every one of them is a move. -/
theorem steps (h : Restores initial ps l l') : ReflTransGen (Step initial) l l' := by
  induction h with
  | nil l => exact .refl
  | cons hp rest ih => exact .head (restore_step hp) ih

theorem describes (h : Restores initial ps l l') : ∀ p ∈ ps, p.change.Describes p.rows := by
  induction h with
  | nil l => exact nofun
  | cons hp rest ih =>
      exact List.forall_mem_cons.2 ⟨(Ledger.restore_eq_ok_iff.1 hp).1.1, ih⟩

end Restores

/-- What the log keeps of a version behind a change of another log. -/
theorem entry?_of_restore {l l' : Ledger} {c : Change} {s : RowSet}
    (h : l.restore initial c s = .ok l') (t : TableId) (v : Version) (entry : LogEntry) :
    l'.log.entry? t v = some entry ↔ l.log.entry? t v = some entry ∨
      c.table = t ∧ c.version = v ∧ entry = ⟨c.rekeyed, JsonFormat.encode s⟩ := by
  obtain ⟨⟨-, hnewer⟩, rfl⟩ := restore_eq_ok_iff.1 h
  have hnone := RowLog.entry?_eq_none_of_forall_lt hnewer
  have hcommit : l.log.commit c.rekeyed (JsonFormat.encode s) = .ok (l.restored initial c s).log :=
    RowLog.commit_eq_ok_iff.2 ⟨hnone, rfl⟩
  rw [RowLog.entry?_commit hcommit]
  split
  · next hat =>
      obtain ⟨rfl, rfl⟩ := hat
      have hnone : l.log.entry? c.rekeyed.table c.rekeyed.version = none := hnone
      rw [hnone]
      constructor
      · intro he
        exact Or.inr ⟨rfl, rfl, (Option.some.inj he).symm⟩
      · rintro (he | ⟨-, -, rfl⟩)
        · cases he
        · rfl
  · next hat =>
      constructor
      · exact Or.inl
      · rintro (he | ⟨rfl, rfl, -⟩)
        · exact he
        · exact absurd ⟨rfl, rfl⟩ hat

/-- **What the log keeps of a version behind changes of another log.** -/
theorem Restores.entry?_eq_some_iff {ps : List BackupEntry} {l l' : Ledger}
    (h : Restores initial ps l l') (t : TableId) (v : Version) (entry : LogEntry) :
    l'.log.entry? t v = some entry ↔ l.log.entry? t v = some entry ∨
      ∃ p ∈ ps, p.change.table = t ∧ p.change.version = v ∧
        entry = ⟨p.change.rekeyed, JsonFormat.encode p.rows⟩ := by
  induction h with
  | nil l => simp
  | cons hp rest ih =>
      rw [ih, entry?_of_restore hp, List.exists_mem_cons_iff, or_assoc]

end Ledger

/-! ### How far a restoration gets -/

namespace BackupChunk

section

variable {initial : Counter} {table : TableId} {l l' : Ledger}

theorem checkPlace_eq_ok_iff {c : BackupChunk} {place : Nat} :
    c.checkPlace place = .ok () ↔ c.sequence.toNat = place := Outcome.guard_eq_ok_iff

theorem restoreStart_eq_ok_iff {c : BackupChunk} {s s' : RestoreSummary} :
    c.restoreStart l (some s) = .ok s' ↔ s.table = c.table ∧ s = s' := by
  show (if s.table = c.table then Except.ok s else .error Error.mixedChunks) = .ok s' ↔ _
  split
  · next h => simp [h]
  · next h => simp [h]

theorem restoreEntry_eq_ok_iff {b : BackupEntry} :
    restoreEntry initial table l b = .ok l' ↔
      b.change.table = table ∧ l.restore initial b.change b.rows = .ok l' := by
  unfold restoreEntry
  split
  · next h => simp [h]
  · next h => simp [not_ne_iff.1 h]

end

variable (initial : Counter)

/-- Entries are written up to the first that is refused. -/
theorem restoreEntries_restores (es : List BackupEntry) (summary : RestoreSummary) (l : Ledger) :
    ∃ written rest, es = written ++ rest ∧
      Ledger.Restores initial written l (restoreEntries initial es summary l).2 ∧
      ∀ s, (restoreEntries initial es summary l).1 = .ok s → rest = [] := by
  induction es generalizing summary l with
  | nil => exact ⟨[], [], rfl, .nil l, fun _ _ => rfl⟩
  | cons e es ih =>
      rw [restoreEntries]
      split
      · exact ⟨[], e :: es, rfl, .nil l, nofun⟩
      · next l' h =>
          have hrestore := (restoreEntry_eq_ok_iff.1 h).2
          obtain ⟨written, rest, hes, hrestores, hok⟩ := ih (summary.add e) l'
          exact ⟨e :: written, rest, congrArg _ hes, .cons hrestore hrestores, hok⟩

theorem restoreChunks_restores (cs : List BackupChunk) (expected : Nat)
    (summary : Option RestoreSummary) (l : Ledger) :
    ∃ written rest, cs.flatMap (·.entries) = written ++ rest ∧
      Ledger.Restores initial written l (restoreChunks initial cs expected summary l).2 ∧
      ∀ s, (restoreChunks initial cs expected summary l).1 = .ok s → rest = [] := by
  induction cs generalizing expected summary l with
  | nil => exact ⟨[], [], rfl, .nil l, fun _ _ => rfl⟩
  | cons c cs ih =>
      rw [restoreChunks]
      split
      · exact ⟨[], _, rfl, .nil l, nofun⟩
      · next start _ =>
          obtain ⟨written, rest, hes, hrestores, hok⟩ :=
            restoreEntries_restores initial c.entries start l
          split
          · next l' h =>
              rw [h] at hrestores
              refine ⟨written, rest ++ cs.flatMap (·.entries), ?_, hrestores, nofun⟩
              rw [List.flatMap_cons, hes, List.append_assoc]
          · next summary' l' h =>
              rw [h] at hrestores hok
              cases hok summary' rfl
              obtain ⟨written', rest', hcs, hrestores', hok'⟩ := ih (expected + 1) (some summary') l'
              refine ⟨written ++ written', rest', ?_, hrestores.append hrestores', hok'⟩
              rw [List.flatMap_cons, hes, hcs, List.append_nil, List.append_assoc]

/-- **The entries of a backup are written up to the first that is refused.** -/
theorem restore_restores (cs : List BackupChunk) (l : Ledger) :
    ∃ written rest, cs.flatMap (·.entries) = written ++ rest ∧
      Ledger.Restores initial written l (restore initial cs l).2 ∧
      ∀ s, (restore initial cs l).1 = .ok s → rest = [] :=
  restoreChunks_restores initial cs 0 none l

/-- **A restoration is a run of moves**, wherever it stops. -/
theorem restore_steps (cs : List BackupChunk) (l : Ledger) :
    ReflTransGen (Ledger.Step initial) l (restore initial cs l).2 := by
  obtain ⟨written, rest, -, hrestores, -⟩ := restore_restores initial cs l
  exact hrestores.steps

end BackupChunk

end VersionedTables
