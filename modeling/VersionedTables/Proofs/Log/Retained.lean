import VersionedTables.Proofs.Backup.Restore
import VersionedTables.Proofs.Log.Acceptance

/-!
# What is retained of a ledger

A ledger whose log is written to by others, too, need not be sound: its counters may lie below what the log
has, and a version that they hand out may be taken.  Nothing is overwritten then either.  What the log has of
a version it retains, since a commit is refused where there is a change already, and the counters only
rise, since the numbers of a refused commit are not given back.

* **`RowLog.Retains`** — a log has what another one has.
* **`Counters.Rise`** — counters that are nowhere below others.
* **`Ledger.Outgrows`**, **`Ledger.append_outgrows`**, **`Ledger.outgrows_of_steps`** — what is done to a
  ledger loses nothing.
* **`Ledger.append_collides`** — a submitted row set whose version is taken.
-/

namespace VersionedTables

namespace RowLog

/-- Of every version that the log `l` has, the log `l'` has the same. -/
def Retains (l' l : RowLog) : Prop :=
  ∀ table version entry, l.entry? table version = some entry → l'.entry? table version = some entry

theorem isSome_entry?_of_change {l : RowLog} {table : TableId} {version : Version} {c : Change}
    (h : l.change table version = .ok c) : (l.entry? table version).isSome := by
  cases hentry : l.entry? table version with
  | none =>
      rw [RowLog.change, change?, hentry] at h
      cases h
  | some entry => rfl

namespace Retains

variable {l l' l'' : RowLog} {c : Change} {payload : String} {table : TableId} {version : Version}

theorem refl (l : RowLog) : l.Retains l := fun _ _ _ h => h

theorem trans (h : l'.Retains l) (h' : l''.Retains l') : l''.Retains l :=
  fun table version entry hentry => h' table version entry (h table version entry hentry)

/-- A commit finds no change of its version, and leaves the others as they are. -/
theorem of_commit (h : l.commit c payload = .ok l') : l'.Retains l := by
  intro t v entry hentry
  rw [entry?_commit h, if_neg, hentry]
  rintro ⟨rfl, rfl⟩
  rw [(commit_eq_ok_iff.1 h).1] at hentry
  cases hentry

/-- The change of a version is read as it was. -/
theorem change (h : l'.Retains l) (hc : l.change table version = .ok c) :
    l'.change table version = .ok c := by
  obtain ⟨entry, hentry⟩ := Option.isSome_iff_exists.1 (isSome_entry?_of_change hc)
  rw [RowLog.change, change?, hentry] at hc
  rw [RowLog.change, change?, h table version entry hentry]
  exact hc

/-- The rows under a key are read as they were. -/
theorem rowsAt (h : l'.Retains l) {key : ContentKey} {s : RowSet} (hs : l.rowsAt key = .ok s) :
    l'.rowsAt key = .ok s := by
  cases hentry : l.entry? key.table key.version with
  | none =>
      rw [RowLog.rowsAt, payload?, hentry] at hs
      cases hs
  | some entry =>
      rw [RowLog.rowsAt, payload?, hentry] at hs
      rw [RowLog.rowsAt, payload?, h key.table key.version entry hentry]
      exact hs

/-- The rows of a version are read as they were. -/
theorem rowSet (h : l'.Retains l) {s : RowSet} (hs : l.rowSet table version = .ok s) :
    l'.rowSet table version = .ok s := by
  obtain ⟨c, hc, hrows⟩ := Outcome.bind_eq_ok_iff.1 hs
  exact Outcome.bind_eq_ok_iff.2 ⟨c, h.change hc, h.rowsAt hrows⟩

end Retains

end RowLog

theorem Counter.Raised.trans {c c' c'' : Counter} (h : c.Raised c') (h' : c'.Raised c'') :
    c.Raised c'' := ⟨UInt64.le_trans h.rowId h'.rowId, UInt64.le_trans h.version h'.version⟩

/-- What is handed out later lies above what was handed out before. -/
theorem Counter.Reserves.lt_of_raised {c c₁ c₂ c₃ : Counter} {count count' : Nat}
    {r r' : Reservation} (h : c.Reserves count r c₁) (hraised : c₁.Raised c₂)
    (h' : c₂.Reserves count' r' c₃) :
    r.version < r'.version ∧ ∀ id ∈ r.rowIds, ∀ id' ∈ r'.rowIds, id < id' := by
  constructor
  · have hversion : c.nextVersion < c₁.nextVersion := by
      rw [UInt64.lt_iff_toNat_lt, h.nextVersion]
      omega
    rw [h.version, h'.version]
    exact UInt64.lt_of_lt_of_le hversion hraised.version
  · intro id hid id' hid'
    exact UInt64.lt_of_lt_of_le (h.mem_rowIds hid).2
      (UInt64.le_trans hraised.rowId (h'.mem_rowIds hid').1)

namespace Counters

/-- Every table that has counters in `cs` has counters in `cs'`, and they are not lower. -/
def Rise (cs cs' : Counters) : Prop :=
  ∀ table c, cs.get? table = some c → ∃ c', cs'.get? table = some c' ∧ c.Raised c'

namespace Rise

variable {cs cs' cs'' : Counters} {table : TableId} {c initial : Counter}

theorem refl (cs : Counters) : cs.Rise cs := fun _ c h => ⟨c, h, .refl c⟩

theorem trans (h : cs.Rise cs') (h' : cs'.Rise cs'') : cs.Rise cs'' := by
  intro table c hc
  obtain ⟨c', hc', hraised⟩ := h table c hc
  obtain ⟨c'', hc'', hraised'⟩ := h' table c' hc'
  exact ⟨c'', hc'', hraised.trans hraised'⟩

theorem of_insert (h : (cs.current table initial).Raised c) : cs.Rise (cs.insert table c) := by
  intro t c' hc'
  rw [SortedMap.get?_insert]
  split
  · next ht =>
      subst ht
      rw [Counters.current, hc'] at h
      exact ⟨c, rfl, h⟩
  · exact ⟨c', hc', .refl c'⟩

end Rise

end Counters

namespace Ledger

/-- The ledger `l'` has what the ledger `l` has, and its counters are not lower. -/
structure Outgrows (l' l : Ledger) : Prop where
  log : l'.log.Retains l.log
  counters : l.counters.Rise l'.counters

variable {initial : Counter} {l l' l'' : Ledger} {table : TableId} {schema : List Column}
  {delta : RowSet} {r : Reservation} {counters : Counters}

theorem Outgrows.refl (l : Ledger) : l.Outgrows l := ⟨.refl l.log, .refl l.counters⟩

theorem Outgrows.trans (h : l'.Outgrows l) (h' : l''.Outgrows l') : l''.Outgrows l :=
  ⟨h.log.trans h'.log, h.counters.trans h'.counters⟩

/-- A run of moves loses nothing. -/
theorem outgrows_of_steps (h : Relation.ReflTransGen (Step initial) l l') : l'.Outgrows l := by
  induction h with
  | refl => exact .refl l
  | tail _ hstep ih =>
      refine ih.trans ?_
      cases hstep with
      | raise table c raised _ => exact ⟨.refl _, .of_insert raised⟩
      | commit change s log c _ _ commits _ raised => exact ⟨.of_commit commits, .of_insert raised⟩

theorem rise_of_reserve {count : Nat} {outcome : Except Error Reservation}
    (h : l.counters.reserve table count initial = (outcome, counters)) :
    l.counters.Rise counters := by
  cases outcome with
  | error error =>
      rw [(Counters.reserve_eq_error h).2]
      exact .of_insert (.refl _)
  | ok r =>
      obtain ⟨c, hc, rfl⟩ := Counters.reserve_eq_ok h
      exact .of_insert hc.raised

theorem retains_of_commit {log : RowLog} {user : UserId} {millis : UInt64} {references : RowReferences}
    (h : commit l.log delta r user millis = .ok (references, log)) : log.Retains l.log := by
  obtain ⟨s, -, h⟩ := Outcome.bind_eq_ok_iff.1 h
  obtain ⟨log', hlog, h⟩ := Outcome.bind_eq_ok_iff.1 h
  cases h
  exact .of_commit hlog

/-- **A submitted row set loses nothing**, whether it is committed or refused, and for whatever reason. -/
theorem append_outgrows (l : Ledger) (initial : Counter) (user : UserId) (millis : UInt64)
    (table : TableId) (schema : List Column) (delta : RowSet) :
    (l.append initial user millis table schema delta).2.Outgrows l := by
  unfold append
  split
  · exact .refl l
  · split
    · next hres => exact ⟨.refl l.log, rise_of_reserve hres⟩
    · next hres =>
        split
        · exact ⟨.refl l.log, rise_of_reserve hres⟩
        · next hcommit => exact ⟨retains_of_commit hcommit, rise_of_reserve hres⟩

/-- **A submitted row set whose version is taken** is refused for that reason.  Its numbers are lost. -/
theorem append_collides (user : UserId) (millis : UInt64)
    (hcheck : delta.check table schema (l.counters.current table initial).lastRowId = .ok ())
    (hres : l.counters.reserve table delta.newRows initial = (.ok r, counters))
    (htaken : (l.log.entry? table r.version).isSome) :
    l.append initial user millis table schema delta =
      (.error (.changeExists ⟨table, r.version⟩), { l with counters }) := by
  obtain ⟨c, hc, -⟩ := Counters.reserve_eq_ok hres
  obtain ⟨rows, hstamped, -⟩ := RowSet.exists_stamped hc.length_rowIds
  have htable : delta.table = table := (RowSet.check_eq_ok_iff_wellFormed.1 hcheck).table
  have hcommit : commit l.log delta r user millis = .error (.changeExists ⟨table, r.version⟩) := by
    subst htable
    rw [commit, hstamped, Outcome.ok_bind, RowLog.commit]
    show (if (l.log.entry? delta.table r.version).isSome then _ else _) >>= _ = _
    rw [if_pos htaken]
    rfl
  rw [append, hcheck, hres]
  simp only [hcommit]

end Ledger

end VersionedTables
