import Mathlib.Logic.Relation
import VersionedTables.Proofs.Log.Commit
import VersionedTables.Proofs.Log.Stamp

/-!
# The log and its counters

The counters and the log are kept apart, and no operation compares them.  What holds them together is
an invariant: the counters of a table stand above every version and every row id that the log has of
the table, as far as there are numbers above.  A reservation that is granted is therefore new to the
log, and no commit ever finds its version taken.

* **`Ledger.Step`** — the moves that a ledger makes: counters go up, or a change is committed behind
  all changes of its table, with the counters put above its numbers.
* **`Ledger.Sound`**, **`Ledger.Sound.step`** — the invariant, and that every move keeps it.
* **`Ledger.append_cases`** — everything that the commit of a submitted row set can do.
* **`Ledger.restore_eq_ok_iff`** — when a change of another log is committed, and as what.
-/

namespace VersionedTables

namespace Ledger

/-! ### Moves -/

/-- One move of a ledger. -/
inductive Step (initial : Counter) (l : Ledger) : Ledger → Prop
  | raise (table : TableId) (c : Counter)
      (raised : (l.counters.current table initial).Raised c)
      (sound : initial.Sound (l.counters.current table initial) → initial.Sound c) :
      Step initial l { l with counters := l.counters.insert table c }
  | commit (change : Change) (s : RowSet) (log : RowLog) (c : Counter)
      (describes : change.Describes s)
      (contentKey : change.contentKey = ⟨change.table, change.version⟩)
      (commits : l.log.commit change (JsonFormat.encode s) = .ok log)
      (newer : ∀ v, (l.log.entry? change.table v).isSome → v < change.version)
      (raised : (l.counters.current change.table initial).Raised c)
      (sound : initial.Sound (l.counters.current change.table initial) → initial.Sound c)
      (version : Bounded.addSat change.version 1 ≤ c.nextVersion)
      (rowId : ∀ id ∈ s.rowIds, Bounded.addSat id 1 ≤ c.nextRowId) :
      Step initial l ⟨log, l.counters.insert change.table c⟩

structure Sound (initial : Counter) (l : Ledger) : Prop where
  log : l.log.Sound
  counter : ∀ t, initial.Sound (l.counters.current t initial)
  version : ∀ t v, (l.log.entry? t v).isSome →
    Bounded.addSat v 1 ≤ (l.counters.current t initial).nextVersion
  rowId : ∀ t v s, l.log.rowSet t v = .ok s → ∀ id ∈ s.rowIds,
    Bounded.addSat id 1 ≤ (l.counters.current t initial).nextRowId

section

variable {initial : Counter} {l l' : Ledger}

theorem sound_empty (h : initial.lastRowId = none) : Sound initial {} := by
  have hcounter : ∀ t, Counters.current ∅ t initial = initial := fun _ => rfl
  refine ⟨RowLog.sound_empty, ?_, ?_, ?_⟩
  · intro t
    rw [hcounter t]
    exact Counter.sound_initial h
  · intro t v hv
    cases hv
  · intro t v s hs
    cases hs

theorem Sound.raise (hl : l.Sound initial) {table : TableId} {c : Counter}
    (raised : (l.counters.current table initial).Raised c) (sound : initial.Sound c) :
    Sound initial { l with counters := l.counters.insert table c } := by
  have hcounter : ∀ t, (l.counters.current t initial).Raised
      (Counters.current (l.counters.insert table c) t initial) := by
    intro t
    rw [Counters.current_insert]
    split
    · next h =>
        rw [h]
        exact raised
    · exact .refl _
  refine ⟨hl.log, ?_, ?_, ?_⟩
  · intro t
    show initial.Sound (Counters.current (l.counters.insert table c) t initial)
    rw [Counters.current_insert]
    split
    · exact sound
    · exact hl.counter t
  · intro t v hv
    exact UInt64.le_trans (hl.version t v hv) (hcounter t).version
  · intro t v s hs id hid
    exact UInt64.le_trans (hl.rowId t v s hs id hid) (hcounter t).rowId

theorem Sound.commit (hl : l.Sound initial) {change : Change} {s : RowSet} {log : RowLog}
    {c : Counter} (describes : change.Describes s)
    (contentKey : change.contentKey = ⟨change.table, change.version⟩)
    (commits : l.log.commit change (JsonFormat.encode s) = .ok log)
    (raised : (l.counters.current change.table initial).Raised c) (sound : initial.Sound c)
    (version : Bounded.addSat change.version 1 ≤ c.nextVersion)
    (rowId : ∀ id ∈ s.rowIds, Bounded.addSat id 1 ≤ c.nextRowId) :
    Sound initial ⟨log, l.counters.insert change.table c⟩ := by
  -- With the counters raised first, only the new version is left to be looked at.
  have hr := hl.raise raised sound
  refine ⟨hl.log.commit describes contentKey commits, hr.counter, ?_, ?_⟩
  · intro t v hv
    rw [RowLog.entry?_commit commits] at hv
    by_cases htv : t = change.table ∧ v = change.version
    · obtain ⟨rfl, rfl⟩ := htv
      show _ ≤ (Counters.current (l.counters.insert change.table c) _ initial).nextVersion
      rw [Counters.current_insert, if_pos rfl]
      exact version
    · rw [if_neg htv] at hv
      exact hr.version t v hv
  · intro t v s' hs id hid
    rcases (RowLog.rowSet_commit hl.log describes contentKey commits t v s').1 hs with
      ⟨rfl, -, rfl⟩ | ⟨-, hs⟩
    · show _ ≤ (Counters.current (l.counters.insert change.table c) _ initial).nextRowId
      rw [Counters.current_insert, if_pos rfl]
      exact rowId id hid
    · exact hr.rowId t v s' hs id hid

/-- **Every move keeps the ledger sound.** -/
theorem Sound.step (hl : l.Sound initial) (h : l.Step initial l') : l'.Sound initial := by
  cases h with
  | raise table c raised sound => exact hl.raise raised (sound (hl.counter table))
  | commit change s log c describes contentKey commits newer raised sound version rowId =>
      exact hl.commit describes contentKey commits raised (sound (hl.counter change.table))
        version rowId

/-- A run of moves keeps the ledger sound. -/
theorem Sound.steps (hl : l.Sound initial)
    (h : Relation.ReflTransGen (Step initial) l l') : l'.Sound initial := by
  induction h with
  | refl => exact hl
  | tail _ hstep ih => exact ih.step hstep

end

/-! ### What the counters hand out is new -/

section

variable {initial c : Counter} {l : Ledger} {table : TableId} {count : Nat} {r : Reservation}

theorem Sound.lt_version (hl : l.Sound initial)
    (hr : (l.counters.current table initial).Reserves count r c) {v : Version}
    (hv : (l.log.entry? table v).isSome) : v < r.version := by
  rw [hr.version]
  exact Bounded.lt_of_addSat_le (hl.version table v hv) hr.nextVersion_lt

theorem Sound.lt_rowId (hl : l.Sound initial)
    (hr : (l.counters.current table initial).Reserves count r c) {v : Version} {s : RowSet}
    (hs : l.log.rowSet table v = .ok s) {id : RowId} (hid : id ∈ s.rowIds) {fresh : RowId}
    (hf : fresh ∈ r.rowIds) : id < fresh := by
  have hmem := hr.mem_rowIds hf
  have hnext := hr.nextRowId
  have htop := Bounded.toNat_le_greatest c.nextRowId
  have hlt : (l.counters.current table initial).nextRowId < c.nextRowId :=
    UInt64.lt_of_le_of_lt hmem.1 hmem.2
  rw [UInt64.lt_iff_toNat_lt] at hlt
  have hbelow := Bounded.lt_of_addSat_le (hl.rowId table v s hs id hid) (by omega)
  exact UInt64.lt_of_lt_of_le hbelow hmem.1

end

/-! ### Submitted row sets -/

/-- How a submitted row set is committed: it is stamped under a reservation, and written. -/
structure Commits (initial : Counter) (l : Ledger) (user : UserId) (millis : UInt64)
    (delta : RowSet) (r : Reservation) (c : Counter) (rows : List Row)
    (references : RowReferences) (l' : Ledger) : Prop where
  reserves : (l.counters.current delta.table initial).Reserves delta.newRows r c
  stamped : RowSet.Stamped r.version r.rowIds delta.rows rows
  references : references =
    ⟨delta.table, r.version, delta.headers, rows.filterMap (·.rowId)⟩
  log : l.log.commit (.ofRowSet { delta with rows } r user millis)
    (JsonFormat.encode { delta with rows }) = .ok l'.log
  counters : l'.counters = l.counters.insert delta.table c

section

variable {initial : Counter} {l l' : Ledger}

/-- In a sound ledger a reservation is always large enough and its version never taken. -/
theorem Sound.exists_commits (hl : l.Sound initial) (user : UserId) (millis : UInt64)
    {delta : RowSet} {r : Reservation} {c : Counter}
    (hr : (l.counters.current delta.table initial).Reserves delta.newRows r c) :
    ∃ rows references log, Ledger.commit l.log delta r user millis = .ok (references, log) ∧
      Commits initial l user millis delta r c rows references
        ⟨log, l.counters.insert delta.table c⟩ := by
  obtain ⟨rows, hstamped, hst⟩ := RowSet.exists_stamped hr.length_rowIds
  have hnone : l.log.entry? delta.table r.version = none :=
    RowLog.entry?_eq_none_of_forall_lt (fun _ hv => hl.lt_version hr hv)
  obtain ⟨log, hcommit⟩ : ∃ log, l.log.commit (.ofRowSet { delta with rows } r user millis)
      (JsonFormat.encode { delta with rows }) = .ok log :=
    ⟨_, RowLog.commit_eq_ok_iff.2 ⟨hnone, rfl⟩⟩
  refine ⟨rows, ⟨delta.table, r.version, delta.headers, rows.filterMap (·.rowId)⟩, log, ?_,
    hr, hst, rfl, hcommit, rfl⟩
  rw [Ledger.commit, hstamped]
  show (l.log.commit _ _ >>= fun log => pure (_, log)) = _
  rw [hcommit]
  rfl

/-- **Everything that the commit of a submitted row set can do**: it is refused by the check and
takes no numbers, or by the counters, or it is committed. -/
theorem append_cases (hl : l.Sound initial) (user : UserId) (millis : UInt64) (table : TableId)
    (schema : List Column) (delta : RowSet) :
    (∃ e, delta.check table schema (l.counters.current table initial).lastRowId = .error e ∧
      l.append initial user millis table schema delta = (.error e, l)) ∨
    (∃ columns,
      delta.Acceptable table schema (l.counters.current table initial).lastRowId columns ∧
      ((∃ e, (l.counters.current table initial).reserve table delta.newRows = .error e ∧
        l.append initial user millis table schema delta = (.error e,
          { l with
            counters := l.counters.insert table (l.counters.current table initial) })) ∨
      ∃ r c rows references l',
        Commits initial l user millis delta r c rows references l' ∧
        l.append initial user millis table schema delta = (.ok references, l'))) := by
  cases hcheck : delta.check table schema (l.counters.current table initial).lastRowId with
  | error e => exact Or.inl ⟨e, rfl, by rw [append, hcheck]⟩
  | ok u =>
      obtain ⟨columns, hacc⟩ := RowSet.check_eq_ok_iff.1 hcheck
      refine Or.inr ⟨columns, hacc, ?_⟩
      cases hres : l.counters.reserve table delta.newRows initial with
      | mk outcome counters =>
          cases outcome with
          | error e =>
              obtain ⟨he, hcs⟩ := Counters.reserve_eq_error hres
              subst hcs
              exact Or.inl ⟨e, he, by simp only [append, hcheck, hres]⟩
          | ok r =>
              obtain ⟨c, hc, hcs⟩ := Counters.reserve_eq_ok hres
              have ht := hacc.table
              subst hcs
              subst ht
              -- Behind a reservation that was granted nothing is refused.
              obtain ⟨rows, references, log, hcommit, hcommits⟩ :=
                hl.exists_commits user millis hc
              exact Or.inr ⟨r, c, rows, references, _, hcommits,
                by simp only [append, hcheck, hres, hcommit]⟩

end

section

variable {initial c : Counter} {l l' : Ledger} {user : UserId} {millis : UInt64} {table : TableId}
  {schema columns : List Column} {delta : RowSet} {r : Reservation} {rows : List Row}
  {references : RowReferences}

theorem Commits.describes (h : Commits initial l user millis delta r c rows references l')
    (hl : l.Sound initial)
    (hs : delta.Acceptable delta.table schema (l.counters.current delta.table initial).lastRowId
      columns) :
    (Change.ofRowSet { delta with rows } r user millis).Describes { delta with rows } :=
  h.stamped.describes hs (hl.counter delta.table) h.reserves user millis

/-- A submitted row set that is committed is one move of the ledger. -/
theorem Commits.step (h : Commits initial l user millis delta r c rows references l')
    (hl : l.Sound initial)
    (hs : delta.Acceptable table schema (l.counters.current table initial).lastRowId columns) :
    l.Step initial l' := by
  have ht := hs.table
  subst ht
  have hc := hl.counter delta.table
  -- The numbers of the commit lie below the counters that the reservation left behind.
  have hversion : Bounded.addSat r.version 1 ≤ c.nextVersion := by
    refine Bounded.addSat_one_le_of_lt ?_
    have hnext := h.reserves.nextVersion
    rw [h.reserves.version, UInt64.lt_iff_toNat_lt]
    omega
  have hrowId : ∀ id ∈ rows.filterMap (·.rowId), Bounded.addSat id 1 ≤ c.nextRowId := by
    intro id hid
    exact Bounded.addSat_one_le_of_lt (h.stamped.lt_nextRowId hs hc h.reserves hid)
  have hstep : l.Step initial ⟨l'.log, l.counters.insert delta.table c⟩ := .commit _ _ l'.log c
    (h.describes hl hs) rfl h.log (fun _ hv => hl.lt_version h.reserves hv) h.reserves.raised
    h.reserves.sound hversion hrowId
  have hl' : l' = ⟨l'.log, l.counters.insert delta.table c⟩ := by
    rw [← h.counters]
  rw [hl']
  exact hstep

/-- The rows that are committed are read back. -/
theorem Commits.rowSet_eq (h : Commits initial l user millis delta r c rows references l')
    (hl : l.Sound initial)
    (hs : delta.Acceptable delta.table schema (l.counters.current delta.table initial).lastRowId
      columns) : l'.log.rowSet delta.table r.version = .ok { delta with rows } :=
  (RowLog.rowSet_commit hl.log (h.describes hl hs) rfl h.log _ _ _).2 (Or.inl ⟨rfl, rfl, rfl⟩)

/-- So is the change. -/
theorem Commits.change_eq (h : Commits initial l user millis delta r c rows references l') :
    l'.log.change delta.table r.version = .ok (.ofRowSet { delta with rows } r user millis) := by
  have hentry := RowLog.entry?_commit h.log delta.table r.version
  rw [if_pos ⟨rfl, rfl⟩] at hentry
  rw [RowLog.change, RowLog.change?, hentry]
  rfl

end

/-! ### Changes of another log -/

section

variable {initial : Counter} {l l' : Ledger} {c : Change} {s : RowSet}

theorem checkNewer_eq_ok_iff {log : RowLog} :
    checkNewer log c = .ok () ↔ ∀ v, (log.entry? c.table v).isSome → v < c.version := by
  unfold checkNewer
  cases h : log.latest? c.table with
  | none =>
      have hnone := RowLog.latest?_eq_none_iff.1 h
      simp [hnone]
  | some latest =>
      show (if c.version ≤ latest then _ else _) = _ ↔ _
      constructor
      · intro hok v hv
        split at hok
        · cases hok
        · next hlt =>
            exact UInt64.lt_of_le_of_lt (RowLog.le_of_latest? h hv) (UInt64.not_le.1 hlt)
      · intro hall
        have hlt := hall latest (RowLog.isSome_entry?_of_latest? h)
        rw [if_neg (UInt64.not_le.2 hlt)]

def restored (initial : Counter) (l : Ledger) (c : Change) (s : RowSet) : Ledger where
  log := l.log.insert c.table
    ((l.log.ofTable c.table).insert c.version ⟨c.rekeyed, JsonFormat.encode s⟩)
  counters := l.counters.insert c.table ((l.counters.current c.table initial).advance
    (nextRowId c s) (Bounded.addSat c.version 1))

/-- **When a change of another log is committed, and as what.** -/
theorem restore_eq_ok_iff : l.restore initial c s = .ok l' ↔
    (c.Describes s ∧ ∀ v, (l.log.entry? c.table v).isSome → v < c.version) ∧
      l' = l.restored initial c s := by
  unfold restore
  rw [Outcome.bind_eq_ok_iff]
  constructor
  · intro h
    obtain ⟨⟨⟩, hd, h⟩ := h
    obtain ⟨⟨⟩, hn, h⟩ := Outcome.bind_eq_ok_iff.1 h
    obtain ⟨log, hlog, h⟩ := Outcome.bind_eq_ok_iff.1 h
    have hd := Change.checkRows_eq_ok_iff.1 hd
    have hn := checkNewer_eq_ok_iff.1 hn
    have hlog := (RowLog.commit_eq_ok_iff.1 hlog).2
    cases h
    rw [hlog]
    exact ⟨⟨hd, hn⟩, rfl⟩
  · intro h
    obtain ⟨⟨hd, hn⟩, rfl⟩ := h
    have hnone := RowLog.entry?_eq_none_of_forall_lt hn
    refine ⟨(), Change.checkRows_eq_ok_iff.2 hd, ?_⟩
    refine Outcome.bind_eq_ok_iff.2 ⟨(), checkNewer_eq_ok_iff.2 hn, ?_⟩
    refine Outcome.bind_eq_ok_iff.2 ⟨_, RowLog.commit_eq_ok_iff.2 ⟨hnone, rfl⟩, ?_⟩
    rfl

theorem addSat_one_le_nextRowId {id : RowId} (h : id ∈ s.rowIds) :
    Bounded.addSat id 1 ≤ nextRowId c s := by
  have hmem : id ∈ s.rowIds ++ c.maxRowId.toList := List.mem_append_left _ h
  unfold nextRowId
  cases hm : (s.rowIds ++ c.maxRowId.toList).max? with
  | none =>
      rw [List.max?_eq_none_iff.1 hm] at hmem
      cases hmem
  | some m =>
      exact Bounded.addSat_le_addSat ((List.max?_eq_some_iff.1 hm).2 id hmem) 1

theorem describes_rekeyed : c.rekeyed.Describes s ↔ c.Describes s := by
  constructor
  · intro h
    exact ⟨h.table, h.nonempty, h.rowCount, h.columns, h.bounds, h.headers, h.rowIds, h.rows⟩
  · intro h
    exact ⟨h.table, h.nonempty, h.rowCount, h.columns, h.bounds, h.headers, h.rowIds, h.rows⟩

/-- A change of another log that is committed is one move of the ledger. -/
theorem restore_step (h : l.restore initial c s = .ok l') : l.Step initial l' := by
  obtain ⟨⟨hd, hn⟩, rfl⟩ := restore_eq_ok_iff.1 h
  have hle := Counter.le_advance (l.counters.current c.table initial) (nextRowId c s)
    (Bounded.addSat c.version 1)
  refine Step.commit c.rekeyed s _ _ (describes_rekeyed.2 hd) rfl ?_ hn
    (Counter.raised_advance _ _ _) (fun hs => Counter.sound_advance hs _ _) hle.2 ?_
  · exact RowLog.commit_eq_ok_iff.2 ⟨RowLog.entry?_eq_none_of_forall_lt hn, rfl⟩
  · intro id hid
    exact UInt64.le_trans (addSat_one_le_nextRowId hid) hle.1

end

end Ledger

end VersionedTables
