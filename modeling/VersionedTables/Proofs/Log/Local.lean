import VersionedTables.Backup.Restore
import VersionedTables.Proofs.Locality
import VersionedTables.Proofs.Log.Alike
import VersionedTables.Proofs.Log.Ledger

/-!
# What the ledger does to one table

A table is named again and again: by the caller, by the row set, by every chunk, by every entry and by the
key of every change.  Whatever these names are, everything that is done for a table reads and writes the
history and the counter of this table only, a restoration that ends on the way too.

* **`Ledger.share`** — what a ledger holds of a table.
* **`Ledger.append_local`** — a submitted row set.
* **`BackupChunk.restore_local`** — the chunks of a backup, the first of which names the table.
-/

namespace VersionedTables

namespace Ledger

def share (l : Ledger) (table : TableId) : Option (SortedMap Version LogEntry) × Option Counter :=
  (l.log.get? table, l.counters.get? table)

section

variable {l l' : Ledger} {table t : TableId}

theorem ofTable_of_share (h : l'.share table = l.share table) :
    l'.log.ofTable table = l.log.ofTable table := by
  have hlog : l'.log.get? table = l.log.get? table := congrArg Prod.fst h
  rw [RowLog.ofTable, RowLog.ofTable, hlog]

theorem current_of_share (h : l'.share table = l.share table) (initial : Counter) :
    l'.counters.current table initial = l.counters.current table initial := by
  have hcounter : l'.counters.get? table = l.counters.get? table := congrArg Prod.snd h
  rw [Counters.current, Counters.current, hcounter]

theorem share_insert (l : Ledger) (m : SortedMap Version LogEntry) (c : Counter) :
    share ⟨l.log.insert table m, l.counters.insert table c⟩ t =
      if t = table then (some m, some c) else l.share t := by
  unfold share
  rw [SortedMap.get?_insert, SortedMap.get?_insert]
  split <;> rfl

theorem share_insert_counter (l : Ledger) (c : Counter) :
    share { l with counters := l.counters.insert table c } t =
      if t = table then (l.log.get? table, some c) else l.share t := by
  unfold share
  rw [SortedMap.get?_insert]
  split
  · next h => rw [h]
  · rfl

theorem share_insert_log (l : Ledger) (m : SortedMap Version LogEntry) :
    share { l with log := l.log.insert table m } t =
      if t = table then (some m, l.counters.get? table) else l.share t := by
  unfold share
  rw [SortedMap.get?_insert]
  split
  · next h => rw [h]
  · rfl

end

/-! ### Counters -/

/-- An action that does nothing but set the counter of a table, to what depends on the counter. -/
theorem local_of_counter {α : Type} {table : TableId} {f : Ledger → α × Ledger} (initial : Counter)
    (h : ∀ c, ∃ a c', ∀ l, l.counters.current table initial = c →
      f l = (a, { l with counters := l.counters.insert table c' })) : Local share table f := by
  constructor
  · intro l t ht
    obtain ⟨a, c', hf⟩ := h (l.counters.current table initial)
    rw [hf l rfl, share_insert_counter, if_neg ht]
  · intro l l' heq
    obtain ⟨a, c', hf⟩ := h (l.counters.current table initial)
    rw [hf l rfl, hf l' (current_of_share heq initial), share_insert_counter, share_insert_counter,
      if_pos rfl, if_pos rfl]
    exact ⟨rfl, congrArg (·, some c') (congrArg Prod.fst heq)⟩

def reserve (initial : Counter) (table : TableId) (count : Nat) (l : Ledger) :
    Except Error Reservation × Ledger :=
  ((l.counters.reserve table count initial).1,
    { l with counters := (l.counters.reserve table count initial).2 })

theorem reserve_local (initial : Counter) (table : TableId) (count : Nat) :
    Local share table (reserve initial table count) := by
  refine local_of_counter initial ?_
  intro c
  obtain ⟨outcome, c', h⟩ := Counters.exists_reserve initial c table count
  refine ⟨outcome, c', ?_⟩
  intro l hl
  rw [reserve, h l.counters hl]

def advance (initial : Counter) (table : TableId) (rowId : RowId) (version : Version) (l : Ledger) :
    Counter × Ledger :=
  ((l.counters.advance table rowId version initial).1,
    { l with counters := (l.counters.advance table rowId version initial).2 })

theorem advance_local (initial : Counter) (table : TableId) (rowId : RowId) (version : Version) :
    Local share table (advance initial table rowId version) := by
  refine local_of_counter initial ?_
  intro c
  refine ⟨c.advance rowId version, c.advance rowId version, ?_⟩
  rintro l rfl
  rfl

/-! ### Submitted row sets -/

/-- A change is refused, or written, for what the log has of its table. -/
theorem commit_agree {l l' : RowLog} {c : Change} (h : l'.get? c.table = l.get? c.table)
    (payload : String) :
    Outcome.Agree (fun log log' => log'.get? c.table = log.get? c.table) (l.commit c payload)
      (l'.commit c payload) := by
  have hofTable : l'.ofTable c.table = l.ofTable c.table := by
    rw [RowLog.ofTable, RowLog.ofTable, h]
  unfold RowLog.commit RowLog.entry?
  rw [hofTable]
  split
  · exact .error _
  · refine .ok ?_
    rw [SortedMap.get?_insert_self, SortedMap.get?_insert_self]

def write (delta : RowSet) (r : Reservation) (user : UserId) (millis : UInt64) (l : Ledger) :
    Except Error (RowReferences × Ledger) :=
  (commit l.log delta r user millis).map (fun p => (p.1, { l with log := p.2 }))

theorem write_local (delta : RowSet) (r : Reservation) (user : UserId) (millis : UInt64) :
    Local share delta.table (Action.attempt (write delta r user millis)) := by
  refine .attempt ?_ ?_
  · intro l references l' h t ht
    obtain ⟨⟨references', log⟩, hcommit, hp⟩ := Outcome.map_eq_ok_iff.1 h
    cases hp
    obtain ⟨s, hs, hcommit⟩ := Outcome.bind_eq_ok_iff.1 hcommit
    obtain ⟨log', hlog, hp⟩ := Outcome.bind_eq_ok_iff.1 hcommit
    cases hp
    obtain ⟨rows, -, rfl⟩ := Outcome.map_eq_ok_iff.1 hs
    rw [(RowLog.commit_eq_ok_iff.1 hlog).2]
    exact (share_insert_log l _).trans (if_neg ht)
  · intro l l' h
    have hlog : l'.log.get? delta.table = l.log.get? delta.table := congrArg Prod.fst h
    have hcounter : l'.counters.get? delta.table = l.counters.get? delta.table := congrArg Prod.snd h
    have hcommit : Outcome.Agree
        (fun p p' => p'.1 = p.1 ∧ p'.2.get? delta.table = p.2.get? delta.table)
        (commit l.log delta r user millis) (commit l'.log delta r user millis) := by
      unfold commit RowSet.stamped
      cases RowSet.stampRows r.version r.rowIds delta.rows with
      | error e => exact .error e
      | ok rows =>
          exact (commit_agree (c := .ofRowSet { delta with rows } r user millis) hlog _).andThen
            (fun log log' heq => .ok ⟨rfl, heq⟩)
    exact hcommit.map (fun p p' hp => ⟨hp.1, Prod.ext hp.2 hcounter⟩)

/-- A row set is checked, then numbers are taken for it, then it is written. -/
theorem append_eq_andThen (initial : Counter) (user : UserId) (millis : UInt64) (table : TableId)
    (schema : List Column) (delta : RowSet) :
    (fun l => append l initial user millis table schema delta) =
      Action.andThen
        (Action.query fun l => delta.check table schema (l.counters.current table initial).lastRowId)
        (fun _ => Action.andThen (reserve initial table delta.newRows)
          (fun r => Action.attempt (write delta r user millis))) := by
  funext l
  unfold append Action.andThen Action.query
  dsimp only
  cases delta.check table schema (l.counters.current table initial).lastRowId with
  | error e => rfl
  | ok u =>
      dsimp only [reserve]
      generalize l.counters.reserve table delta.newRows initial = settled
      obtain ⟨outcome, counters⟩ := settled
      cases outcome with
      | error e => rfl
      | ok r =>
          unfold Action.attempt write
          dsimp only
          cases commit l.log delta r user millis with
          | error e => rfl
          | ok p => rfl

/-- **A submitted row set** is refused or committed for what is held of the table it is submitted to, and
nothing of any other table changes, whatever table the row set names. -/
theorem append_local (initial : Counter) (user : UserId) (millis : UInt64) (table : TableId)
    (schema : List Column) (delta : RowSet) :
    Local share table (fun l => l.append initial user millis table schema delta) := by
  rw [append_eq_andThen]
  refine .andThen (.query ?_) ?_
  · intro l l' h
    rw [current_of_share h]
  · intro l u hcheck
    obtain ⟨columns, hs⟩ := RowSet.check_eq_ok_iff.1 hcheck
    refine (reserve_local initial table delta.newRows).andThen ?_
    intro l r _
    rw [← hs.table]
    exact write_local delta r user millis

/-! ### Changes of another log -/

theorem restored_local (initial : Counter) (c : Change) (s : RowSet) :
    Local share c.table (Action.attempt fun l => (l.restore initial c s).map ((), ·)) := by
  refine .attempt ?_ ?_
  · intro l u l' h t ht
    obtain ⟨l₁, hrestore, hp⟩ := Outcome.map_eq_ok_iff.1 h
    cases hp
    rw [(restore_eq_ok_iff.1 hrestore).2]
    exact (share_insert l _ _).trans (if_neg ht)
  · intro l l' h
    have hnewer : checkNewer l'.log c = checkNewer l.log c := by
      rw [checkNewer, checkNewer, RowLog.latest?, RowLog.latest?, ofTable_of_share h]
    have hlog : l'.log.get? c.rekeyed.table = l.log.get? c.rekeyed.table := congrArg Prod.fst h
    have hrestore : Outcome.Agree (fun p p' => p'.share c.table = p.share c.table)
        (l.restore initial c s) (l'.restore initial c s) := by
      unfold restore
      rw [hnewer]
      refine .bind _ (fun _ => .bind _ (fun _ => (commit_agree hlog _).andThen ?_))
      intro log log' heq
      refine .ok ?_
      show (log'.get? c.table, SortedMap.get? (l'.counters.insert c.table _) c.table) =
        (log.get? c.table, SortedMap.get? (l.counters.insert c.table _) c.table)
      rw [SortedMap.get?_insert_self, SortedMap.get?_insert_self, current_of_share h]
      exact Prod.ext heq rfl
    exact hrestore.map (fun p p' hp => ⟨rfl, hp⟩)

end Ledger

/-! ### Backups -/

namespace BackupChunk

variable (initial : Counter)

theorem restoreEntry_local (table : TableId) (e : BackupEntry) :
    Local Ledger.share table (Action.attempt fun l => (restoreEntry initial table l e).map ((), ·)) := by
  unfold restoreEntry
  by_cases ht : e.change.table = table
  · subst ht
    simp only [ne_eq, not_true_eq_false, if_false]
    exact Ledger.restored_local initial e.change e.rows
  · simp only [ne_eq, ht, not_false_eq_true, if_true]
    exact .query (fun _ _ _ => rfl)

/-- The first entry is committed, and then the others. -/
theorem restoreEntries_cons (e : BackupEntry) (es : List BackupEntry) (summary : RestoreSummary) :
    restoreEntries initial (e :: es) summary =
      Action.andThen (Action.attempt fun l => (restoreEntry initial summary.table l e).map ((), ·))
        (fun _ => restoreEntries initial es (summary.add e)) := by
  funext l
  unfold restoreEntries Action.andThen Action.attempt
  dsimp only
  cases restoreEntry initial summary.table l e with
  | error e => rfl
  | ok l' => rfl

theorem restoreEntries_local (es : List BackupEntry) (summary : RestoreSummary) :
    Local Ledger.share summary.table (restoreEntries initial es summary) := by
  induction es generalizing summary with
  | nil => exact .query (fun _ _ _ => rfl)
  | cons e es ih =>
      rw [restoreEntries_cons]
      exact (restoreEntry_local initial summary.table e).andThen (fun _ _ _ => ih (summary.add e))

/-- What entries held is told of the table that they were restored to. -/
theorem table_of_restoreEntries {es : List BackupEntry} {summary summary' : RestoreSummary} {l : Ledger}
    (h : (restoreEntries initial es summary l).1 = .ok summary') : summary'.table = summary.table := by
  induction es generalizing summary l with
  | nil =>
      cases h
      rfl
  | cons e es ih =>
      unfold restoreEntries at h
      cases hentry : restoreEntry initial summary.table l e with
      | error e' =>
          rw [hentry] at h
          cases h
      | ok l' =>
          rw [hentry] at h
          have htable := ih h
          exact htable

/-- A chunk is restored to the table of the chunks before it, or else to its own. -/
theorem table_of_restoreStart {c : BackupChunk} {l : Ledger} {summary : Option RestoreSummary}
    {start : RestoreSummary} {table : TableId} (h : c.restoreStart l summary = .ok start)
    (htable : ∀ s ∈ summary, s.table = table) (hfirst : summary = none → c.table = table) :
    start.table = table := by
  cases summary with
  | some s =>
      simp only [restoreStart] at h
      split at h
      · cases h
        exact htable start rfl
      · cases h
  | none =>
      simp only [restoreStart] at h
      split at h
      · cases h
      · cases h
        exact hfirst rfl

/-- The place of the first chunk is checked, its entries are committed, and then the other chunks. -/
theorem restoreChunks_cons (c : BackupChunk) (cs : List BackupChunk) (expected : Nat)
    (summary : Option RestoreSummary) :
    restoreChunks initial (c :: cs) expected summary =
      Action.andThen
        (Action.query fun l => c.checkPlace expected >>= fun _ => c.restoreStart l summary)
        (fun start => Action.andThen (restoreEntries initial c.entries start)
          (fun summary => restoreChunks initial cs (expected + 1) (some summary))) := by
  funext l
  unfold restoreChunks Action.andThen Action.query
  dsimp only
  cases c.checkPlace expected >>= fun _ => c.restoreStart l summary with
  | error e => rfl
  | ok start =>
      dsimp only
      generalize restoreEntries initial c.entries start l = settled
      obtain ⟨outcome, l'⟩ := settled
      cases outcome with
      | error e => rfl
      | ok summary' => rfl

/-- Chunks behind others, which held what `summary` says, or the first ones, of which the first names the
table. -/
theorem restoreChunks_local (cs : List BackupChunk) (expected : Nat) (summary : Option RestoreSummary)
    {table : TableId} (htable : ∀ s ∈ summary, s.table = table)
    (hfirst : summary = none → ∀ c ∈ cs.head?, c.table = table) :
    Local Ledger.share table (restoreChunks initial cs expected summary) := by
  induction cs generalizing expected summary with
  | nil => exact .query (fun _ _ _ => rfl)
  | cons c cs ih =>
      rw [restoreChunks_cons]
      refine .andThen (.query ?_) ?_
      · intro l l' h
        cases summary with
        | some s => rfl
        | none =>
            obtain rfl : c.table = table := hfirst rfl c rfl
            have hlatest : l'.log.latest? c.table = l.log.latest? c.table := by
              rw [RowLog.latest?, RowLog.latest?, Ledger.ofTable_of_share h]
            simp only [restoreStart, hlatest]
      · intro l start h
        obtain ⟨u, -, hstart⟩ := Outcome.bind_eq_ok_iff.1 h
        obtain rfl := table_of_restoreStart hstart htable (fun hnone => hfirst hnone c rfl)
        refine (restoreEntries_local initial c.entries start).andThen ?_
        intro l summary' hentries
        refine ih (expected + 1) (some summary') ?_ ?_
        · intro s hs
          cases hs
          exact table_of_restoreEntries initial hentries
        · intro hnone
          cases hnone

/-- **The chunks of a backup** are committed, as far as they are, for what is held of the table that the
first of them names, and nothing of any other table changes, whatever the other chunks and the entries
name. -/
theorem restore_local (c : BackupChunk) (cs : List BackupChunk) :
    Local Ledger.share c.table (restore initial (c :: cs)) := by
  refine restoreChunks_local initial (c :: cs) 0 none nofun ?_
  rintro - c' hc'
  cases hc'
  rfl

end BackupChunk

end VersionedTables
