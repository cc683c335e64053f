import VersionedTables.Proofs.Backup.Export
import VersionedTables.Proofs.Backup.Written
import VersionedTables.Proofs.Engine.Reachable
import VersionedTables.Proofs.Snapshot.Replay

/-!
# Backups

What an engine has of a table goes through a backup unchanged: the exported chunks are restored into
any log that has no history of the table, and the table is there what it was where it came from.  The
check of a restored change asks for nothing that a commit does not see to, and a chunk is restored
entry by entry, so that it does not matter where the history was cut.

* **`RestoreSummary.of`**, **`RestoreSummary.foldl_add`** — what a backup holds.
* **`BackupChunk.restoreEntries_eq_ok`** — entries of a sound log are restored one after the other.
* **`BackupChunk.restoreChunks_number`** — it does not matter where they are cut.
* **`Engine.Reachable.exists_restored`** — what the chunks of a table are restored to.
* **`Engine.Reachable.restore_export`** — the round trip.
-/

namespace VersionedTables

/-! ### Summaries -/

theorem Bounded.addSat_ofNatSat (n : Nat) (a : UInt64) :
    Bounded.addSat (Bounded.ofNatSat n) a = Bounded.ofNatSat (n + a.toNat) := by
  rw [← UInt64.toNat_inj, Bounded.toNat_addSat, Bounded.toNat_ofNatSat, Bounded.toNat_ofNatSat]
  omega

namespace RestoreSummary

/-- What is held after a list of changes. -/
theorem foldl_add (es : List BackupEntry) (table : TableId) (versions rows : Nat)
    (latest : Option Version) :
    es.foldl RestoreSummary.add
        ⟨table, Bounded.ofNatSat versions, Bounded.ofNatSat rows, latest⟩ =
      ⟨table, Bounded.ofNatSat (versions + es.length),
        Bounded.ofNatSat (rows + (es.map (·.rows.rows.length)).sum),
        (es.getLast?.map (·.change.version)).or latest⟩ := by
  induction es generalizing versions rows latest with
  | nil => simp
  | cons e es ih =>
      have hone : (1 : UInt64).toNat = 1 := rfl
      have hrows : Bounded.ofNatSat ((Bounded.ofNatSat rows).toNat + e.rows.rows.length) =
          Bounded.ofNatSat (rows + e.rows.rows.length) := by
        rw [← UInt64.toNat_inj, Bounded.toNat_ofNatSat, Bounded.toNat_ofNatSat,
          Bounded.toNat_ofNatSat]
        omega
      rw [List.foldl_cons, add]
      show es.foldl RestoreSummary.add ⟨table, Bounded.addSat (Bounded.ofNatSat versions) 1,
        Bounded.ofNatSat ((Bounded.ofNatSat rows).toNat + e.rows.rows.length),
        some e.change.version⟩ = _
      rw [Bounded.addSat_ofNatSat, hrows, ih, hone]
      simp only [List.length_cons, List.map_cons, List.sum_cons, List.getLast?_cons,
        Nat.add_assoc, Nat.add_comm 1]
      cases es.getLast? <;> rfl

/-- What a backup of the table with these entries holds. -/
def of (table : TableId) (es : List BackupEntry) : RestoreSummary :=
  ⟨table, Bounded.ofNatSat es.length, Bounded.ofNatSat (es.map (·.rows.rows.length)).sum,
    es.getLast?.map (·.change.version)⟩

theorem foldl_add_empty (table : TableId) (es : List BackupEntry) :
    es.foldl add (.empty table) = of table es := by
  have h := foldl_add es table 0 0 none
  rw [Nat.zero_add, Nat.zero_add, Option.or_none] at h
  exact h

/-- One entry more. -/
theorem add_of (table : TableId) (es : List BackupEntry) (b : BackupEntry) :
    (of table es).add b = of table (es ++ [b]) := by
  rw [← foldl_add_empty, ← foldl_add_empty, List.foldl_append]
  rfl

end RestoreSummary

namespace BackupChunk

/-! ### Restoring entries -/

section

variable {initial : Counter} {table : TableId}

/-- An entry of a sound log is restored where it is newer than what is there, and kept behind it. -/
theorem restoreEntry_eq_ok (initial : Counter) {l : Ledger} {b : BackupEntry}
    (hb : b.kept.2.Holds table b.change.version b.rows)
    (hnewer : ∀ k ∈ (l.log.ofTable table).keys, compare k b.change.version = .lt) :
    restoreEntry initial table l b = .ok (l.restored initial b.change b.rows) ∧
      ((l.restored initial b.change b.rows).log.ofTable table).toList =
        (l.log.ofTable table).toList ++ [b.kept] := by
  have hct : b.change.table = table := hb.ofTable
  have hold : ∀ v, (l.log.entry? table v).isSome → v < b.change.version := by
    intro v hv
    exact Std.compare_eq_lt.1 (hnewer v (SortedMap.mem_keys_iff.2 hv))
  constructor
  · refine restoreEntry_eq_ok_iff.2 ⟨hct, Ledger.restore_eq_ok_iff.2 ⟨⟨hb.describes, ?_⟩, rfl⟩⟩
    rw [hct]
    exact hold
  · have hkey : b.change.rekeyed = b.change := by
      have hk : b.change.contentKey = ⟨b.change.table, b.change.version⟩ := by
        rw [hct]
        exact hb.contentKey
      rw [Change.rekeyed, ← hk]
    have hlist := Ledger.toList_restored (hct ▸ hold) initial b.rows
    rw [hct, hkey] at hlist
    exact hlist

/-- **Entries of a sound log are restored one after the other** where they are newer than what is
there.  Behind the restoration the log keeps them at the end of the table. -/
theorem restoreEntries_eq_ok (initial : Counter) (table : TableId) {es : List BackupEntry}
    (summary : RestoreSummary) (l : Ledger)
    (hsummary : summary.table = table)
    (hes : ∀ b ∈ es, b.kept.2.Holds table b.change.version b.rows)
    (hasc : ((l.log.ofTable table).toList ++ es.map BackupEntry.kept).Pairwise
      (fun a b => compare a.1 b.1 = .lt)) :
    ∃ l', restoreEntries initial es summary l = (.ok (es.foldl RestoreSummary.add summary), l') ∧
      (l'.log.ofTable table).toList =
        (l.log.ofTable table).toList ++ es.map BackupEntry.kept := by
  induction es generalizing summary l with
  | nil => exact ⟨l, rfl, (List.append_nil _).symm⟩
  | cons b es ih =>
      obtain ⟨hb, hrest⟩ := List.forall_mem_cons.1 hes
      have hnewer : ∀ k ∈ (l.log.ofTable table).keys, compare k b.change.version = .lt := by
        intro k hk
        obtain ⟨p, hp, rfl⟩ := List.mem_map.1 hk
        exact (List.pairwise_append.1 hasc).2.2 p hp b.kept (by simp)
      obtain ⟨hrestore, hlist⟩ := restoreEntry_eq_ok initial hb hnewer
      have hasc' : (((l.restored initial b.change b.rows).log.ofTable table).toList ++
          es.map BackupEntry.kept).Pairwise (fun a b => compare a.1 b.1 = .lt) := by
        rw [hlist, List.append_assoc]
        exact hasc
      obtain ⟨l', hl', hlist'⟩ := ih (summary.add b) (l.restored initial b.change b.rows)
        hsummary hrest hasc'
      refine ⟨l', ?_, ?_⟩
      · rw [restoreEntries, hsummary, hrestore]
        exact hl'
      · rw [hlist', hlist, List.append_assoc]
        rfl

theorem restoreEntries_append {es es' : List BackupEntry} {summary s : RestoreSummary}
    {l l' : Ledger} (h : restoreEntries initial (es ++ es') summary l = (.ok s, l')) :
    ∃ summary' l₁, restoreEntries initial es summary l = (.ok summary', l₁) ∧
      summary'.table = summary.table ∧
      restoreEntries initial es' summary' l₁ = (.ok s, l') := by
  induction es generalizing summary l with
  | nil => exact ⟨summary, l, rfl, rfl, h⟩
  | cons e es ih =>
      rw [List.cons_append, restoreEntries] at h
      cases he : restoreEntry initial summary.table l e with
      | error error =>
          rw [he] at h
          cases h
      | ok l₁ =>
          rw [he] at h
          obtain ⟨summary', l₂, h₁, ht, h₂⟩ := ih h
          refine ⟨summary', l₂, ?_, ht, h₂⟩
          rw [restoreEntries, he]
          exact h₁

/-! ### Restoring chunks -/

theorem number_cons (n : Nat) (g : List BackupEntry) (groups : List (List BackupEntry)) :
    number table n (g :: groups) = ⟨table, Bounded.ofNatSat n, g⟩ :: number table (n + 1) groups := by
  rw [number, List.zipIdx_cons]
  rfl

/-- **It does not matter where entries are cut**: numbered chunks are restored as their entries put
together are. -/
theorem restoreChunks_number {groups : List (List BackupEntry)} {n : Nat}
    {summary s : RestoreSummary} {l l' : Ledger} (hn : n + groups.length ≤ Bounded.greatest + 1)
    (hsummary : summary.table = table)
    (h : restoreEntries initial groups.flatten summary l = (.ok s, l')) :
    restoreChunks initial (number table n groups) n (some summary) l = (.ok (some s), l') := by
  induction groups generalizing n summary l with
  | nil =>
      cases h
      rfl
  | cons g groups ih =>
      rw [List.length_cons] at hn
      have hplace : checkPlace ⟨table, Bounded.ofNatSat n, g⟩ n = .ok () := by
        rw [checkPlace, Bounded.toNat_ofNatSat, if_pos (by omega)]
      have hstart : restoreStart l ⟨table, Bounded.ofNatSat n, g⟩ (some summary) =
          .ok summary := if_pos hsummary
      -- The summary stays one of the table, so that the next chunk is not foreign to it.
      obtain ⟨summary', l₁, hg, ht, hgroups⟩ := restoreEntries_append h
      rw [number_cons, restoreChunks, hplace, Outcome.ok_bind, hstart]
      simp only [hg]
      exact ih (by omega) (ht.trans hsummary) hgroups

/-- The first chunk starts from nothing. -/
theorem restoreChunks_none {c : BackupChunk} {cs : List BackupChunk} {n : Nat} {l : Ledger}
    (h : l.log.latest? c.table = none) :
    restoreChunks initial (c :: cs) n none l =
      restoreChunks initial (c :: cs) n (some (.empty c.table)) l := by
  have hstart : restoreStart l c none = restoreStart l c (some (.empty c.table)) := by
    simp [restoreStart, h, RestoreSummary.empty]
  rw [restoreChunks, restoreChunks, hstart]

/-- Numbered chunks are restored as their entries put together are, to a table without history. -/
theorem restore_number {groups : List (List BackupEntry)} {s : RestoreSummary} {l l' : Ledger}
    (hne : groups ≠ []) (hn : groups.length ≤ Bounded.greatest + 1)
    (hnone : l.log.latest? table = none)
    (h : restoreEntries initial groups.flatten (.empty table) l = (.ok s, l')) :
    restore initial (number table 0 groups) l = (.ok (some s), l') := by
  have hchunks := restoreChunks_number (n := 0) (by omega : 0 + groups.length ≤ _) rfl h
  cases groups with
  | nil => exact absurd rfl hne
  | cons g groups =>
      rw [number_cons] at hchunks ⊢
      rw [restore, restoreChunks_none hnone]
      exact hchunks

end

end BackupChunk

namespace Engine

/-- Two engines cannot be told apart by what they answer about a table. -/
structure AgreesOn (e e' : Engine) (table : TableId) : Prop where
  history : e'.ledger.log.history table = e.ledger.log.history table
  rowSet : ∀ version, e'.ledger.log.rowSet table version = e.ledger.log.rowSet table version
  replay : ∀ upTo, e'.replay table upTo = e.replay table upTo
  exportTable : ∀ max, e'.exportTable table max = e.exportTable table max

theorem readEntries_congr {l l' : RowLog} {table : TableId}
    (h : ∀ v, l'.rowSet table v = l.rowSet table v) (cs : List Change) :
    BackupChunk.readEntries l' table cs = BackupChunk.readEntries l table cs := by
  induction cs with
  | nil => rfl
  | cons c cs ih => rw [BackupChunk.readEntries, BackupChunk.readEntries, h, ih]

/-- Engines that keep the same of a table agree on it. -/
theorem agreesOn_of_ofTable_eq {e e' : Engine} {table : TableId} (he : e.ledger.log.Sound)
    (h : e'.ledger.log.ofTable table = e.ledger.log.ofTable table) : e.AgreesOn e' table := by
  have hhistory : e'.ledger.log.history table = e.ledger.log.history table := by
    rw [RowLog.history, RowLog.history, h]
  refine ⟨hhistory, he.rowSet_congr h, Snapshot.replay_congr he h, ?_⟩
  intro max
  have hread := readEntries_congr (he.rowSet_congr h) (e.ledger.log.history table)
  simp only [exportTable, BackupChunk.exportAll, BackupChunk.exportWith, BackupChunk.chunks,
    hhistory, hread]

def backupSummary (e : Engine) (table : TableId) : RestoreSummary where
  table := table
  versions := Bounded.ofNatSat (e.ledger.log.history table).length
  rows := Bounded.ofNatSat ((e.ledger.log.history table).map (·.rowCount.toNat)).sum
  latestVersion := e.ledger.log.latest? table

theorem history_eq_map_change {l : RowLog} {table : TableId} {es : List BackupEntry}
    (hkept : (l.ofTable table).toList = es.map BackupEntry.kept) :
    l.history table = es.map (·.change) := by
  rw [RowLog.history, SortedMap.values, hkept, List.map_map, List.map_map]
  rfl

/-- The entries of a table, counted in, are what a backup of it holds. -/
theorem foldl_add_entries {e : Engine} {table : TableId} {es : List BackupEntry}
    (hkept : (e.ledger.log.ofTable table).toList = es.map BackupEntry.kept)
    (hes : ∀ b ∈ es, b.kept.2.Holds table b.change.version b.rows) :
    es.foldl RestoreSummary.add (.empty table) = e.backupSummary table := by
  have hhistory := history_eq_map_change hkept
  have hlatest : e.ledger.log.latest? table = es.getLast?.map (·.change.version) := by
    rw [RowLog.latest?, SortedMap.keys, hkept, List.map_map, List.getLast?_map]
    rfl
  have hcount : (es.map (·.change)).map (·.rowCount.toNat) = es.map (·.rows.rows.length) := by
    rw [List.map_map]
    refine List.map_congr_left ?_
    intro b hb
    exact (hes b hb).describes.rowCount
  rw [RestoreSummary.foldl_add_empty, RestoreSummary.of, backupSummary, hlatest, hhistory, hcount,
    List.length_map]

/-- What an engine has of a table can be exported, and the chunks are restored in any engine that has no
history of the table, to the same effect whatever their size: the table is there what it was. -/
theorem Reachable.exists_restored {source : Engine} (h : source.Reachable) (target : Engine)
    {table : TableId} (hsource : source.ledger.log.history table ≠ [])
    (htarget : target.ledger.log.history table = []) :
    ∃ l', l'.log.ofTable table = source.ledger.log.ofTable table ∧ ∀ max, max ≠ 0 →
      ∃ chunks, source.exportTable table max = .ok chunks ∧
        target.restore chunks =
          (.ok (some (source.backupSummary table)), target.withLedger l') := by
  have hl := h.sound.log
  obtain ⟨es, hread, hkept, hes⟩ := hl.exists_entries table
  have hhistory := history_eq_map_change hkept
  have hempty : (target.ledger.log.ofTable table).toList = [] := by
    rw [SortedMap.toList_eq_nil_iff]
    exact RowLog.history_eq_nil_iff.1 htarget
  have hnone : target.ledger.log.latest? table = none :=
    RowLog.latest?_eq_none_iff.2 (RowLog.history_eq_nil_iff.1 htarget)
  have hasc : ((target.ledger.log.ofTable table).toList ++ es.map BackupEntry.kept).Pairwise
      (fun a b => compare a.1 b.1 = .lt) := by
    rw [hempty, List.nil_append, ← hkept]
    exact (source.ledger.log.ofTable table).ascending
  -- The entries are restored as a whole; where they are cut comes later.
  obtain ⟨l', hl', hlist⟩ := BackupChunk.restoreEntries_eq_ok target.initial table
    (.empty table) target.ledger rfl hes hasc
  rw [hempty, List.nil_append, ← hkept] at hlist
  have hsummary : es.foldl RestoreSummary.add (.empty table) = source.backupSummary table :=
    foldl_add_entries hkept hes
  rw [hsummary] at hl'
  refine ⟨l', SortedMap.ext_toList hlist, ?_⟩
  intro max hmax
  refine ⟨_, BackupChunk.exportAll_eq hmax hread, ?_⟩
  have hflat := BackupChunk.flatten_pack max.toNat es
  have hlength : (BackupChunk.pack max.toNat es).length ≤ Bounded.greatest + 1 := by
    have hpack := BackupChunk.length_pack_le max.toNat es
    have htop := source.ledger.log.length_history_le table
    rw [hhistory, List.length_map] at htop
    omega
  have hne : BackupChunk.pack max.toNat es ≠ [] := by
    intro hnil
    rw [hnil] at hflat
    rw [hhistory, ← hflat] at hsource
    exact hsource rfl
  have hrestored := BackupChunk.restore_number hne hlength hnone (hflat.symm ▸ hl')
  rw [restore, hrestored]

/-- **The round trip of a backup**: what an engine has of a table can be exported in chunks of any
size, and in any engine that has no history of the table the chunks are restored, always to the same
effect: the engines agree on the table. -/
theorem Reachable.restore_export {source : Engine} (h : source.Reachable) (target : Engine)
    {table : TableId} (hsource : source.ledger.log.history table ≠ [])
    (htarget : target.ledger.log.history table = []) :
    ∃ restored, source.AgreesOn restored table ∧ ∀ max, max ≠ 0 →
      ∃ chunks, source.exportTable table max = .ok chunks ∧
        target.restore chunks = (.ok (some (source.backupSummary table)), restored) := by
  obtain ⟨l', hkeeps, hrestore⟩ := h.exists_restored target hsource htarget
  exact ⟨target.withLedger l', agreesOn_of_ofTable_eq h.sound.log hkeeps, hrestore⟩

/-- A backup of one change, restored where row ids start elsewhere. -/
theorem restore_export_one_change :
    Sample.engine.Reachable ∧ Sample.engine.ledger.log.history Sample.table ≠ [] ∧
    ∃ restored, Sample.engine.AgreesOn restored Sample.table ∧ ∀ max, max ≠ 0 →
      ∃ chunks, Sample.engine.exportTable Sample.table max = .ok chunks ∧
        Engine.restore { settings := { firstRowId := 100 } } chunks =
          (.ok (some ⟨Sample.table, 1, 1, some 1⟩), restored) := by
  have hne : Sample.engine.ledger.log.history Sample.table ≠ [] := by decide
  exact ⟨Sample.reachable_engine, hne,
    Sample.reachable_engine.restore_export { settings := { firstRowId := 100 } } hne rfl⟩

end Engine

end VersionedTables
