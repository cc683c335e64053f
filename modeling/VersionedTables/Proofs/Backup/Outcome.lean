import VersionedTables.Proofs.Backup.Items
import VersionedTables.Proofs.Backup.RoundTrip
import VersionedTables.Proofs.Backup.Written

/-!
# How a restoration ends

The first chunk or entry that is not in order ends a restoration.  What was committed then are just the
entries before it, in their order, and nothing of that is taken back.

* **`BackupItem.restoreItem`**, **`BackupItem.restoreAll`** — a restoration, item by item.
* **`BackupItem.exists_restoreItem_iff`**, **`BackupItem.restores_of_restoreItem`** — what one step does.
* **`BackupItem.restoreAll_stops`** — how far all of them get.
* **`Engine.Restored`** — what an engine is when entries were restored.
* **`Engine.restore_outcome`** — how a restoration ends, and what it leaves behind.
-/

namespace VersionedTables

namespace BackupItem

/-! ### Restoring item by item -/

section

variable (initial : Counter)

/-- One item is looked at, and committed if it is an entry. -/
def restoreItem (s : RestoreSummary) (l : Ledger) : BackupItem → Except Error (RestoreSummary × Ledger)
  | .chunk place c => (c.checkPlace place >>= fun _ => c.restoreStart l (some s)).map (·, l)
  | .entry b => (BackupChunk.restoreEntry initial s.table l b).map (s.add b, ·)

/-- Items are looked at one after the other. -/
def restoreAll : List BackupItem → RestoreSummary → Ledger → Except Error RestoreSummary × Ledger
  | [], s, l => (.ok s, l)
  | x :: xs, s, l =>
      match restoreItem initial s l x with
      | .error error => (.error error, l)
      | .ok (s, l) => restoreAll xs s l

/-- The entries of a chunk are its items. -/
theorem restoreAll_entries_append (es : List BackupEntry) (xs : List BackupItem) (s : RestoreSummary)
    (l : Ledger) :
    restoreAll initial (es.map .entry ++ xs) s l =
      match BackupChunk.restoreEntries initial es s l with
      | (.error error, l) => (.error error, l)
      | (.ok s, l) => restoreAll initial xs s l := by
  induction es generalizing s l with
  | nil => rfl
  | cons b es ih =>
      rw [List.map_cons, List.cons_append, restoreAll, BackupChunk.restoreEntries, restoreItem]
      cases BackupChunk.restoreEntry initial s.table l b with
      | error error => rfl
      | ok l' => exact ih (s.add b) l'

/-- Chunks behind the first one are restored item by item. -/
theorem restoreChunks_eq (cs : List BackupChunk) (n : Nat) (s : RestoreSummary) (l : Ledger) :
    BackupChunk.restoreChunks initial cs n (some s) l =
      ((restoreAll initial (ofChunks n cs) s l).1.map some,
        (restoreAll initial (ofChunks n cs) s l).2) := by
  induction cs generalizing n s l with
  | nil => rfl
  | cons c cs ih =>
      rw [BackupChunk.restoreChunks, ofChunks, restoreAll, restoreItem]
      cases c.checkPlace n >>= fun _ => c.restoreStart l (some s) with
      | error error => rfl
      | ok start =>
          simp only [Except.map, restoreAll_entries_append]
          cases BackupChunk.restoreEntries initial c.entries start l with
          | mk outcome l' =>
              cases outcome with
              | error error => rfl
              | ok s' => exact ih (n + 1) s' l'

variable {initial} {table : TableId} {l₀ l l' : Ledger} {s s' : RestoreSummary}
  {before : List BackupItem}

/-- A chunk in its place changes nothing. -/
theorem restoreItem_chunk_eq_ok_iff {c : BackupChunk} {place : Nat} :
    restoreItem initial s l (.chunk place c) = .ok (s', l') ↔
      (c.sequence.toNat = place ∧ s.table = c.table) ∧ s = s' ∧ l = l' := by
  rw [restoreItem, Outcome.map_eq_ok_iff]
  simp only [Outcome.bind_eq_ok_iff, BackupChunk.restoreStart_eq_ok_iff, Prod.mk.injEq]
  constructor
  · rintro ⟨_, ⟨⟨⟩, hplace, htable, rfl⟩, rfl, hl⟩
    exact ⟨⟨BackupChunk.checkPlace_eq_ok_iff.1 hplace, htable⟩, rfl, hl⟩
  · rintro ⟨⟨hplace, htable⟩, rfl, hl⟩
    exact ⟨s, ⟨(), BackupChunk.checkPlace_eq_ok_iff.2 hplace, htable, rfl⟩, rfl, hl⟩

/-- An entry is committed and counted in. -/
theorem restoreItem_entry_eq_ok_iff {b : BackupEntry} :
    restoreItem initial s l (.entry b) = .ok (s', l') ↔
      (b.change.table = s.table ∧ l.restore initial b.change b.rows = .ok l') ∧ s.add b = s' := by
  rw [restoreItem, Outcome.map_eq_ok_iff]
  simp only [BackupChunk.restoreEntry_eq_ok_iff, Prod.mk.injEq]
  constructor
  · rintro ⟨_, h, hs, rfl⟩
    exact ⟨h, hs⟩
  · rintro ⟨h, hs⟩
    exact ⟨l', h, hs, rfl⟩

/-! ### Steps and runs -/

/-- The versions that a log has of a table which had no history are those of the entries that were
committed. -/
theorem forall_isSome_entry?_iff (hempty : l₀.log.history table = [])
    (hbefore : InOrder l₀.log table before)
    (hl : Ledger.Restores initial (entries before) l₀ l) (p : Version → Prop) :
    (∀ v, (l.log.entry? table v).isSome → p v) ↔ ∀ b ∈ entries before, p b.change.version := by
  have hnone := RowLog.history_eq_nil_iff.1 hempty
  have htable := (inOrder_iff.1 hbefore).2.1
  constructor
  · intro h b hb
    have hentry := (hl.entry?_eq_some_iff table b.change.version _).2
      (Or.inr ⟨b, hb, (htable b hb).1, rfl, rfl⟩)
    exact h b.change.version (Option.isSome_of_eq_some hentry)
  · intro h v hv
    obtain ⟨entry, hentry⟩ := Option.isSome_iff_exists.1 hv
    rcases (hl.entry?_eq_some_iff table v entry).1 hentry with hold | ⟨b, hb, -, rfl, -⟩
    · rw [hnone v] at hold
      cases hold
    · exact h b hb

/-- An item is let through just if it is in order. -/
theorem exists_restoreItem_iff (hempty : l₀.log.history table = [])
    (hbefore : InOrder l₀.log table before)
    (hl : Ledger.Restores initial (entries before) l₀ l) (x : BackupItem) :
    (∃ s' l', restoreItem initial (RestoreSummary.of table (entries before)) l x = .ok (s', l')) ↔
      x.Fits l₀.log table before := by
  cases x with
  | chunk place c =>
      simp only [restoreItem_chunk_eq_ok_iff]
      constructor
      · rintro ⟨s', l', ⟨hplace, htable⟩, -⟩
        exact ⟨hplace, htable.symm, hempty⟩
      · rintro ⟨hplace, htable, -⟩
        exact ⟨_, _, ⟨hplace, htable.symm⟩, rfl, rfl⟩
  | entry b =>
      have hnewer := forall_isSome_entry?_iff hempty hbefore hl (· < b.change.version)
      simp only [restoreItem_entry_eq_ok_iff, Ledger.restore_eq_ok_iff]
      constructor
      · rintro ⟨s', l', ⟨htable, ⟨hdescribes, hlt⟩, -⟩, -⟩
        have htable : b.change.table = table := htable
        rw [htable] at hlt
        exact ⟨htable, hnewer.1 hlt, Change.checkRows_eq_ok_iff.2 hdescribes⟩
      · rintro ⟨htable, hlt, hcheck⟩
        refine ⟨_, _, ⟨htable, ⟨Change.checkRows_eq_ok_iff.1 hcheck, ?_⟩, rfl⟩, rfl⟩
        rw [htable]
        exact hnewer.2 hlt

/-- Behind an item that is let through, its entry is committed and counted in, if it has one. -/
theorem restores_of_restoreItem (hl : Ledger.Restores initial (entries before) l₀ l) {x : BackupItem}
    (h : restoreItem initial (RestoreSummary.of table (entries before)) l x = .ok (s', l')) :
    s' = RestoreSummary.of table (entries (before ++ [x])) ∧
      Ledger.Restores initial (entries (before ++ [x])) l₀ l' := by
  rw [entries_append]
  cases x with
  | chunk place c =>
      obtain ⟨-, rfl, rfl⟩ := restoreItem_chunk_eq_ok_iff.1 h
      rw [entries_chunk, List.append_nil]
      exact ⟨rfl, hl⟩
  | entry b =>
      obtain ⟨⟨-, hcommit⟩, rfl⟩ := restoreItem_entry_eq_ok_iff.1 h
      rw [entries_entry]
      exact ⟨RestoreSummary.add_of table (entries before) b, hl.append (.cons hcommit (.nil l'))⟩

/-- **How far a restoration gets**: up to the first item that is not in order. -/
theorem restoreAll_stops (hempty : l₀.log.history table = []) (hbefore : InOrder l₀.log table before)
    (hl : Ledger.Restores initial (entries before) l₀ l) (xs : List BackupItem) :
    ∃ done rest l', Stops l₀.log table (before ++ xs) done rest ∧
      Ledger.Restores initial (entries done) l₀ l' ∧
      (rest = [] ∧ restoreAll initial xs (RestoreSummary.of table (entries before)) l =
          (.ok (RestoreSummary.of table (entries done)), l') ∨
        rest ≠ [] ∧ ∃ error,
          restoreAll initial xs (RestoreSummary.of table (entries before)) l = (.error error, l')) := by
  induction xs generalizing before l with
  | nil =>
      exact ⟨before, [], l, ⟨rfl, hbefore, nofun⟩, hl, Or.inl ⟨rfl, rfl⟩⟩
  | cons x xs ih =>
      have hfits := exists_restoreItem_iff hempty hbefore hl x
      rw [restoreAll]
      cases hx : restoreItem initial (RestoreSummary.of table (entries before)) l x with
      | error error =>
          refine ⟨before, x :: xs, l, ⟨rfl, hbefore, ?_⟩, hl, Or.inr ⟨by simp, error, rfl⟩⟩
          intro y hy hyfits
          cases hy
          obtain ⟨s', l', hok⟩ := hfits.2 hyfits
          rw [hx] at hok
          cases hok
      | ok p =>
          obtain ⟨s', l'⟩ := p
          obtain ⟨rfl, hl'⟩ := restores_of_restoreItem hl hx
          have hnext := inOrder_concat_iff.2 ⟨hbefore, hfits.1 ⟨_, l', hx⟩⟩
          rw [List.append_cons before x xs]
          exact ih hnext hl'

end

end BackupItem

namespace BackupChunk

open BackupItem (Stops ofChunks)

/-- A backup of a table that has a history is refused. -/
theorem restore_of_history {l : Ledger} {c : BackupChunk} (h : l.log.history c.table ≠ [])
    (initial : Counter) (cs : List BackupChunk) :
    ∃ error, restore initial (c :: cs) l = (.error error, l) := by
  have hsome : (l.log.latest? c.table).isSome := by
    rw [Option.isSome_iff_ne_none]
    intro hnone
    exact h (RowLog.history_eq_nil_iff.2 (RowLog.latest?_eq_none_iff.1 hnone))
  have hstart : restoreStart l c none = .error (.historyExists c.table) := if_pos hsome
  rw [restore, restoreChunks, hstart]
  cases c.checkPlace 0 with
  | error error => exact ⟨error, rfl⟩
  | ok u => exact ⟨_, rfl⟩

/-- A backup of a table without history is restored item by item. -/
theorem restore_eq_restoreAll {l : Ledger} {c : BackupChunk} (h : l.log.history c.table = [])
    (initial : Counter) (cs : List BackupChunk) :
    restore initial (c :: cs) l =
      ((BackupItem.restoreAll initial (ofChunks 0 (c :: cs)) (RestoreSummary.of c.table []) l).1.map some,
        (BackupItem.restoreAll initial (ofChunks 0 (c :: cs)) (RestoreSummary.of c.table []) l).2) := by
  have hnone := RowLog.latest?_eq_none_iff.2 (RowLog.history_eq_nil_iff.1 h)
  have hstart : RestoreSummary.empty c.table = RestoreSummary.of c.table [] :=
    RestoreSummary.foldl_add_empty c.table []
  rw [restore, restoreChunks_none hnone, hstart]
  exact BackupItem.restoreChunks_eq initial (c :: cs) 0 _ l

/-- **How far the restoration of a backup gets**, and what is answered. -/
theorem restore_stops (initial : Counter) (c : BackupChunk) (cs : List BackupChunk) (l : Ledger) :
    ∃ done rest l', Stops l.log c.table (ofChunks 0 (c :: cs)) done rest ∧
      Ledger.Restores initial (BackupItem.entries done) l l' ∧
      (rest = [] ∧ restore initial (c :: cs) l =
          (.ok (some (RestoreSummary.of c.table ((c :: cs).flatMap (·.entries)))), l') ∨
        rest ≠ [] ∧ ∃ error, restore initial (c :: cs) l = (.error error, l')) := by
  by_cases hempty : l.log.history c.table = []
  · obtain ⟨done, rest, l', hstops, hrestores, hend⟩ :=
      BackupItem.restoreAll_stops hempty BackupItem.inOrder_nil (.nil l) (ofChunks 0 (c :: cs))
    have hrestore := restore_eq_restoreAll hempty initial cs
    refine ⟨done, rest, l', hstops, hrestores, ?_⟩
    rcases hend with ⟨hrest, hok⟩ | ⟨hrest, error, herror⟩
    · have hall := hstops.items
      rw [hrest, List.append_nil, List.nil_append] at hall
      rw [← hall, BackupItem.entries_ofChunks] at hok
      exact Or.inl ⟨hrest, hrestore.trans (congrArg (fun p => (p.1.map some, p.2)) hok)⟩
    · exact Or.inr ⟨hrest, error, hrestore.trans (congrArg (fun p => (p.1.map some, p.2)) herror)⟩
  · obtain ⟨error, herror⟩ := restore_of_history hempty initial cs
    refine ⟨[], ofChunks 0 (c :: cs), l, ⟨rfl, BackupItem.inOrder_nil, ?_⟩, .nil l,
      Or.inr ⟨nofun, error, herror⟩⟩
    intro x hx hfits
    cases hx
    exact hempty hfits.2.2

end BackupChunk

namespace Engine

open BackupChunk (Restorable)
open BackupItem (Stops ofChunks)

/-- What an engine is when entries of a backup of a table were restored. -/
structure Restored (e : Engine) (table : TableId) (es : List BackupEntry) (e' : Engine) : Prop where
  log : (e'.ledger.log.ofTable table).toList =
    (e.ledger.log.ofTable table).toList ++ es.map BackupEntry.restored
  nextVersion : (e'.counter table).nextVersion =
    max (e.counter table).nextVersion (Bounded.past (es.getLast?.map (·.change.version)))
  nextRowId : (e'.counter table).nextRowId =
    max (e.counter table).nextRowId (Bounded.past (es.flatMap (·.rowIds)).max?)
  /-- Row ids that were passed over count as handed out. -/
  lastRowId : (e'.counter table).lastRowId =
    if (e.counter table).nextRowId < (e'.counter table).nextRowId then
      some ((e'.counter table).nextRowId - 1)
    else (e.counter table).lastRowId
  otherLogs : ∀ t, t ≠ table → e'.ledger.log.ofTable t = e.ledger.log.ofTable t
  otherCounters : ∀ t, t ≠ table → e'.counter t = e.counter t
  /-- Nothing but the rows and the counters changes. -/
  ledger : e' = e.withLedger e'.ledger
  unchanged : es = [] → e' = e

/-- What entries that are restored one after the other leave behind in an engine. -/
theorem restored_of_restores {e : Engine} {table : TableId} {es : List BackupEntry} {l : Ledger}
    (h : Ledger.Restores e.initial es e.ledger l) (htable : ∀ b ∈ es, b.change.table = table)
    (hascending : es.Pairwise (fun b b' => b.change.version < b'.change.version)) :
    e.Restored table es (e.withLedger l) := by
  have hgains := h.gains htable
  have hcounter : (e.withLedger l).counter table = (e.counter table).advance
      (Bounded.past (es.flatMap (·.rowIds)).max?) (Bounded.past (es.map (·.change.version)).max?) :=
    hgains.counter
  refine ⟨hgains.log, ?_, ?_, ?_, hgains.otherLogs, hgains.otherCounters, rfl, ?_⟩
  · rw [hcounter, Counter.nextVersion_advance, Bounded.max?_eq_getLast? (List.pairwise_map.2 hascending),
      List.getLast?_map]
  · rw [hcounter, Counter.nextRowId_advance_eq_max]
  · rw [hcounter, Counter.lastRowId_advance, Counter.nextRowId_advance]
    split
    · rfl
    · rw [if_neg Std.lt_irrefl]
  · intro hnil
    rw [hnil] at h
    cases h
    rfl

/-- **How a restoration ends, and what it leaves behind**, whatever the engine holds.  Of no chunks nothing
is restored.  Else the chunks and their entries are in order behind each other up to some point, and just
the entries up to this point are committed, in their order and each under the key that belongs to it; the
counters of the table are raised above them, and nothing else changes.  If there is nothing behind this
point, the backup is as it has to be, and what is answered counts all of its entries.  If there is, the
backup is not as it has to be, and the restoration is refused. -/
theorem restore_outcome (e : Engine) :
    e.restore [] = (.ok none, e) ∧
      ∀ c cs, ∃ done rest, Stops e.ledger.log c.table (ofChunks 0 (c :: cs)) done rest ∧
        e.Restored c.table (BackupItem.entries done) (e.restore (c :: cs)).2 ∧
        (Restorable e.ledger.log c.table (c :: cs) ∧ rest = [] ∧ (e.restore (c :: cs)).1 =
            .ok (some (.of c.table ((c :: cs).flatMap (·.entries)))) ∨
          ¬Restorable e.ledger.log c.table (c :: cs) ∧ rest ≠ [] ∧
            ∃ error, (e.restore (c :: cs)).1 = .error error) := by
  refine ⟨rfl, ?_⟩
  intro c cs
  obtain ⟨done, rest, l, hstops, hrestores, hend⟩ :=
    BackupChunk.restore_stops e.initial c cs e.ledger
  obtain ⟨-, hentries, hascending⟩ := BackupItem.inOrder_iff.1 hstops.inOrder
  have hrestored := restored_of_restores hrestores (fun b hb => (hentries b hb).1) hascending
  have hall : rest = [] ↔ Restorable e.ledger.log c.table (c :: cs) :=
    hstops.rest_eq_nil_iff.trans BackupItem.inOrder_ofChunks_iff
  refine ⟨done, rest, hstops, ?_⟩
  rcases hend with ⟨hrest, hok⟩ | ⟨hrest, error, herror⟩
  · rw [restore, hok]
    exact ⟨hrestored, Or.inl ⟨hall.1 hrest, hrest, rfl⟩⟩
  · rw [restore, herror]
    exact ⟨hrestored, Or.inr ⟨fun h => hrest (hall.2 h), hrest, error, rfl⟩⟩

/-- The second chunk brings the row of the first one again.  It is refused, and the row stays. -/
example :
    Engine.restore {} [⟨Sample.table, 0, [⟨Sample.change, Sample.rows⟩]⟩,
        ⟨Sample.table, 1, [⟨Sample.change, Sample.rows⟩]⟩] =
      (.error (.restoredStale 1 Sample.table 1),
        (Engine.restore {} [⟨Sample.table, 0, [⟨Sample.change, Sample.rows⟩]⟩]).2) := by
  decide +kernel

end Engine

end VersionedTables
