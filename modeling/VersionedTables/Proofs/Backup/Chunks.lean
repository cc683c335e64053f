import Mathlib.Algebra.Order.BigOperators.Group.List
import Mathlib.Data.List.Chain
import VersionedTables.Proofs.Backup.RoundTrip
import VersionedTables.Proofs.Log.Growth

/-!
# The chunks of a history

The history of a table is cut where the next change would not fit into the chunk any more, and nowhere
else.  So the chunks are as full as they can be without a change being cut, and the bound is kept by all of
them but those that hold a single change.  A consumer that refuses a chunk has been handed the chunks before
it and that one, and is handed no other.

* **`BackupEntry.total`** — how many rows entries have together.
* **`BackupChunk.Filled`**, **`BackupChunk.filled_pack`** — how full the groups are.
* **`BackupChunk.Accepts`**, **`BackupChunk.deliver_recording`** — what a consumer is handed.
* **`Engine.Chunked`** — what the chunks of a table are.
* **`Engine.Reachable.exists_chunks`** — what an export hands out.
-/

namespace VersionedTables

namespace BackupEntry

def total (es : List BackupEntry) : Nat := (es.map (·.rows.rows.length)).sum

theorem total_append_singleton (es : List BackupEntry) (b : BackupEntry) :
    total (es ++ [b]) = total es + b.rows.rows.length := by
  simp [total]

end BackupEntry

namespace BackupChunk

open BackupEntry (total total_append_singleton)

/-- The rows of a chunk are counted in full. -/
theorem rowCount_eq_total (c : BackupChunk) : c.rowCount = total c.entries := by
  rw [rowCount, total, List.sum_eq_foldl, List.foldl_map]
  rfl

/-! ### How full chunks are -/

/-- Entries have at most `max` rows, or there is no more than one. -/
def Fits (max : Nat) (group : List BackupEntry) : Prop := total group ≤ max ∨ group.length ≤ 1

/-- The first entry of a group does not fit into the group before it. -/
def Overflows (max : Nat) (group next : List BackupEntry) : Prop :=
  ∃ b, next.head? = some b ∧ max < total group + b.rows.rows.length

/-- Groups keep the bound and are as full as can be. -/
structure Filled (max : Nat) (groups : List (List BackupEntry)) : Prop where
  fits : ∀ g ∈ groups, Fits max g
  full : groups.IsChain (Overflows max)

/-- The entries that wait for their group to be full come first in the first group. -/
theorem head?_packAfter (max count : Nat) (b : BackupEntry) (current es : List BackupEntry) :
    ∃ g groups, packAfter max (b :: current) count es = (b :: g) :: groups := by
  induction es generalizing current count with
  | nil => exact ⟨current, [], rfl⟩
  | cons e es ih =>
      rw [packAfter]
      split
      · exact ⟨current, _, rfl⟩
      · exact ih (count + e.rowCount) (current ++ [e])

/-- What waits fits; so what is added to it does, and behind a full group the next one starts with the
entry that did not fit. -/
theorem filled_packAfter {max : Nat} {current : List BackupEntry} (h : Fits max current)
    (es : List BackupEntry) : Filled max (packAfter max current (total current) es) := by
  induction es generalizing current with
  | nil =>
      rw [packAfter]
      split
      · exact ⟨List.forall_mem_nil _, .nil⟩
      · exact ⟨List.forall_mem_singleton.2 h, .singleton _⟩
  | cons e es ih =>
      rw [packAfter]
      split
      · next hover =>
          obtain ⟨-, hover⟩ := (Bool.and_eq_true _ _).mp hover
          have hover := of_decide_eq_true hover
          have hsingle : Fits max [e] := Or.inr (Nat.le_refl 1)
          have hrest := ih hsingle
          have hcount : total [e] = e.rowCount := by simp [total, BackupEntry.rowCount]
          rw [hcount] at hrest
          obtain ⟨g, groups, hgroups⟩ := head?_packAfter max e.rowCount e [] es
          rw [hgroups] at hrest ⊢
          exact ⟨List.forall_mem_cons.2 ⟨h, hrest.fits⟩, .cons_cons ⟨e, rfl, hover⟩ hrest.full⟩
      · next hroom =>
          have hroom : ¬(!current.isEmpty && max < total current + e.rows.rows.length) := hroom
          show Filled max (packAfter max (current ++ [e]) (total current + e.rows.rows.length) es)
          rw [← total_append_singleton]
          refine ih ?_
          cases current with
          | nil => exact Or.inr (Nat.le_refl 1)
          | cons b current =>
              refine Or.inl ?_
              rw [total_append_singleton]
              simpa using hroom

/-- **The groups that entries are cut into are as full as can be.** -/
theorem filled_pack (max : Nat) (es : List BackupEntry) : Filled max (pack max es) := by
  have hnil : Fits max [] := Or.inr (Nat.zero_le 1)
  exact filled_packAfter hnil es

/-! ### Numbers -/

theorem map_entries_number (table : TableId) (n : Nat) (groups : List (List BackupEntry)) :
    (number table n groups).map (·.entries) = groups := by
  rw [number, List.map_map]
  exact List.zipIdx_map_fst n groups

/-- Chunks are numbered one after the other, as long as there are numbers. -/
theorem map_sequence_number (table : TableId) {n : Nat} {groups : List (List BackupEntry)}
    (h : n + groups.length ≤ Bounded.greatest + 1) :
    (number table n groups).map (·.sequence.toNat) = List.range' n groups.length := by
  induction groups generalizing n with
  | nil => rfl
  | cons g groups ih =>
      rw [List.length_cons] at h
      rw [number_cons, List.map_cons, ih (by omega), List.length_cons, List.range'_succ,
        Bounded.toNat_ofNatSat, Nat.min_eq_left (by omega)]

theorem table_of_mem_number {table : TableId} {n : Nat} {groups : List (List BackupEntry)}
    {c : BackupChunk} (h : c ∈ number table n groups) : c.table = table := by
  obtain ⟨g, -, rfl⟩ := List.mem_map.1 h
  rfl

/-! ### Handing chunks on -/

abbrev Sink (σ : Type) := BackupChunk → σ → Except Error Unit × σ

variable {σ : Type}

/-- The consumer that keeps a record of what it is handed, taken or not, and else does the same. -/
def Sink.recording (consume : Sink σ) : Sink (σ × List BackupChunk) :=
  fun c s => ((consume c s.1).1, (consume c s.1).2, s.2 ++ [c])

/-- A consumer takes chunks, one after the other. -/
inductive Accepts (consume : Sink σ) : List BackupChunk → σ → σ → Prop
  | nil (s : σ) : Accepts consume [] s s
  | cons {c : BackupChunk} {cs : List BackupChunk} {s s₁ s' : σ} (h : consume c s = (.ok (), s₁))
      (rest : Accepts consume cs s₁ s') : Accepts consume (c :: cs) s s'

/-- What a consumer does with chunks, and what it is handed of them. -/
inductive Handed (consume : Sink σ) (cs : List BackupChunk) (s : σ) :
    Except Error Unit → σ → List BackupChunk → Prop
  | all {s' : σ} (h : Accepts consume cs s s') : Handed consume cs s (.ok ()) s' cs
  | upTo {taken : List BackupChunk} {c : BackupChunk} {rest : List BackupChunk} {s₁ s' : σ}
      {error : Error} (hcs : cs = taken ++ c :: rest) (h : Accepts consume taken s s₁)
      (hc : consume c s₁ = (.error error, s')) :
      Handed consume cs s (.error error) s' (taken ++ [c])

/-- After a chunk that a consumer takes it does what it does with the others. -/
theorem Handed.cons {consume : Sink σ} {c : BackupChunk} {cs handed : List BackupChunk} {s s₁ s' : σ}
    {outcome : Except Error Unit} (h : consume c s = (.ok (), s₁))
    (rest : Handed consume cs s₁ outcome s' handed) :
    Handed consume (c :: cs) s outcome s' (c :: handed) := by
  cases rest with
  | all hall => exact .all (.cons h hall)
  | upTo hcs htaken hrefused => exact .upTo (congrArg (c :: ·) hcs) (.cons h htaken) hrefused

/-- **What a consumer is handed**: the chunks up to and including the first one that it refuses. -/
theorem deliver_recording (consume : Sink σ) (cs : List BackupChunk) (s : σ)
    (record : List BackupChunk) :
    ∃ outcome s' handed, Handed consume cs s outcome s' handed ∧
      deliver consume cs s = (outcome, s') ∧
      deliver consume.recording cs (s, record) = (outcome, s', record ++ handed) := by
  induction cs generalizing s record with
  | nil => exact ⟨.ok (), s, [], .all (.nil s), rfl, by rw [deliver, List.append_nil]⟩
  | cons c cs ih =>
      cases hc : consume c s with
      | mk outcome s₁ =>
          cases outcome with
          | error error =>
              have hcs : c :: cs = [] ++ c :: cs := rfl
              refine ⟨.error error, s₁, [c], .upTo hcs (.nil s) hc, ?_, ?_⟩
              · simp only [deliver, hc]
              · simp only [deliver, Sink.recording, hc]
          | ok u =>
              obtain ⟨outcome, s', handed, hrest, hdeliver, hrecord⟩ := ih s₁ (record ++ [c])
              refine ⟨outcome, s', c :: handed, hrest.cons hc, ?_, ?_⟩
              · simp only [deliver, hc, hdeliver]
              · rw [List.append_assoc] at hrecord
                simp only [deliver, Sink.recording, hc]
                exact hrecord

end BackupChunk

/-! ### The chunks of a table -/

/-- Entries are the history of a table, and each change comes with the rows that it has. -/
structure RowLog.Recounts (l : RowLog) (table : TableId) (es : List BackupEntry) : Prop where
  history : es.map (·.change) = l.history table
  ascending : es.Pairwise (fun b b' => b.change.version < b'.change.version)
  rowSet : ∀ b ∈ es, l.rowSet table b.change.version = .ok b.rows

namespace RowLog

variable {l : RowLog} {table : TableId} {es : List BackupEntry}

theorem Sound.exists_recounts (hl : l.Sound) (table : TableId) : ∃ es, l.Recounts table es := by
  obtain ⟨cs, hcs⟩ := hl.exists_keeps table
  refine ⟨cs.map (fun p => ⟨p.1, p.2⟩), ?_, ?_, ?_⟩
  · rw [hcs.history, List.map_map]
    rfl
  · rw [List.pairwise_map]
    exact hcs.ascending
  · exact List.forall_mem_map.2 (fun p hp => hcs.rowSet hp)

namespace Recounts

theorem readEntries (h : l.Recounts table es) :
    BackupChunk.readEntries l table (l.history table) = (es, .ok ()) := by
  rw [← h.history]
  exact readEntries_eq h.rowSet

/-- There are enough numbers for the chunks, however many there are. -/
theorem length_pack_le (h : l.Recounts table es) (max : Nat) :
    (BackupChunk.pack max es).length ≤ Bounded.greatest + 1 := by
  have hpack := BackupChunk.length_pack_le max es
  have htop := l.length_history_le table
  rw [← h.history, List.length_map] at htop
  omega

end Recounts

end RowLog

namespace Engine

open BackupChunk

/-- What the chunks of a table are. -/
structure Chunked (e : Engine) (table : TableId) (max : Nat) (chunks : List BackupChunk) : Prop where
  entries : e.ledger.log.Recounts table (chunks.flatMap (·.entries))
  numbered : chunks.map (·.sequence.toNat) = List.range chunks.length
  table_eq : ∀ c ∈ chunks, c.table = table
  nonempty : ∀ c ∈ chunks, c.entries ≠ []
  /-- A change is never cut. -/
  bounded : ∀ c ∈ chunks, c.rowCount ≤ max ∨ c.entries.length = 1
  /-- The first change of a chunk does not fit into the one before. -/
  full : chunks.IsChain fun c c' => ∃ b, c'.entries.head? = some b ∧
    max < c.rowCount + b.rows.rows.length

/-- The groups that the history of a table is cut into are its chunks when they are numbered. -/
theorem chunked_number {e : Engine} {table : TableId} {es : List BackupEntry}
    (h : e.ledger.log.Recounts table es) (max : Nat) :
    e.Chunked table max (number table 0 (pack max es)) := by
  have hgroups := map_entries_number table 0 (pack max es)
  have hfilled := filled_pack max es
  have hmem : ∀ c ∈ number table 0 (pack max es), c.entries ∈ pack max es := by
    intro c hc
    rw [← hgroups]
    exact List.mem_map_of_mem hc
  have hroom : 0 + (pack max es).length ≤ Bounded.greatest + 1 := by
    rw [Nat.zero_add]
    exact h.length_pack_le max
  refine ⟨?_, ?_, fun c => table_of_mem_number, fun c hc => ne_nil_of_mem_packAfter (hmem c hc), ?_, ?_⟩
  · rw [List.flatMap_def, hgroups, flatten_pack]
    exact h
  · have hlength := congrArg List.length hgroups
    rw [List.length_map] at hlength
    rw [map_sequence_number table hroom, hlength, List.range_eq_range']
  · intro c hc
    have hpos := List.length_pos_iff.2 (ne_nil_of_mem_packAfter (hmem c hc))
    rw [rowCount_eq_total]
    exact (hfilled.fits _ (hmem c hc)).imp_right (fun hle => Nat.le_antisymm hle hpos)
  · have hfull := hfilled.full
    rw [← hgroups, List.isChain_map] at hfull
    refine hfull.imp ?_
    intro c c' hover
    rw [rowCount_eq_total]
    exact hover

/-- **What an export hands out**, at any time and whatever the bound is.  The chunks are the history of the
table, cut as it is said; and a consumer that is handed them one by one gets these very chunks, up to and
including the first one that it refuses, if it refuses one.  If it does not, the number of the chunks is
answered, and else what the consumer answered. -/
theorem Reachable.exists_chunks {e : Engine} (h : e.Reachable) (table : TableId) {max : UInt64}
    (hmax : max ≠ 0) :
    ∃ chunks, e.exportTable table max = .ok chunks ∧ e.Chunked table max.toNat chunks ∧
      ∀ (σ : Type) (consume : Sink σ) (s : σ), ∃ outcome s' handed,
        Handed consume chunks s outcome s' handed ∧
        exportWith e.ledger.log table max consume s =
          (outcome.map (fun _ => chunks.length), s') ∧
        exportWith e.ledger.log table max consume.recording (s, []) =
          (outcome.map (fun _ => chunks.length), s', handed) := by
  obtain ⟨es, hes⟩ := h.sound.log.exists_recounts table
  refine ⟨_, exportAll_eq hmax hes.readEntries, chunked_number hes max.toNat, ?_⟩
  intro σ consume s
  obtain ⟨outcome, s', handed, hhanded, hdeliver, hrecord⟩ :=
    deliver_recording consume (number table 0 (pack max.toNat es)) s []
  refine ⟨outcome, s', handed, hhanded, ?_, ?_⟩
  · rw [exportWith_eq hmax hes.readEntries, hdeliver]
  · rw [exportWith_eq hmax hes.readEntries, hrecord, List.nil_append]

end Engine

namespace Sample

def twice : Engine := (({} : Engine).run [submit [.new [none]], submit [.new [none]]]).2

theorem reachable_twice : twice.Reachable := .run (.start {} {}) _

def takes : BackupChunk.Sink Nat
  | _, 0 => (.error (.refused .datastore "full"), 0)
  | _, n + 1 => (.ok (), n)

end Sample

namespace Engine

open BackupChunk

/-- Cut at one row, each change is a chunk.  A consumer of one chunk takes the first and is handed the second
one as well. -/
theorem exists_chunks_twice :
    Sample.twice.Reachable ∧ (1 : UInt64) ≠ 0 ∧
      ∃ chunks, Sample.twice.exportTable Sample.table 1 = .ok chunks ∧
        Sample.twice.Chunked Sample.table 1 chunks ∧
        ∃ handed, Handed Sample.takes chunks 1 (.error (.refused .datastore "full")) 0 handed ∧
          handed.map (·.entries.map (·.change.version)) = [[1], [2]] := by
  have hone : (1 : UInt64) ≠ 0 := by decide
  have hstopped : (exportWith Sample.twice.ledger.log Sample.table 1 Sample.takes.recording
      (1, [])).map id (fun s => (s.1, s.2.map (·.entries.map (·.change.version)))) =
        (.error (.refused .datastore "full"), 0, [[1], [2]]) := by
    decide +kernel
  obtain ⟨chunks, hchunks, hchunked, hconsumers⟩ :=
    Sample.reachable_twice.exists_chunks Sample.table hone
  obtain ⟨outcome, s', handed, hhanded, -, hrecord⟩ := hconsumers Nat Sample.takes 1
  rw [hrecord] at hstopped
  refine ⟨Sample.reachable_twice, hone, chunks, hchunks, hchunked, handed, ?_⟩
  cases outcome with
  | ok u => cases congrArg Prod.fst hstopped
  | error error =>
      cases Except.error.inj (congrArg Prod.fst hstopped)
      cases congrArg (fun p => p.2.1) hstopped
      exact ⟨hhanded, congrArg (fun p => p.2.2) hstopped⟩

end Engine

end VersionedTables
