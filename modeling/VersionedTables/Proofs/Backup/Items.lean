import Mathlib.Data.List.Induction
import Mathlib.Tactic.Tauto
import VersionedTables.Backup.Restore
import VersionedTables.Proofs.Log.Check

/-!
# Backups in order

A restoration looks at the chunks of a backup and at their entries one after the other.  Whether one of them
is in order is decided by what stands before it.  If all are, the backup as a whole is as it has to be: the
chunks are numbered, all is of one table that has no history, the versions ascend over all chunks, and each
entry passes the check.

* **`BackupItem`**, **`BackupItem.ofChunks`** — what a restoration looks at.
* **`BackupItem.Fits`**, **`BackupItem.InOrder`** — what is in order.
* **`BackupItem.Stops`** — the items before the first one that is not in order.
* **`BackupChunk.Restorable`**, **`BackupItem.inOrder_ofChunks_iff`** — when all of a backup is in order.
-/

namespace VersionedTables

/-- What a restoration looks at: that there is a chunk, the place where it arrives, and entries. -/
inductive BackupItem where
  | chunk (place : Nat) (c : BackupChunk)
  | entry (b : BackupEntry)

namespace BackupItem

/-- The chunks among some items, with the places where they arrive. -/
def chunks (xs : List BackupItem) : List (BackupChunk × Nat) :=
  xs.filterMap fun | .chunk place c => some (c, place) | .entry _ => none

def entries (xs : List BackupItem) : List BackupEntry :=
  xs.filterMap fun | .chunk _ _ => none | .entry b => some b

/-- The items of chunks, the first of which arrives in place `n`: each chunk and then its entries. -/
def ofChunks (n : Nat) : List BackupChunk → List BackupItem
  | [] => []
  | c :: cs => .chunk n c :: (c.entries.map .entry ++ ofChunks (n + 1) cs)

/-- What is in order behind the items `before`, when a backup of the table is restored to a log: a chunk of
the table in its place, if the log has no history of the table; an entry of the table that is newer than
all before it and passes the check. -/
def Fits (log : RowLog) (table : TableId) (before : List BackupItem) : BackupItem → Prop
  | .chunk place c => c.sequence.toNat = place ∧ c.table = table ∧ log.history table = []
  | .entry b => b.change.table = table ∧
      (∀ b' ∈ entries before, b'.change.version < b.change.version) ∧
      b.change.checkRows b.rows = .ok ()

/-- Each item is in order behind those before it. -/
def InOrder (log : RowLog) (table : TableId) (xs : List BackupItem) : Prop :=
  ∀ before x, before ++ [x] <+: xs → x.Fits log table before

/-- The items `done` are those before the first one that is not in order. -/
structure Stops (log : RowLog) (table : TableId) (xs done rest : List BackupItem) : Prop where
  items : xs = done ++ rest
  inOrder : InOrder log table done
  stops : ∀ x ∈ rest.head?, ¬x.Fits log table done

/-! ### Items in order -/

section

variable {log : RowLog} {table : TableId} {xs ys done rest : List BackupItem} {x : BackupItem}

theorem chunks_append (xs ys : List BackupItem) : chunks (xs ++ ys) = chunks xs ++ chunks ys :=
  List.filterMap_append

theorem entries_append (xs ys : List BackupItem) : entries (xs ++ ys) = entries xs ++ entries ys :=
  List.filterMap_append

@[simp] theorem chunks_chunk (place : Nat) (c : BackupChunk) : chunks [.chunk place c] = [(c, place)] := rfl

@[simp] theorem chunks_entry (b : BackupEntry) : chunks [.entry b] = [] := rfl

@[simp] theorem entries_chunk (place : Nat) (c : BackupChunk) : entries [.chunk place c] = [] := rfl

@[simp] theorem entries_entry (b : BackupEntry) : entries [.entry b] = [b] := rfl

theorem inOrder_nil : InOrder log table [] := by
  intro before x h
  exact absurd (List.prefix_nil.1 h) (by simp)

theorem inOrder_concat_iff :
    InOrder log table (xs ++ [x]) ↔ InOrder log table xs ∧ x.Fits log table xs := by
  constructor
  · intro h
    refine ⟨?_, h xs x List.prefix_rfl⟩
    intro before y hy
    exact h before y (hy.trans (List.prefix_append xs [x]))
  · intro h before y hy
    rcases List.prefix_concat_iff.1 hy with heq | hy
    · obtain ⟨rfl, hlast⟩ := List.append_inj' heq rfl
      rw [List.singleton_inj.1 hlast]
      exact h.2
    · exact h.1 before y hy

theorem InOrder.of_append (h : InOrder log table (xs ++ ys)) : InOrder log table xs :=
  fun before x hx => h before x (hx.trans (List.prefix_append xs ys))

/-- All is in order just if nothing is left behind what is. -/
theorem Stops.rest_eq_nil_iff (h : Stops log table xs done rest) : rest = [] ↔ InOrder log table xs := by
  constructor
  · intro hnil
    rw [h.items, hnil, List.append_nil]
    exact h.inOrder
  · intro hall
    cases hrest : rest with
    | nil => rfl
    | cons x rest' =>
        rw [h.items, hrest, List.append_cons] at hall
        exact absurd (inOrder_concat_iff.1 hall.of_append).2 (h.stops x (by rw [hrest]; rfl))

/-- What it is for items to be in order, said of all chunks and of all entries. -/
theorem inOrder_iff : InOrder log table xs ↔
    (∀ p ∈ chunks xs, p.1.sequence.toNat = p.2 ∧ p.1.table = table ∧ log.history table = []) ∧
    (∀ b ∈ entries xs, b.change.table = table ∧ b.change.checkRows b.rows = .ok ()) ∧
    (entries xs).Pairwise (fun b b' => b.change.version < b'.change.version) := by
  induction xs using List.reverseRecOn with
  | nil => exact ⟨fun _ => ⟨nofun, nofun, .nil⟩, fun _ => inOrder_nil⟩
  | append_singleton xs x ih =>
      rw [inOrder_concat_iff, ih, chunks_append, entries_append, List.forall_mem_append,
        List.forall_mem_append, List.pairwise_append]
      cases x with
      | chunk place c =>
          simp only [Fits, chunks_chunk, entries_chunk, List.forall_mem_singleton, List.not_mem_nil,
            false_imp_iff, forall_const, List.Pairwise.nil]
          tauto
      | entry b =>
          simp only [Fits, chunks_entry, entries_entry, List.forall_mem_singleton, List.not_mem_nil,
            false_imp_iff, forall_const, List.pairwise_singleton]
          tauto

end

/-! ### The items of chunks -/

theorem chunks_map_entry (es : List BackupEntry) : chunks (es.map .entry) = [] := by
  induction es with
  | nil => rfl
  | cons b es ih => exact ih

theorem entries_map_entry (es : List BackupEntry) : entries (es.map .entry) = es := by
  induction es with
  | nil => rfl
  | cons b es ih => exact congrArg (b :: ·) ih

theorem ofChunks_cons (n : Nat) (c : BackupChunk) (cs : List BackupChunk) :
    ofChunks n (c :: cs) = [.chunk n c] ++ (c.entries.map .entry ++ ofChunks (n + 1) cs) := rfl

theorem chunks_ofChunks (n : Nat) (cs : List BackupChunk) : chunks (ofChunks n cs) = cs.zipIdx n := by
  induction cs generalizing n with
  | nil => rfl
  | cons c cs ih =>
      rw [ofChunks_cons, chunks_append, chunks_append, chunks_chunk, chunks_map_entry, ih,
        List.zipIdx_cons]
      rfl

theorem entries_ofChunks (n : Nat) (cs : List BackupChunk) :
    entries (ofChunks n cs) = cs.flatMap (·.entries) := by
  induction cs generalizing n with
  | nil => rfl
  | cons c cs ih =>
      rw [ofChunks_cons, entries_append, entries_append, entries_chunk, entries_map_entry, ih,
        List.flatMap_cons]
      rfl

end BackupItem

namespace BackupChunk

/-- Chunks that a log without history of the table can be restored from. -/
structure Restorable (log : RowLog) (table : TableId) (cs : List BackupChunk) : Prop where
  numbered : cs.map (·.sequence.toNat) = List.range cs.length
  table_eq : ∀ c ∈ cs, c.table = table
  history : log.history table = []
  entries : ∀ b ∈ cs.flatMap (·.entries), b.change.table = table
  ascending : (cs.flatMap (·.entries)).Pairwise (fun b b' => b.change.version < b'.change.version)
  valid : ∀ b ∈ cs.flatMap (·.entries), b.change.checkRows b.rows = .ok ()

/-- Chunks are numbered one after the other just if each has the number of its place. -/
theorem forall_mem_zipIdx_iff (n : Nat) (cs : List BackupChunk) :
    (∀ p ∈ cs.zipIdx n, p.1.sequence.toNat = p.2) ↔
      cs.map (·.sequence.toNat) = List.range' n cs.length := by
  have hmap : cs.map (·.sequence.toNat) = (cs.zipIdx n).map (·.1.sequence.toNat) := by
    conv_lhs => rw [← List.zipIdx_map_fst n cs, List.map_map]
    rfl
  rw [hmap, ← List.zipIdx_map_snd n cs, List.map_inj_left]

end BackupChunk

namespace BackupItem

open BackupChunk (Restorable)

/-- **When all of a backup is in order.** -/
theorem inOrder_ofChunks_iff {log : RowLog} {table : TableId} {c : BackupChunk}
    {cs : List BackupChunk} :
    InOrder log table (ofChunks 0 (c :: cs)) ↔ Restorable log table (c :: cs) := by
  rw [inOrder_iff, chunks_ofChunks, entries_ofChunks]
  have hnumbered := BackupChunk.forall_mem_zipIdx_iff 0 (c :: cs)
  rw [← List.range_eq_range'] at hnumbered
  constructor
  · intro h
    obtain ⟨hchunks, hentries, hascending⟩ := h
    have hfirst := hchunks (c, 0) (by simp [List.zipIdx_cons])
    refine ⟨hnumbered.1 (fun p hp => (hchunks p hp).1), ?_, hfirst.2.2,
      fun b hb => (hentries b hb).1, hascending, fun b hb => (hentries b hb).2⟩
    intro c' hc'
    rw [← List.zipIdx_map_fst 0 (c :: cs)] at hc'
    obtain ⟨p, hp, rfl⟩ := List.mem_map.1 hc'
    exact (hchunks p hp).2.1
  · intro h
    refine ⟨fun p hp => ⟨hnumbered.2 h.numbered p hp, h.table_eq p.1 ?_, h.history⟩,
      fun b hb => ⟨h.entries b hb, h.valid b hb⟩, h.ascending⟩
    rw [← List.zipIdx_map_fst 0 (c :: cs)]
    exact List.mem_map_of_mem hp

end BackupItem

end VersionedTables
