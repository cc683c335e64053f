import VersionedTables.Backup.Export
import VersionedTables.Proofs.Log.Commit

/-!
# What an export holds

An export of a table from a sound log holds every change of the table with the rows that it
describes, in order; how many rows a chunk may have decides only where the chunks are cut.

* **`BackupEntry.kept`** — what a log keeps of an entry of a backup.
* **`RowLog.Sound.exists_entries`** — the entries of a table are what the log keeps of it.
* **`BackupChunk.flatten_pack`** — chunks put together are the entries again.
* **`BackupChunk.exportAll_eq`** — the chunks of a history.
-/

namespace VersionedTables

/-- What a log keeps of an entry of a backup: its change and the text of its rows, under its
version. -/
def BackupEntry.kept (b : BackupEntry) : Version × LogEntry :=
  (b.change.version, ⟨b.change, JsonFormat.encode b.rows⟩)

namespace RowLog

variable {l : RowLog}

/-- Entries are read as long as the rows of their changes are. -/
theorem readEntries_eq {table : TableId} {es : List BackupEntry}
    (h : ∀ b ∈ es, l.rowSet table b.change.version = .ok b.rows) :
    BackupChunk.readEntries l table (es.map (·.change)) = (es, .ok ()) := by
  induction es with
  | nil => rfl
  | cons b es ih =>
      obtain ⟨hb, hes⟩ := List.forall_mem_cons.1 h
      rw [List.map_cons, BackupChunk.readEntries, hb, ih hes]

/-- **The entries of a table are what the log keeps of it.** -/
theorem Sound.exists_entries (hl : l.Sound) (table : TableId) :
    ∃ es, BackupChunk.readEntries l table (l.history table) = (es, .ok ()) ∧
      (l.ofTable table).toList = es.map BackupEntry.kept ∧
      ∀ b ∈ es, b.kept.2.Holds table b.change.version b.rows := by
  obtain ⟨cs, hcs, hholds⟩ := hl.exists_changes table
  have hread : ∀ b ∈ cs.map (fun p => BackupEntry.mk p.1 p.2),
      l.rowSet table b.change.version = .ok b.rows :=
    List.forall_mem_map.2 (rowSet_of_keep hcs hholds)
  refine ⟨cs.map (fun p => BackupEntry.mk p.1 p.2), ?_, ?_, ?_⟩
  · rw [history_of_keep hcs, ← readEntries_eq hread, List.map_map]
    rfl
  · rw [hcs, List.map_map]
    rfl
  · intro b hb
    obtain ⟨p, hp, rfl⟩ := List.mem_map.1 hb
    exact hholds p hp

end RowLog

namespace BackupChunk

/-! ### Cutting into chunks -/

theorem flatten_packAfter (max : Nat) (current : List BackupEntry) (count : Nat)
    (es : List BackupEntry) : (packAfter max current count es).flatten = current ++ es := by
  induction es generalizing current count with
  | nil =>
      rw [packAfter]
      split
      · next h =>
          rw [List.isEmpty_iff.1 h]
          rfl
      · rw [List.flatten_cons, List.flatten_nil]
  | cons e es ih =>
      rw [packAfter]
      split
      · rw [List.flatten_cons, ih]
        rfl
      · rw [ih, List.append_assoc]
        rfl

/-- **Chunks put together are the entries again.** -/
theorem flatten_pack (max : Nat) (es : List BackupEntry) : (pack max es).flatten = es :=
  flatten_packAfter max [] 0 es

theorem ne_nil_of_mem_packAfter {max count : Nat} {current es : List BackupEntry}
    {group : List BackupEntry} (h : group ∈ packAfter max current count es) : group ≠ [] := by
  induction es generalizing current count with
  | nil =>
      rw [packAfter] at h
      split at h
      · cases h
      · next hc =>
          rw [List.mem_singleton.1 h]
          exact fun hnil => hc (List.isEmpty_iff.2 hnil)
  | cons e es ih =>
      rw [packAfter] at h
      split at h
      · next hc =>
          rcases List.mem_cons.1 h with rfl | h
          · intro hnil
            simp [hnil] at hc
          · exact ih h
      · exact ih h

/-- Every chunk holds an entry, so there are no more chunks than entries. -/
theorem length_pack_le (max : Nat) (es : List BackupEntry) : (pack max es).length ≤ es.length := by
  have hle : ∀ groups : List (List BackupEntry), (∀ g ∈ groups, g ≠ []) →
      groups.length ≤ groups.flatten.length := by
    intro groups h
    induction groups with
    | nil => exact Nat.le_refl 0
    | cons g groups ih =>
        obtain ⟨hg, hgroups⟩ := List.forall_mem_cons.1 h
        have hpos := List.length_pos_iff.2 hg
        have hrest := ih hgroups
        rw [List.flatten_cons, List.length_append, List.length_cons]
        omega
  have h := hle (pack max es) (fun g hg => ne_nil_of_mem_packAfter hg)
  rwa [flatten_pack] at h

/-! ### Exports -/

theorem deliver_collect (cs acc : List BackupChunk) :
    deliver (fun c cs => (.ok (), cs ++ [c])) cs acc = (.ok (), acc ++ cs) := by
  induction cs generalizing acc with
  | nil => rw [deliver, List.append_nil]
  | cons c cs ih =>
      rw [deliver]
      show deliver _ cs (acc ++ [c]) = _
      rw [ih, List.append_assoc]
      rfl

/-- An export whose entries can all be read hands their chunks on. -/
theorem exportWith_eq {σ : Type} {l : RowLog} {table : TableId} {max : UInt64}
    {es : List BackupEntry} (hmax : max ≠ 0)
    (h : readEntries l table (l.history table) = (es, .ok ()))
    (consume : BackupChunk → σ → Except Error Unit × σ) (s : σ) :
    exportWith l table max consume s =
      ((deliver consume (number table 0 (pack max.toNat es)) s).1.map
          (fun _ => (number table 0 (pack max.toNat es)).length),
        (deliver consume (number table 0 (pack max.toNat es)) s).2) := by
  rw [exportWith, if_neg hmax, chunks, h]
  dsimp only
  cases deliver consume (number table 0 (pack max.toNat es)) s with
  | mk outcome s' =>
      cases outcome with
      | error e => rfl
      | ok u => rfl

/-- **The chunks of a history.** -/
theorem exportAll_eq {l : RowLog} {table : TableId} {max : UInt64} {es : List BackupEntry}
    (hmax : max ≠ 0) (h : readEntries l table (l.history table) = (es, .ok ())) :
    exportAll l table max = .ok (number table 0 (pack max.toNat es)) := by
  rw [exportAll, exportWith_eq hmax h, deliver_collect, List.nil_append]
  rfl

end BackupChunk

end VersionedTables
