import Mathlib.Data.List.TakeWhile
import VersionedTables.Proofs.Log.Growth
import VersionedTables.Proofs.Snapshot.Replay

/-!
# Snapshots of a growing history

A replay applies the changes that a log keeps of a table one after the other.  What a log keeps later
on comes behind, so that a replay up to a version that was there already ends as it did.

* **`Snapshot.applyAll`** — a list of changes, applied one after the other.
* **`Snapshot.replay_of_keeps`** — a replay applies the changes that the log keeps.
* **`Snapshot.replay_of_extends`** — a replay of the past stays what it was.
-/

namespace VersionedTables

namespace Snapshot

def applyAll (s : Snapshot) (cs : List (Change × RowSet)) : Snapshot :=
  cs.foldl (fun s c => s.apply c.1.version c.2) s

variable {l l' : RowLog} {table : TableId} {cs more : List (Change × RowSet)}

/-- **A replay applies the changes that the log keeps**, those within its bound. -/
theorem replay_of_keeps (hl : l.Sound) (h : l.Keeps table cs) (upTo : Option Version) :
    replay l table upTo =
      .ok ((empty table).applyAll (cs.takeWhile (fun c => upTo.all (c.1.version ≤ ·)))) := by
  have hversions : (l.history table).map (·.version) =
      (cs.map (fun p => (p.1.version, p.2))).map (·.1) := by
    rw [h.history, List.map_map, List.map_map]
    rfl
  have hread : ∀ c ∈ cs.map (fun p => (p.1.version, p.2)), l.rowSet table c.1 = .ok c.2 :=
    List.forall_mem_map.2 (fun _ hp => h.rowSet hp)
  rw [replay, foldlM_applyChange hl (.refl l table) (fun v => upTo.all (v ≤ ·)) hversions hread rfl,
    List.takeWhile_map, List.foldl_map]
  rfl

/-- A replay of everything applies all changes that the log keeps. -/
theorem replay_all_of_keeps (hl : l.Sound) (h : l.Keeps table cs) :
    replay l table none = .ok ((empty table).applyAll cs) := by
  have hwhole : cs.takeWhile (fun c => Option.all (c.1.version ≤ ·) none) = cs :=
    List.takeWhile_eq_self_iff.2 (fun _ _ => rfl)
  rw [replay_of_keeps hl h, hwhole]

theorem takeWhile_append_of_forall_not {α : Type} {p : α → Bool} (as : List α) {bs : List α}
    (h : ∀ b ∈ bs, p b = false) : (as ++ bs).takeWhile p = as.takeWhile p := by
  induction as with
  | nil =>
      cases bs with
      | nil => rfl
      | cons b bs =>
          rw [List.nil_append, List.takeWhile_cons, h b List.mem_cons_self]
          rfl
  | cons a as ih => rw [List.cons_append, List.takeWhile_cons, List.takeWhile_cons, ih]

/-- **A replay of the past stays what it was**: a version at or below the last one of a log is
replayed from every extension of it to the same end. -/
theorem replay_of_extends (hl : l.Sound) (hl' : l'.Sound) (he : l'.Extends l) {latest v : Version}
    (hlatest : l.latest? table = some latest) (hv : v ≤ latest) :
    replay l' table (some v) = replay l table (some v) := by
  obtain ⟨cs, h⟩ := hl.exists_keeps table
  obtain ⟨more, h'⟩ := h.exists_append hl' he
  rw [h.latest?] at hlatest
  obtain ⟨last, hlast, rfl⟩ := Option.map_eq_some_iff.1 hlatest
  have hbeyond : ∀ c ∈ more, (some v).all (c.1.version ≤ ·) = false := by
    intro c hc
    have hlt := (List.pairwise_append.1 h'.ascending).2.2 last (List.mem_of_getLast? hlast) c hc
    simpa using UInt64.lt_of_le_of_lt hv hlt
  rw [replay_of_keeps hl h, replay_of_keeps hl' h', takeWhile_append_of_forall_not cs hbeyond]

end Snapshot

end VersionedTables
