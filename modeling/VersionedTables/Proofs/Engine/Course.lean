import VersionedTables.Proofs.Engine.Reachable
import VersionedTables.Proofs.Snapshot.History

/-!
# The course of an engine

Between any two points of its course requests are performed on an engine and rights are given or taken
away.  As long as not everything is removed, the history of a table goes on behind what it was, and the
past of the table is read as it was before.

* **`Event`**, **`Engine.handle`**, **`Engine.course`** — what can happen to an engine, once and one
  after the other.
* **`Engine.course_extends`** — a course without a removal extends the log.
* **`Engine.Reachable.course_preserves`** — the past of a table stays what it was.
-/

namespace VersionedTables

/-- What can happen to an engine: a request is performed, or rights are given or taken away. -/
inductive Event where
  | request (r : Request)
  | authorize (authority : Authority)

def Event.truncates : Event → Bool
  | .request r => r.operation = .truncate
  | .authorize _ => false

namespace Engine

/-- One event: what is answered, and the engine behind it. -/
def handle (e : Engine) : Event → Except Error Answer × Engine
  | .request r => e.perform r
  | .authorize authority => (.ok .done, { e with authority })

/-- A list of events: what is answered, and the engine behind the last one. -/
def course (e : Engine) : List Event → List (Except Error Answer) × Engine
  | [] => ([], e)
  | v :: vs => ((e.handle v).1 :: ((e.handle v).2.course vs).1, ((e.handle v).2.course vs).2)

variable {e : Engine}

theorem Reachable.handle (h : e.Reachable) (v : Event) : (e.handle v).2.Reachable := by
  cases v with
  | request r => exact .perform r h
  | authorize authority => exact .authorize authority h

theorem Reachable.course (h : e.Reachable) (vs : List Event) : (e.course vs).2.Reachable := by
  induction vs generalizing e with
  | nil => exact h
  | cons v vs ih => exact ih (h.handle v)

/-- A course goes on where the one before it has ended. -/
theorem course_append (us vs : List Event) :
    e.course (us ++ vs) =
      ((e.course us).1 ++ ((e.course us).2.course vs).1, ((e.course us).2.course vs).2) := by
  induction us generalizing e with
  | nil => rfl
  | cons u us ih =>
      rw [List.cons_append, Engine.course, ih]
      rfl

/-- The last event of a course is handled by the engine behind those before it. -/
theorem course_concat (vs : List Event) (v : Event) :
    (e.course (vs ++ [v])).2 = ((e.course vs).2.handle v).2 := by
  rw [course_append]
  rfl

/-! ### What happens to the log -/

theorem Reachable.handle_extends (h : e.Reachable) {v : Event} (hv : v.truncates = false) :
    (e.handle v).2.ledger.log.Extends e.ledger.log := by
  cases v with
  | request r =>
      have hr : r.operation ≠ .truncate := of_decide_eq_false hv
      exact Ledger.extends_log_of_steps ((perform_moves h.sound r).steps hr)
  | authorize authority => exact .refl _

/-- **A course without a removal extends the log.** -/
theorem Reachable.course_extends (h : e.Reachable) {vs : List Event}
    (hvs : ∀ v ∈ vs, v.truncates = false) :
    (e.course vs).2.ledger.log.Extends e.ledger.log := by
  induction vs generalizing e with
  | nil => exact .refl _
  | cons v vs ih =>
      obtain ⟨hv, hrest⟩ := List.forall_mem_cons.1 hvs
      exact (h.handle_extends hv).trans (ih (h.handle v) hrest)

end Engine

/-! ### The past of a table -/

/-- Everything that an earlier log `l` had of a table is in a later one as it was. -/
structure RowLog.Preserves (l' l : RowLog) (table : TableId) : Prop where
  history : l.history table <+: l'.history table
  change : ∀ c ∈ l.history table,
    l.change table c.version = .ok c ∧ l'.change table c.version = .ok c
  rowSet : ∀ c ∈ l.history table, ∃ rs,
    l.rowSet table c.version = .ok rs ∧ l'.rowSet table c.version = .ok rs
  /-- At a version that was there the table is replayed to the same content. -/
  replay : ∀ latest ∈ l.latest? table, ∀ v ≤ latest, ∃ s,
    Snapshot.replay l table (some v) = .ok s ∧ Snapshot.replay l' table (some v) = .ok s

/-- An extension preserves what a log has of a table. -/
theorem RowLog.Extends.preserves {l l' : RowLog} (he : l'.Extends l) (hl : l.Sound)
    (hl' : l'.Sound) (table : TableId) : l'.Preserves l table := by
  obtain ⟨cs, h⟩ := hl.exists_keeps table
  obtain ⟨more, h'⟩ := h.exists_append hl' he
  have hkept : ∀ c ∈ l.history table, ∃ p ∈ cs, p.1 = c := by
    intro c hc
    rw [h.history] at hc
    exact List.mem_map.1 hc
  refine ⟨he.history table, ?_, ?_, ?_⟩
  · intro c hc
    obtain ⟨p, hp, rfl⟩ := hkept c hc
    exact ⟨h.change hp, h'.change (List.mem_append_left more hp)⟩
  · intro c hc
    obtain ⟨p, hp, rfl⟩ := hkept c hc
    exact ⟨p.2, h.rowSet hp, h'.rowSet (List.mem_append_left more hp)⟩
  · intro latest hlatest v hv
    have hpast := Snapshot.replay_of_extends hl hl' he hlatest hv
    have hreplay := Snapshot.replay_of_keeps hl h (some v)
    exact ⟨_, hreplay, hpast.trans hreplay⟩

namespace Engine

/-- **The past of a table stays what it was**: whatever happens to an engine, if it is not that
everything is removed, the history of every table goes on behind what it was, its changes and their
rows are what they were, and the table is replayed at every version that was there to the same
content. -/
theorem Reachable.course_preserves {e : Engine} (h : e.Reachable) {vs : List Event}
    (hvs : ∀ v ∈ vs, v.truncates = false) (table : TableId) :
    (e.course vs).2.ledger.log.Preserves e.ledger.log table :=
  (h.course_extends hvs).preserves h.sound.log (h.course vs).sound.log table

/-- A commit, a refused commit and a change of rights behind the first row of the small engine. -/
theorem course_preserves_first_row :
    ∃ vs : List Event, vs = [.request (Sample.submit [.update 1 [none]]),
        .request (Sample.submit [.delete 7]), .authorize { permissive := true }] ∧
      Sample.engine.Reachable ∧ (∀ v ∈ vs, v.truncates = false) ∧
      ((Sample.engine.course vs).2.ledger.log.history Sample.table).length = 2 ∧
      Sample.engine.ledger.log.history Sample.table = [Sample.change] ∧
      (Sample.engine.course vs).2.ledger.log.Preserves Sample.engine.ledger.log Sample.table := by
  refine ⟨_, rfl, Sample.reachable_engine, by decide, rfl, rfl, ?_⟩
  exact Sample.reachable_engine.course_preserves (by decide) Sample.table

end Engine

end VersionedTables
