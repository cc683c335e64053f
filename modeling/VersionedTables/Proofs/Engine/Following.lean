import VersionedTables.Proofs.Cursor
import VersionedTables.Proofs.Engine.Course

/-!
# Following an engine

A consumer polls a table of an engine from time to time, while other things happen to the engine, and
may refuse what it is handed at any point.  Whatever comes between the polls, the changes that it took
are the first ones of the table, each once and in order; a poll that comes to its end leaves none
behind.

* **`Followed`** — the followers that there can be, each with the engine that it follows.
* **`Follower.InStep`** — what is true of a follower at any time.
* **`Followed.loses_nothing`** — nothing is lost, nothing is handed out of order.
-/

namespace VersionedTables

variable {σ : Type}

/-- A follower of a table that there can be: it started in the state `s₀` on an engine that there can
be, and from then on events came in between that did not remove everything, and polls were made with
consumers of the kind `allowed`. -/
inductive Followed (allowed : Consumer σ → Prop) (table : TableId) (s₀ : σ) :
    Engine → Follower σ → Prop
  | start {e : Engine} (h : e.Reachable) : Followed allowed table s₀ e (.start table s₀)
  | event {e : Engine} {f : Follower σ} (v : Event) (hv : v.truncates = false)
      (h : Followed allowed table s₀ e f) : Followed allowed table s₀ (e.handle v).2 f
  | poll {e : Engine} {f : Follower σ} (consume : Consumer σ) (hc : allowed consume)
      (h : Followed allowed table s₀ e f) :
      Followed allowed table s₀ e (f.poll e.ledger.log consume).2

namespace Follower

/-- What is true of the follower of a table at any time. -/
structure InStep (f : Follower σ) (log : RowLog) (table : TableId) : Prop where
  taken : f.taken.map (·.1) <+: log.history table
  rows : ∀ p ∈ f.taken, log.rowSet table p.1.version = .ok p.2
  ascending : f.taken.Pairwise (fun a b => a.1.version < b.1.version)
  cursor : f.cursor = ⟨table, f.taken.getLast?.map (·.1.version)⟩

/-- What a poll has done when it succeeds: it took so many changes more, and then all changes of the
table are taken. -/
structure CaughtUp (f f' : Follower σ) (log : RowLog) (table : TableId) (count : Nat) : Prop where
  taken : ∃ new, f'.taken = f.taken ++ new ∧ new.length = count
  history : f'.taken.map (·.1) = log.history table

/-- The cursor stands right behind the changes that were taken, and the log keeps those and more. -/
structure Follows (f : Follower σ) (log : RowLog) (table : TableId) : Prop where
  cursor : f.cursor = .behind table f.taken
  keeps : ∃ more, log.Keeps table (f.taken ++ more)

/-- The view of the state is the snapshot of the changes that were taken, or of one more. -/
def Mirrors (view : σ → Snapshot) (f : Follower σ) (log : RowLog) (table : TableId) : Prop :=
  ∃ ahead more, log.Keeps table (f.taken ++ (Option.toList ahead ++ more)) ∧
    view f.state = (Snapshot.empty table).applyAll (f.taken ++ ahead.toList)

variable {f : Follower σ} {log log' : RowLog} {table : TableId}

/-! ### What events and polls keep -/

theorem follows_start (hlog : log.Sound) (table : TableId) (s : σ) :
    (start table s).Follows log table := ⟨rfl, hlog.exists_keeps table⟩

theorem Follows.of_extends (h : f.Follows log table) (hlog' : log'.Sound)
    (he : log'.Extends log) : f.Follows log' table := by
  obtain ⟨more, hmore⟩ := h.keeps
  obtain ⟨more', hmore'⟩ := hmore.exists_append hlog' he
  rw [List.append_assoc] at hmore'
  exact ⟨h.cursor, _, hmore'⟩

theorem Follows.poll (h : f.Follows log table) (consume : Consumer σ) :
    (f.poll log consume).2.Follows log table := by
  obtain ⟨more, hmore⟩ := h.keeps
  obtain ⟨new, refusal, s', hd, hpoll⟩ := poll_delivers h.cursor hmore consume
  obtain ⟨rest, rfl⟩ := hd.isPrefix
  rw [hpoll]
  exact ⟨rfl, rest, by rwa [List.append_assoc]⟩

theorem Follows.inStep (h : f.Follows log table) : f.InStep log table := by
  obtain ⟨more, hmore⟩ := h.keeps
  refine ⟨?_, ?_, (List.pairwise_append.1 hmore.ascending).1, h.cursor⟩
  · rw [hmore.history, List.map_append]
    exact List.prefix_append _ _
  · intro p hp
    exact hmore.rowSet (List.mem_append_left more hp)

/-- A poll fails only when the consumer refuses a change; else it leaves none behind. -/
theorem Follows.poll_cases (h : f.Follows log table) (consume : Consumer σ) :
    (∃ count, (f.poll log consume).1 = .ok count ∧
      f.CaughtUp (f.poll log consume).2 log table count) ∨
    ∃ (error : Error) (p : Change × RowSet) (s : σ),
      (f.poll log consume).1 = .error error ∧ (consume p.1 p.2 s).1 = .error error := by
  obtain ⟨more, hmore⟩ := h.keeps
  obtain ⟨new, refusal, s', hd, hpoll⟩ := poll_delivers h.cursor hmore consume
  rw [hpoll]
  cases refusal with
  | none =>
      rw [hd.eq_of_none]
      exact Or.inl ⟨more.length, rfl, ⟨more, rfl, rfl⟩, hmore.history.symm⟩
  | some error =>
      obtain ⟨p, -, s, hs⟩ := hd.exists_of_some
      exact Or.inr ⟨error, p, s, rfl, hs⟩

/-! ### Snapshots -/

section

variable {view : σ → Snapshot}

theorem mirrors_start (hlog : log.Sound) {s : σ} (hs : view s = .empty table) :
    (start table s).Mirrors view log table := by
  obtain ⟨cs, hcs⟩ := hlog.exists_keeps table
  exact ⟨none, cs, hcs, hs⟩

theorem Mirrors.of_extends (h : f.Mirrors view log table) (hlog' : log'.Sound)
    (he : log'.Extends log) : f.Mirrors view log' table := by
  obtain ⟨ahead, more, hkeeps, hview⟩ := h
  obtain ⟨more', hkeeps'⟩ := hkeeps.exists_append hlog' he
  rw [List.append_assoc, List.append_assoc] at hkeeps'
  exact ⟨ahead, _, hkeeps', hview⟩

theorem Mirrors.poll (h : f.Mirrors view log table) (hf : f.Follows log table)
    {consume : Consumer σ} (hc : Applies view consume) :
    (f.poll log consume).2.Mirrors view log table := by
  obtain ⟨ahead, more, hkeeps, hview⟩ := h
  obtain ⟨new, refusal, s', hd, hpoll⟩ := poll_delivers hf.cursor hkeeps consume
  obtain ⟨ahead', more', hpost, hview'⟩ := hd.applyAll hc rfl hview
  rw [hpost, ← List.append_assoc] at hkeeps
  rw [hpoll]
  exact ⟨ahead', more', hkeeps, hview'⟩

/-- Where all changes of a table are taken, the view is what the table holds. -/
theorem Mirrors.replay (h : f.Mirrors view log table) (hlog : log.Sound)
    (hall : f.taken.map (·.1) = log.history table) :
    Snapshot.replay log table none = .ok (view f.state) := by
  obtain ⟨ahead, more, hkeeps, hview⟩ := h
  rw [hkeeps.history, List.map_append] at hall
  have hnil : ahead.toList ++ more = [] :=
    List.map_eq_nil_iff.1 (List.self_eq_append_right.1 hall)
  rw [hnil] at hkeeps
  rw [Snapshot.replay_all_of_keeps hlog hkeeps, hview, (List.append_eq_nil_iff.1 hnil).1]

end

end Follower

namespace Followed

variable {allowed : Consumer σ → Prop} {table : TableId} {s₀ : σ} {e : Engine} {f : Follower σ}

theorem reachable (h : Followed allowed table s₀ e f) : e.Reachable := by
  induction h with
  | start h => exact h
  | event v _ _ ih => exact ih.handle v
  | poll _ _ _ ih => exact ih

theorem follows (h : Followed allowed table s₀ e f) : f.Follows e.ledger.log table := by
  induction h with
  | start h => exact Follower.follows_start h.sound.log table s₀
  | event v hv h ih =>
      have hr := h.reachable
      exact ih.of_extends (hr.handle v).sound.log (hr.handle_extends hv)
  | poll consume _ _ ih => exact ih.poll consume

theorem mirrors {view : σ → Snapshot} (h : Followed allowed table s₀ e f)
    (hallowed : ∀ consume, allowed consume → Applies view consume)
    (hs₀ : view s₀ = .empty table) : f.Mirrors view e.ledger.log table := by
  induction h with
  | start h => exact Follower.mirrors_start h.sound.log hs₀
  | event v hv h ih =>
      have hr := h.reachable
      exact ih.of_extends (hr.handle v).sound.log (hr.handle_extends hv)
  | poll consume hc h ih => exact ih.poll h.follows (hallowed consume hc)

/-- **Nothing is lost and nothing is handed out of order.**  Whatever happens to an engine between the
polls of a table, if it is not that everything is removed, and whatever the consumer refuses on the way:
what it took are the first changes of the table, each once and in order, and the place is right behind
them.  A poll fails only when the consumer refuses a change; else it answers how many changes were
taken, and none is left.  If the consumer makes a snapshot of what it is handed, even where it refuses a
change that it has applied, behind a poll that succeeds the snapshot is what the table holds. -/
theorem loses_nothing (h : Followed allowed table s₀ e f) :
    f.InStep e.ledger.log table ∧ ∀ consume, allowed consume →
      ((∃ count, (f.poll e.ledger.log consume).1 = .ok count ∧
          f.CaughtUp (f.poll e.ledger.log consume).2 e.ledger.log table count) ∨
        ∃ (error : Error) (p : Change × RowSet) (s : σ),
          (f.poll e.ledger.log consume).1 = .error error ∧ (consume p.1 p.2 s).1 = .error error) ∧
      ∀ view : σ → Snapshot, (∀ consume, allowed consume → Applies view consume) →
        view s₀ = .empty table → ∀ count, (f.poll e.ledger.log consume).1 = .ok count →
          e.replay table none = .ok (view (f.poll e.ledger.log consume).2.state) := by
  refine ⟨h.follows.inStep, ?_⟩
  intro consume hc
  have hcases := h.follows.poll_cases consume
  refine ⟨hcases, ?_⟩
  intro view hallowed hs₀ count hok
  rcases hcases with ⟨count', -, hcaught⟩ | ⟨error, p, s, herror, -⟩
  · exact ((Followed.poll consume hc h).mirrors hallowed hs₀).replay h.reachable.sound.log
      hcaught.history
  · rw [herror] at hok
    cases hok

end Followed

namespace Sample

/-- A consumer that applies what it is handed to a snapshot, and then may refuse it all the same. -/
def consume (refusal : Option Error) : Consumer Snapshot :=
  fun c rows s => (refusal.elim (.ok ()) .error, s.apply c.version rows)

theorem applies_consume (refusal : Option Error) : Applies id (consume refusal) :=
  fun _ _ _ => .inl rfl

/-- A follower that refused the first row when it had applied it. -/
def refuser : Follower Snapshot :=
  ((Follower.start table (.empty table)).poll engine.ledger.log
    (consume (some (.refused .datastore "busy")))).2

theorem taken_refuser : refuser.taken = [] := by
  obtain ⟨cs, hcs⟩ := reachable_engine.sound.log.exists_keeps table
  obtain ⟨new, refusal, s, hd, hpoll⟩ :=
    Follower.poll_delivers (f := .start table (.empty table)) rfl hcs
      (consume (some (.refused .datastore "busy")))
  rw [refuser, hpoll]
  cases hd with
  | done => rfl
  | take h => cases h
  | refuse => rfl

end Sample

/-- The row that was refused is handed out again, and the snapshot does not take it twice. -/
theorem Followed.loses_nothing_refused_row :
    Followed (Applies id) Sample.table (.empty Sample.table) Sample.engine Sample.refuser ∧
      Sample.refuser.taken = [] ∧
      Sample.refuser.InStep Sample.engine.ledger.log Sample.table ∧
      ∃ count, (Sample.refuser.poll Sample.engine.ledger.log (Sample.consume none)).1 = .ok count ∧
        Sample.engine.replay Sample.table none =
          .ok (Sample.refuser.poll Sample.engine.ledger.log (Sample.consume none)).2.state := by
  have hfollowed : Followed (Applies id) Sample.table (.empty Sample.table) Sample.engine
      Sample.refuser := by
    rw [Sample.refuser]
    exact .poll _ (Sample.applies_consume _) (.start Sample.reachable_engine)
  obtain ⟨hstep, hpoll⟩ := hfollowed.loses_nothing
  obtain ⟨hcases, hreplay⟩ := hpoll (Sample.consume none) (Sample.applies_consume none)
  refine ⟨hfollowed, Sample.taken_refuser, hstep, ?_⟩
  rcases hcases with ⟨count, hok, -⟩ | ⟨error, p, s, -, hrefused⟩
  · have hstate := hreplay id (fun _ h => h) rfl count hok
    rw [id_eq] at hstate
    exact ⟨count, hok, hstate⟩
  · cases hrefused

end VersionedTables
