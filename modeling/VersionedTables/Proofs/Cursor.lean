import VersionedTables.Cursor
import VersionedTables.Proofs.Snapshot.History

/-!
# Following a table

A poll hands out what lies behind the place of the cursor, change by change, until the consumer refuses
one.  The place is always right behind the changes that the consumer took, so that the next poll goes on
with the very change that was refused.  A consumer that applies changes to a snapshot may have applied
that one already; to apply it again does nothing.

* **`Follower`**, **`Follower.poll`** — a consumer with its cursor, and the record of what it took.
* **`Follower.poll_eq`** — apart from the record it is a poll of the cursor.
* **`Delivers`** — everything that can become of changes that are handed out.
* **`Follower.poll_delivers`** — what a poll does.
* **`Applies`**, **`Delivers.applyAll`** — what becomes of a snapshot on the way.
-/

namespace VersionedTables

/-- A consumer of changes, as a function of its own state. -/
abbrev Consumer (σ : Type) := Change → RowSet → σ → Except Error Unit × σ

structure Follower (σ : Type) where
  cursor : Cursor
  state : σ
  /-- The changes that were taken, with their rows, in the order in which they were. -/
  taken : List (Change × RowSet)

variable {σ : Type}

/-- The consumer that keeps a record of what it takes, and else does the same. -/
def Consumer.recording (consume : Consumer σ) : Consumer (σ × List (Change × RowSet)) :=
  fun c rows s =>
    match consume c rows s.1 with
    | (.error e, state) => (.error e, state, s.2)
    | (.ok (), state) => (.ok (), state, s.2 ++ [(c, rows)])

namespace Follower

def start (table : TableId) (state : σ) : Follower σ := ⟨.start table, state, []⟩

def poll (f : Follower σ) (log : RowLog) (consume : Consumer σ) : Except Error Nat × Follower σ :=
  let (outcome, cursor, state, taken) := f.cursor.poll log consume.recording (f.state, f.taken)
  (outcome, ⟨cursor, state, taken⟩)

end Follower

/-! ### The record -/

/-- A record is kept beside a poll and changes nothing about it. -/
theorem Cursor.exists_pollAll_recording (l : RowLog) (consume : Consumer σ) (hs : List Change)
    (c : Cursor) (count : Nat) (s : σ) (taken : List (Change × RowSet)) :
    ∃ taken', pollAll l consume.recording hs c count (s, taken) =
      ((pollAll l consume hs c count s).1, (pollAll l consume hs c count s).2.1,
        (pollAll l consume hs c count s).2.2, taken') := by
  induction hs generalizing c count s taken with
  | nil => exact ⟨taken, rfl⟩
  | cons change hs ih =>
      rw [pollAll, pollAll]
      split
      · exact ih c count s taken
      · cases l.rowSet c.table change.version with
        | error e => exact ⟨taken, rfl⟩
        | ok rows =>
            cases hc : consume change rows s with
            | mk outcome s' =>
                cases outcome with
                | error e =>
                    simp only [Consumer.recording, hc]
                    exact ⟨taken, rfl⟩
                | ok u =>
                    simp only [Consumer.recording, hc]
                    exact ih _ (count + 1) s' _

/-- Apart from the record, the poll of a follower is that of its cursor. -/
theorem Follower.poll_eq (f : Follower σ) (l : RowLog) (consume : Consumer σ) :
    ((f.poll l consume).1, (f.poll l consume).2.cursor, (f.poll l consume).2.state) =
      f.cursor.poll l consume f.state := by
  obtain ⟨taken', h⟩ := Cursor.exists_pollAll_recording l consume (l.history f.cursor.table)
    f.cursor 0 f.state f.taken
  rw [poll, Cursor.poll, h]
  rfl

/-! ### What a poll does -/

/-- How changes are handed to a consumer: so many of them are taken, until there is none left or one is
refused. -/
inductive Delivers (consume : Consumer σ) : List (Change × RowSet) → List (Change × RowSet) → σ →
    Option Error → σ → Prop
  | done (s : σ) : Delivers consume [] [] s none s
  | take {p : Change × RowSet} {cs taken : List (Change × RowSet)} {s s₁ s' : σ}
      {refusal : Option Error} (h : consume p.1 p.2 s = (.ok (), s₁))
      (rest : Delivers consume cs taken s₁ refusal s') :
      Delivers consume (p :: cs) (p :: taken) s refusal s'
  | refuse {p : Change × RowSet} (cs : List (Change × RowSet)) {s s' : σ} {e : Error}
      (h : consume p.1 p.2 s = (.error e, s')) : Delivers consume (p :: cs) [] s (some e) s'

/-- The place right behind some changes. -/
def Cursor.behind (table : TableId) (cs : List (Change × RowSet)) : Cursor :=
  ⟨table, cs.getLast?.map (·.1.version)⟩

def Delivers.answer (count : Nat) : Option Error → Except Error Nat
  | none => .ok count
  | some e => .error e

namespace Delivers

variable {consume : Consumer σ} {cs taken : List (Change × RowSet)} {s s' : σ}
  {refusal : Option Error}

/-- The changes that are taken are the first ones. -/
theorem isPrefix (h : Delivers consume cs taken s refusal s') : taken <+: cs := by
  induction h with
  | done s => exact List.prefix_rfl
  | take h rest ih => exact List.prefix_cons_inj _ |>.2 ih
  | refuse cs h => exact List.nil_prefix

/-- Where nothing is refused all changes are taken. -/
theorem eq_of_none (h : Delivers consume cs taken s none s') : taken = cs := by
  generalize hr : (none : Option Error) = refusal at h
  induction h with
  | done s => rfl
  | take h rest ih => rw [ih hr]
  | refuse cs h => cases hr

/-- A refusal is one of the consumer. -/
theorem exists_of_some {e : Error} (h : Delivers consume cs taken s (some e) s') :
    ∃ p ∈ cs, ∃ s, (consume p.1 p.2 s).1 = .error e := by
  generalize hr : some e = refusal at h
  induction h with
  | done s => cases hr
  | take h rest ih =>
      obtain ⟨p, hp, s, hs⟩ := ih hr
      exact ⟨p, List.mem_cons_of_mem _ hp, s, hs⟩
  | refuse cs h =>
      cases hr
      exact ⟨_, List.mem_cons_self, _, congrArg Prod.fst h⟩

end Delivers

namespace Cursor

variable {l : RowLog} {table : TableId} {cs taken post : List (Change × RowSet)}
  {consume : Consumer σ}

/-- A change behind the place was not passed yet. -/
theorem passed_behind_eq_false {v : Version} (h : ∀ p ∈ cs, p.1.version < v) :
    (behind table cs).passed v = false := by
  cases hlast : cs.getLast? with
  | none =>
      rw [passed, behind, hlast]
      rfl
  | some p =>
      have hlt := h p (List.mem_of_getLast? hlast)
      rw [passed, behind, hlast]
      simpa using hlt

/-- A change before the place was passed. -/
theorem passed_behind_eq_true {p : Change × RowSet} (hp : p ∈ cs)
    (hasc : cs.Pairwise (fun a b => a.1.version < b.1.version)) :
    (behind table cs).passed p.1.version = true := by
  obtain ⟨front, last, rfl⟩ : ∃ front last, cs = front ++ [last] :=
    ⟨_, _, (List.dropLast_append_getLast (List.ne_nil_of_mem hp)).symm⟩
  have hle : p.1.version ≤ last.1.version := by
    rcases List.mem_append.1 hp with hp | hp
    · exact UInt64.le_of_lt ((List.pairwise_append.1 hasc).2.2 p hp last (by simp))
    · rw [List.mem_singleton.1 hp]
      exact UInt64.le_refl _
  rw [passed, behind, List.getLast?_concat]
  simpa using hle

theorem pollAll_append_of_passed (consume : Consumer σ) {hs : List Change} (rest : List Change)
    {c : Cursor} (h : ∀ change ∈ hs, c.passed change.version = true) (count : Nat) (s : σ) :
    pollAll l consume (hs ++ rest) c count s = pollAll l consume rest c count s := by
  induction hs with
  | nil => rfl
  | cons change hs ih =>
      obtain ⟨hchange, hrest⟩ := List.forall_mem_cons.1 h
      rw [List.cons_append, pollAll, if_pos hchange, ih hrest]

/-- Changes behind the place are handed out one by one. -/
theorem pollAll_delivers (consume : Consumer σ) (hread : ∀ p ∈ post, l.rowSet table p.1.version = .ok p.2)
    (hasc : (taken ++ post).Pairwise (fun a b => a.1.version < b.1.version)) (count : Nat) (s : σ) :
    ∃ new refusal s', Delivers consume post new s refusal s' ∧
      pollAll l consume.recording (post.map (·.1)) (behind table taken) count (s, taken) =
        (Delivers.answer (count + new.length) refusal, behind table (taken ++ new), s',
          taken ++ new) := by
  induction post generalizing taken count s with
  | nil => exact ⟨[], none, s, .done s, by simp [pollAll, Delivers.answer]⟩
  | cons p post ih =>
      obtain ⟨hp, hrest⟩ := List.forall_mem_cons.1 hread
      have hnew : (behind table taken).passed p.1.version = false :=
        passed_behind_eq_false (fun q hq =>
          (List.pairwise_append.1 hasc).2.2 q hq p List.mem_cons_self)
      have hrows : l.rowSet (behind table taken).table p.1.version = .ok p.2 := hp
      rw [List.map_cons, pollAll, if_neg (by simp [hnew]), hrows]
      cases hc : consume p.1 p.2 s with
      | mk outcome s₁ =>
          cases outcome with
          | error e =>
              refine ⟨[], some e, s₁, .refuse post hc, ?_⟩
              simp only [Consumer.recording, hc, Delivers.answer, List.append_nil]
          | ok u =>
              rw [List.append_cons] at hasc
              obtain ⟨new, refusal, s', hd, hpoll⟩ := ih hrest hasc (count + 1) s₁
              refine ⟨p :: new, refusal, s', .take hc hd, ?_⟩
              have hplace : (behind table (taken ++ [p])) =
                  { behind table taken with appliedVersion := some p.1.version } := by
                rw [behind, behind, List.getLast?_concat]
                rfl
              rw [hplace] at hpoll
              simp only [Consumer.recording, hc, hpoll]
              rw [List.append_assoc, List.singleton_append, List.length_cons, Nat.add_assoc,
                Nat.add_comm 1]

end Cursor

/-- **What a poll does**: behind the changes that were taken it hands out what else the log keeps of the
table. -/
theorem Follower.poll_delivers {f : Follower σ} {l : RowLog} {table : TableId}
    {post : List (Change × RowSet)} (hcursor : f.cursor = .behind table f.taken)
    (h : l.Keeps table (f.taken ++ post)) (consume : Consumer σ) :
    ∃ new refusal s', Delivers consume post new f.state refusal s' ∧
      f.poll l consume = (Delivers.answer new.length refusal,
        ⟨.behind table (f.taken ++ new), s', f.taken ++ new⟩) := by
  obtain ⟨new, refusal, s', hd, hpoll⟩ := Cursor.pollAll_delivers consume
    (fun p hp => h.rowSet (List.mem_append_right f.taken hp)) h.ascending 0 f.state
  refine ⟨new, refusal, s', hd, ?_⟩
  have hpassed : ∀ change ∈ f.taken.map (·.1),
      (Cursor.behind table f.taken).passed change.version = true :=
    List.forall_mem_map.2 (fun p hp =>
      Cursor.passed_behind_eq_true hp (List.pairwise_append.1 h.ascending).1)
  have hhistory : l.history (Cursor.behind table f.taken).table =
      f.taken.map (·.1) ++ post.map (·.1) := by
    rw [← List.map_append]
    exact h.history
  rw [poll, hcursor, Cursor.poll, hhistory, Cursor.pollAll_append_of_passed _ _ hpassed, hpoll,
    Nat.zero_add]

/-! ### Consumers that apply changes -/

/-- Of each change that it is handed the consumer makes one more change of the snapshot that is a view
of its state; it may refuse the change before that, or behind it. -/
def Applies (view : σ → Snapshot) (consume : Consumer σ) : Prop :=
  ∀ c rows s, view (consume c rows s).2 = (view s).apply c.version rows ∨
    (view (consume c rows s).2 = view s ∧ ∃ e, (consume c rows s).1 = .error e)

namespace Snapshot

/-- To apply a row set again does nothing. -/
theorem apply_apply (s : Snapshot) (v : Version) (rs : RowSet) :
    (s.apply v rs).apply v rs = s.apply v rs := by
  have hcovers : (s.apply v rs).covers v = true := by
    rw [apply]
    split
    · next h => exact h
    · simp [covers]
  rw [apply.eq_1 (s.apply v rs), if_pos hcovers]

theorem applyAll_concat (s : Snapshot) (cs : List (Change × RowSet)) (p : Change × RowSet) :
    s.applyAll (cs ++ [p]) = (s.applyAll cs).apply p.1.version p.2 := by
  rw [applyAll, applyAll, List.foldl_append, List.foldl_cons, List.foldl_nil]

/-- A change that is handed out again to a snapshot which is ahead by it, or is not ahead, leaves the
snapshot behind that change. -/
theorem apply_ahead (s : Snapshot) {p : Change × RowSet} {before cs more : List (Change × RowSet)}
    {ahead : Option (Change × RowSet)} (h : p :: cs = ahead.toList ++ more) :
    (s.applyAll (before ++ ahead.toList)).apply p.1.version p.2 = s.applyAll (before ++ [p]) := by
  cases ahead with
  | none => rw [Option.toList_none, List.append_nil, applyAll_concat]
  | some q =>
      have hq : p = q := (List.cons.inj h).1
      rw [Option.toList_some, ← hq, applyAll_concat, apply_apply]

end Snapshot

/-- **What becomes of a snapshot on the way**: it is at most one change ahead of what is taken, and then
by the one that was refused. -/
theorem Delivers.applyAll {view : σ → Snapshot} {consume : Consumer σ} (hc : Applies view consume)
    {s₀ : Snapshot} {cs new more before : List (Change × RowSet)}
    {ahead : Option (Change × RowSet)} {s s' : σ} {refusal : Option Error}
    (h : Delivers consume cs new s refusal s') (hcs : cs = ahead.toList ++ more)
    (hview : view s = s₀.applyAll (before ++ ahead.toList)) :
    ∃ ahead' more', cs = new ++ (Option.toList ahead' ++ more') ∧
      view s' = s₀.applyAll (before ++ new ++ ahead'.toList) := by
  induction h generalizing ahead more before with
  | done s =>
      obtain ⟨hnone, -⟩ := List.append_eq_nil_iff.1 hcs.symm
      rw [hnone] at hview
      exact ⟨none, [], rfl, by
        rw [hview, List.append_nil, Option.toList_none, List.append_nil]⟩
  | @take p cs taken s s₁ s' refusal hok rest ih =>
      have happly := hc p.1 p.2 s
      rw [hok] at happly
      -- What is handed out next is ahead of nothing.
      have hview₁ : view s₁ =
          s₀.applyAll (before ++ [p] ++ (none : Option (Change × RowSet)).toList) := by
        rw [Option.toList_none, List.append_nil]
        rcases happly with happly | ⟨-, e, he⟩
        · rw [happly, hview, Snapshot.apply_ahead s₀ hcs]
        · cases he
      obtain ⟨ahead', more', hrest, hview'⟩ := ih rfl hview₁
      refine ⟨ahead', more', by rw [hrest, List.cons_append], ?_⟩
      rw [hview', ← List.append_cons before p taken]
  | @refuse p cs s s' e herror =>
      have happly := hc p.1 p.2 s
      rw [herror] at happly
      rcases happly with happly | ⟨hstay, -⟩
      · refine ⟨some p, cs, rfl, ?_⟩
        rw [happly, hview, Snapshot.apply_ahead s₀ hcs, List.append_nil, Option.toList_some]
      · refine ⟨ahead, more, hcs, ?_⟩
        rw [hstay, hview, List.append_nil]

end VersionedTables
