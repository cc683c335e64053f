import VersionedTables.Engine.Deployment
import VersionedTables.Proofs.Engine.Acceptance
import VersionedTables.Proofs.Engine.Parts
import VersionedTables.Proofs.Engine.Since
import VersionedTables.Proofs.Log.Retained

/-!
# Engines that write to the same tables

Where engines share their rows but not their counters, the version that one of them takes for a row set may
be one that another has committed.  Then the row set is refused and nothing is overwritten: what was read of a
version is read of it for good, whatever any of the engines does, until everything is removed.  The numbers
that were taken are lost, and the counters that they were taken from do not hand them out again, as long as
they are not removed.

* **`Engine.perform_outgrows`** — a request loses nothing unless everything is removed.
* **`Engine.Draws`**, **`Engine.Draws.collides`** — a submitted row set whose version is taken.
* **`Deployment.Move`**, **`Deployment.course`** — what can happen to engines that share stores.
* **`Deployment.Spares.retains`**, **`Deployment.Spares.rise`** — what a course keeps of a store.
* **`Deployment.collisions_keep_history`** — colliding writers never overwrite history.
* **`Deployment.lost_numbers_handed_out`** — with the counters it is forgotten which numbers are gone.
-/

namespace VersionedTables

namespace Engine

variable {e : Engine} {r : Request} {table : TableId} {delta : RowSet} {numbers : Reservation}

/-! ### What one engine does to its stores -/

theorem appendUnder_outgrows (e : Engine) (millis : UInt64) (caller : Caller) (table : TableId)
    (schema : List Column) (delta : RowSet) :
    (e.appendUnder millis caller table schema delta).2.ledger.Outgrows e.ledger := by
  unfold appendUnder
  split
  · exact .refl e.ledger
  · exact e.ledger.append_outgrows e.initial caller.userId millis table schema delta

theorem append_outgrows (e : Engine) (millis : UInt64) (caller : Caller) (table : TableId)
    (delta : RowSet) : (e.append millis caller table delta).2.ledger.Outgrows e.ledger := by
  unfold append
  split
  · exact .refl e.ledger
  · exact e.appendUnder_outgrows millis caller table _ delta

/-- **A request loses nothing** of the rows and of the counters, unless everything is removed. -/
theorem perform_outgrows (e : Engine) (h : (Event.request r).removesAll = false) :
    (e.perform r).2.ledger.Outgrows e.ledger := by
  cases hop : r.operation with
  | reserve table count =>
      unfold perform
      rw [hop]
      exact ⟨.refl _, Ledger.rise_of_reserve rfl⟩
  | advance table rowId version =>
      unfold perform
      rw [hop]
      exact ⟨.refl _, .of_insert (Counter.raised_advance _ rowId version)⟩
  | append table delta =>
      unfold perform
      rw [hop]
      exact e.append_outgrows r.millis r.caller table delta
  | appendUnder table schema delta =>
      unfold perform
      rw [hop]
      exact e.appendUnder_outgrows r.millis r.caller table schema delta
  | restore chunks =>
      unfold perform
      rw [hop]
      exact Ledger.outgrows_of_steps (BackupChunk.restore_steps e.initial chunks e.ledger)
  | truncate =>
      have hadmin : r.caller.admin = false := by
        simpa [Event.removesAll, hop] using h
      unfold perform truncate
      rw [hop, hadmin]
      exact .refl _
  | _ =>
      rw [(e.perform_within r).ledger (by simp [hop, Operation.changes])]
      exact .refl _

/-- A row set is submitted to a table, under the schema of the table or under a given one, by someone who
may update the table.  It passes the check, and the numbers are taken for it. -/
inductive Draws (e : Engine) (r : Request) (table : TableId) (delta : RowSet) (numbers : Reservation) :
    Prop
  | intro (schema : List Column)
      (operation : r.operation = .appendUnder table schema delta ∨
        r.operation = .append table delta ∧ Schema.columns e.catalog e.bindings table = .ok schema)
      (access : e.authority.allows r.caller table .update = true)
      (check : delta.check table schema (e.counter table).lastRowId = .ok ())
      (granted : (e.ledger.counters.reserve table delta.newRows e.initial).1 = .ok numbers)

/-- **A submitted row set whose version is taken** is refused, and the engine stays as it is but for the
counters of the table. -/
theorem Draws.collides (h : e.Draws r table delta numbers)
    (htaken : (e.ledger.log.entry? table numbers.version).isSome) :
    ∃ c, (e.counter table).Reserves delta.newRows numbers c ∧
      e.perform r = (.error (.changeExists ⟨table, numbers.version⟩),
        e.withLedger { e.ledger with counters := e.ledger.counters.insert table c }) := by
  obtain ⟨schema, operation, access, check, granted⟩ := h
  cases hres : e.ledger.counters.reserve table delta.newRows e.initial with
  | mk outcome counters =>
      rw [hres] at granted
      cases granted
      obtain ⟨c, hc, rfl⟩ := Counters.reserve_eq_ok hres
      refine ⟨c, hc, ?_⟩
      have hunder : e.appendUnder r.millis r.caller table schema delta =
          (.error (.changeExists ⟨table, numbers.version⟩),
            e.withLedger { e.ledger with counters := e.ledger.counters.insert table c }) := by
        rw [appendUnder_eq access, Ledger.append_collides r.caller.userId r.millis check hres htaken]
      unfold perform
      rcases operation with hop | ⟨hop, hschema⟩
      · rw [hop]
        show conclude _ (e.appendUnder ..) = _
        rw [hunder]
        rfl
      · rw [hop]
        show conclude _ (e.append ..) = _
        rw [append_eq_appendUnder access hschema, hunder]
        rfl

/-- Numbers of a table are handed out: to someone who asks for them, or to a submitted row set. -/
inductive HandsNumbers (e : Engine) (r : Request) (table : TableId) (numbers : Reservation) : Prop
  | reserved (count : UInt64) (operation : r.operation = .reserve table count)
      (answer : (e.perform r).1 = .ok (.reservation numbers))
  | drawn (delta : RowSet) (h : e.Draws r table delta numbers)

theorem HandsNumbers.exists_reserves (h : e.HandsNumbers r table numbers) :
    ∃ count c, (e.counter table).Reserves count numbers c := by
  have hgranted : ∀ count : Nat, (e.ledger.counters.reserve table count e.initial).1 = .ok numbers →
      ∃ count c, (e.counter table).Reserves count numbers c := by
    intro count hres
    obtain ⟨c, hc, -⟩ := Counters.reserve_eq_ok (Prod.ext hres rfl)
    exact ⟨count, c, hc⟩
  cases h with
  | reserved count operation answer =>
      refine hgranted count.toNat ?_
      unfold perform at answer
      rw [operation] at answer
      obtain ⟨numbers', hres, hnumbers⟩ := Outcome.map_eq_ok_iff.1 answer
      cases hnumbers
      exact hres
  | drawn delta h =>
      obtain ⟨schema, operation, access, check, granted⟩ := h
      exact hgranted delta.newRows granted

end Engine

/-! ### What happens to a deployment -/

namespace Deployment

/-- What can happen to engines that share stores: a request is made to one of them, rights are given or
taken away there, or another engine is started. -/
inductive Move where
  | request (i : Nat) (r : Request)
  | authorize (i : Nat) (authority : Authority)
  | start (settings : Settings) (authority : Authority) (places : StorePlaces)

variable {d : Deployment} {i n : Nat} {s : Seat} {e : Engine} {m : Move}

/-- The deployment behind a move.  Where there is no engine of the number nothing happens. -/
def handle (d : Deployment) : Move → Deployment
  | .request i r => ((d.perform i r).map (·.2)).getD d
  | .authorize i authority =>
      ((d.engine? i).map fun e => d.replace i { e with authority }).getD d
  | .start settings authority places => d.start settings authority places

def course (d : Deployment) (ms : List Move) : Deployment := ms.foldl handle d

def logAt (d : Deployment) (n : Nat) : RowLog := (d.logs.get? n).getD ∅

def countersAt (d : Deployment) (n : Nat) : Counters := (d.counters.get? n).getD ∅

/-- Everything is removed from an engine whose store of a kind is the one of the number `n`. -/
def removes (d : Deployment) (place : StorePlaces → Nat) (n : Nat) : Move → Bool
  | .request i r => (Event.request r).removesAll && d.seats[i]?.any (fun s => place s.places = n)
  | _ => false

/-- In a course nothing is removed from the store of the number `n`. -/
def Spares (d : Deployment) (place : StorePlaces → Nat) (n : Nat) : List Move → Prop
  | [] => True
  | m :: ms => d.removes place n m = false ∧ (d.handle m).Spares place n ms

theorem perform_eq (hs : d.seats[i]? = some s) (r : Request) :
    d.perform i r = some (((d.view s).perform r).1, d.replace i ((d.view s).perform r).2) := by
  rw [perform, engine?, hs]
  rfl

theorem logAt_replace (hs : d.seats[i]? = some s) (e : Engine) (n : Nat) :
    (d.replace i e).logAt n = if n = s.places.log then e.ledger.log else d.logAt n := by
  unfold replace
  rw [hs]
  show (SortedMap.get? (d.logs.insert s.places.log e.ledger.log) n).getD ∅ = _
  rw [SortedMap.get?_insert]
  split <;> rfl

theorem countersAt_replace (hs : d.seats[i]? = some s) (e : Engine) (n : Nat) :
    (d.replace i e).countersAt n =
      if n = s.places.counters then e.ledger.counters else d.countersAt n := by
  unfold replace
  rw [hs]
  show (SortedMap.get? (d.counters.insert s.places.counters e.ledger.counters) n).getD ∅ = _
  rw [SortedMap.get?_insert]
  split <;> rfl

/-- A move changes nothing of the rows and of the counters, or it is a request to one of the engines. -/
theorem handle_cases (d : Deployment) (m : Move) :
    (∀ n, (d.handle m).logAt n = d.logAt n ∧ (d.handle m).countersAt n = d.countersAt n) ∨
      ∃ i s r, m = .request i r ∧ d.seats[i]? = some s ∧
        d.handle m = d.replace i ((d.view s).perform r).2 := by
  cases m with
  | start settings authority places => exact Or.inl (fun n => ⟨rfl, rfl⟩)
  | authorize i authority =>
      refine Or.inl (fun n => ?_)
      cases hs : d.seats[i]? with
      | none =>
          rw [handle, engine?, hs]
          exact ⟨rfl, rfl⟩
      | some s =>
          have hafter : d.handle (.authorize i authority) = d.replace i { d.view s with authority } := by
            rw [handle, engine?, hs]
            rfl
          rw [hafter, logAt_replace hs, countersAt_replace hs]
          exact ⟨ite_eq_right_iff.2 (fun hn => hn ▸ rfl), ite_eq_right_iff.2 (fun hn => hn ▸ rfl)⟩
  | request i r =>
      cases hs : d.seats[i]? with
      | none =>
          refine Or.inl (fun n => ?_)
          rw [handle, perform, engine?, hs]
          exact ⟨rfl, rfl⟩
      | some s =>
          refine Or.inr ⟨i, s, r, rfl, hs, ?_⟩
          rw [handle, perform_eq hs]
          rfl

/-- A request to an engine on a store of which nothing is removed does not remove everything. -/
theorem removesAll_of_removes {place : StorePlaces → Nat} {r : Request}
    (h : d.removes place n (.request i r) = false) (hs : d.seats[i]? = some s)
    (hn : n = place s.places) : (Event.request r).removesAll = false := by
  subst hn
  simpa [removes, hs] using h

/-- A move that removes nothing from a store of rows loses nothing of it. -/
theorem handle_retains (h : d.removes (·.log) n m = false) :
    ((d.handle m).logAt n).Retains (d.logAt n) := by
  rcases d.handle_cases m with hsame | ⟨i, s, r, rfl, hs, hafter⟩
  · rw [(hsame n).1]
    exact .refl _
  · rw [hafter, logAt_replace hs]
    split
    · next hn =>
        subst hn
        exact ((d.view s).perform_outgrows (removesAll_of_removes h hs rfl)).log
    · exact .refl _

/-- A move that removes nothing from a store of counters lowers none of them. -/
theorem handle_rise (h : d.removes (·.counters) n m = false) :
    (d.countersAt n).Rise ((d.handle m).countersAt n) := by
  rcases d.handle_cases m with hsame | ⟨i, s, r, rfl, hs, hafter⟩
  · rw [(hsame n).2]
    exact .refl _
  · rw [hafter, countersAt_replace hs]
    split
    · next hn =>
        subst hn
        exact ((d.view s).perform_outgrows (removesAll_of_removes h hs rfl)).counters
    · exact .refl _

/-- **A course that removes nothing from a store of rows loses nothing of it.** -/
theorem Spares.retains {ms : List Move} (h : d.Spares (·.log) n ms) :
    ((d.course ms).logAt n).Retains (d.logAt n) := by
  induction ms generalizing d with
  | nil => exact .refl _
  | cons m ms ih => exact (handle_retains h.1).trans (ih h.2)

/-- **A course that removes nothing from a store of counters lowers none of them.** -/
theorem Spares.rise {ms : List Move} (h : d.Spares (·.counters) n ms) :
    (d.countersAt n).Rise ((d.course ms).countersAt n) := by
  induction ms generalizing d with
  | nil => exact .refl _
  | cons m ms ih => exact (handle_rise h.1).trans (ih h.2)

/-- An engine stays on its stores. -/
theorem handle_seat (hs : d.seats[i]? = some s) (m : Move) :
    ∃ s', (d.handle m).seats[i]? = some s' ∧ s'.places = s.places := by
  have hreplace : ∀ j e, ∃ s', (d.replace j e).seats[i]? = some s' ∧ s'.places = s.places := by
    intro j e
    cases ht : d.seats[j]? with
    | none =>
        rw [replace, ht]
        exact ⟨s, hs, rfl⟩
    | some t =>
        rw [replace, ht]
        show ∃ s', (d.seats.set j { t with settings := e.settings, authority := e.authority })[i]? =
          some s' ∧ _
        by_cases hij : j = i
        · subst hij
          obtain ⟨hlt, -⟩ := List.getElem?_eq_some_iff.1 hs
          rw [hs] at ht
          cases ht
          exact ⟨_, List.getElem?_set_self hlt, rfl⟩
        · exact ⟨s, (List.getElem?_set_ne hij).trans hs, rfl⟩
  cases m with
  | start settings authority places =>
      obtain ⟨hlt, -⟩ := List.getElem?_eq_some_iff.1 hs
      exact ⟨s, (List.getElem?_append_left hlt).trans hs, rfl⟩
  | authorize j authority =>
      cases ht : d.seats[j]? with
      | none =>
          rw [handle, engine?, ht]
          exact ⟨s, hs, rfl⟩
      | some t =>
          rw [handle, engine?, ht]
          exact hreplace j _
  | request j r =>
      cases ht : d.seats[j]? with
      | none =>
          rw [handle, perform, engine?, ht]
          exact ⟨s, hs, rfl⟩
      | some t =>
          rw [handle, perform_eq ht]
          exact hreplace j _

theorem course_seat (hs : d.seats[i]? = some s) (ms : List Move) :
    ∃ s', (d.course ms).seats[i]? = some s' ∧ s'.places = s.places := by
  induction ms generalizing d s with
  | nil => exact ⟨s, hs, rfl⟩
  | cons m ms ih =>
      obtain ⟨s', hs', hplaces⟩ := handle_seat hs m
      obtain ⟨s'', hs'', hplaces'⟩ := ih hs'
      exact ⟨s'', hs'', hplaces'.trans hplaces⟩

/-! ### Colliding writers -/

/-- An engine whose rows are in the store of the number `n` gives an answer to an operation. -/
def Tells (d : Deployment) (n : Nat) (operation : Operation) (answer : Answer) : Prop :=
  ∃ i s r d', d.seats[i]? = some s ∧ s.places.log = n ∧ r.operation = operation ∧
    d.perform i r = some (.ok answer, d')

/-- Every engine whose rows are in the store of the number `n` gives an answer to an operation. -/
def AllTell (d : Deployment) (n : Nat) (operation : Operation) (answer : Answer) : Prop :=
  ∀ i s r, d.seats[i]? = some s → s.places.log = n → r.operation = operation →
    ∃ d', d.perform i r = some (.ok answer, d')

/-- What is read of a log that retains it is told for good, as long as the rows are not removed. -/
theorem Spares.allTell {α : Type} {operation : Operation} {answer : α → Answer} {ms : List Move}
    {a : α} (h : d.Spares (·.log) n ms) (read : RowLog → Except Error α)
    (hread : ∀ (e : Engine) r, r.operation = operation →
      e.perform r = ((read e.ledger.log).map answer, e))
    (hretains : ∀ l l' : RowLog, l'.Retains l → read l = .ok a → read l' = .ok a)
    (hanswer : Function.Injective answer) (htold : d.Tells n operation (answer a)) :
    (d.course ms).AllTell n operation (answer a) := by
  obtain ⟨i, s, r, d', hs, rfl, hr, htold⟩ := htold
  rw [perform_eq hs, hread _ r hr] at htold
  obtain ⟨a', ha, heq⟩ := Outcome.map_eq_ok_iff.1 (congrArg Prod.fst (Option.some.inj htold))
  cases hanswer heq
  intro j s' r' hs' hn hr'
  have hkept : read ((d.course ms).view s').ledger.log = .ok a :=
    hretains (d.logAt s.places.log) ((d.course ms).logAt s'.places.log) (hn ▸ h.retains) ha
  rw [perform_eq hs' r', hread _ r' hr', hkept]
  exact ⟨_, rfl⟩

/-- A row set is submitted to the engine of the number `i`, at the seat `s`, and its version is taken. -/
structure Collides (d : Deployment) (i : Nat) (s : Seat) (r : Request) (table : TableId)
    (delta : RowSet) (numbers : Reservation) (d' : Deployment) : Prop where
  refused : d.perform i r = some (.error (.changeExists ⟨table, numbers.version⟩), d')
  datastore : (Error.changeExists ⟨table, numbers.version⟩).kind = .datastore
  rows : ∀ n, d'.logAt n = d.logAt n
  taken : ((d.view s).counter table).Reserves delta.newRows numbers ((d'.view s).counter table)
  counters : ∀ n t, n ≠ s.places.counters ∨ t ≠ table →
    (d'.countersAt n).get? t = (d.countersAt n).get? t
  seat : ∀ ms : List Move, ∃ s', (d'.course ms).seats[i]? = some s' ∧ s'.places = s.places
  /-- As long as the counters are not removed, no engine hands numbers out of them that are not above those
  that are gone. -/
  never_again : ∀ ms : List Move, d'.Spares (·.counters) s.places.counters ms →
    ∀ (j : Nat) (s' : Seat) (r' : Request) (numbers' : Reservation),
    (d'.course ms).seats[j]? = some s' → s'.places.counters = s.places.counters →
    ((d'.course ms).view s').HandsNumbers r' table numbers' →
    numbers.version < numbers'.version ∧ ∀ id ∈ numbers.rowIds, ∀ id' ∈ numbers'.rowIds, id < id'

theorem exists_collides {r : Request} {table : TableId} {delta : RowSet} {numbers : Reservation}
    (hs : d.seats[i]? = some s) (hdraws : (d.view s).Draws r table delta numbers)
    (htaken : ((d.view s).ledger.log.entry? table numbers.version).isSome) :
    ∃ d', d.Collides i s r table delta numbers d' := by
  obtain ⟨c, hc, hperform⟩ := hdraws.collides htaken
  have hafter : d.perform i r =
      some (.error (.changeExists ⟨table, numbers.version⟩), d.handle (.request i r)) := by
    rw [handle, perform_eq hs, hperform]
    rfl
  have hhandle : d.handle (.request i r) = d.replace i ((d.view s).withLedger
      { (d.view s).ledger with counters := (d.countersAt s.places.counters).insert table c }) := by
    rw [handle, perform_eq hs, hperform]
    rfl
  have hcounters : ∀ n, (d.handle (.request i r)).countersAt n =
      if n = s.places.counters then (d.countersAt s.places.counters).insert table c
      else d.countersAt n := by
    intro n
    rw [hhandle, countersAt_replace hs]
    rfl
  have hget : SortedMap.get? ((d.handle (.request i r)).countersAt s.places.counters) table = some c := by
    rw [hcounters, if_pos rfl, SortedMap.get?_insert_self]
  -- The counters of the table are there from now on, so that those that the settings give do not count.
  have hcounter : ∀ {d' : Deployment} {s' : Seat} {c' : Counter},
      (d'.countersAt s'.places.counters).get? table = some c' → (d'.view s').counter table = c' :=
    fun hget' => congrArg (Option.getD · _) hget'
  refine ⟨d.handle (.request i r), hafter, rfl, fun n => ?_, ?_, fun n t hother => ?_,
    fun ms => course_seat hs (.request i r :: ms), ?_⟩
  · rw [hhandle, logAt_replace hs]
    exact ite_eq_right_iff.2 (fun hn => hn ▸ rfl)
  · rw [hcounter hget]
    exact hc
  · rw [hcounters]
    split
    · next hn =>
        rw [SortedMap.get?_insert_of_ne _ _ (hother.resolve_left (not_not_intro hn)), hn]
    · rfl
  · intro ms hspares j s' r' numbers' hs' hplaces hnumbers
    obtain ⟨c', hget', hraised⟩ := hspares.rise table c hget
    obtain ⟨count, c'', hc''⟩ := hnumbers.exists_reserves
    rw [hcounter (hplaces ▸ hget')] at hc''
    exact hc.lt_of_raised hraised hc''

/-- **Colliding writers never overwrite history.**  Whatever is asked of engines that share stores, in
whatever order, what any of them has told of a version all engines on the same rows tell from then on, until
the rows are removed.  A row set whose version is taken is refused and leaves all rows as they are; the
numbers that were taken for it are gone, until the counters are removed. -/
theorem collisions_keep_history (d : Deployment) :
    (∀ (n : Nat) (ms : List Move), d.Spares (·.log) n ms → ∀ table version,
      (∀ c, d.Tells n (.change table version) (.change c) →
        (d.course ms).AllTell n (.change table version) (.change c)) ∧
      ∀ rows, d.Tells n (.rowSet table version) (.rowSet rows) →
        (d.course ms).AllTell n (.rowSet table version) (.rowSet rows)) ∧
    ∀ (i : Nat) (s : Seat) (r : Request) (table : TableId) (delta : RowSet) (numbers : Reservation),
      d.seats[i]? = some s → (d.view s).Draws r table delta numbers →
      (∃ c, (d.view s).ledger.log.change table numbers.version = .ok c) →
      ∃ d', d.Collides i s r table delta numbers d' := by
  constructor
  · intro n ms h table version
    refine ⟨fun c htold => ?_, fun rows htold => ?_⟩
    · refine h.allTell (fun l => l.change table version) (fun e r hr => ?_)
        (fun l l' hl hc => hl.change hc) (fun _ _ heq => Answer.change.inj heq) htold
      rw [Engine.perform, hr]
      rfl
    · refine h.allTell (fun l => l.rowSet table version) (fun e r hr => ?_)
        (fun l l' hl hs => hl.rowSet hs) (fun _ _ heq => Answer.rowSet.inj heq) htold
      rw [Engine.perform, hr]
      rfl
  · rintro i s r table delta numbers hs hdraws ⟨c₀, hc₀⟩
    exact exists_collides hs hdraws (RowLog.isSome_entry?_of_change hc₀)

end Deployment

namespace Sample

def seat (counters : Nat) : Seat := ⟨{}, {}, ⟨0, 0, counters, 0⟩⟩

/-- Two engines with counters of their own, and a row that the first one has committed. -/
def pair : Deployment :=
  Deployment.handle { seats := [seat 0, seat 1] } (.request 0 (submit [.new [some "x"]]))

def late : RowSet := ⟨table, [column.id], [.new [some "y"]]⟩

def lateNumbers : Reservation := ⟨some 1, some 1, 1, none⟩

theorem pair_draws : (pair.view (seat 1)).Draws (submit late.rows) table late lateNumbers :=
  .intro [column] (Or.inl rfl) rfl rfl rfl

end Sample

namespace Deployment

/-- The version of the second engine is taken.  It tries again, and the change of the first one stays. -/
theorem collisions_keep_history_pair :
    Sample.pair.Tells 0 (.change Sample.table 1) (.change Sample.change) ∧
      (Sample.pair.course [.request 1 (Sample.submit Sample.late.rows),
        .request 1 (Sample.submit Sample.late.rows)]).AllTell 0 (.change Sample.table 1)
          (.change Sample.change) ∧
      ∃ d', Sample.pair.Collides 1 (Sample.seat 1) (Sample.submit Sample.late.rows) Sample.table
        Sample.late Sample.lateNumbers d' := by
  obtain ⟨hkeeps, hcollides⟩ := collisions_keep_history Sample.pair
  have htold : Sample.pair.Tells 0 (.change Sample.table 1) (.change Sample.change) :=
    ⟨0, Sample.seat 0, ⟨.user 2, .unbound, 0, .change Sample.table 1⟩, _, rfl, rfl, rfl, rfl⟩
  have hspares : Sample.pair.Spares (·.log) 0 [.request 1 (Sample.submit Sample.late.rows),
      .request 1 (Sample.submit Sample.late.rows)] := ⟨rfl, rfl, trivial⟩
  refine ⟨htold, (hkeeps 0 _ hspares Sample.table 1).1 Sample.change htold, ?_⟩
  exact hcollides 1 (Sample.seat 1) _ Sample.table Sample.late Sample.lateNumbers rfl
    Sample.pair_draws ⟨Sample.change, rfl⟩

/-- When everything is removed from the second engine its counters start again, and the numbers that were
lost are handed out. -/
theorem lost_numbers_handed_out :
    ∃ d', Sample.pair.Collides 1 (Sample.seat 1) (Sample.submit Sample.late.rows) Sample.table
        Sample.late Sample.lateNumbers d' ∧
      ∃ ms, (d'.course ms).seats[1]? = some (Sample.seat 1) ∧
        ((d'.course ms).view (Sample.seat 1)).HandsNumbers
          ⟨.administrator 1, .unbound, 0, .reserve Sample.table 1⟩ Sample.table Sample.lateNumbers := by
  have hseat : Sample.pair.seats[1]? = some (Sample.seat 1) := rfl
  obtain ⟨d', hd'⟩ := exists_collides hseat Sample.pair_draws rfl
  have hafter : d' = Sample.pair.handle (.request 1 (Sample.submit Sample.late.rows)) := by
    rw [handle, hd'.refused]
    rfl
  refine ⟨d', hd', [.request 1 ⟨.administrator 1, .unbound, 0, .truncate⟩], ?_, .reserved 1 rfl ?_⟩
  · rw [hafter]
    rfl
  · rw [hafter]
    rfl

end Deployment

end VersionedTables
