import VersionedTables.Proofs.Engine.Course
import VersionedTables.Proofs.Log.Alike

/-!
# Refused requests

A request that is refused leaves an engine behind that reads as it did before: its columns, its schemas
with their stamps, the counters of every table and the log.  From then on it answers as if the request
had not been made, so that a course from which refused requests are dropped gets the same answers for
the rest.  Only a restoration that is refused on the way keeps what it has committed before.

* **`Engine.Alike`** — two engines that read the same.
* **`Engine.Alike.handle`** — the same happens to both.
* **`Engine.Reachable.alike_of_refuses`** — a refused request leaves no trace.
* **`Engine.Reachable.refusals_leave_no_trace`** — refused requests can be dropped from a course.
-/

namespace VersionedTables

def Operation.restores : Operation → Bool
  | .restore _ => true
  | _ => false

namespace Engine

structure Alike (e e' : Engine) : Prop where
  settings : e'.settings = e.settings
  authority : e'.authority = e.authority
  /-- The definitions of columns, and with them all listings. -/
  catalog : e'.catalog = e.catalog
  /-- The schemas with their stamps, and what tables ever had. -/
  bindings : e'.bindings = e.bindings
  log : e'.ledger.log = e.ledger.log
  counter : ∀ t, e'.counter t = e.counter t

structure SameAnswer {α : Type} (o o' : α × Engine) : Prop where
  answer : o'.1 = o.1
  engine : o.2.Alike o'.2

theorem SameAnswer.conclude {α : Type} {o o' : Except Error α × Engine} (h : SameAnswer o o')
    (answer : α → Answer) : SameAnswer (Engine.conclude answer o) (Engine.conclude answer o') :=
  ⟨congrArg (Except.map answer) h.answer, h.engine⟩

namespace Alike

variable {e e' : Engine}

theorem refl (e : Engine) : e.Alike e := ⟨rfl, rfl, rfl, rfl, rfl, fun _ => rfl⟩

theorem symm (h : e.Alike e') : e'.Alike e :=
  ⟨h.settings.symm, h.authority.symm, h.catalog.symm, h.bindings.symm, h.log.symm,
    fun t => (h.counter t).symm⟩

theorem trans {e'' : Engine} (h : e.Alike e') (h' : e'.Alike e'') : e.Alike e'' :=
  ⟨h'.settings.trans h.settings, h'.authority.trans h.authority, h'.catalog.trans h.catalog,
    h'.bindings.trans h.bindings, h'.log.trans h.log,
    fun t => (h'.counter t).trans (h.counter t)⟩

/-- Engines that differ in their ledgers only, which read the same. -/
theorem of_ledger (settings : Settings) (authority : Authority) (catalog : Catalog)
    (bindings : Bindings) {l l' : Ledger} (h : Ledger.Alike (.ofSettings settings) l l') :
    Alike ⟨settings, authority, catalog, bindings, l⟩ ⟨settings, authority, catalog, bindings, l'⟩ :=
  ⟨rfl, rfl, rfl, rfl, h.log, h.counters⟩

/-- Engines that read the same differ in no more than the counters as they are kept. -/
theorem exists_counters (h : e.Alike e') : ∃ cs : Counters,
    e.ledger.Alike e.initial ⟨e.ledger.log, cs⟩ ∧ e' = e.withLedger ⟨e.ledger.log, cs⟩ := by
  obtain ⟨settings, authority, catalog, bindings, ⟨log, cs⟩⟩ := e'
  obtain ⟨hsettings, hauthority, hcatalog, hbindings, hlog, hcounter⟩ := h
  cases hsettings
  cases hauthority
  cases hcatalog
  cases hbindings
  cases hlog
  exact ⟨cs, ⟨rfl, hcounter⟩, rfl⟩

/-! ### The same happens to both -/

theorem query {α : Type} (h : e.Alike e') (answer : α → Answer) (outcome : Except Error α) :
    SameAnswer (e.query answer outcome) (e'.query answer outcome) := ⟨rfl, h⟩

theorem settle {α : Type} (h : e.Alike e') (answer : α → Answer)
    {outcome outcome' : Except Error (α × Engine)} (ho : Outcome.Agree SameAnswer outcome outcome') :
    SameAnswer (e.settle answer outcome) (e'.settle answer outcome') := by
  cases ho with
  | error error => exact ⟨rfl, h⟩
  | ok hp => exact ⟨congrArg (fun a => Except.ok (answer a)) hp.answer, hp.engine⟩

/-- What is done to two ledgers that read the same is done to the engines. -/
theorem sameAnswer (e : Engine) (l : Ledger) {α : Type} {o o' : α × Ledger}
    (h : Ledger.SameOutcome e.initial o o') :
    SameAnswer (o.1, e.withLedger o.2) (o'.1, (e.withLedger l).withLedger o'.2) :=
  ⟨h.outcome, .of_ledger e.settings e.authority e.catalog e.bindings h.ledger⟩

theorem reserve {l : Ledger} (h : e.ledger.Alike e.initial l) (table : TableId) (count : Nat) :
    SameAnswer (e.reserve table count) ((e.withLedger l).reserve table count) := by
  obtain ⟨outcome, c, ho, ho'⟩ := h.reserve table count
  unfold Engine.reserve
  rw [ho]
  show SameAnswer _ ((l.counters.reserve table count e.initial).1,
    (e.withLedger l).withLedger { l with counters := (l.counters.reserve table count e.initial).2 })
  rw [ho']
  exact ⟨rfl, .of_ledger _ _ _ _ (h.insert h.log table c)⟩

theorem advance {l : Ledger} (h : e.ledger.Alike e.initial l) (table : TableId) (rowId : RowId)
    (version : Version) :
    SameAnswer (e.advance table rowId version) ((e.withLedger l).advance table rowId version) := by
  obtain ⟨c, ho, ho'⟩ := h.advance table rowId version
  unfold Engine.advance
  rw [ho]
  show SameAnswer _ ((l.counters.advance table rowId version e.initial).1,
    (e.withLedger l).withLedger
      { l with counters := (l.counters.advance table rowId version e.initial).2 })
  rw [ho']
  exact ⟨rfl, .of_ledger _ _ _ _ (h.insert h.log table c)⟩

theorem appendUnder {l : Ledger} (h : e.ledger.Alike e.initial l) (millis : UInt64)
    (caller : Caller) (table : TableId) (schema : List Column) (delta : RowSet) :
    SameAnswer (e.appendUnder millis caller table schema delta)
      ((e.withLedger l).appendUnder millis caller table schema delta) := by
  have haccess : (e.withLedger l).requireAccess caller table .update =
      e.requireAccess caller table .update := rfl
  unfold Engine.appendUnder
  rw [haccess]
  cases e.requireAccess caller table .update with
  | error error => exact ⟨rfl, .of_ledger _ _ _ _ h⟩
  | ok u => exact sameAnswer e l (h.append caller.userId millis table schema delta)

theorem append {l : Ledger} (h : e.ledger.Alike e.initial l) (millis : UInt64)
    (caller : Caller) (table : TableId) (delta : RowSet) :
    SameAnswer (e.append millis caller table delta)
      ((e.withLedger l).append millis caller table delta) := by
  have hschema : ((e.withLedger l).requireAccess caller table .update >>= fun _ =>
      Schema.columns (e.withLedger l).catalog (e.withLedger l).bindings table) =
      (e.requireAccess caller table .update >>= fun _ =>
        Schema.columns e.catalog e.bindings table) := rfl
  unfold Engine.append
  rw [hschema]
  cases e.requireAccess caller table .update >>= fun _ =>
      Schema.columns e.catalog e.bindings table with
  | error error => exact ⟨rfl, .of_ledger _ _ _ _ h⟩
  | ok schema => exact appendUnder h millis caller table schema delta

/-- **What is asked of both has the same answer**, and leaves engines that read the same. -/
theorem perform (h : e.Alike e') (r : Request) : SameAnswer (e.perform r) (e'.perform r) := by
  obtain ⟨cs, hcs, rfl⟩ := h.exists_counters
  have hsame : ∀ catalog bindings, Alike { e with catalog, bindings }
      { e.withLedger ⟨e.ledger.log, cs⟩ with catalog, bindings } :=
    fun catalog bindings => .of_ledger e.settings e.authority catalog bindings hcs
  unfold Engine.perform
  cases r.operation with
  | createColumn spec =>
      refine h.settle _ (.bind _ (fun _ => .bind _ (fun column => .ok ⟨rfl, ?_⟩)))
      exact hsame _ _
  | createColumns specs =>
      refine h.settle _ (.bind _ (fun _ => .bind _ (fun columns => .ok ⟨rfl, ?_⟩)))
      exact hsame _ _
  | bind table ids expected =>
      refine h.settle _ (.bind _ (fun _ => .bind _ (fun result => .ok ⟨rfl, ?_⟩)))
      exact hsame _ _
  | changeSchema table changes expected =>
      refine h.settle _ (.bind _ (fun _ => .bind _ (fun result => .ok ⟨rfl, ?_⟩)))
      exact hsame _ _
  | unbind table => exact ⟨rfl, hsame _ _⟩
  | truncate =>
      refine h.settle _ ?_
      unfold Engine.truncate
      split
      · exact .ok ⟨rfl, .refl _⟩
      · exact .error _
  | reserve table count => exact (reserve hcs table count.toNat).conclude _
  | counter table =>
      exact ⟨congrArg (fun c => Except.ok (Answer.counter c)) (h.counter table), h⟩
  | advance table rowId version =>
      have hadvance := advance hcs table rowId version
      exact ⟨congrArg (fun c => Except.ok (Answer.counter c)) hadvance.answer, hadvance.engine⟩
  | append table delta => exact (append hcs r.millis r.caller table delta).conclude _
  | appendUnder table schema delta =>
      exact (appendUnder hcs r.millis r.caller table schema delta).conclude _
  | restore chunks => exact (sameAnswer e _ (hcs.restoreAll chunks)).conclude _
  | column | columns | listColumns | tableColumns | currentColumns | binding | schema
  | calculate | details | checkSchema | boundObjects | rowSet | change | history
  | latest | replay | exportTable => exact h.query _ _

/-- **What happens to both has the same answer**, and leaves engines that read the same. -/
theorem handle (h : e.Alike e') (v : Event) : SameAnswer (e.handle v) (e'.handle v) := by
  cases v with
  | request r => exact h.perform r
  | authorize authority =>
      exact ⟨rfl, h.settings, rfl, h.catalog, h.bindings, h.log, h.counter⟩

end Alike

/-! ### Refusals -/

/-- The event is a request that is refused, and not one to restore a backup. -/
inductive Refuses (e : Engine) : Event → Prop
  | intro {r : Request} {error : Error} (hr : r.operation.restores = false)
      (h : (e.perform r).1 = .error error) : Refuses e (.request r)

section

variable {e : Engine} {α : Type} {error : Error}

/-- An operation that is refused as a whole leaves the engine as it is. -/
theorem alike_settle {answer : α → Answer} {outcome : Except Error (α × Engine)}
    (h : (e.settle answer outcome).1 = .error error) :
    e.Alike (e.settle answer outcome).2 := by
  cases outcome with
  | error error => exact .refl e
  | ok p => cases h

theorem error_of_conclude {answer : α → Answer} {outcome : Except Error α × Engine}
    (h : (conclude answer outcome).1 = .error error) : outcome.1 = .error error := by
  obtain ⟨outcome, e'⟩ := outcome
  cases outcome with
  | error error =>
      cases h
      rfl
  | ok a => cases h

theorem alike_reserve {table : TableId} {count : Nat}
    (h : (e.reserve table count).1 = .error error) : e.Alike (e.reserve table count).2 := by
  unfold reserve at h ⊢
  cases hres : e.ledger.counters.reserve table count e.initial with
  | mk outcome counters =>
      rw [hres] at h
      cases h
      rw [(Counters.reserve_eq_error hres).2]
      exact .of_ledger _ _ _ _ (.insert_current e.initial e.ledger table)

theorem Submitted.alike {millis : UInt64} {caller : Caller} {table : TableId} {delta : RowSet}
    {settled : Except Error RowReferences × Engine}
    (h : e.Submitted millis caller table delta settled) (herror : settled.1 = .error error) :
    e.Alike settled.2 := by
  cases h with
  | denied | unresolved | rejected => exact .refl e
  | exhausted => exact .of_ledger _ _ _ _ (.insert_current e.initial e.ledger table)
  | committed => cases herror

/-- **A refused request leaves no trace.** -/
theorem Reachable.alike_of_refuses (h : e.Reachable) {v : Event} (hv : e.Refuses v) :
    e.Alike (e.handle v).2 := by
  obtain @⟨r, error, hr, herror⟩ := hv
  show e.Alike (e.perform r).2
  unfold Engine.perform at herror ⊢
  cases hop : r.operation with
  | createColumn | createColumns | bind | changeSchema | truncate =>
      rw [hop] at herror
      exact alike_settle herror
  | reserve =>
      rw [hop] at herror
      exact alike_reserve (error_of_conclude herror)
  | append =>
      rw [hop] at herror
      exact (append_submitted h.sound _ _ _ _).alike (error_of_conclude herror)
  | appendUnder =>
      rw [hop] at herror
      exact (appendUnder_submitted h.sound _ _ _ _ _).alike (error_of_conclude herror)
  | unbind | advance =>
      rw [hop] at herror
      cases herror
  | restore =>
      rw [hop] at hr
      cases hr
  | column | columns | listColumns | tableColumns | currentColumns | binding | schema
  | calculate | details | checkSchema | boundObjects | counter | rowSet | change | history
  | latest | replay | exportTable => exact .refl e

end

/-! ### Courses without refused requests -/

/-- Every event of a list that is marked is refused at its turn. -/
def MarksRefused (e : Engine) : List (Event × Bool) → Prop
  | [] => True
  | (v, mark) :: vs => (mark = true → e.Refuses v) ∧ (e.handle v).2.MarksRefused vs

/-- What a list has without a mark. -/
def unmarked {α : Type} (as : List (α × Bool)) : List α := (as.filter (fun a => !a.2)).map (·.1)

/-- Two engines that read the same give the same answers from then on. -/
theorem Alike.course {e e' : Engine} (h : e.Alike e') (vs : List Event) :
    SameAnswer (e.course vs) (e'.course vs) := by
  induction vs generalizing e e' with
  | nil => exact ⟨rfl, h⟩
  | cons v vs ih =>
      have hfirst := h.handle v
      have hrest := ih hfirst.engine
      exact ⟨congrArg₂ List.cons hfirst.answer hrest.answer, hrest.engine⟩

/-- Marked events are dropped: the others have the answers that they had. -/
theorem Reachable.course_unmarked {e e' : Engine} (h : e.Reachable) (ha : e.Alike e')
    {vs : List (Event × Bool)} (hvs : e.MarksRefused vs) :
    (e'.course (unmarked vs)).1 =
        unmarked ((e.course (vs.map (·.1))).1.zip (vs.map (·.2))) ∧
      (e.course (vs.map (·.1))).2.Alike (e'.course (unmarked vs)).2 := by
  induction vs generalizing e e' with
  | nil => exact ⟨rfl, ha⟩
  | cons p vs ih =>
      obtain ⟨v, mark⟩ := p
      obtain ⟨hmark, hrest⟩ := hvs
      cases mark with
      | true =>
          have hdropped := h.alike_of_refuses (hmark rfl)
          exact ih (h.handle v) (hdropped.symm.trans ha) hrest
      | false =>
          have hkept := ha.handle v
          obtain ⟨hanswers, hengines⟩ := ih (h.handle v) hkept.engine hrest
          exact ⟨congrArg₂ List.cons hkept.answer hanswers, hengines⟩

/-- **A refused request leaves no trace.**  An engine that has refused a request, if it was not to
restore a backup, reads as before and answers whatever comes as if the request had not been made.  Any
refused requests can be dropped from a course: the other events have the answers that they had, and the
engine behind them reads the same. -/
theorem Reachable.refusals_leave_no_trace {e : Engine} (h : e.Reachable) :
    (∀ v, e.Refuses v → e.Alike (e.handle v).2 ∧
      ∀ vs, ((e.handle v).2.course vs).1 = (e.course vs).1) ∧
    ∀ vs, e.MarksRefused vs →
      (e.course (unmarked vs)).1 = unmarked ((e.course (vs.map (·.1))).1.zip (vs.map (·.2))) ∧
        (e.course (vs.map (·.1))).2.Alike (e.course (unmarked vs)).2 := by
  refine ⟨?_, fun vs hvs => h.course_unmarked (.refl e) hvs⟩
  intro v hv
  have halike := h.alike_of_refuses hv
  exact ⟨halike, fun vs => (halike.course vs).answer⟩

end Engine

/-- More row ids are asked for than there are, a row is committed, one that is not there is deleted, and
the counters are looked at: the first and the third are refused. -/
def Sample.refusals : List (Event × Bool) :=
  [(.request ⟨.administrator 1, .unbound, 0, .reserve table (0 - 1)⟩, true),
    (.request (submit [.new [some "x"]]), false),
    (.request (submit [.delete 7]), true),
    (.request ⟨.administrator 1, .unbound, 0, .counter table⟩, false)]

namespace Engine

/-- Without the refusals the row has the id and the version that it had, and the counters are the
same. -/
theorem refusals_leave_no_trace_short_course :
    Reachable {} ∧ MarksRefused {} Sample.refusals ∧
      (course {} (unmarked Sample.refusals)).1 =
        [.ok (.references ⟨Sample.table, 1, [Sample.column.id], [1]⟩),
          .ok (.counter ⟨2, 2, some 1⟩)] ∧
      (course {} (unmarked Sample.refusals)).1 = unmarked
        ((course {} (Sample.refusals.map (·.1))).1.zip (Sample.refusals.map (·.2))) ∧
      (course {} (Sample.refusals.map (·.1))).2.Alike (course {} (unmarked Sample.refusals)).2 := by
  have hstart : Reachable {} := .start {} {}
  have hmarks : MarksRefused {} Sample.refusals :=
    ⟨fun _ => ⟨rfl, rfl⟩, nofun, fun _ => ⟨rfl, rfl⟩, nofun, trivial⟩
  exact ⟨hstart, hmarks, rfl, hstart.refusals_leave_no_trace.2 Sample.refusals hmarks⟩

end Engine

end VersionedTables
