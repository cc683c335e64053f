import VersionedTables.Proofs.Allocation.Course
import VersionedTables.Proofs.Engine.Course
import VersionedTables.Proofs.Engine.ReadBack
import VersionedTables.Proofs.Log.Alike

/-!
# The row ids that a submission may name

A row may be updated or deleted if its id is no greater than the last one of the counter.  As long as the
counters go up by what is handed out only, the ids that were handed out for a table are all those from the
first one on, so that a submission names ids that were handed out, or ids below the first one.  The ids
below the first one are let through as soon as there is a last one.

* **`Engine.HandedOut`** — a row id was handed out, by a reservation or with a commit.
* **`Engine.Hands`** — what a request hands out is what the counter goes up by.
* **`Engine.handedOut_iff`** — the row ids that were handed out.
* **`Engine.submission_names_known_rows`** — the row ids that a submission may name.
* **`Engine.deletes_row_not_handed_out`** — a submission that names a row id below the first one.
-/

namespace VersionedTables

/-- The row ids of a table that an operation hands out, which its answer tells. -/
def Operation.handsOut (table : TableId) : Operation → Except Error Answer → List RowId
  | .reserve t _, .ok (.reservation r) => if t = table then r.rowIds else []
  | .append t delta, .ok (.references refs) => if t = table then refs.newIds delta else []
  | .appendUnder t _ delta, .ok (.references refs) => if t = table then refs.newIds delta else []
  | _, _ => []

/-- Whether the counters may pass over row ids that are not handed out, or start again. -/
def Event.leaps : Event → Bool
  | .request ⟨_, _, _, .advance ..⟩ | .request ⟨_, _, _, .restore _⟩
  | .request ⟨_, _, _, .truncate⟩ => true
  | _ => false

namespace Engine

/-- In a course a row id of a table is handed out. -/
def HandedOut (e : Engine) (vs : List Event) (table : TableId) (id : RowId) : Prop :=
  Happens (fun us v => ∃ r, v = .request r ∧
    id ∈ r.operation.handsOut table ((e.course us).2.perform r).1) vs

/-- Row ids of a table are handed out: the counter goes up by them and by nothing else. -/
structure Hands (e : Engine) (table : TableId) (ids : RowId → Prop) (e' : Engine) : Prop where
  initial : e'.initial = e.initial
  nextRowId : (e.counter table).nextRowId ≤ (e'.counter table).nextRowId
  ids : ∀ id, ids id ↔ (e.counter table).nextRowId ≤ id ∧ id < (e'.counter table).nextRowId

variable {e e' : Engine} {table : TableId}

namespace Hands

variable {ids ids' : RowId → Prop}

theorem nothing (hinitial : e'.initial = e.initial) (hcounter : e'.counter table = e.counter table)
    (hids : ∀ id, ¬ ids id) : Hands e table ids e' := by
  refine ⟨hinitial, ?_, ?_⟩
  · rw [hcounter]
    exact UInt64.le_refl _
  · intro id
    rw [hcounter]
    refine iff_of_false (hids id) ?_
    rintro ⟨hle, hlt⟩
    exact UInt64.not_lt.2 hle hlt

theorem reserved (count : Nat) {r : Reservation} (hinitial : e'.initial = e.initial)
    (h : (e.counter table).Reserves count r (e'.counter table)) :
    Hands e table (· ∈ r.rowIds) e' :=
  ⟨hinitial, h.raised.rowId, fun _ => h.mem_rowIds_iff⟩

/-- What is handed out one after the other. -/
theorem trans {e'' : Engine} (h : Hands e table ids e') (h' : Hands e' table ids' e'')
    {both : RowId → Prop} (hboth : ∀ id, both id ↔ ids id ∨ ids' id) : Hands e table both e'' := by
  have hfirst := h.nextRowId
  have hsecond := h'.nextRowId
  refine ⟨h'.initial.trans h.initial, UInt64.le_trans hfirst hsecond, ?_⟩
  intro id
  rw [hboth, h.ids, h'.ids]
  simp only [UInt64.le_iff_toNat_le, UInt64.lt_iff_toNat_lt] at hfirst hsecond ⊢
  omega

end Hands

/-! ### What a request hands out -/

theorem counter_withLedger (e : Engine) (log : RowLog) (t : TableId) (c : Counter) :
    (e.withLedger ⟨log, e.ledger.counters.insert t c⟩).counter table =
      if table = t then c else e.counter table :=
  Counters.current_insert e.ledger.counters t table c e.initial

theorem reserve_hands (e : Engine) (t : TableId) (count : UInt64) (table : TableId) :
    Hands e table
      (· ∈ (Operation.reserve t count).handsOut table
        (conclude .reservation (e.reserve t count.toNat)).1)
      (e.reserve t count.toNat).2 := by
  cases hr : e.ledger.counters.reserve t count.toNat e.initial with
  | mk outcome counters =>
      have he : e.reserve t count.toNat = (outcome, e.withLedger ⟨e.ledger.log, counters⟩) := by
        rw [reserve, hr]
      rw [he]
      cases outcome with
      | error error =>
          obtain ⟨-, rfl⟩ := Counters.reserve_eq_error hr
          exact .nothing rfl ((Ledger.Alike.insert_current e.initial e.ledger t).counters table)
            (fun _ => List.not_mem_nil)
      | ok r =>
          obtain ⟨c, hc, rfl⟩ := Counters.reserve_eq_ok hr
          show Hands e table (· ∈ if t = table then r.rowIds else []) _
          by_cases ht : t = table
          · subst ht
            rw [if_pos rfl]
            refine .reserved count.toNat rfl ?_
            rw [counter_withLedger, if_pos rfl]
            exact hc
          · rw [if_neg ht]
            refine .nothing rfl ?_ (fun _ => List.not_mem_nil)
            rw [counter_withLedger, if_neg (fun heq => ht heq.symm)]

theorem handsOut_error (operation : Operation) (error : Error) :
    operation.handsOut table (.error error) = [] := by
  cases operation <;> rfl

/-- A submission hands out the ids that its new rows are given. -/
theorem Submitted.hands {operation : Operation} {millis : UInt64} {caller : Caller} {t : TableId}
    {delta : RowSet} {settled : Except Error RowReferences × Engine}
    (h : e.Submitted millis caller t delta settled)
    (ho : ∀ refs, operation.handsOut table (.ok (.references refs)) =
      if t = table then refs.newIds delta else []) :
    Hands e table (· ∈ operation.handsOut table (conclude .references settled).1) settled.2 := by
  cases h with
  | @denied error | @unresolved error | @rejected error =>
      show Hands e table (· ∈ operation.handsOut table (.error error)) e
      rw [handsOut_error]
      exact .nothing rfl rfl (fun _ => List.not_mem_nil)
  | @exhausted error =>
      show Hands e table (· ∈ operation.handsOut table (.error error)) _
      rw [handsOut_error]
      exact .nothing rfl ((Ledger.Alike.insert_current e.initial e.ledger t).counters table)
        (fun _ => List.not_mem_nil)
  | @committed _ _ r c rows refs ledger hs hc =>
      obtain ⟨log, counters⟩ := ledger
      obtain rfl : counters = e.ledger.counters.insert delta.table c := hc.counters
      obtain rfl := hs.table
      show Hands e table (· ∈ operation.handsOut table (.ok (.references refs))) _
      rw [ho]
      by_cases ht : delta.table = table
      · have hnew : refs.newIds delta = r.rowIds := by
          rw [RowReferences.newIds, hc.references]
          exact hc.stamped.newIds_eq
        rw [if_pos ht, hnew]
        refine .reserved delta.newRows rfl ?_
        rw [counter_withLedger, if_pos ht.symm, ← ht]
        exact hc.reserves
      · rw [if_neg ht]
        refine .nothing rfl ?_ (fun _ => List.not_mem_nil)
        rw [counter_withLedger, if_neg (fun heq => ht heq.symm)]

theorem settle_hands {α : Type} {answer : α → Answer} {outcome : Except Error (α × Engine)}
    (h : ∀ a e', outcome = .ok (a, e') → e'.initial = e.initial ∧ e'.ledger = e.ledger)
    {ids : RowId → Prop} (hids : ∀ id, ¬ ids id) :
    Hands e table ids (e.settle answer outcome).2 := by
  cases outcome with
  | error error => exact .nothing rfl rfl hids
  | ok p =>
      obtain ⟨hinitial, hledger⟩ := h p.1 p.2 rfl
      refine .nothing hinitial ?_ hids
      show p.2.ledger.counters.current table p.2.initial = _
      rw [hinitial, hledger]
      rfl

/-- **What a request hands out is what the counter goes up by**, unless the counters leap. -/
theorem perform_hands (hl : e.ledger.Sound e.initial) {r : Request}
    (hr : (Event.request r).leaps = false) (table : TableId) :
    Hands e table (· ∈ r.operation.handsOut table (e.perform r).1) (e.perform r).2 := by
  obtain ⟨caller, fresh, millis, operation⟩ := r
  cases operation with
  | reserve t count => exact e.reserve_hands t count table
  | append t delta =>
      exact (append_submitted hl millis caller t delta).hands (fun _ => rfl)
  | appendUnder t schema delta =>
      exact (appendUnder_submitted hl millis caller t schema delta).hands (fun _ => rfl)
  | createColumn spec =>
      refine settle_hands ?_ (fun _ => List.not_mem_nil)
      intro column e' h
      obtain ⟨⟨⟩, -, h⟩ := Outcome.bind_eq_ok_iff.1 h
      obtain ⟨column', -, h⟩ := Outcome.bind_eq_ok_iff.1 h
      cases h
      exact ⟨rfl, rfl⟩
  | createColumns specs =>
      refine settle_hands ?_ (fun _ => List.not_mem_nil)
      intro columns e' h
      obtain ⟨⟨⟩, -, h⟩ := Outcome.bind_eq_ok_iff.1 h
      obtain ⟨columns', -, h⟩ := Outcome.bind_eq_ok_iff.1 h
      cases h
      exact ⟨rfl, rfl⟩
  | bind t ids expected =>
      refine settle_hands ?_ (fun _ => List.not_mem_nil)
      intro changed e' h
      obtain ⟨⟨⟩, -, h⟩ := Outcome.bind_eq_ok_iff.1 h
      obtain ⟨result, -, h⟩ := Outcome.bind_eq_ok_iff.1 h
      cases h
      exact ⟨rfl, rfl⟩
  | changeSchema t changes expected =>
      refine settle_hands ?_ (fun _ => List.not_mem_nil)
      intro binding e' h
      obtain ⟨⟨⟩, -, h⟩ := Outcome.bind_eq_ok_iff.1 h
      obtain ⟨result, -, h⟩ := Outcome.bind_eq_ok_iff.1 h
      cases h
      exact ⟨rfl, rfl⟩
  | advance | restore | truncate => cases hr
  | unbind | column | columns | listColumns | tableColumns | currentColumns | binding | schema
  | calculate | details | checkSchema | boundObjects | counter | rowSet | change | history
  | latest | replay | exportTable => exact .nothing rfl rfl (fun _ => List.not_mem_nil)

/-! ### What a course hands out -/

theorem handedOut_concat {vs : List Event} {v : Event} {id : RowId} :
    e.HandedOut (vs ++ [v]) table id ↔ e.HandedOut vs table id ∨
      ∃ r, v = .request r ∧ id ∈ r.operation.handsOut table ((e.course vs).2.perform r).1 :=
  happens_concat

/-- **In a course without leaps the counter goes up by what is handed out.** -/
theorem Reachable.course_hands (h : e.Reachable) {vs : List Event}
    (hvs : ∀ v ∈ vs, v.leaps = false) (table : TableId) :
    Hands e table (e.HandedOut vs table) (e.course vs).2 := by
  induction vs using List.reverseRecOn with
  | nil => exact .nothing rfl rfl (fun _ => not_happens_nil _)
  | append_singleton vs v ih =>
      obtain ⟨hearlier, hv⟩ := List.forall_mem_append.1 hvs
      have hleaps := hv v (List.mem_singleton_self v)
      rw [course_concat]
      refine (ih hearlier).trans ?_ (fun _ => handedOut_concat)
      cases v with
      | authorize authority =>
          refine .nothing rfl rfl ?_
          rintro id ⟨r, heq, -⟩
          cases heq
      | request r =>
          obtain ⟨hinitial, hnext, hids⟩ := perform_hands (h.course vs).sound hleaps table
          refine ⟨hinitial, hnext, ?_⟩
          intro id
          refine Iff.trans ?_ (hids id)
          constructor
          · rintro ⟨r', heq, hid⟩
            cases heq
            exact hid
          · intro hid
            exact ⟨r, rfl, hid⟩

/-- The row ids that were handed out are those from the first one to the counter. -/
theorem handedOut_iff (settings : Settings) (authority : Authority) {vs : List Event}
    (hvs : ∀ v ∈ vs, v.leaps = false) (table : TableId) (id : RowId) :
    HandedOut { settings, authority } vs table id ↔ settings.firstRowId ≤ id ∧
      id < ((course { settings, authority } vs).2.counter table).nextRowId :=
  ((Reachable.start settings authority).course_hands hvs table).ids id

/-! ### What a submission may name -/

/-- A row set that is accepted names row ids up to the last one of the counter. -/
theorem allocated_of_submitted (hl : e.ledger.Sound e.initial) {r : Request} {delta : RowSet}
    (hr : r.operation.submitted? = some (table, delta)) {answer : RowReferences}
    (hok : (e.perform r).1 = .ok (.references answer)) :
    ∀ id ∈ delta.rowIds, RowId.Allocated (e.counter table).lastRowId id := by
  obtain ⟨settled, hsettled, hperform⟩ := exists_submitted hl hr
  rw [hperform] at hok
  have hanswer := conclude_eq_ok hok
  cases hsettled with
  | denied | unresolved | rejected | exhausted => cases hanswer
  | committed hs _ => exact hs.allocated

/-- **A submission names known row ids**: as long as nothing but reservations and commits moves the
counters, a row set is accepted only if each row that it updates or deletes has an id that was handed out,
or one below the first id of all, and only if an id was handed out that is as great. -/
theorem submission_names_known_rows (settings : Settings) (authority : Authority)
    {vs : List Event} (hvs : ∀ v ∈ vs, v.leaps = false) {r : Request} {table : TableId}
    {delta : RowSet} (hr : r.operation.submitted? = some (table, delta)) {answer : RowReferences}
    (hok : ((course { settings, authority } vs).2.perform r).1 = .ok (.references answer)) :
    ∀ id ∈ delta.rowIds,
      (∃ last, HandedOut { settings, authority } vs table last ∧ id ≤ last) ∧
      (HandedOut { settings, authority } vs table id ∨ id < settings.firstRowId) := by
  intro id hid
  have hreachable := (Reachable.start settings authority).course vs
  have hhands := (Reachable.start settings authority).course_hands hvs table
  obtain ⟨last, hlast, hle⟩ := allocated_of_submitted hreachable.sound hr hok id hid
  have hsound := hreachable.sound.counter table
  have hbelow : last < ((course { settings, authority } vs).2.counter table).nextRowId :=
    hsound.lt_nextRowId hlast
  have hfirst : settings.firstRowId ≤ last := by
    have hinitial := hsound.le_lastRowId hlast
    rwa [hhands.initial] at hinitial
  refine ⟨⟨last, (handedOut_iff settings authority hvs table last).2 ⟨hfirst, hbelow⟩, hle⟩, ?_⟩
  by_cases hknown : settings.firstRowId ≤ id
  · exact Or.inl ((handedOut_iff settings authority hvs table id).2
      ⟨hknown, Std.lt_of_le_of_lt hle hbelow⟩)
  · exact Or.inr (UInt64.not_le.1 hknown)

/-- Where row ids start at 100, two rows are added and three ids more are reserved.  Then rows 101 and 104,
which were handed out, may be named, and so may row 7, which lies below the first id. -/
theorem submission_names_known_rows_reserved :
    ∃ vs r delta answer,
      vs = [.request (Sample.submit [.new [some "x"], .new [none]]),
        .request ⟨.administrator 1, .unbound, 0, .reserve Sample.table 3⟩] ∧
      (∀ v ∈ vs, v.leaps = false) ∧
      r = Sample.submit [.update 101 [some "y"], .delete 104, .delete 7] ∧
      r.operation.submitted? = some (Sample.table, delta) ∧ delta.rowIds = [101, 104, 7] ∧
      ((course { settings := { firstRowId := 100 } } vs).2.perform r).1 =
        .ok (.references answer) ∧
      ∀ id ∈ delta.rowIds,
        (∃ last, HandedOut { settings := { firstRowId := 100 } } vs Sample.table last ∧ id ≤ last) ∧
        (HandedOut { settings := { firstRowId := 100 } } vs Sample.table id ∨ id < 100) := by
  have hsubmitted : (Sample.submit [.update 101 [some "y"], .delete 104, .delete 7]).operation.submitted? =
      some (Sample.table, ⟨Sample.table, [Sample.column.id],
        [.update 101 [some "y"], .delete 104, .delete 7]⟩) := rfl
  refine ⟨_, _, _, ⟨Sample.table, 3, [Sample.column.id], [101, 104, 7]⟩, rfl, by decide, rfl,
    hsubmitted, rfl, rfl, ?_⟩
  exact submission_names_known_rows { firstRowId := 100 } {} (by decide) hsubmitted rfl

/-- Where row ids start at 100 and one row was added, a submission deletes row 3, which was never handed
out. -/
theorem deletes_row_not_handed_out :
    ((course { settings := { firstRowId := 100 } }
        [.request (Sample.submit [.new [some "x"]])]).2.perform (Sample.submit [.delete 3])).1 =
      .ok (.references ⟨Sample.table, 2, [Sample.column.id], [3]⟩) ∧
    ¬ HandedOut { settings := { firstRowId := 100 } } [.request (Sample.submit [.new [some "x"]])]
        Sample.table 3 := by
  refine ⟨rfl, ?_⟩
  intro h
  have hfirst := ((handedOut_iff { firstRowId := 100 } {} (by decide) Sample.table 3).1 h).1
  revert hfirst
  decide

end Engine

end VersionedTables
