import VersionedTables.Proofs.Engine.Freshness

/-!
# Reading a commit back

Behind a commit the rows that were submitted are read back one for one: under the version of the commit,
with the values that they had, and the new ones among them with consecutive ids in the order in which
they stand.  The change, the answer and the counters tell the same story.

* **`Row.KeptAs`**, **`Change.Records`** — what becomes of a row, and what is recorded of all of them.
* **`Engine.ReadsBack`** — everything that is found behind a commit.
* **`Engine.Reachable.perform_reads_back`** — every commit is read back as it was submitted.
-/

namespace VersionedTables

/-! ### What is found -/

/-- What the submitted row `r` is read back as.  If it is new, its id is the number `next`. -/
structure Row.KeptAs (r kept : Row) (v : Version) (next : Nat) : Prop where
  values : kept.values = r.values
  /-- Whatever version was submitted. -/
  version : kept.version = some v
  update : r.rowId.isSome → kept.rowId = r.rowId
  new : r.rowId = none → ∃ id : RowId, kept.rowId = some id ∧ id.toNat = next
  deletion : kept.isDeletion = r.isDeletion

def RowSet.newRowsBefore (s : RowSet) (i : Nat) : Nat := (s.rows.take i).countP (·.rowId.isNone)

/-- What the change records of a commit of `delta` to a table, of which the first new row has the id
`first`. -/
structure Change.Records (c : Change) (table : TableId) (delta : RowSet) (v : Version)
    (first : RowId) (user : UserId) (millis : UInt64) : Prop where
  ofTable : c.table = table
  version : c.version = v
  rowCount : c.rowCount.toNat = delta.rows.length
  columns : c.columns = delta.headers
  createdBy : c.createdBy = user
  createdOnMillis : c.createdOnMillis = millis
  contentKey : c.contentKey = ⟨table, v⟩
  unbounded : delta.newRows = 0 → c.minRowId = none ∧ c.maxRowId = none
  bounded : delta.newRows ≠ 0 → c.minRowId = some first ∧
    ∃ last, c.maxRowId = some last ∧ last.toNat + 1 = first.toNat + delta.newRows

/-- Everything that is found of a commit of `delta` to a table by `user`, which led from the engine `e`
to `e'` and was answered with `answer`. -/
structure Engine.ReadsBack (e e' : Engine) (table : TableId) (delta : RowSet) (user : UserId)
    (millis : UInt64) (answer : RowReferences) : Prop where
  ofTable : answer.table = table
  headers : answer.headers = delta.headers
  version : answer.version = (e.counter table).nextVersion
  /-- The rows are read back one for one, and the answer has their ids in this order. -/
  rows : ∃ rows, e'.ledger.log.rowSet table answer.version =
      .ok ⟨table, delta.headers, rows⟩ ∧
    rows.length = delta.rows.length ∧ rows.map (·.rowId) = answer.rowIds.map some ∧
    ∀ (i : Nat) (r : Row), delta.rows[i]? = some r → ∃ kept, rows[i]? = some kept ∧
      r.KeptAs kept answer.version
        ((e.counter table).nextRowId.toNat + delta.newRowsBefore i)
  /-- The ids from the counter on, which new rows are given, lie above all ids that were there. -/
  fresh : delta.newRows ≠ 0 → ∀ v s, e.ledger.log.rowSet table v = .ok s →
    ∀ id ∈ s.rowIds, id < (e.counter table).nextRowId
  change : ∃ c, e'.ledger.log.change table answer.version = .ok c ∧
    c.Records table delta answer.version (e.counter table).nextRowId user millis
  nextVersion : (e'.counter table).nextVersion.toNat =
    (e.counter table).nextVersion.toNat + 1
  nextRowId : (e'.counter table).nextRowId.toNat =
    (e.counter table).nextRowId.toNat + delta.newRows
  elsewhere : ∀ t, t ≠ table → e'.counter t = e.counter t

/-! ### Rows and ids -/

namespace RowSet

variable {version : Version} {fresh : List RowId} {rows out : List Row}

/-- **What a row is stamped as**: it keeps its id, or it takes the next one in line. -/
theorem Stamped.getElem? (h : Stamped version fresh rows out) {i : Nat} {r : Row}
    (hr : rows[i]? = some r) :
    ∃ kept, out[i]? = some kept ∧ kept.values = r.values ∧ kept.version = some version ∧
      (r.rowId.isSome → kept.rowId = r.rowId) ∧
      (r.rowId = none → ∃ id, kept.rowId = some id ∧
        fresh[(rows.take i).countP (·.rowId.isNone)]? = some id) := by
  induction h generalizing i with
  | nil => cases hr
  | keep r₀ hid rest ih =>
      cases i with
      | zero =>
          cases hr
          refine ⟨_, rfl, rfl, rfl, fun _ => rfl, ?_⟩
          intro hnone
          rw [hnone] at hid
          cases hid
      | succ i =>
          obtain ⟨kept, hkept, hvalues, hversion, hsome, hnone⟩ := ih hr
          refine ⟨kept, hkept, hvalues, hversion, hsome, ?_⟩
          rw [List.take_succ_cons, List.countP_cons_of_neg (by simp [Option.ne_none_iff_isSome.2 hid])]
          exact hnone
  | give r₀ id hid rest ih =>
      cases i with
      | zero =>
          cases hr
          refine ⟨_, rfl, rfl, rfl, ?_, fun _ => ⟨id, rfl, rfl⟩⟩
          intro hsome
          rw [hid] at hsome
          cases hsome
      | succ i =>
          obtain ⟨kept, hkept, hvalues, hversion, hsome, hnone⟩ := ih hr
          refine ⟨kept, hkept, hvalues, hversion, hsome, ?_⟩
          rw [List.take_succ_cons, List.countP_cons_of_pos (by simp [hid])]
          exact hnone

/-- The ids of stamped rows, row by row. -/
theorem Stamped.map_rowId (h : Stamped version fresh rows out) :
    out.map (·.rowId) = (out.filterMap (·.rowId)).map some := by
  induction h with
  | nil => rfl
  | keep r hr rest ih =>
      obtain ⟨id, hid⟩ := Option.isSome_iff_exists.1 hr
      simp only [List.map_cons, List.filterMap_cons, hid, ih]
  | give r id hr rest ih => simp only [List.map_cons, List.filterMap_cons, ih]

/-- A row that may be committed deletes if and only if what it is stamped as does: a new row is not
empty. -/
theorem Acceptable.isDeletion_eq {s : RowSet} {table : TableId} {schema columns : List Column}
    {last : Option RowId} (hs : s.Acceptable table schema last columns) {r kept : Row}
    (hr : r ∈ s.rows) (hvalues : kept.values = r.values) (hid : kept.rowId.isSome) :
    kept.isDeletion = r.isDeletion := by
  cases hrid : r.rowId with
  | some id => simp [Row.isDeletion, hvalues, hrid, hid]
  | none =>
      rcases hs.rows r hr with hd | hfits
      · rw [Row.isDeletion, hrid] at hd
        cases hd
      · have hne : r.values ≠ [] := by
          intro hnil
          have hwidth := hfits.width
          rw [hnil] at hwidth
          exact hfits.nonempty (List.eq_nil_of_length_eq_zero hwidth.symm)
        simp [Row.isDeletion, hvalues, hrid, hne]

end RowSet

/-- The ids of a reservation are consecutive. -/
theorem Counter.Reserves.toNat_of_getElem? {c c' : Counter} {count : Nat} {r : Reservation}
    (h : c.Reserves count r c') {i : Nat} {id : RowId} (hid : r.rowIds[i]? = some id) :
    id.toNat = c.nextRowId.toNat + i := by
  have hi : (r.rowIds.map UInt64.toNat)[i]? = some id.toNat := by rw [List.getElem?_map, hid]; rfl
  rw [h.map_toNat_rowIds] at hi
  obtain ⟨hlt, hget⟩ := List.getElem?_eq_some_iff.1 hi
  rw [← hget, List.getElem_range', Nat.one_mul]

/-! ### Commits -/

namespace Ledger.Commits

variable {initial c : Counter} {l l' : Ledger} {user : UserId} {millis : UInt64}
  {schema columns : List Column} {delta : RowSet} {r : Reservation} {rows : List Row}
  {answer : RowReferences}

/-- What the change records. -/
theorem records (h : Commits initial l user millis delta r c rows answer l')
    (hl : l.Sound initial)
    (hs : delta.Acceptable delta.table schema (l.counters.current delta.table initial).lastRowId
      columns) :
    (Change.ofRowSet { delta with rows } r user millis).Records delta.table delta r.version
      (l.counters.current delta.table initial).nextRowId user millis := by
  refine ⟨rfl, rfl, ?_, rfl, rfl, rfl, rfl, ?_, ?_⟩
  · exact (h.describes hl hs).rowCount.trans h.stamped.length_eq
  · intro hnone
    refine ⟨h.reserves.minRowId.trans ?_, h.reserves.maxRowId.trans ?_⟩
    · rw [if_pos hnone]
    · rw [if_pos hnone]
  · intro hsome
    have hnext := h.reserves.nextRowId
    refine ⟨h.reserves.minRowId.trans (by rw [if_neg hsome]), c.nextRowId - 1,
      h.reserves.maxRowId.trans (by rw [if_neg hsome]), ?_⟩
    rw [h.reserves.toNat_pred hsome]
    omega

/-- What each row is read back as. -/
theorem keptAs (h : Commits initial l user millis delta r c rows answer l')
    (hs : delta.Acceptable delta.table schema (l.counters.current delta.table initial).lastRowId
      columns) {i : Nat} {row : Row} (hrow : delta.rows[i]? = some row) :
    ∃ kept, rows[i]? = some kept ∧ row.KeptAs kept r.version
      ((l.counters.current delta.table initial).nextRowId.toNat + delta.newRowsBefore i) := by
  obtain ⟨kept, hkept, hvalues, hversion, hupdate, hnew⟩ := h.stamped.getElem? hrow
  have hid := (h.stamped.of_mem (List.mem_of_getElem? hkept)).1
  refine ⟨kept, hkept, hvalues, hversion, hupdate, ?_,
    hs.isDeletion_eq (List.mem_of_getElem? hrow) hvalues hid⟩
  intro hnone
  obtain ⟨id, hkeptId, hfresh⟩ := hnew hnone
  exact ⟨id, hkeptId, h.reserves.toNat_of_getElem? hfresh⟩

/-- The ids from the counter on were not there. -/
theorem lt_nextRowId (h : Commits initial l user millis delta r c rows answer l')
    (hl : l.Sound initial) (hsome : delta.newRows ≠ 0) {v : Version} {s : RowSet}
    (hv : l.log.rowSet delta.table v = .ok s) {id : RowId} (hid : id ∈ s.rowIds) :
    id < (l.counters.current delta.table initial).nextRowId := by
  have hnext := h.reserves.nextRowId
  have htop := Bounded.toNat_le_greatest c.nextRowId
  exact Bounded.lt_of_addSat_le (hl.rowId delta.table v s hv id hid) (by omega)

end Ledger.Commits

namespace Engine

variable {e : Engine} {r : Request} {table : TableId} {delta : RowSet} {answer : RowReferences}

/-- Everything that is found behind a commit. -/
theorem readsBack_of_commits (hl : e.ledger.Sound e.initial) {user : UserId} {millis : UInt64}
    {res : Reservation} {c : Counter} {rows : List Row} {ledger : Ledger}
    {schema columns : List Column}
    (h : Ledger.Commits e.initial e.ledger user millis delta res c rows answer ledger)
    (hs : delta.Acceptable delta.table schema (e.counter delta.table).lastRowId columns) :
    e.ReadsBack (e.withLedger ledger) delta.table delta user millis answer := by
  have hversion : answer.version = res.version := by rw [h.references]
  have hcounter : ∀ t, (e.withLedger ledger).counter t =
      if t = delta.table then c else e.counter t := by
    intro t
    show ledger.counters.current t e.initial = _
    rw [h.counters, Counters.current_insert]
    rfl
  refine ⟨by rw [h.references], by rw [h.references], ?_, ?_, ?_, ?_, ?_, ?_, ?_⟩
  · rw [hversion]
    exact h.reserves.version
  · rw [hversion]
    refine ⟨rows, h.rowSet_eq hl hs, h.stamped.length_eq, ?_, fun i row => h.keptAs hs⟩
    rw [h.references]
    exact h.stamped.map_rowId
  · intro hsome v s hv id hid
    exact h.lt_nextRowId hl hsome hv hid
  · rw [hversion]
    exact ⟨_, h.change_eq, h.records hl hs⟩
  · rw [hcounter, if_pos rfl]
    exact h.reserves.nextVersion
  · rw [hcounter, if_pos rfl]
    exact h.reserves.nextRowId
  · intro t ht
    rw [hcounter, if_neg ht]

theorem Submitted.readsBack (hl : e.ledger.Sound e.initial) {millis : UInt64} {caller : Caller}
    {settled : Except Error RowReferences × Engine}
    (h : e.Submitted millis caller table delta settled) (hok : settled.1 = .ok answer) :
    e.ReadsBack settled.2 table delta caller.userId millis answer := by
  cases h with
  | denied | unresolved | rejected | exhausted => cases hok
  | committed hs hc =>
      have ht := hs.table
      subst ht
      cases hok
      exact readsBack_of_commits hl hc hs

theorem conclude_eq_ok {outcome : Except Error RowReferences × Engine}
    (h : (conclude .references outcome).1 = .ok (.references answer)) : outcome.1 = .ok answer := by
  obtain ⟨references, hok, hanswer⟩ := Outcome.map_eq_ok_iff.1 h
  cases hanswer
  exact hok

/-- A request that submits a row set does nothing else. -/
theorem exists_submitted (hl : e.ledger.Sound e.initial)
    (hr : r.operation.submitted? = some (table, delta)) :
    ∃ settled, e.Submitted r.millis r.caller table delta settled ∧
      e.perform r = conclude .references settled := by
  cases hop : r.operation with
  | append table' delta' =>
      rw [hop] at hr
      cases hr
      exact ⟨_, append_submitted hl r.millis r.caller table delta, by rw [perform, hop]⟩
  | appendUnder table' schema delta' =>
      rw [hop] at hr
      cases hr
      exact ⟨_, appendUnder_submitted hl r.millis r.caller table schema delta,
        by rw [perform, hop]⟩
  | _ =>
      rw [hop] at hr
      cases hr

/-- **Every commit is read back as it was submitted**: its rows one for one, with their values, under
the new version, those that had an id with that id and the new ones with the next ids in the order in
which they stand; the change, the answer and the counters agree. -/
theorem Reachable.perform_reads_back (h : e.Reachable)
    (hr : r.operation.submitted? = some (table, delta))
    (hok : (e.perform r).1 = .ok (.references answer)) :
    e.ReadsBack (e.perform r).2 table delta r.caller.userId r.millis answer := by
  obtain ⟨settled, hsettled, hperform⟩ := exists_submitted h.sound hr
  rw [hperform] at hok ⊢
  exact hsettled.readsBack h.sound (conclude_eq_ok hok)

/-- A commit that deletes the only row and adds two: they are read back under the ids 2 and 3. -/
theorem perform_reads_back_deletion_and_new :
    Sample.engine.Reachable ∧
    ∃ r delta answer, r = Sample.submit [.delete 1, .new [some "y"], .new [none]] ∧
      r.operation.submitted? = some (Sample.table, delta) ∧ delta.newRows = 2 ∧
      (Sample.engine.perform r).1 = .ok (.references answer) ∧ answer.rowIds = [1, 2, 3] ∧
      Sample.engine.ReadsBack (Sample.engine.perform r).2 Sample.table delta r.caller.userId
        r.millis answer := by
  refine ⟨Sample.reachable_engine, _, _, ⟨Sample.table, 2, [Sample.column.id], [1, 2, 3]⟩, rfl, rfl,
    rfl, rfl, rfl, ?_⟩
  exact Sample.reachable_engine.perform_reads_back rfl rfl

end Engine

end VersionedTables
