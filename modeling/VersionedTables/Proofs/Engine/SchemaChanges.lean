import VersionedTables.Proofs.Engine.Revisions

/-!
# Changing a schema in two steps

The schema that changes make can be asked for first, and the table bound to it after that.  Nothing is
different then from changing the schema in one step: the same is refused for the same reason, and the table
gets the same schema.  In one step the table is bound on the condition that it still has the stamp that it
had, and that is no condition.  A stamp that is expected is looked at before anything else.

* **`Schema.permitted`**, **`Schema.bind_eq`** — whether a table may have a schema does not depend on stamps.
* **`Schema.applyChanges_eq`** — what changes of a schema come to.
* **`Engine.inTwoSteps`** — the schema is calculated, and then the table is bound to it.
* **`Engine.changeSchema_in_two_steps`** — one step and two steps come to the same.
-/

namespace VersionedTables

namespace Schema

def permitted (settings : Settings) (catalog : Catalog) (ids : List ColumnId) :
    Except Error (List Column) :=
  checkDistinct ids >>= fun _ => Capacity.resolve settings catalog ids

variable {settings : Settings} {catalog : Catalog} {fresh : Etag} {bindings : Bindings}
  {table : TableId} {expected : Option Etag}

/-- A condition that holds does not show: a table is bound to any schema that it may have. -/
theorem bind_eq (h : bindings.Expects table expected) (ids : List ColumnId) :
    bind settings catalog fresh bindings table ids expected =
      (permitted settings catalog ids).map fun _ =>
        if (bindings.current table).columns = ids then (false, bindings)
        else (true, bindings.revised fresh table ids) := by
  have hcheck := Bindings.checkEtag_eq_ok_iff.2 h
  unfold bind permitted Bindings.replace
  rw [hcheck]
  cases checkDistinct ids with
  | error error => rfl
  | ok u =>
      cases Capacity.resolve settings catalog ids with
      | error error => rfl
      | ok columns =>
          by_cases hsame : (bindings.current table).columns = ids
          · simp only [Outcome.ok_bind, Except.map, if_pos hsame]
            rfl
          · simp only [Outcome.ok_bind, Except.map, if_neg hsame]
            rfl

/-- What changes of a schema come to where the expected stamp is the current one: the schema is
calculated, and the table is bound to it without a condition. -/
theorem applyChanges_eq (h : bindings.Expects table expected) (changes : List SchemaChange) :
    applyChanges settings catalog fresh bindings table changes expected =
      calculate bindings table changes >>= fun ids =>
        (bind settings catalog fresh bindings table ids none).map
          (fun p => (p.2.current table, p.2)) := by
  have hcurrent : bindings.Expects table (some (bindings.current table).etag) := by
    intro etag hetag
    exact (Option.mem_some_iff.1 hetag).symm
  have hnone : bindings.Expects table none := nofun
  unfold applyChanges
  rw [Bindings.checkEtag_eq_ok_iff.2 h, Outcome.ok_bind]
  show (calculate bindings table changes >>= _) = _
  cases calculate bindings table changes with
  | error error => rfl
  | ok ids =>
      rw [Outcome.ok_bind, Outcome.ok_bind, bind_eq hcurrent, bind_eq hnone]
      cases permitted settings catalog ids with
      | error error => rfl
      | ok columns => rfl

end Schema

namespace Engine

variable {e : Engine} {caller : Caller} {table : TableId}

/-- The schema that changes make is asked for, and then the table is bound to what is answered. -/
def inTwoSteps (e : Engine) (fresh : Etag) (millis : UInt64) (caller : Caller) (table : TableId)
    (changes : List SchemaChange) : Except Error Answer × Engine :=
  match e.perform ⟨caller, fresh, millis, .calculate table changes⟩ with
  | (.ok (.columnIds ids), e) => e.perform ⟨caller, fresh, millis, .bind table ids none⟩
  | (answer, e) => (answer, e)

/-- The binding that a table has when it was bound to a schema: its old one if that is the schema already,
and else the schema under the stamp that came with the request. -/
def rebound (e : Engine) (fresh : Etag) (table : TableId) (ids : List ColumnId) : Binding :=
  if (e.bindings.current table).columns = ids then e.bindings.current table else ⟨table, ids, fresh⟩

theorem current_revise (e : Engine) (fresh : Etag) (table : TableId) (ids : List ColumnId) :
    (e.revise fresh table ids).bindings.current table = e.rebound fresh table ids := by
  unfold rebound
  split
  · next hsame => rw [revise_of_eq hsame]
  · next hnew => rw [current_revise_of_ne hnew, if_pos rfl]

theorem columns_rebound (e : Engine) (fresh : Etag) (table : TableId) (ids : List ColumnId) :
    (e.rebound fresh table ids).columns = ids := by
  unfold rebound
  split
  · next hsame => exact hsame
  · rfl

/-- A stamp that the table did not have shows whether the schema is another than before. -/
theorem etag_rebound_ne_iff {fresh : Etag} (h : fresh ≠ (e.bindings.current table).etag)
    (ids : List ColumnId) :
    (e.rebound fresh table ids).etag ≠ (e.bindings.current table).etag ↔
      (e.bindings.current table).columns ≠ ids := by
  unfold rebound
  split
  · next hsame => simp [hsame]
  · next hnew => simp [hnew, h]

/-! ### Outcomes as equations -/

/-- How both steps are settled: the calculated schema is bound, if there is one. -/
theorem inTwoSteps_eq (fresh : Etag) (millis : UInt64) (changes : List SchemaChange) :
    e.inTwoSteps fresh millis caller table changes =
      match Schema.calculate e.bindings table changes with
      | .ok ids => e.settle .changed (e.bind fresh caller table ids none)
      | .error error => (.error error, e) := by
  unfold inTwoSteps
  show (match e.query .columnIds (Schema.calculate e.bindings table changes) with
    | (.ok (.columnIds ids), e) => e.perform ⟨caller, fresh, millis, .bind table ids none⟩
    | (answer, e) => (answer, e)) = _
  cases Schema.calculate e.bindings table changes with
  | error error => rfl
  | ok ids => rfl

section

variable (haccess : e.authority.allows caller table .update = true)

include haccess

/-- How a request is settled that binds a table without a condition: whether it is refused does not
depend on the stamp that it brings along. -/
theorem bind_eq (fresh : Etag) (ids : List ColumnId) :
    e.bind fresh caller table ids none =
      (Schema.permitted e.settings e.catalog ids).map fun _ =>
        (decide ((e.bindings.current table).columns ≠ ids), e.revise fresh table ids) := by
  have hok : e.requireAccess caller table .update = .ok () := if_pos haccess
  have hnone : e.bindings.Expects table none := nofun
  unfold bind
  rw [hok, Outcome.ok_bind, Schema.bind_eq hnone]
  cases Schema.permitted e.settings e.catalog ids with
  | error error => rfl
  | ok columns =>
      by_cases hsame : (e.bindings.current table).columns = ids
      · rw [revise_of_eq hsame, decide_eq_false (not_not_intro hsame)]
        simp only [Except.map, if_pos hsame, Outcome.ok_bind]
        rfl
      · rw [revise_of_ne hsame, decide_eq_true hsame]
        simp only [Except.map, if_neg hsame, Outcome.ok_bind]
        rfl

/-- How a request is settled that changes a schema: the calculated schema is bound, if there is one. -/
theorem changeSchema_eq {expected : Option Etag} (h : e.bindings.Expects table expected)
    (fresh : Etag) (changes : List SchemaChange) :
    e.changeSchema fresh caller table changes expected =
      Schema.calculate e.bindings table changes >>= fun ids =>
        (e.bind fresh caller table ids none).map (fun p => (p.2.bindings.current table, p.2)) := by
  have hok : e.requireAccess caller table .update = .ok () := if_pos haccess
  unfold changeSchema bind
  rw [hok, Outcome.ok_bind, Schema.applyChanges_eq h]
  cases Schema.calculate e.bindings table changes with
  | error error => rfl
  | ok ids =>
      rw [Outcome.ok_bind, Outcome.ok_bind, Outcome.ok_bind]
      cases Schema.bind e.settings e.catalog fresh e.bindings table ids none with
      | error error => rfl
      | ok p => rfl

/-- A stamp that is expected and not the current one is the reason why a change is refused. -/
theorem changeSchema_of_ne {expected : Etag} (h : expected ≠ (e.bindings.current table).etag)
    (fresh : Etag) (changes : List SchemaChange) :
    e.changeSchema fresh caller table changes (some expected) =
      .error (.staleEtag table expected (e.bindings.current table).etag) := by
  have hok : e.requireAccess caller table .update = .ok () := if_pos haccess
  have hstale : e.bindings.checkEtag table (some expected) =
      .error (.staleEtag table expected (e.bindings.current table).etag) := if_neg h
  unfold changeSchema Schema.applyChanges
  rw [hok, hstale]
  rfl

/-- **One step and two steps come to the same**, for a caller who may update the table, whatever the
engine holds and whatever stamps the requests bring along.

Either no schema can be calculated, or the table may not have the one that is; then both ways are refused
with the same error and the engine stays as it is.  Or both ways give the table the calculated schema, and
nothing else is different behind them but the stamp of a new schema.  What is answered has exactly the
calculated columns, and under a new stamp exactly if the table had others before.

If a stamp is expected and it is the current one, this changes nothing.  If it is not, the request is
refused for that reason, whatever the changes are, and the engine stays as it is. -/
theorem changeSchema_in_two_steps (fresh fresh' : Etag) (millis : UInt64)
    (changes : List SchemaChange) :
    let inOneStep (expected : Option Etag) :=
      e.perform ⟨caller, fresh, millis, .changeSchema table changes expected⟩
    let current := e.bindings.current table
    ((∃ error, (Schema.calculate e.bindings table changes >>=
          Schema.permitted e.settings e.catalog) = .error error ∧
        inOneStep none = (.error error, e) ∧
        e.inTwoSteps fresh' millis caller table changes = (.error error, e)) ∨
      ∃ ids columns binding, Schema.calculate e.bindings table changes = .ok ids ∧
        Schema.permitted e.settings e.catalog ids = .ok columns ∧
        binding = e.rebound fresh table ids ∧ binding.columns = ids ∧
        (fresh ≠ current.etag → (binding.etag ≠ current.etag ↔ current.columns ≠ ids)) ∧
        inOneStep none = (.ok (.binding binding), e.revise fresh table ids) ∧
        e.inTwoSteps fresh' millis caller table changes =
          (.ok (.changed (decide (current.columns ≠ ids))), e.revise fresh' table ids)) ∧
    ∀ expected, inOneStep (some expected) =
      if expected = current.etag then inOneStep none
      else (.error (.staleEtag table expected current.etag), e) := by
  intro inOneStep current
  have hnone : e.bindings.Expects table none := nofun
  have hone : inOneStep none = e.settle .binding (Schema.calculate e.bindings table changes >>=
      fun ids => (e.bind fresh caller table ids none).map
        (fun p => (p.2.bindings.current table, p.2))) :=
    congrArg (e.settle .binding) (changeSchema_eq haccess hnone fresh changes)
  constructor
  · rw [hone, inTwoSteps_eq]
    cases Schema.calculate e.bindings table changes with
    | error error => exact Or.inl ⟨error, rfl, rfl, rfl⟩
    | ok ids =>
        have hcolumns := e.columns_rebound fresh table ids
        simp only [Outcome.ok_bind, bind_eq haccess]
        cases hpermitted : Schema.permitted e.settings e.catalog ids with
        | error error => exact Or.inl ⟨error, rfl, rfl, rfl⟩
        | ok columns =>
            refine Or.inr ⟨ids, columns, _, rfl, hpermitted, rfl, hcolumns,
              fun h => etag_rebound_ne_iff h ids, ?_, rfl⟩
            rw [← current_revise]
            rfl
  · intro expected
    split
    · next hsame =>
        have hexpects : e.bindings.Expects table (some expected) := by
          intro etag hetag
          exact (Option.mem_some_iff.1 hetag).symm.trans hsame
        rw [hone]
        exact congrArg (e.settle .binding) (changeSchema_eq haccess hexpects fresh changes)
    · next hne => exact congrArg (e.settle .binding) (changeSchema_of_ne haccess hne fresh changes)

end

end Engine

namespace Sample

def stocked : Engine := { catalog := Catalog.add ∅ column }

def detour : List SchemaChange := [.add column.id, .add column.id, .remove column.id]

end Sample

namespace Engine

/-- The stamp of a table without a schema is the current one where it is expected. -/
theorem changeSchema_in_two_steps_unbound_table :
    Sample.stocked.authority.allows (.administrator 1) Sample.table .update = true ∧
      Sample.stocked.perform
          ⟨.administrator 1, ⟨⟨1⟩⟩, 0, .changeSchema Sample.table Sample.detour (some .unbound)⟩ =
        (.ok (.binding ⟨Sample.table, [Sample.column.id], ⟨⟨1⟩⟩⟩),
          Sample.stocked.revise ⟨⟨1⟩⟩ Sample.table [Sample.column.id]) ∧
      Sample.stocked.inTwoSteps ⟨⟨2⟩⟩ 0 (.administrator 1) Sample.table Sample.detour =
        (.ok (.changed true), Sample.stocked.revise ⟨⟨2⟩⟩ Sample.table [Sample.column.id]) := by
  have haccess : Sample.stocked.authority.allows (.administrator 1) Sample.table .update = true := by
    decide
  obtain ⟨hsettled, hexpected⟩ :=
    changeSchema_in_two_steps haccess ⟨⟨1⟩⟩ ⟨⟨2⟩⟩ 0 Sample.detour
  have hcalculated : Schema.calculate Sample.stocked.bindings Sample.table Sample.detour =
      .ok [Sample.column.id] := by
    decide
  rcases hsettled with ⟨error, -, -, htwo⟩ | ⟨ids, columns, binding, hids, -, rfl, -, -, hone, htwo⟩
  · cases htwo
  · rw [hcalculated] at hids
    cases hids
    exact ⟨haccess, ((hexpected .unbound).trans (if_pos rfl)).trans hone, htwo⟩

end Engine

end VersionedTables
