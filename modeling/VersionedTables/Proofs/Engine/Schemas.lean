import VersionedTables.Proofs.Engine.Reachable
import VersionedTables.Proofs.Schema.Legal

/-!
# The schemas of an engine

A schema is checked when a table is bound to it, and never again.  It stays legal all the same: the
catalog only grows until everything is removed, columns stay what they were, and the settings of an
engine are given once.

* **`Engine.KeepsSchemas`**, **`Engine.Reachable.keepsSchemas`** — the invariant.
* **`Engine.exists_bind_iff`** — when a table can be bound to a schema.
* **`Engine.Reachable.exists_columns`** — the columns of a table can be looked up.
* **`Engine.Reachable.bound_schema_legal`** — the schema of a table is legal at any time.
-/

namespace VersionedTables

namespace Engine

/-- Columns were defined under the settings and stand under their names, and what tables are bound to
are legal schemas. -/
structure KeepsSchemas (e : Engine) : Prop where
  keyed : e.catalog.Keyed
  defined : e.catalog.Defined e.settings
  legal : ∀ table, ∃ columns,
    Schema.Legal e.settings e.catalog (e.bindings.current table).columns columns

/-- An engine without columns and schemas keeps no schema that is not legal. -/
theorem keepsSchemas_empty (settings : Settings) (authority : Authority) (ledger : Ledger) :
    KeepsSchemas ⟨settings, authority, ∅, ∅, ledger⟩ :=
  ⟨Catalog.keyed_empty, Catalog.defined_empty settings, fun _ => ⟨[], Schema.legal_nil _ _⟩⟩

theorem Moves.keepsSchemas {e e' : Engine} {operation : Operation} (h : e.Moves operation e')
    (he : e.KeepsSchemas) : e'.KeepsSchemas := by
  cases h with
  | stay => exact he
  | define specs columns hspecs =>
      refine ⟨he.keyed.foldl_add columns, he.defined.foldl_add hspecs, ?_⟩
      intro table
      obtain ⟨schema, hlegal⟩ := he.legal table
      exact ⟨schema, hlegal.of_extends (Catalog.extends_foldl_add e.catalog columns)⟩
  | bind fresh table ids expected changed bindings hb =>
      refine ⟨he.keyed, he.defined, ?_⟩
      intro t
      obtain ⟨⟨hlegal, -⟩, hbound⟩ := Schema.bind_eq_ok_iff.1 hb
      split at hbound
      · rw [hbound.2]
        exact he.legal t
      · rw [hbound.2, Bindings.current_revised]
        split
        · exact hlegal
        · exact he.legal t
  | unbind table =>
      refine ⟨he.keyed, he.defined, ?_⟩
      intro t
      show ∃ columns, Schema.Legal e.settings e.catalog
        (Bindings.current (e.bindings.erase table) t).columns columns
      rw [Bindings.current_erase]
      split
      · exact ⟨[], Schema.legal_nil _ _⟩
      · exact he.legal t
  | write ledger _ => exact ⟨he.keyed, he.defined, he.legal⟩
  | truncate _ => exact keepsSchemas_empty e.settings e.authority {}

/-- **Whatever is asked of an engine, what its tables are bound to are legal schemas.** -/
theorem Reachable.keepsSchemas {e : Engine} (h : Reachable e) : e.KeepsSchemas := by
  induction h with
  | start settings authority => exact keepsSchemas_empty settings authority {}
  | perform r h ih => exact (perform_moves h.sound r).keepsSchemas ih
  | authorize authority _ ih => exact ⟨ih.keyed, ih.defined, ih.legal⟩

/-! ### Binding a table -/

section

variable {e e' : Engine} {fresh : Etag} {caller : Caller} {table : TableId} {ids : List ColumnId}

/-- **A table can be bound to a schema**, whatever schema it has, exactly if the new one is legal. -/
theorem exists_bind_iff (haccess : e.authority.allows caller table .update = true) :
    (∃ changed e', e.bind fresh caller table ids none = .ok (changed, e')) ↔
      ∃ columns, Schema.Legal e.settings e.catalog ids columns := by
  constructor
  · intro h
    obtain ⟨changed, e', h⟩ := h
    obtain ⟨-, bindings, hb, -⟩ := bind_eq_ok_iff.1 h
    exact (Schema.bind_eq_ok_iff.1 hb).1.1
  · intro hlegal
    have hexpects : e.bindings.Expects table none := nofun
    by_cases hsame : (e.bindings.current table).columns = ids
    · refine ⟨false, _, bind_eq_ok_iff.2 ⟨haccess, e.bindings,
        Schema.bind_eq_ok_iff.2 ⟨⟨hlegal, hexpects⟩, ?_⟩, rfl⟩⟩
      rw [if_pos hsame]
      exact ⟨rfl, rfl⟩
    · refine ⟨true, _, bind_eq_ok_iff.2 ⟨haccess, e.bindings.revised fresh table ids,
        Schema.bind_eq_ok_iff.2 ⟨⟨hlegal, hexpects⟩, ?_⟩, rfl⟩⟩
      rw [if_neg hsame]
      exact ⟨rfl, rfl⟩

/-- A table that was bound to columns has these columns. -/
theorem columns_of_bind {columns : List Column} {expected : Option Etag} {changed : Bool}
    (hcolumns : ids.map (fun id => e.catalog.get? id) = columns.map some)
    (h : e.bind fresh caller table ids expected = .ok (changed, e')) :
    Schema.columns e'.catalog e'.bindings table = .ok columns := by
  obtain ⟨-, bindings, hb, rfl⟩ := bind_eq_ok_iff.1 h
  obtain ⟨-, hbound⟩ := Schema.bind_eq_ok_iff.1 hb
  have hids : (bindings.current table).columns = ids := by
    split at hbound
    · next hsame => rw [hbound.2, hsame]
    · rw [hbound.2, Bindings.current_revised, if_pos rfl]
  refine Catalog.resolve_eq_ok_iff.2 ?_
  show (bindings.current table).columns.map (fun id => e.catalog.get? id) = _
  rw [hids, hcolumns]

end

/-! ### The schema of a table -/

/-- **The columns of a table can be looked up**, and among them every column by its name. -/
theorem Reachable.exists_columns {e : Engine} (h : Reachable e) (table : TableId) :
    ∃ schema, Schema.columns e.catalog e.bindings table = .ok schema ∧
      ∀ id ∈ (e.bindings.current table).columns, ∃ column,
        e.catalog.get? id = some column ∧ schema.find? (·.id = id) = some column := by
  have he := h.keepsSchemas
  obtain ⟨schema, hlegal⟩ := he.legal table
  refine ⟨schema, Catalog.resolve_eq_ok_iff.2 hlegal.defined, ?_⟩
  intro id hid
  obtain ⟨column, -, hcolumn⟩ := Outcome.exists_eq_some_of_map_eq_some hlegal.defined hid
  exact ⟨column, hcolumn, (he.keyed.find?_of_map_eq hlegal.defined hid).trans hcolumn⟩

/-- **The schema of a table is legal at any time.**  It names no column twice; each of its columns is in
the catalog under its name, and whoever may see the columns of the table gets them in the order of the
schema; there are fewer of them than the settings say, if there are any, and a row of them takes no more
bytes than the settings say.  These bytes are counted in 64 bits; counted without a bound they are as
many, unless the settings allow every number that there is. -/
theorem Reachable.bound_schema_legal {e : Engine} (h : Reachable e) (table : TableId) :
    ∃ columns, Schema.Legal e.settings e.catalog (e.bindings.current table).columns columns ∧
      columns.map (·.id) = (e.bindings.current table).columns ∧
      (∀ caller, e.authority.allows caller table .read = true →
        e.tableColumns caller table = .ok columns) ∧
      (e.settings.maxBytesPerRow.toNat < Bounded.greatest →
        Column.rowWidth columns ≤ e.settings.maxBytesPerRow.toNat) := by
  obtain ⟨columns, hlegal⟩ := h.keepsSchemas.legal table
  refine ⟨columns, hlegal, h.keepsSchemas.keyed.map_id_eq hlegal.defined, ?_,
    hlegal.room.rowWidth_le⟩
  intro caller hread
  rw [tableColumns, requireAccess, if_pos hread, Outcome.ok_bind]
  exact Catalog.resolve_eq_ok_iff.2 hlegal.defined

end Engine

namespace Sample

/-- A column of numbers: its cells take 20 bytes. -/
def number : ColumnSpec := { name := "a", type := .integer }

def numbers : Column := ⟨number.id, number⟩

/-- A column of truth values: its cells take 5 bytes. -/
def truth : ColumnSpec := { name := "b", type := .boolean }

/-- An administrator's request under the stamp `fresh`. -/
def arrange (fresh : Etag) (operation : Operation) : Request :=
  ⟨.administrator 1, fresh, 0, operation⟩

/-- An engine with room for these two columns and for nothing more.  They are defined and the table is
bound to the first; then the second is added twice and removed once. -/
def arranged : Engine :=
  (Engine.run { settings := { maxColumnsPerTable := 3, maxBytesPerRow := 25 } }
    [arrange .unbound (.createColumns [number, truth]),
      arrange ⟨⟨1⟩⟩ (.bind table [number.id] none),
      arrange ⟨⟨2⟩⟩ (.changeSchema table [.add truth.id, .add truth.id, .remove truth.id] none)]).2

theorem reachable_arranged : arranged.Reachable := .run (.start _ _) _

/-- The table is bound to both columns. -/
theorem current_arranged :
    arranged.bindings.current table = ⟨table, [number.id, truth.id], ⟨⟨2⟩⟩⟩ := by
  decide +kernel

end Sample

namespace Engine

/-- On the way there were three columns, but the table is never bound to them. -/
theorem bound_schema_legal_two_columns :
    Sample.arranged.Reachable ∧
      Sample.arranged.bindings.current Sample.table =
        ⟨Sample.table, [Sample.number.id, Sample.truth.id], ⟨⟨2⟩⟩⟩ ∧
      ∃ columns, Schema.Legal Sample.arranged.settings Sample.arranged.catalog
          [Sample.number.id, Sample.truth.id] columns ∧
        columns.map (·.id) = [Sample.number.id, Sample.truth.id] := by
  have hcurrent := Sample.current_arranged
  obtain ⟨columns, hlegal, hnames, -⟩ :=
    Sample.reachable_arranged.bound_schema_legal Sample.table
  rw [hcurrent] at hlegal hnames
  exact ⟨Sample.reachable_arranged, hcurrent, columns, hlegal, hnames⟩

end Engine

end VersionedTables
