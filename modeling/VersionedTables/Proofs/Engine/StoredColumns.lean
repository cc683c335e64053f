import VersionedTables.Proofs.Column.Normal
import VersionedTables.Proofs.Engine.Schemas

/-!
# The columns that an engine keeps

Whatever the specifications were that columns were made of, an engine keeps columns in normal form, each
under the hash of what it says.  To submit what a kept column says is to be answered the column, and
nothing is added.

* **`Catalog.foldl_add_of_known`** — columns that are known are not added.
* **`Engine.Reachable.define_stored`** — what a kept column says is accepted as the column.
* **`Engine.Reachable.stored_column_normal`** — the columns that an engine keeps.
-/

namespace VersionedTables

/-- Columns of names that are known are not added. -/
theorem Catalog.foldl_add_of_known {c : Catalog} {columns : List Column}
    (h : ∀ column ∈ columns, (c.get? column.id).isSome) : columns.foldl Catalog.add c = c := by
  induction columns with
  | nil => rfl
  | cons column columns ih =>
      obtain ⟨hcolumn, hrest⟩ := List.forall_mem_cons.1 h
      have hadd : c.add column = c := if_pos hcolumn
      rw [List.foldl_cons, hadd]
      exact ih hrest

/-- Columns are made of specifications one by one. -/
theorem ColumnSpec.mapM_define_spec {settings : Settings} {columns : List Column}
    (h : ∀ column ∈ columns, column.spec.define settings = .ok column) :
    (columns.map (·.spec)).mapM (define settings) = .ok columns := by
  induction columns with
  | nil => rfl
  | cons column columns ih =>
      obtain ⟨hcolumn, hrest⟩ := List.forall_mem_cons.1 h
      rw [List.map_cons, List.mapM_cons, hcolumn, Outcome.ok_bind, ih hrest]
      rfl

namespace Engine

variable {e : Engine} {id : ColumnId} {column : Column}

/-- **What a kept column says is accepted as the column**: it is in normal form, and the column stands
under the hash of it. -/
theorem Reachable.define_stored (h : e.Reachable) (hcolumn : e.catalog.get? id = some column) :
    column.spec.Normal e.settings ∧ column.spec.define e.settings = .ok column := by
  obtain ⟨spec, hspec⟩ := h.keepsSchemas.defined id column hcolumn
  obtain ⟨hnormal, rfl⟩ := ColumnSpec.define_eq_ok_iff.1 hspec
  exact ⟨hnormal, hnormal.define_eq⟩

/-- To submit what kept columns say is to be answered the columns, and nothing is added. -/
theorem Reachable.createColumns_stored (h : e.Reachable) {caller : Caller}
    (hcaller : caller.anonymous = false) {columns : List Column}
    (hcolumns : ∀ column ∈ columns, e.catalog.get? column.id = some column) :
    e.createColumns caller (columns.map (·.spec)) = .ok (columns, e) := by
  have hdefine := ColumnSpec.mapM_define_spec
    (fun column hcolumn => (h.define_stored (hcolumns column hcolumn)).2)
  have hadd := Catalog.foldl_add_of_known
    (fun column hcolumn => Option.isSome_of_eq_some (hcolumns column hcolumn))
  rw [createColumns, requireLogin, hcaller, hdefine]
  show Except.ok (columns, ({ e with catalog := columns.foldl Catalog.add e.catalog } : Engine)) = _
  rw [hadd]

theorem Reachable.createColumn_stored (h : e.Reachable) {caller : Caller}
    (hcaller : caller.anonymous = false) (hcolumn : e.catalog.get? id = some column) :
    e.createColumn caller column.spec = .ok (column, e) := by
  have hid := h.keepsSchemas.keyed id column hcolumn
  have hadd : e.catalog.add column = e.catalog :=
    if_pos (Option.isSome_of_eq_some (hid ▸ hcolumn))
  rw [createColumn, requireLogin, hcaller, (h.define_stored hcolumn).2]
  show Except.ok (column, ({ e with catalog := e.catalog.add column } : Engine)) = _
  rw [hadd]

theorem perform_createColumn {r : Request} {spec : ColumnSpec} (h : r.operation = .createColumn spec) :
    e.perform r = e.settle .column (e.createColumn r.caller spec) := by
  rw [perform, h]

theorem perform_createColumns {r : Request} {specs : List ColumnSpec}
    (h : r.operation = .createColumns specs) :
    e.perform r = e.settle .columns (e.createColumns r.caller specs) := by
  rw [perform, h]

/-- **The columns that an engine keeps.**  A column stands under its name, which is the hash of the text of
what it says, and what it says is in normal form and passes the checks of its own.  Whoever is logged in
and submits just this, alone or with what other kept columns say, is answered the column, and the engine
stays as it is. -/
theorem Reachable.stored_column_normal (h : e.Reachable) (hcolumn : e.catalog.get? id = some column) :
    column.id = id ∧ column.spec.Normal e.settings ∧
      column.id = ⟨Sha256.hexDigest column.spec.canonicalText⟩ ∧
      ∀ r : Request, r.caller.anonymous = false →
        (r.operation = .createColumn column.spec → e.perform r = (.ok (.column column), e)) ∧
        ∀ columns : List Column, (∀ c ∈ columns, e.catalog.get? c.id = some c) →
          r.operation = .createColumns (columns.map (·.spec)) →
          e.perform r = (.ok (.columns columns), e) := by
  obtain ⟨hnormal, hdefine⟩ := h.define_stored hcolumn
  have hname : column.id = column.spec.id := by
    rw [hnormal.define_eq] at hdefine
    exact congrArg Column.id (Except.ok.inj hdefine).symm
  refine ⟨h.keepsSchemas.keyed id column hcolumn, hnormal, hname, ?_⟩
  intro r hcaller
  refine ⟨?_, ?_⟩
  · intro hr
    rw [perform_createColumn hr, h.createColumn_stored hcaller hcolumn]
    rfl
  · intro columns hcolumns hr
    rw [perform_createColumns hr, h.createColumns_stored hcaller hcolumns]
    rfl

end Engine

namespace Sample

/-- A column of links with choices and a default, under a name with blank ends and without a size
bound. -/
def linked : ColumnSpec :=
  { name := " row id\u3000", type := .link, defaultValue := some "x", choices := some ["x", "y"] }

def link : Column := ⟨(linked.normalize {}).id, linked.normalize {}⟩

def linking : Engine := (Engine.perform {} ⟨.user 7, .unbound, 0, .createColumn linked⟩).2

end Sample

namespace Engine

/-- The column has no blank ends and the size bound of the settings, and it is defined again. -/
theorem stored_column_normal_link :
    Sample.linking.Reachable ∧ Sample.linking.catalog.get? Sample.link.id = some Sample.link ∧
      Sample.link.spec = { Sample.linked with name := "row id", maxSize := some 50 } ∧
      Sample.linking.perform ⟨.user 8, .unbound, 1, .createColumn Sample.link.spec⟩ =
        (.ok (.column Sample.link), Sample.linking) := by
  have hreachable : Sample.linking.Reachable := .perform _ (.start {} {})
  have hcatalog : Sample.linking.catalog = Catalog.add ∅ Sample.link := rfl
  have hget : Sample.linking.catalog.get? Sample.link.id = some Sample.link := by
    rw [hcatalog, Catalog.get?_add, if_pos rfl]
    rfl
  refine ⟨hreachable, hget, by decide, ?_⟩
  exact ((hreachable.stored_column_normal hget).2.2.2 _ rfl).1 rfl

end Engine

end VersionedTables
