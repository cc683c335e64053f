import VersionedTables.Proofs.Engine.Schemas
import VersionedTables.Proofs.Schema.Lookups

/-!
# Look-ups of an engine

An engine keeps its columns under their names, and every column that a table is bound to.  So whoever selects
columns of a table gets them, unless the table is not bound to one of them.

* **`Engine.Selects`**, **`Engine.Reachable.selects`** — what is answered to a selection.
* **`Engine.lookups_complete`** — look-ups answer everything that they are asked for, or they are refused.
-/

namespace VersionedTables

namespace Engine

/-- What is answered to a selection of the columns of a table. -/
structure Selects (e : Engine) (table : TableId) (ids : List ColumnId) : Prop where
  answered_iff : (∃ columns, Schema.selected e.catalog e.bindings table ids = .ok columns) ↔
    ∀ id ∈ ids, id ∈ (e.bindings.current table).columns
  inOrder : ∀ columns, Schema.selected e.catalog e.bindings table ids = .ok columns →
    ids.map (fun id => e.catalog.get? id) = columns.map some
  /-- A refusal is for the first column that the table is not bound to. -/
  refusal : ∀ error, Schema.selected e.catalog e.bindings table ids = .error error →
    ∃ done id rest, ids = done ++ id :: rest ∧ id ∉ (e.bindings.current table).columns ∧
      (∀ id' ∈ done, id' ∈ (e.bindings.current table).columns) ∧ error = .columnNotBound id table
  /-- Everyone who may see the columns of the table is told the same. -/
  readers : ∀ caller, e.authority.allows caller table .read = true →
    e.currentColumns caller table ids = Schema.selected e.catalog e.bindings table ids

/-- **What is answered to a selection of the columns of a table.** -/
theorem Reachable.selects {e : Engine} (h : e.Reachable) (table : TableId) (ids : List ColumnId) :
    e.Selects table ids := by
  have hkeyed := h.keepsSchemas.keyed
  obtain ⟨bound, hlegal⟩ := h.keepsSchemas.legal table
  have hbound := hlegal.defined
  refine ⟨⟨?_, ?_⟩, ?_, ?_, ?_⟩
  · rintro ⟨columns, hcolumns⟩
    exact ((Schema.selected_eq_ok_iff hkeyed hbound).1 hcolumns).1
  · intro hids
    have hsome : ∀ id ∈ ids, (e.catalog.get? id).isSome := by
      intro id hid
      obtain ⟨column, -, hcolumn⟩ := Outcome.exists_eq_some_of_map_eq_some hbound (hids id hid)
      exact Option.isSome_of_eq_some hcolumn
    obtain ⟨columns, -, hmap⟩ := Catalog.exists_resolve hsome
    exact ⟨columns, (Schema.selected_eq_ok_iff hkeyed hbound).2 ⟨hids, hmap⟩⟩
  · intro columns hcolumns
    exact ((Schema.selected_eq_ok_iff hkeyed hbound).1 hcolumns).2
  · exact fun error => Schema.selected_eq_error hkeyed hbound
  · intro caller hread
    rw [currentColumns, requireAccess, if_pos hread, Outcome.ok_bind]

/-- **Look-ups answer everything that they are asked for, or they are refused.**  In every catalog where columns
stand under their names, and there are no others, a list of names and a list of changes are answered in full
unless one of the names is unknown; then the least of these is refused.  The answer can be put together from
what was collected when each name was looked up once.  In an engine a selection of the columns of a table is
answered in full unless the table is not bound to one of them. -/
theorem lookups_complete :
    (∀ c : Catalog, c.Keyed → (∀ ids, c.Resolves ids) ∧ ∀ changes, Schema.TellsDetails c changes) ∧
    (∀ c ids keepOrder, Catalog.resolveCollected c ids keepOrder = c.resolve ids keepOrder) ∧
    ∀ e : Engine, e.Reachable → ∀ table ids, e.Selects table ids :=
  ⟨fun _ hc => ⟨hc.resolves, Schema.tellsDetails_of_keyed hc⟩, Catalog.resolveCollected_eq,
    fun _ he => he.selects⟩

end Engine

namespace Sample

def truths : Column := ⟨⟨"b"⟩, truth⟩

def shelf : Catalog := [truths, column].foldl Catalog.add ∅

theorem keyed_shelf : shelf.Keyed := Catalog.keyed_empty.foldl_add _

end Sample

namespace Engine

/-- Of two unknown names the lesser one is refused; columns that are named twice are answered twice where the
order is kept, and once where it is not. -/
theorem lookups_complete_two_columns :
    Sample.shelf.Keyed ∧
      (Sample.shelf.resolve [⟨"y"⟩, ⟨"a"⟩, ⟨"x"⟩] true = .error (.unknownColumn ⟨"x"⟩) ∧
        Sample.shelf.LeastUnknown [⟨"y"⟩, ⟨"a"⟩, ⟨"x"⟩] ⟨"x"⟩) ∧
      (Sample.shelf.resolve [⟨"b"⟩, ⟨"a"⟩, ⟨"b"⟩] false = .ok [Sample.column, Sample.truths] ∧
        [Sample.column, Sample.truths].Pairwise (fun a b => a.id.Precedes b.id)) ∧
      (Schema.details Sample.shelf [.update ⟨"b"⟩ ⟨"a"⟩, .add ⟨"b"⟩] =
          .ok [⟨some Sample.truths, some Sample.column⟩, ⟨none, some Sample.truths⟩] ∧
        ChangeDetails.Tells ⟨none, some Sample.truths⟩ Sample.shelf (.add ⟨"b"⟩)) ∧
      Sample.arranged.Reachable ∧ ∃ columns,
        Schema.selected Sample.arranged.catalog Sample.arranged.bindings Sample.table
          [Sample.truth.id, Sample.number.id, Sample.truth.id] = .ok columns := by
  obtain ⟨hcatalog, -, hselects⟩ := lookups_complete
  obtain ⟨hresolves, hdetails⟩ := hcatalog Sample.shelf Sample.keyed_shelf
  refine ⟨Sample.keyed_shelf, ⟨by decide, ?_⟩, ⟨by decide, ?_⟩, ⟨by decide, ?_⟩,
    Sample.reachable_arranged, ?_⟩
  · obtain ⟨-, id, hleast, herror⟩ := (hresolves [⟨"y"⟩, ⟨"a"⟩, ⟨"x"⟩]).refusal true
      (.unknownColumn ⟨"x"⟩) (by decide)
    cases herror
    exact hleast
  · exact (hresolves [⟨"b"⟩, ⟨"a"⟩, ⟨"b"⟩]).ascending _ (by decide)
  · have htells := (hdetails [.update ⟨"b"⟩ ⟨"a"⟩, .add ⟨"b"⟩]).tells
      [⟨some Sample.truths, some Sample.column⟩, ⟨none, some Sample.truths⟩] (by decide)
    exact (List.forall₂_cons.1 (List.forall₂_cons.1 htells).2).1
  · refine (hselects Sample.arranged Sample.reachable_arranged Sample.table _).answered_iff.2 ?_
    rw [Sample.current_arranged]
    simp

end Engine

end VersionedTables
