import Mathlib.Data.List.Nodup
import Mathlib.Data.List.Perm.Basic
import VersionedTables.Proofs.Outcome
import VersionedTables.Proofs.SortedMap
import VersionedTables.Schema.Basic

/-!
# The columns of a catalog

A column stands in the catalog under its own name, and it stays there as it is when columns are added.
What is resolved once is therefore resolved to the same columns later.

* **`Catalog.Keyed`**, **`Catalog.Defined`** — what is true of every column of a catalog.
* **`Catalog.resolve_eq_ok_iff`** — which names are resolved, and to what.
* **`Catalog.resolve_perm`** — names in another order.
* **`Catalog.Extends`** — larger catalogs.
* **`Catalog.map_get?_foldl_add`** — what added columns are resolved to.
-/

namespace VersionedTables

namespace Catalog

def Keyed (c : Catalog) : Prop := ∀ id column, c.get? id = some column → column.id = id

variable {c c' c'' : Catalog} {id : ColumnId} {ids : List ColumnId} {columns : List Column}

theorem keyed_empty : Keyed ∅ := by
  intro id column h
  cases h

theorem get?_add (column : Column) :
    (c.add column).get? id =
      if id = column.id then some ((c.get? id).getD column) else c.get? id := by
  unfold add SortedMap.contains
  by_cases hid : id = column.id
  · subst hid
    cases h : c.get? column.id with
    | none => simp
    | some column' => simp [h]
  · rw [if_neg hid]
    split
    · rfl
    · exact SortedMap.get?_insert_of_ne c column hid

/-- What is found behind an addition was there, or it was added. -/
theorem of_get?_foldl_add {column : Column}
    (h : (columns.foldl Catalog.add c).get? id = some column) :
    c.get? id = some column ∨ (column ∈ columns ∧ column.id = id) := by
  induction columns generalizing c with
  | nil => exact Or.inl h
  | cons column' columns ih =>
      rcases ih h with hadd | ⟨hmem, hid⟩
      · rw [get?_add] at hadd
        split at hadd
        · next hid =>
            cases hold : c.get? id with
            | some column'' =>
                rw [hold] at hadd
                exact Or.inl hadd
            | none =>
                rw [hold] at hadd
                cases hadd
                exact Or.inr ⟨List.mem_cons_self, hid.symm⟩
        · exact Or.inl hadd
      · exact Or.inr ⟨List.mem_cons_of_mem column' hmem, hid⟩

theorem Keyed.foldl_add (hc : c.Keyed) (columns : List Column) :
    (columns.foldl Catalog.add c).Keyed := by
  intro id column h
  rcases of_get?_foldl_add h with hold | ⟨-, hid⟩
  · exact hc id column hold
  · exact hid

def Defined (c : Catalog) (settings : Settings) : Prop :=
  ∀ id column, c.get? id = some column → ∃ spec, ColumnSpec.define settings spec = .ok column

theorem defined_empty (settings : Settings) : Defined ∅ settings := by
  intro id column h
  cases h

theorem Defined.foldl_add {settings : Settings} (hc : c.Defined settings)
    {specs : List ColumnSpec}
    (h : specs.mapM (ColumnSpec.define settings) = .ok columns) :
    (columns.foldl Catalog.add c).Defined settings := by
  intro id column hget
  rcases of_get?_foldl_add hget with hold | ⟨hmem, -⟩
  · exact hc id column hold
  · obtain ⟨spec, -, hspec⟩ := Outcome.exists_of_mem_of_mapM_eq_ok h hmem
    exact ⟨spec, hspec⟩

/-! ### Resolving names -/

theorem find_eq_ok_iff {column : Column} : c.find id = .ok column ↔ c.get? id = some column := by
  unfold find
  split
  · next column' h => simp [h]
  · next h => simp [h]

/-- Names are looked up one by one if and only if each has a column, and then these are found. -/
theorem mapM_find_eq_ok_iff :
    ids.mapM c.find = .ok columns ↔ ids.map (fun id => c.get? id) = columns.map some :=
  Outcome.mapM_eq_ok_iff (fun _ _ => find_eq_ok_iff)

section

variable {p : Error → Prop} (c : Catalog)

/-- A look-up fails for an unknown name only. -/
theorem failsOnly_find (h : ∀ id, p (.unknownColumn id)) (id : ColumnId) :
    Outcome.FailsOnly p (c.find id) := by
  unfold find
  cases c.get? id with
  | some column => exact Outcome.failsOnly_ok column
  | none => exact Outcome.failsOnly_error (h id)

theorem failsOnly_resolve (h : ∀ id, p (.unknownColumn id)) (ids : List ColumnId)
    (keepOrder : Bool) : Outcome.FailsOnly p (c.resolve ids keepOrder) :=
  .bind (.mapM (c.failsOnly_find h) _)
    (fun columns => .ite (.mapM (c.failsOnly_find h) ids) (Outcome.failsOnly_ok columns))

end

theorem get?_foldl_insert (ids : List ColumnId) (m : SortedMap ColumnId Unit) :
    ((ids.map (·, ())).foldl (fun m e => m.insert e.1 e.2) m).get? id =
      if id ∈ ids then some () else m.get? id := by
  induction ids generalizing m with
  | nil => rfl
  | cons id' ids ih =>
      show ((ids.map (·, ())).foldl _ (m.insert id' ())).get? id = _
      rw [ih, SortedMap.get?_insert]
      by_cases he : id = id'
      · simp [he]
      · simp [he]

theorem mem_distinct_iff : id ∈ distinct ids ↔ id ∈ ids := by
  rw [distinct, SortedMap.mem_keys_iff, SortedMap.ofList, get?_foldl_insert]
  split
  · next h => simp [h]
  · next h => simp [h]

/-- Where the distinct names have columns, every name has one. -/
theorem isSome_get?_of_distinct (h : (distinct ids).map (fun id => c.get? id) = columns.map some)
    (hid : id ∈ ids) : (c.get? id).isSome := by
  obtain ⟨column, -, hcolumn⟩ := Outcome.exists_eq_some_of_map_eq_some h (mem_distinct_iff.2 hid)
  exact Option.isSome_of_eq_some hcolumn

/-- Lists with the same members have the same distinct members. -/
theorem distinct_congr {ids' : List ColumnId} (h : ∀ id, id ∈ ids ↔ id ∈ ids') :
    distinct ids = distinct ids' := by
  have hmaps : SortedMap.ofList (ids.map (·, ())) = SortedMap.ofList (ids'.map (·, ())) := by
    refine SortedMap.ext_get? (fun id => ?_)
    rw [SortedMap.ofList, SortedMap.ofList, get?_foldl_insert, get?_foldl_insert]
    simp only [h]
  rw [distinct, distinct, hmaps]

/-- **Names of the catalog are resolved**, each to its column. -/
theorem exists_resolve (h : ∀ id ∈ ids, (c.get? id).isSome) :
    ∃ columns, c.resolve ids true = .ok columns ∧
      ids.map (fun id => c.get? id) = columns.map some := by
  have hfind : ∀ id ∈ ids, ∃ column, c.find id = .ok column := by
    intro id hid
    obtain ⟨column, hcolumn⟩ := Option.isSome_iff_exists.1 (h id hid)
    exact ⟨column, find_eq_ok_iff.2 hcolumn⟩
  obtain ⟨columns, hcolumns⟩ := Outcome.exists_mapM_eq_ok hfind
  obtain ⟨columns', hdistinct⟩ := Outcome.exists_mapM_eq_ok
    (fun id hid => hfind id (mem_distinct_iff.1 hid))
  refine ⟨columns, ?_, mapM_find_eq_ok_iff.1 hcolumns⟩
  rw [resolve, hdistinct]
  exact hcolumns

/-- **Names are resolved if and only if each has a column**, and then to these columns. -/
theorem resolve_eq_ok_iff :
    c.resolve ids true = .ok columns ↔ ids.map (fun id => c.get? id) = columns.map some := by
  constructor
  · intro h
    obtain ⟨columns', -, h⟩ := Outcome.bind_eq_ok_iff.1 h
    exact mapM_find_eq_ok_iff.1 h
  · intro h
    have hsome : ∀ id ∈ ids, (c.get? id).isSome := by
      intro id hid
      obtain ⟨column, -, he⟩ := Outcome.exists_eq_some_of_map_eq_some h hid
      rw [he]
      rfl
    obtain ⟨columns', hresolve, hmap⟩ := exists_resolve hsome
    have hsame : columns'.map some = columns.map some := hmap.symm.trans h
    rw [hresolve, List.map_inj_right (fun _ _ e => Option.some.inj e) |>.1 hsame]

/-- Names that stand for columns are known. -/
theorem not_exists_unknown (h : ids.map (fun id => c.get? id) = columns.map some) :
    ¬∃ id ∈ ids, c.get? id = none := by
  intro hunknown
  obtain ⟨id, hid, hnone⟩ := hunknown
  obtain ⟨column, -, hcolumn⟩ := Outcome.exists_eq_some_of_map_eq_some h hid
  rw [hnone] at hcolumn
  cases hcolumn

/-- Names are resolved unless one of them is unknown. -/
theorem exists_error_resolve_iff :
    (∃ id, c.resolve ids true = .error (.unknownColumn id)) ↔ ∃ id ∈ ids, c.get? id = none := by
  have honly : Outcome.FailsOnly (fun e => ∃ id, e = .unknownColumn id) (c.resolve ids true) :=
    c.failsOnly_resolve (fun id => ⟨id, rfl⟩) ids true
  constructor
  · intro h
    obtain ⟨id, herror⟩ := h
    by_contra hknown
    have hsome : ∀ id ∈ ids, (c.get? id).isSome := by
      intro id hid
      exact Option.isSome_iff_ne_none.2 (fun hnone => hknown ⟨id, hid, hnone⟩)
    obtain ⟨columns, hok, -⟩ := exists_resolve hsome
    rw [hok] at herror
    cases herror
  · intro hunknown
    cases hresolve : c.resolve ids true with
    | error e =>
        obtain ⟨id, rfl⟩ := honly e hresolve
        exact ⟨id, rfl⟩
    | ok columns => exact absurd hunknown (not_exists_unknown (resolve_eq_ok_iff.1 hresolve))

/-- The order of names does not matter: in another order they are refused for the same name, or resolved to
the same columns in another order. -/
theorem resolve_perm {ids' : List ColumnId} (h : ids.Perm ids') :
    Outcome.Agree List.Perm (c.resolve ids true) (c.resolve ids' true) := by
  cases hdistinct : (distinct ids).mapM c.find with
  | error e =>
      have hdistinct' : (distinct ids').mapM c.find = .error e := by
        rw [← distinct_congr (fun id => h.mem_iff), hdistinct]
      rw [resolve, resolve, hdistinct, hdistinct']
      exact .error e
  | ok found =>
      -- All names are known, so that both lists are resolved.
      have hsome : ∀ id ∈ ids, (c.get? id).isSome :=
        fun id => isSome_get?_of_distinct (mapM_find_eq_ok_iff.1 hdistinct)
      obtain ⟨columns, hok, hmap⟩ := exists_resolve hsome
      obtain ⟨columns', hok', hmap'⟩ := exists_resolve (fun id hid => hsome id (h.mem_iff.2 hid))
      rw [hok, hok']
      refine .ok ((List.map_perm_map_iff (fun _ _ e => Option.some.inj e)).1 ?_)
      rw [← hmap, ← hmap']
      exact h.map _

/-- Resolved columns bear the names that they were resolved from. -/
theorem Keyed.map_id_eq (h : c.Keyed)
    (hc : ids.map (fun id => c.get? id) = columns.map some) : columns.map (·.id) = ids :=
  Outcome.map_of_map_eq_some h hc

/-- Among resolved columns each is found under its name. -/
theorem Keyed.find?_of_map_eq (hc : c.Keyed)
    (h : ids.map (fun id => c.get? id) = columns.map some) (hid : id ∈ ids) :
    columns.find? (·.id = id) = c.get? id := by
  induction ids generalizing columns with
  | nil => cases hid
  | cons id' ids ih =>
      cases columns with
      | nil => cases h
      | cons column columns =>
          obtain ⟨hcolumn, hrest⟩ := List.cons.inj h
          have hname := hc id' column hcolumn
          by_cases he : id = id'
          · rw [List.find?_cons_of_pos (by simp [hname, he]), he]
            exact hcolumn.symm
          · rw [List.find?_cons_of_neg (by simpa [hname] using fun e => he e.symm)]
            exact ih hrest ((List.mem_cons.1 hid).resolve_left he)

/-! ### Growing catalogs -/

def Extends (c' c : Catalog) : Prop := ∀ id column, c.get? id = some column → c'.get? id = some column

theorem Extends.refl (c : Catalog) : c.Extends c := fun _ _ h => h

theorem Extends.trans (h : c'.Extends c) (h' : c''.Extends c') : c''.Extends c :=
  fun id column hc => h' id column (h id column hc)

theorem extends_add (c : Catalog) (column : Column) : (c.add column).Extends c := by
  intro id column' h
  rw [get?_add, h]
  split
  · rfl
  · rfl

theorem extends_foldl_add (c : Catalog) (columns : List Column) :
    (columns.foldl Catalog.add c).Extends c := by
  induction columns generalizing c with
  | nil => exact .refl c
  | cons column columns ih => exact (extends_add c column).trans (ih (c.add column))

/-- Every column that is added has its name in the catalog. -/
theorem isSome_get?_foldl_add (c : Catalog) {column : Column} (h : column ∈ columns) :
    ((columns.foldl Catalog.add c).get? column.id).isSome := by
  induction columns generalizing c with
  | nil => cases h
  | cons column' columns ih =>
      rcases List.mem_cons.1 h with rfl | h
      · have hadd : (c.add column).get? column.id = some ((c.get? column.id).getD column) := by
          rw [get?_add, if_pos rfl]
        exact Option.isSome_of_eq_some (extends_foldl_add (c.add column) columns _ _ hadd)
      · exact ih (c.add column') h

/-- Columns of different names that are added to nothing are resolved from their names. -/
theorem map_get?_foldl_add (h : (columns.map (·.id)).Nodup) :
    (columns.map (·.id)).map (fun id => (columns.foldl Catalog.add ∅).get? id) =
      columns.map some := by
  rw [List.map_map]
  refine List.map_congr_left fun column hcolumn => ?_
  obtain ⟨found, hfound⟩ := Option.isSome_iff_exists.1 (isSome_get?_foldl_add ∅ hcolumn)
  rcases of_get?_foldl_add hfound with hnone | ⟨hmem, hid⟩
  · cases hnone
  · rw [Function.comp_apply, hfound, List.inj_on_of_nodup_map h hmem hcolumn hid]

/-- What is resolved is resolved alike in a larger catalog. -/
theorem Extends.map_get? (h : c'.Extends c)
    (hc : ids.map (fun id => c.get? id) = columns.map some) :
    ids.map (fun id => c'.get? id) = columns.map some := by
  rw [← hc]
  refine List.map_congr_left (fun id hid => ?_)
  obtain ⟨column, -, he⟩ := Outcome.exists_eq_some_of_map_eq_some hc hid
  rw [he, h id column he]

end Catalog

/-! ### Bound schemas -/

namespace Bindings

theorem current_insert (b : Bindings) (table t : TableId) (r : BindingRecord) :
    Bindings.current (b.insert table r) t = if t = table then r.binding else b.current t := by
  unfold current find?
  rw [SortedMap.get?_insert]
  split
  · rfl
  · rfl

theorem current_erase (b : Bindings) (table t : TableId) :
    Bindings.current (b.erase table) t = if t = table then .empty t else b.current t := by
  unfold current find?
  rw [SortedMap.get?_erase]
  split
  · rfl
  · rfl

end Bindings

end VersionedTables
