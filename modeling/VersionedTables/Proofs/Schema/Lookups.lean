import Mathlib.Data.List.Forall2
import VersionedTables.Proofs.Column.Listing

/-!
# What look-ups answer

Columns are looked up by their names: for a list of names one for one or sorted, for the changes of a schema on
both of their sides, and for a selection of the columns of a table.  Each name is looked up once, and the
answer is put together from what was found.  Nothing gets lost on the way: either every name has its column
in the answer, or the look-up is refused.

* **`Catalog.keyed_iff_exists`** — the catalogs that there can be.
* **`Catalog.LeastUnknown`** — the name that a refusal gives.
* **`Catalog.Resolves`**, **`Catalog.Keyed.resolves`** — what is answered to a list of names.
* **`Catalog.resolveCollected_eq`** — the answer put together from what was collected.
* **`Schema.TellsDetails`**, **`Schema.tellsDetails_of_keyed`** — what is answered to a list of changes.
* **`Schema.selected_eq_ok_iff`**, **`Schema.selected_eq_error`** — what is answered to a selection.
-/

namespace VersionedTables

/-- A name has lesser bytes than another. -/
def ColumnId.Precedes (a b : ColumnId) : Prop := Utf8.encoding a.text < Utf8.encoding b.text

theorem ColumnId.precedes_of_compare {a b : ColumnId} (h : compare a b = .lt) : a.Precedes b :=
  Utf8.encoding_lt_iff.2 (compareOfLessAndEq_eq_lt.1 h)

namespace Catalog

variable {c : Catalog} {ids : List ColumnId} {columns : List Column}

/-- **The catalogs that there can be** are those where every column stands under its own name: each of them
comes about by adding columns, and no other does. -/
theorem keyed_iff_exists : c.Keyed ↔ ∃ columns : List Column, c = columns.foldl Catalog.add ∅ := by
  constructor
  · intro hc
    have hadded : ∀ id column, (c.values.foldl Catalog.add ∅).get? id = some column →
        c.get? id = some column := by
      intro id column h
      rcases of_get?_foldl_add h with hnone | ⟨hmem, rfl⟩
      · cases hnone
      · obtain ⟨id, hget⟩ := mem_values_iff.1 hmem
        rwa [hc id column hget]
    refine ⟨c.values, SortedMap.ext_get? (fun id => ?_)⟩
    cases hget : c.get? id with
    | none =>
        refine (Option.eq_none_iff_forall_ne_some.2 (fun column h => ?_)).symm
        rw [hadded id column h] at hget
        cases hget
    | some column =>
        have hsome := isSome_get?_foldl_add ∅ (mem_values_iff.2 ⟨id, hget⟩)
        rw [hc id column hget] at hsome
        obtain ⟨column', hcolumn'⟩ := Option.isSome_iff_exists.1 hsome
        rw [hcolumn', ← hget, hadded id column' hcolumn']
  · rintro ⟨columns, rfl⟩
    exact keyed_empty.foldl_add columns

/-! ### Unknown names -/

/-- Among the names of a list that no column has, `id` is the least. -/
structure LeastUnknown (c : Catalog) (ids : List ColumnId) (id : ColumnId) : Prop where
  mem : id ∈ ids
  unknown : c.get? id = none
  least : ∀ id' ∈ ids, c.get? id' = none → id' = id ∨ id.Precedes id'

theorem find_eq_error {id : ColumnId} {error : Error} (h : c.find id = .error error) :
    c.get? id = none ∧ error = .unknownColumn id := by
  unfold find at h
  split at h
  · cases h
  · next hnone =>
      cases h
      exact ⟨hnone, rfl⟩

theorem distinct_ascending (ids : List ColumnId) : (distinct ids).Pairwise ColumnId.Precedes :=
  (SortedMap.keys_ascending _).imp ColumnId.precedes_of_compare

/-- Names that are looked up in ascending order are refused for the least unknown one. -/
theorem leastUnknown_of_mapM_distinct {error : Error} (h : (distinct ids).mapM c.find = .error error) :
    ∃ id, c.LeastUnknown ids id ∧ error = .unknownColumn id := by
  obtain ⟨done, id, rest, hids, herror, hdone⟩ := Outcome.exists_of_mapM_eq_error h
  obtain ⟨hunknown, rfl⟩ := find_eq_error herror
  have hmem : ∀ id', id' ∈ ids ↔ id' ∈ done ++ id :: rest := by
    intro id'
    rw [← hids, mem_distinct_iff]
  have hascending := distinct_ascending ids
  rw [hids] at hascending
  refine ⟨id, ⟨(hmem id).2 (by simp), hunknown, ?_⟩, rfl⟩
  intro id' hid' hunknown'
  rcases List.mem_append.1 ((hmem id').1 hid') with hbefore | hbehind
  · obtain ⟨column, hcolumn⟩ := hdone id' hbefore
    rw [find_eq_ok_iff, hunknown'] at hcolumn
    cases hcolumn
  · rcases List.mem_cons.1 hbehind with rfl | hbehind
    · exact Or.inl rfl
    · have hrest := List.pairwise_cons.1 (List.pairwise_append.1 hascending).2.1
      exact Or.inr (hrest.1 id' hbehind)

/-! ### Lists of names -/

/-- The order of the answer makes no difference for which names are refused, and for what. -/
theorem resolve_eq_error_iff {keepOrder : Bool} {error : Error} :
    c.resolve ids keepOrder = .error error ↔ (distinct ids).mapM c.find = .error error := by
  cases hfound : (distinct ids).mapM c.find with
  | error error' =>
      rw [resolve, hfound]
      exact Iff.rfl
  | ok found =>
      have hsome : ∀ id ∈ ids, (c.get? id).isSome :=
        fun id => isSome_get?_of_distinct (mapM_find_eq_ok_iff.1 hfound)
      have hok : ∃ columns, c.resolve ids keepOrder = .ok columns := by
        cases keepOrder with
        | true =>
            obtain ⟨columns, hcolumns, -⟩ := exists_resolve hsome
            exact ⟨columns, hcolumns⟩
        | false =>
            refine ⟨found, ?_⟩
            rw [resolve, hfound]
            rfl
      obtain ⟨columns, hcolumns⟩ := hok
      rw [hcolumns]
      simp only [reduceCtorEq]

/-- Sorted, the columns of the distinct names are answered. -/
theorem resolve_false_eq_ok_iff :
    c.resolve ids false = .ok columns ↔
      (distinct ids).map (fun id => c.get? id) = columns.map some := by
  rw [← mapM_find_eq_ok_iff, resolve]
  cases (distinct ids).mapM c.find with
  | error error => constructor <;> intro h <;> cases h
  | ok found => exact Iff.rfl

structure Resolves (c : Catalog) (ids : List ColumnId) : Prop where
  refused_iff : ∀ keepOrder, (∃ error, c.resolve ids keepOrder = .error error) ↔
    ∃ id ∈ ids, c.get? id = none
  /-- A refusal is for the least unknown name, as not found. -/
  refusal : ∀ keepOrder error, c.resolve ids keepOrder = .error error →
    error.kind = .notFound ∧ ∃ id, c.LeastUnknown ids id ∧ error = .unknownColumn id
  inOrder : ∀ columns, c.resolve ids true = .ok columns →
    ids.map (fun id => c.get? id) = columns.map some
  mem_iff : ∀ columns, c.resolve ids false = .ok columns →
    ∀ column, column ∈ columns ↔ ∃ id ∈ ids, c.get? id = some column
  ascending : ∀ columns, c.resolve ids false = .ok columns →
    columns.Pairwise (fun a b => a.id.Precedes b.id)

/-- A refusal gives the least unknown name. -/
theorem leastUnknown_of_resolve {keepOrder : Bool} {error : Error}
    (h : c.resolve ids keepOrder = .error error) :
    ∃ id, c.LeastUnknown ids id ∧ error = .unknownColumn id :=
  leastUnknown_of_mapM_distinct (resolve_eq_error_iff.1 h)

/-- A look-up is refused exactly if one of the names is unknown. -/
theorem exists_resolve_eq_error_iff {keepOrder : Bool} :
    (∃ error, c.resolve ids keepOrder = .error error) ↔ ∃ id ∈ ids, c.get? id = none := by
  constructor
  · rintro ⟨error, herror⟩
    obtain ⟨id, hleast, -⟩ := leastUnknown_of_resolve herror
    exact ⟨id, hleast.mem, hleast.unknown⟩
  · rintro ⟨id, hid, hunknown⟩
    obtain ⟨id', herror⟩ := exists_error_resolve_iff.2 ⟨id, hid, hunknown⟩
    exact ⟨_, resolve_eq_error_iff.2 (resolve_eq_error_iff.1 herror)⟩

/-- **What is answered to a look-up of a list of names.** -/
theorem Keyed.resolves (hc : c.Keyed) (ids : List ColumnId) : c.Resolves ids where
  refused_iff _ := exists_resolve_eq_error_iff
  refusal keepOrder error h := by
    obtain ⟨id, hleast, rfl⟩ := leastUnknown_of_resolve h
    exact ⟨rfl, id, hleast, rfl⟩
  inOrder _ := resolve_eq_ok_iff.1
  mem_iff columns h column := by
    have hmap := resolve_false_eq_ok_iff.1 h
    constructor
    · intro hmem
      obtain ⟨id, hid, hget⟩ := Outcome.exists_of_mem_of_map_eq_some hmap hmem
      exact ⟨id, mem_distinct_iff.1 hid, hget⟩
    · rintro ⟨id, hid, hget⟩
      obtain ⟨column', hmem, hget'⟩ :=
        Outcome.exists_eq_some_of_map_eq_some hmap (mem_distinct_iff.2 hid)
      rw [hget] at hget'
      cases hget'
      exact hmem
  ascending columns h := by
    have hnames := hc.map_id_eq (resolve_false_eq_ok_iff.1 h)
    exact List.pairwise_map.1 (hnames ▸ distinct_ascending ids)

/-! ### Answers from what was collected -/

/-- The columns of some names, each looked up once and kept in a catalog of their own. -/
def collect (c : Catalog) (ids : List ColumnId) (found : Catalog) : Except Error Catalog :=
  ids.foldlM (fun found id => do return found.insert id (← c.find id)) found

/-- The columns of a list of names, taken from what was collected: a name of which nothing was collected is
refused where the columns are asked for one for one, and left out where they are sorted. -/
def resolveCollected (c : Catalog) (ids : List ColumnId) (keepOrder : Bool) :
    Except Error (List Column) := do
  let found ← c.collect (distinct ids) ∅
  if keepOrder then ids.mapM found.find else return (distinct ids).filterMap (fun id => found.get? id)

/-- To collect columns is to look them up one by one, and all of them are collected. -/
theorem collect_agrees (c : Catalog) (ids : List ColumnId) (found : Catalog) :
    Outcome.Agree
      (fun found' columns => ids.map (fun id => c.get? id) = columns.map some ∧
        ∀ id, SortedMap.get? found' id = if id ∈ ids then c.get? id else found.get? id)
      (c.collect ids found) (ids.mapM c.find) := by
  induction ids generalizing found with
  | nil => exact .ok ⟨rfl, fun id => (if_neg List.not_mem_nil).symm⟩
  | cons id ids ih =>
      rw [collect, List.foldlM_cons, List.mapM_cons]
      cases hfind : c.find id with
      | error error => exact .error error
      | ok column =>
          have hrest := ih (found.insert id column)
          show Outcome.Agree _ (c.collect ids (found.insert id column))
            (ids.mapM c.find >>= fun columns => pure (column :: columns))
          generalize c.collect ids (found.insert id column) = collected at hrest ⊢
          generalize ids.mapM c.find = columns at hrest ⊢
          cases hrest with
          | error error => exact .error error
          | ok h =>
              obtain ⟨hmap, hget⟩ := h
              have hcolumn := find_eq_ok_iff.1 hfind
              refine .ok ⟨?_, fun id' => ?_⟩
              · rw [List.map_cons, List.map_cons, hcolumn, hmap]
              · rw [hget, SortedMap.get?_insert]
                by_cases hid : id' = id
                · simp [hid, hcolumn]
                · simp [hid]

/-- **Answers from what was collected are the answers of the catalog.**  Every name is in the collection, so
that none is refused or left out that the catalog knows. -/
theorem resolveCollected_eq (c : Catalog) (ids : List ColumnId) (keepOrder : Bool) :
    c.resolveCollected ids keepOrder = c.resolve ids keepOrder := by
  have hagree := c.collect_agrees (distinct ids) ∅
  unfold resolveCollected resolve
  generalize c.collect (distinct ids) ∅ = collected at hagree ⊢
  generalize hfound : (distinct ids).mapM c.find = columns at hagree ⊢
  cases hagree with
  | error error => rfl
  | @ok found columns h =>
      obtain ⟨hmap, hget⟩ := h
      have hsame : ∀ id ∈ distinct ids, SortedMap.get? found id = c.get? id := by
        intro id hid
        rw [hget, if_pos hid]
      cases keepOrder with
      | true =>
          obtain ⟨columns', -, hmap'⟩ := exists_resolve (fun id => isSome_get?_of_distinct hmap)
          have hmap'' : ids.map (fun id => SortedMap.get? found id) = columns'.map some := by
            rw [← hmap']
            exact List.map_congr_left (fun id hid => hsame id (mem_distinct_iff.2 hid))
          show ids.mapM (find found) = ids.mapM c.find
          rw [mapM_find_eq_ok_iff.2 hmap', mapM_find_eq_ok_iff.2 hmap'']
      | false =>
          have hall : ∀ id ∈ distinct ids, (SortedMap.get? found id).isSome := by
            intro id hid
            obtain ⟨column, -, hcolumn⟩ := Outcome.exists_eq_some_of_map_eq_some hmap hid
            rw [hsame id hid, hcolumn]
            rfl
          have hleft := Outcome.map_eq_map_some_filterMap (fun id => SortedMap.get? found id) _ hall
          rw [List.map_congr_left hsame, hmap] at hleft
          show Except.ok ((distinct ids).filterMap fun id => SortedMap.get? found id) = Except.ok columns
          rw [(List.map_inj_right (fun _ _ e => Option.some.inj e)).1 hleft]

end Catalog

/-! ### Changes of a schema -/

/-- On each side the columns are those that a change names, and there is none where it names none. -/
structure ChangeDetails.Tells (d : ChangeDetails) (c : Catalog) (change : SchemaChange) : Prop where
  old : change.old.map (fun id => c.get? id) = d.old.map some
  new : change.new.map (fun id => c.get? id) = d.new.map some

namespace Schema

variable {c : Catalog} {changes : List SchemaChange} {ids : List ColumnId}

structure TellsDetails (c : Catalog) (changes : List SchemaChange) : Prop where
  refused_iff : (∃ error, details c changes = .error error) ↔
    ∃ change ∈ changes, ∃ id, (id ∈ change.old ∨ id ∈ change.new) ∧ c.get? id = none
  /-- A refusal is for the least unknown name, as not found. -/
  refusal : ∀ error, details c changes = .error error →
    error.kind = .notFound ∧ ∃ id, c.LeastUnknown (named changes) id ∧ error = .unknownColumn id
  tells : ∀ ds, details c changes = .ok ds → List.Forall₂ (fun change d => d.Tells c change) changes ds

theorem mem_named_iff {id : ColumnId} :
    id ∈ named changes ↔ ∃ change ∈ changes, id ∈ change.old ∨ id ∈ change.new := by
  simp [named, or_comm]

theorem details_eq_error_iff {error : Error} :
    details c changes = .error error ↔ c.resolve (named changes) false = .error error := by
  unfold details
  cases c.resolve (named changes) false with
  | ok columns => exact iff_of_false nofun nofun
  | error error' =>
      constructor
      · intro h
        cases h
        rfl
      · intro h
        cases h
        rfl

/-- A side that names a known column has it among the columns that were resolved. -/
theorem map_get?_eq_map_bind {columns : List Column} {side : Option ColumnId} (hc : c.Keyed)
    (hmap : ids.map (fun id => c.get? id) = columns.map some) (hside : ∀ id ∈ side, id ∈ ids) :
    side.map (fun id => c.get? id) =
      (side.bind (fun id => columns.find? (·.id = id))).map some := by
  cases side with
  | none => rfl
  | some id =>
      have hid := hside id rfl
      obtain ⟨column, -, hget⟩ := Outcome.exists_eq_some_of_map_eq_some hmap hid
      rw [Option.map_some, Option.bind_some, hc.find?_of_map_eq hmap hid, hget, Option.map_some]

/-- **What is answered to a look-up of the columns that changes name.** -/
theorem tellsDetails_of_keyed (hc : c.Keyed) (changes : List SchemaChange) :
    TellsDetails c changes where
  refused_iff := by
    simp only [details_eq_error_iff, Catalog.exists_resolve_eq_error_iff, mem_named_iff]
    constructor
    · rintro ⟨id, ⟨change, hchange, hnamed⟩, hunknown⟩
      exact ⟨change, hchange, id, hnamed, hunknown⟩
    · rintro ⟨change, hchange, id, hnamed, hunknown⟩
      exact ⟨id, ⟨change, hchange, hnamed⟩, hunknown⟩
  refusal error h := (hc.resolves (named changes)).refusal false error (details_eq_error_iff.1 h)
  tells ds h := by
    obtain ⟨columns, hcolumns, h⟩ := Outcome.bind_eq_ok_iff.1 h
    cases h
    have hmap := Catalog.resolve_false_eq_ok_iff.1 hcolumns
    refine List.forall₂_map_right_iff.2 (List.forall₂_same.2 (fun change hchange => ?_))
    have hnamed : ∀ id, id ∈ change.old ∨ id ∈ change.new → id ∈ Catalog.distinct (named changes) :=
      fun id h => Catalog.mem_distinct_iff.2 (mem_named_iff.2 ⟨change, hchange, h⟩)
    exact ⟨map_get?_eq_map_bind hc hmap (fun id hid => hnamed id (Or.inl hid)),
      map_get?_eq_map_bind hc hmap (fun id hid => hnamed id (Or.inr hid))⟩

/-! ### Selections -/

section

variable {bindings : Bindings} {table : TableId} {bound : List Column}

/-- Among the columns of a table just those are found by their names that the table is bound to. -/
theorem find?_bound (hc : c.Keyed)
    (hbound : (bindings.current table).columns.map (fun id => c.get? id) = bound.map some)
    (id : ColumnId) : bound.find? (·.id = id) =
      if id ∈ (bindings.current table).columns then c.get? id else none := by
  split
  · next hid => exact hc.find?_of_map_eq hbound hid
  · next hid =>
      rw [← hc.map_id_eq hbound] at hid
      refine List.find?_eq_none.2 (fun column hcolumn hname => hid ?_)
      exact List.mem_map.2 ⟨column, hcolumn, of_decide_eq_true hname⟩

/-- The column of a selection that has a name, if it is among the columns of the table. -/
def pick (bound : List Column) (table : TableId) (id : ColumnId) : Except Error Column :=
  match bound.find? (·.id = id) with
  | some column => .ok column
  | none => .error (.columnNotBound id table)

theorem pick_eq_ok_iff {id : ColumnId} {column : Column} :
    pick bound table id = .ok column ↔ bound.find? (·.id = id) = some column := by
  unfold pick
  cases bound.find? (·.id = id) with
  | some column' => simp
  | none => simp

theorem pick_eq_error {id : ColumnId} {error : Error} (h : pick bound table id = .error error) :
    bound.find? (·.id = id) = none ∧ error = .columnNotBound id table := by
  unfold pick at h
  split at h
  · cases h
  · next hnone =>
      cases h
      exact ⟨hnone, rfl⟩

/-- A selection is looked up among the columns of the table, one by one. -/
theorem selected_eq_mapM
    (hbound : (bindings.current table).columns.map (fun id => c.get? id) = bound.map some)
    (ids : List ColumnId) : selected c bindings table ids = ids.mapM (pick bound table) := by
  rw [selected, columns, Catalog.resolve_eq_ok_iff.2 hbound]
  rfl

theorem exists_pick_iff (hc : c.Keyed)
    (hbound : (bindings.current table).columns.map (fun id => c.get? id) = bound.map some)
    {id : ColumnId} : (∃ column, pick bound table id = .ok column) ↔
      id ∈ (bindings.current table).columns := by
  simp only [pick_eq_ok_iff, find?_bound hc hbound]
  constructor
  · rintro ⟨column, h⟩
    by_contra hid
    rw [if_neg hid] at h
    cases h
  · intro hid
    obtain ⟨column, -, hcolumn⟩ := Outcome.exists_eq_some_of_map_eq_some hbound hid
    exact ⟨column, by rw [if_pos hid, hcolumn]⟩

/-- **A selection is answered if and only if the table is bound to each of its columns**, and then with these
columns. -/
theorem selected_eq_ok_iff {columns : List Column} (hc : c.Keyed)
    (hbound : (bindings.current table).columns.map (fun id => c.get? id) = bound.map some) :
    selected c bindings table ids = .ok columns ↔
      (∀ id ∈ ids, id ∈ (bindings.current table).columns) ∧
        ids.map (fun id => c.get? id) = columns.map some := by
  have hfound : (∀ id ∈ ids, id ∈ (bindings.current table).columns) →
      ids.map (fun id => bound.find? (·.id = id)) = ids.map (fun id => c.get? id) := by
    intro hids
    refine List.map_congr_left (fun id hid => ?_)
    rw [find?_bound hc hbound, if_pos (hids id hid)]
  rw [selected_eq_mapM hbound]
  constructor
  · intro h
    have hmap := (Outcome.mapM_eq_ok_iff (fun _ _ => pick_eq_ok_iff)).1 h
    have hids : ∀ id ∈ ids, id ∈ (bindings.current table).columns := by
      intro id hid
      obtain ⟨column, -, hfind⟩ := Outcome.exists_eq_some_of_map_eq_some hmap hid
      exact (exists_pick_iff hc hbound).1 ⟨column, pick_eq_ok_iff.2 hfind⟩
    exact ⟨hids, (hfound hids).symm.trans hmap⟩
  · rintro ⟨hids, hmap⟩
    exact (Outcome.mapM_eq_ok_iff (fun _ _ => pick_eq_ok_iff)).2 ((hfound hids).trans hmap)

/-- A selection that is refused is refused for its first column that the table is not bound to. -/
theorem selected_eq_error {error : Error} (hc : c.Keyed)
    (hbound : (bindings.current table).columns.map (fun id => c.get? id) = bound.map some)
    (h : selected c bindings table ids = .error error) :
    ∃ done id rest, ids = done ++ id :: rest ∧ id ∉ (bindings.current table).columns ∧
      (∀ id' ∈ done, id' ∈ (bindings.current table).columns) ∧ error = .columnNotBound id table := by
  rw [selected_eq_mapM hbound] at h
  obtain ⟨done, id, rest, hids, hpick, hdone⟩ := Outcome.exists_of_mapM_eq_error h
  refine ⟨done, id, rest, hids, ?_, fun id' hid' => (exists_pick_iff hc hbound).1 (hdone id' hid'),
    (pick_eq_error hpick).2⟩
  intro hid
  obtain ⟨column, hcolumn⟩ := (exists_pick_iff hc hbound).2 hid
  rw [hcolumn] at hpick
  cases hpick

end

end Schema

end VersionedTables
