import VersionedTables.Proofs.Engine.Pages
import VersionedTables.Proofs.Engine.SchemaChanges

/-!
# The tables that have some columns

An engine tells which tables have one of some columns, and which have or had one.  For the first question it
looks at the schemas as they are; for the second it keeps for each table what columns its schemas had since
the table was last unbound.  A schema that is asked for but refused, or that the table has already, leaves
no trace in either answer.

* **`Bindings.columnsOf`**, **`Bindings.mem_boundTo_iff`** — the tables that are told.
* **`Engine.Binds`**, **`Engine.BoundSince`** — the schemas that a table had since it was last unbound.
* **`Engine.handle_remembers`** — what an event does to the columns that are kept of a table.
* **`Engine.mem_everBound_iff`** — the columns that are kept are those of these schemas.
* **`Engine.ListsTables`** — how tables are told, page after page.
* **`Engine.BoundTables`**, **`Engine.exists_bound_tables`** — what is told of the tables during a course.
-/

namespace VersionedTables

/-! ### The tables that are told -/

namespace Bindings

variable {b : Bindings} {t table : TableId} {ids : List ColumnId} {id : ColumnId}

/-- The columns of a table that count for a query: those that it has, or those that it ever had. -/
def columnsOf (b : Bindings) (t : TableId) (currentOnly : Bool) : List ColumnId :=
  if currentOnly then (b.current t).columns else (b.everBound t).keys

/-- **The tables that are told** are those with a column that counts and is asked for. -/
theorem mem_boundTo_iff {currentOnly : Bool} :
    t ∈ b.boundTo ids currentOnly ↔ ∃ id ∈ ids, id ∈ b.columnsOf t currentOnly := by
  have hcolumns : b.columnsOf t currentOnly =
      ((b.get? t).map (·.columns currentOnly)).getD [] := by
    unfold columnsOf current find? everBound
    cases b.get? t with
    | none => cases currentOnly <;> rfl
    | some record => cases currentOnly <;> rfl
  have hasked : ∀ record : BindingRecord,
      (record.columns currentOnly).any (ids.contains ·) = true ↔
        ∃ id ∈ ids, id ∈ record.columns currentOnly := by
    intro record
    simp only [List.any_eq_true, List.contains_iff_mem]
    exact exists_congr fun id => and_comm
  rw [hcolumns, boundTo, List.mem_map]
  constructor
  · rintro ⟨⟨t', record⟩, hmem, rfl⟩
    obtain ⟨hentry, hany⟩ := List.mem_filter.1 hmem
    rw [SortedMap.mem_toList_iff.1 hentry]
    exact (hasked record).1 hany
  · intro h
    cases hget : b.get? t with
    | none =>
        rw [hget] at h
        obtain ⟨id, -, hid⟩ := h
        cases hid
    | some record =>
        rw [hget] at h
        exact ⟨(t, record), List.mem_filter.2
          ⟨SortedMap.mem_toList_iff.2 hget, (hasked record).2 h⟩, rfl⟩

/-- Tables are told in the order of their names, each once. -/
theorem boundTo_ascending (b : Bindings) (ids : List ColumnId) (currentOnly : Bool) :
    (b.boundTo ids currentOnly).Pairwise (fun t t' => t.uuid.bits < t'.uuid.bits) := by
  refine List.pairwise_map.2 ((b.ascending.filter _).imp ?_)
  intro p p' h
  have hbits : compare p.1.uuid.bits p'.1.uuid.bits = .lt := h
  exact compareOfLessAndEq_eq_lt.1 hbits

theorem mem_keys_foldl_insert (ids : List ColumnId) (m : SortedMap ColumnId Unit) :
    id ∈ (ids.foldl (fun s id => s.insert id ()) m).keys ↔ id ∈ ids ∨ id ∈ m.keys := by
  have hget := @Catalog.get?_foldl_insert id ids m
  rw [List.foldl_map] at hget
  rw [SortedMap.mem_keys_iff, SortedMap.mem_keys_iff, hget]
  by_cases hid : id ∈ ids
  · simp [hid]
  · simp [hid]

/-- With a new schema a table keeps its columns and those that were kept before. -/
theorem mem_everBound_revised (fresh : Etag) :
    id ∈ (Bindings.everBound (b.revised fresh table ids) t).keys ↔
      t = table ∧ id ∈ ids ∨ id ∈ (b.everBound t).keys := by
  rw [everBound, revised, SortedMap.get?_insert]
  by_cases ht : t = table
  · subst ht
    simp only [if_pos, Option.map_some, Option.getD_some, true_and]
    exact mem_keys_foldl_insert ids (b.everBound t)
  · simp only [ht, false_and, false_or]
    rfl

end Bindings

namespace Engine

variable {e : Engine} {t : TableId}

/-! ### The schemas of a course -/

/-- An event gives a table the schema `ids`, or leaves it the schema that was asked for. -/
def Binds (e : Engine) (v : Event) (t : TableId) (ids : List ColumnId) : Prop :=
  ∃ r expected answer, v = .request r ∧ r.operation.arranges? = some (t, expected) ∧
    (e.perform r).1 = .ok answer ∧ ((e.perform r).2.bindings.current t).columns = ids

/-- In a course a table was given the schema `ids`, and what is kept of it was not forgotten since. -/
def BoundSince (e : Engine) (vs : List Event) (t : TableId) (ids : List ColumnId) : Prop :=
  Since (fun us v => (e.course us).2.Binds v t ids) (Event.forgets t) vs

/-- What is kept of a table has the columns that the table has. -/
def RemembersCurrent (e : Engine) (t : TableId) : Prop :=
  ∀ id ∈ (e.bindings.current t).columns, id ∈ (e.bindings.everBound t).keys

theorem current_of_get? {b b' : Bindings} (h : b'.get? t = b.get? t) :
    b'.current t = b.current t ∧ b'.everBound t = b.everBound t := by
  unfold Bindings.current Bindings.find? Bindings.everBound
  rw [h]
  exact ⟨rfl, rfl⟩

/-- The schema that a request for one leaves the table with, if it is not refused. -/
theorem binds_iff {r : Request} {table : TableId} {expected : Option Etag} {ids : List ColumnId}
    (h : r.operation.arranges? = some (table, expected)) :
    e.Binds (.request r) t ids ↔ t = table ∧ (∃ answer, (e.perform r).1 = .ok answer) ∧
      ((e.perform r).2.bindings.current table).columns = ids := by
  constructor
  · rintro ⟨r', expected', answer, heq, harranges, hok, hids⟩
    cases heq
    rw [h] at harranges
    cases harranges
    exact ⟨rfl, ⟨answer, hok⟩, hids⟩
  · rintro ⟨rfl, ⟨answer, hok⟩, hids⟩
    exact ⟨r, expected, answer, rfl, h, hok, hids⟩

theorem not_binds {v : Event} (h : ∀ r, v = .request r → r.operation.arranges? = none)
    (t : TableId) (ids : List ColumnId) : ¬e.Binds v t ids := by
  rintro ⟨r, expected, answer, heq, harranges, -⟩
  rw [h r heq] at harranges
  cases harranges

/-- A request for a schema does not make anything forgotten. -/
theorem forgets_of_arranges {r : Request} {p : TableId × Option Etag}
    (h : r.operation.arranges? = some p) (t : TableId) : (Event.request r).forgets t = false := by
  cases hop : r.operation with
  | bind | changeSchema => simp [Event.forgets, Event.removesAll, hop]
  | _ =>
      rw [hop] at h
      cases h

/-- A table that is given a schema keeps its columns with those that were kept. -/
theorem revise_remembers (h : e.RemembersCurrent t) (fresh : Etag) (table : TableId)
    (ids : List ColumnId) :
    (e.revise fresh table ids).RemembersCurrent t ∧
      ∀ id, id ∈ ((e.revise fresh table ids).bindings.everBound t).keys ↔
        t = table ∧ id ∈ ids ∨ id ∈ (e.bindings.everBound t).keys := by
  by_cases hsame : (e.bindings.current table).columns = ids
  · -- The table has the schema already, so that its columns are kept.
    rw [revise_of_eq hsame]
    refine ⟨h, fun id => ⟨Or.inr, ?_⟩⟩
    rintro (⟨rfl, hid⟩ | hid)
    · exact h id (hsame ▸ hid)
    · exact hid
  · rw [revise_of_ne hsame]
    have hkept : ∀ id, id ∈ (Bindings.everBound (e.bindings.revised fresh table ids) t).keys ↔
        t = table ∧ id ∈ ids ∨ id ∈ (e.bindings.everBound t).keys :=
      fun id => Bindings.mem_everBound_revised fresh
    refine ⟨?_, hkept⟩
    intro id hid
    refine (hkept id).2 ?_
    have hcurrent := Bindings.current_revised e.bindings fresh table t ids
    rw [hcurrent] at hid
    split at hid
    · next ht => exact Or.inl ⟨ht, hid⟩
    · exact Or.inr (h id hid)

/-- **What an event does to the columns that are kept of a table**: they are forgotten, or those of a schema
that the table is given are kept with them. -/
theorem handle_remembers (h : e.RemembersCurrent t) (v : Event) :
    (e.handle v).2.RemembersCurrent t ∧
      ∀ id, id ∈ ((e.handle v).2.bindings.everBound t).keys ↔
        (∃ ids, e.Binds v t ids ∧ id ∈ ids) ∨
          v.forgets t = false ∧ id ∈ (e.bindings.everBound t).keys := by
  cases v with
  | authorize authority =>
      refine ⟨h, fun id => ⟨fun hid => Or.inr ⟨rfl, hid⟩, ?_⟩⟩
      rintro (⟨ids, hbinds, -⟩ | ⟨-, hid⟩)
      · exact absurd hbinds (not_binds (fun r heq => by cases heq) t ids)
      · exact hid
  | request r =>
      show (e.perform r).2.RemembersCurrent t ∧
        ∀ id, id ∈ ((e.perform r).2.bindings.everBound t).keys ↔ _
      cases harranges : r.operation.arranges? with
      | none =>
          have hget := get?_bindings_of_not_arranges (e := e) harranges t
          have hbinds : ∀ ids, ¬e.Binds (.request r) t ids :=
            not_binds (fun r' heq => by cases heq; exact harranges) t
          simp only [hbinds, false_and, exists_false, false_or]
          cases hforgets : (Event.request r).forgets t with
          | true =>
              rw [if_pos hforgets] at hget
              have hempty := current_of_get? (b := ∅) hget
              rw [RemembersCurrent, hempty.1, hempty.2]
              exact ⟨nofun, fun id => iff_of_false nofun nofun⟩
          | false =>
              rw [hforgets] at hget
              have hsame := current_of_get? (b := e.bindings) hget
              rw [RemembersCurrent, hsame.1, hsame.2]
              exact ⟨h, fun id => (and_iff_right rfl).symm⟩
      | some p =>
          obtain ⟨table, expected⟩ := p
          have harranged := perform_arranged (e := e) harranges
          simp only [forgets_of_arranges harranges t, binds_iff harranges, true_and]
          generalize e.perform r = settled at harranged ⊢
          cases harranged with
          | refused error =>
              refine ⟨h, fun id => ⟨Or.inr, ?_⟩⟩
              rintro (⟨ids, ⟨-, ⟨answer, hok⟩, -⟩, -⟩ | hid)
              · cases hok
              · exact hid
          | revised answer ids _ _ =>
              obtain ⟨hcurrent, hever⟩ := revise_remembers h r.fresh table ids
              refine ⟨hcurrent, fun id => (hever id).trans (or_congr_left ?_)⟩
              have hcolumns : ((e.revise r.fresh table ids).bindings.current table).columns = ids := by
                rw [current_revise, columns_rebound]
              constructor
              · rintro ⟨rfl, hid⟩
                exact ⟨ids, ⟨rfl, ⟨answer, rfl⟩, hcolumns⟩, hid⟩
              · rintro ⟨ids', ⟨rfl, -, hids'⟩, hid⟩
                rw [hcolumns] at hids'
                exact ⟨rfl, hids' ▸ hid⟩

/-- **The columns that are kept of a table** are those of the schemas that it had since it was last
unbound. -/
theorem mem_everBound_iff (settings : Settings) (authority : Authority) (vs : List Event) (t : TableId) :
    (course { settings, authority } vs).2.RemembersCurrent t ∧
      ∀ id, id ∈ ((course { settings, authority } vs).2.bindings.everBound t).keys ↔
        ∃ ids, BoundSince { settings, authority } vs t ids ∧ id ∈ ids := by
  induction vs using List.reverseRecOn with
  | nil =>
      refine ⟨nofun, fun id => iff_of_false nofun ?_⟩
      rintro ⟨ids, hbound, -⟩
      exact not_since_nil _ _ hbound
  | append_singleton vs v ih =>
      obtain ⟨hcurrent, hever⟩ := ih
      obtain ⟨hcurrent', hever'⟩ := handle_remembers hcurrent v
      rw [course_concat]
      refine ⟨hcurrent', fun id => ?_⟩
      simp only [hever', hever, BoundSince, since_concat, or_and_right, exists_or, and_assoc,
        exists_and_left]

/-! ### What is told -/

theorem handsOut_boundTo (e : Engine) (ids : List ColumnId) (currentOnly : Bool) :
    e.HandsOut (.boundObjects ids currentOnly) .tablePage (e.bindings.boundTo ids currentOnly) := by
  intro r limit offset hr
  unfold perform
  rw [hr]
  show (Except.map _ (Schema.boundObjects ..), e) = _
  unfold Schema.boundObjects Page.checkLimit
  split <;> rfl

/-- What is listed of the tables that have one of some columns, or have or had one. -/
structure ListsTables (e : Engine) (ids : List ColumnId) (currentOnly : Bool) (tables : List TableId) :
    Prop where
  handsOut : e.HandsOut (.boundObjects ids currentOnly) .tablePage tables
  readsAll : tables.length ≤ Bounded.greatest →
    e.ReadsAll (.boundObjects ids currentOnly) .tablePage tables
  mem_iff : ∀ t, t ∈ tables ↔ ∃ id ∈ ids, id ∈ e.bindings.columnsOf t currentOnly
  ascending : tables.Pairwise (fun t t' => t.uuid.bits < t'.uuid.bits)

theorem listsTables_boundTo (e : Engine) (ids : List ColumnId) (currentOnly : Bool) :
    e.ListsTables ids currentOnly (e.bindings.boundTo ids currentOnly) where
  handsOut := e.handsOut_boundTo ids currentOnly
  readsAll := (e.handsOut_boundTo ids currentOnly).reads_all
  mem_iff := fun _ => Bindings.mem_boundTo_iff
  ascending := Bindings.boundTo_ascending e.bindings ids currentOnly

/-- A request for a schema that is refused, or behind which the table has the columns that it had, leaves
the engine as it is. -/
theorem perform_of_not_revised {r : Request} {table : TableId} {expected : Option Etag}
    (h : r.operation.arranges? = some (table, expected))
    (hsame : (∃ error, (e.perform r).1 = .error error) ∨
      ((e.perform r).2.bindings.current table).columns = (e.bindings.current table).columns) :
    (e.perform r).2 = e := by
  have harranged := perform_arranged (e := e) h
  generalize e.perform r = settled at harranged hsame ⊢
  cases harranged with
  | refused error => rfl
  | revised answer ids _ _ =>
      obtain ⟨error, herror⟩ | hcolumns := hsame
      · cases herror
      · rw [current_revise, columns_rebound] at hcolumns
        exact revise_of_eq hcolumns.symm r.fresh

/-- What is told behind a course of the tables that have one of the columns `ids`, the tables `now`, and of
those that have or had one, the tables `ever`. -/
structure BoundTables (start : Engine) (vs : List Event) (ids : List ColumnId)
    (now ever : List TableId) : Prop where
  lists_now : (start.course vs).2.ListsTables ids true now
  lists_ever : (start.course vs).2.ListsTables ids false ever
  mem_now : ∀ t, t ∈ now ↔ ∃ id ∈ ids, id ∈ ((start.course vs).2.bindings.current t).columns
  /-- The tables `ever` are those that were given a schema with one of the columns since they were last
  unbound and since everything was last removed. -/
  mem_ever : ∀ t, t ∈ ever ↔ ∃ bound, start.BoundSince vs t bound ∧ ∃ id ∈ ids, id ∈ bound
  now_subset_ever : now ⊆ ever
  /-- A request for a schema that is refused, or that leaves a table its columns, changes nothing. -/
  not_revised : ∀ (r : Request) (table : TableId) (expected : Option Etag),
    r.operation.arranges? = some (table, expected) →
    (∃ error, ((start.course vs).2.perform r).1 = .error error) ∨
      (((start.course vs).2.perform r).2.bindings.current table).columns =
        ((start.course vs).2.bindings.current table).columns →
    ((start.course vs).2.perform r).2 = (start.course vs).2

/-- **What is told of the tables during a course.**  From a new engine on, whatever is asked of it and
whatever rights are given or taken away, the tables that are told to have some columns are those with such
a schema, and the tables that are told to have or to have had them are those that were given such a schema
and that were not unbound since.  Both are told page after page, in the order of the tables, each once. -/
theorem exists_bound_tables (settings : Settings) (authority : Authority) (vs : List Event)
    (ids : List ColumnId) :
    ∃ now ever, BoundTables { settings, authority } vs ids now ever := by
  set start : Engine := { settings, authority }
  set e := (start.course vs).2
  have hever : ∀ t, t ∈ e.bindings.boundTo ids false ↔
      ∃ bound, start.BoundSince vs t bound ∧ ∃ id ∈ ids, id ∈ bound := by
    intro t
    rw [Bindings.mem_boundTo_iff]
    constructor
    · rintro ⟨id, hid, hkept⟩
      obtain ⟨bound, hbound, hmem⟩ := ((mem_everBound_iff settings authority vs t).2 id).1 hkept
      exact ⟨bound, hbound, id, hid, hmem⟩
    · rintro ⟨bound, hbound, id, hid, hmem⟩
      exact ⟨id, hid, ((mem_everBound_iff settings authority vs t).2 id).2 ⟨bound, hbound, hmem⟩⟩
  have hsubset : e.bindings.boundTo ids true ⊆ e.bindings.boundTo ids false := by
    intro t ht
    obtain ⟨id, hid, hcurrent⟩ := Bindings.mem_boundTo_iff.1 ht
    exact Bindings.mem_boundTo_iff.2
      ⟨id, hid, (mem_everBound_iff settings authority vs t).1 id hcurrent⟩
  exact ⟨e.bindings.boundTo ids true, e.bindings.boundTo ids false,
    { lists_now := e.listsTables_boundTo ids true
      lists_ever := e.listsTables_boundTo ids false
      mem_now := fun t => Bindings.mem_boundTo_iff
      mem_ever := hever
      now_subset_ever := hsubset
      not_revised := fun r table expected h => perform_of_not_revised h }⟩

end Engine

namespace Sample

/-- Two tables are bound to a column.  The first one is given an empty schema, and the same once more; the
second one is unbound, and a schema that names the column twice is refused it. -/
def tenancy : List Event :=
  [.request (arrange .unbound (.createColumn number)),
    .request (arrange ⟨⟨1⟩⟩ (.bind table [number.id] none)),
    .request (arrange ⟨⟨2⟩⟩ (.bind annex [number.id] none)),
    .request (arrange ⟨⟨3⟩⟩ (.bind table [] none)),
    .request (arrange ⟨⟨4⟩⟩ (.bind table [] none)),
    .request (arrange .unbound (.unbind annex)),
    .request (arrange ⟨⟨5⟩⟩ (.bind annex [number.id, number.id] none))]

/-- The request for the first ten tables that have the column, or that have or had it. -/
def tenants (currentOnly : Bool) : Request :=
  arrange .unbound (.boundObjects [number.id] currentOnly 10 0)

end Sample

namespace Engine

/-- No table has the column, and the first one had it. -/
theorem exists_bound_tables_unbound :
    BoundTables {} Sample.tenancy [Sample.number.id] [] [Sample.table] ∧
      (Engine.course {} Sample.tenancy).2.perform (Sample.tenants true) =
        (.ok (.tablePage ⟨[], 0⟩), (Engine.course {} Sample.tenancy).2) ∧
      (Engine.course {} Sample.tenancy).2.perform (Sample.tenants false) =
        (.ok (.tablePage ⟨[Sample.table], 1⟩), (Engine.course {} Sample.tenancy).2) := by
  obtain ⟨now, ever, h⟩ := exists_bound_tables {} {} Sample.tenancy [Sample.number.id]
  have hpages : [true, false].map (fun b =>
      ((Engine.course {} Sample.tenancy).2.perform (Sample.tenants b)).1) =
        [.ok (.tablePage ⟨[], 0⟩), .ok (.tablePage ⟨[Sample.table], 1⟩)] := by
    decide +kernel
  obtain ⟨hnone, hpages⟩ := List.cons.inj hpages
  obtain ⟨hfirst, -⟩ := List.cons.inj hpages
  have hanswer : Answer.tablePage.Injective := fun _ _ => Answer.tablePage.inj
  obtain ⟨rfl, hnow⟩ := h.lists_now.handsOut.eq_of_short_page hanswer rfl hnone (by decide)
  obtain ⟨rfl, hever⟩ := h.lists_ever.handsOut.eq_of_short_page hanswer rfl hfirst (by decide)
  exact ⟨h, hnow, hever⟩

end Engine

end VersionedTables
