import VersionedTables.Proofs.Engine.Parts
import VersionedTables.Proofs.Engine.Schemas
import VersionedTables.Proofs.Engine.Since

/-!
# The revisions of schemas

Every new schema of a table is a revision with a stamp of its own, and a table without a schema shows
the stamp of no revision.  As long as no stamp is drawn twice, a stamp says what the schema is, at
whatever time and of whatever table it was seen.  Whoever makes a new schema on the condition that the
table still shows the stamp that was seen therefore loses nobody's update.

* **`Engine.Arranged`**, **`Engine.perform_arranged`** — how a request for a new schema is settled.
* **`Engine.revisions`**, **`Engine.FreshStamps`** — the new schemas of a course, and their stamps.
* **`Engine.shown_cases`** — what is shown during a course.
* **`Engine.FreshStamps.no_lost_update`** — a request on a condition loses no update.
-/

namespace VersionedTables

namespace Operation

/-- The table that a new schema is asked for, and the stamp that is expected of it. -/
def arranges? : Operation → Option (TableId × Option Etag)
  | .bind table _ expected => some (table, expected)
  | .changeSchema table _ expected => some (table, expected)
  | _ => none

/-- The schema that is asked for where the table has the schema `ids`. -/
def target (ids : List ColumnId) : Operation → Except Error (List ColumnId)
  | .bind _ ids' _ => .ok ids'
  | .changeSchema _ changes _ => SchemaChange.applyAll ids changes
  | _ => .ok ids

end Operation

namespace Engine

variable {e : Engine}

/-! ### Requests for new schemas -/

/-- A table gets the schema `ids` under the stamp `fresh`, unless it has the schema already. -/
def revise (e : Engine) (fresh : Etag) (table : TableId) (ids : List ColumnId) : Engine :=
  if (e.bindings.current table).columns = ids then e
  else { e with bindings := e.bindings.revised fresh table ids }

theorem revise_of_eq {table : TableId} {ids : List ColumnId}
    (h : (e.bindings.current table).columns = ids) (fresh : Etag) :
    e.revise fresh table ids = e := if_pos h

theorem revise_of_ne {table : TableId} {ids : List ColumnId}
    (h : (e.bindings.current table).columns ≠ ids) (fresh : Etag) :
    e.revise fresh table ids = { e with bindings := e.bindings.revised fresh table ids } := if_neg h

theorem revise_of_bind {fresh : Etag} {table : TableId} {ids : List ColumnId}
    {expected : Option Etag} {changed : Bool} {bindings : Bindings}
    (h : Schema.bind e.settings e.catalog fresh e.bindings table ids expected =
      .ok (changed, bindings)) : { e with bindings } = e.revise fresh table ids := by
  have hbound := (Schema.bind_eq_ok_iff.1 h).2
  split at hbound
  · next hsame => rw [revise_of_eq hsame, hbound.2]
  · next hnew => rw [revise_of_ne hnew, hbound.2]

theorem bind_eq_ok {fresh : Etag} {caller : Caller} {table : TableId} {ids : List ColumnId}
    {expected : Option Etag} {changed : Bool} {e' : Engine}
    (h : e.bind fresh caller table ids expected = .ok (changed, e')) :
    e.bindings.Expects table expected ∧ e' = e.revise fresh table ids := by
  obtain ⟨-, bindings, hb, rfl⟩ := bind_eq_ok_iff.1 h
  exact ⟨(Schema.bind_eq_ok_iff.1 hb).1.2, revise_of_bind hb⟩

theorem changeSchema_eq_ok {fresh : Etag} {caller : Caller} {table : TableId}
    {changes : List SchemaChange} {expected : Option Etag} {binding : Binding} {e' : Engine}
    (h : e.changeSchema fresh caller table changes expected = .ok (binding, e')) :
    e.bindings.Expects table expected ∧ binding = e'.bindings.current table ∧ ∃ ids,
      SchemaChange.applyAll (e.bindings.current table).columns changes = .ok ids ∧
        e' = e.revise fresh table ids := by
  obtain ⟨⟨⟩, -, h⟩ := Outcome.bind_eq_ok_iff.1 h
  obtain ⟨⟨binding', bindings⟩, hc, he⟩ := Outcome.bind_eq_ok_iff.1 h
  cases he
  obtain ⟨hexpected, ids, changed, htarget, hb, hbinding⟩ := Schema.applyChanges_eq_ok_iff.1 hc
  exact ⟨hexpected, hbinding, ids, htarget, revise_of_bind hb⟩

/-- How a request for a new schema is settled: it is refused and the engine stays as it is, or the table
has the expected stamp and gets the schema that is asked for. -/
inductive Arranged (e : Engine) (r : Request) (table : TableId) (expected : Option Etag) :
    Except Error Answer × Engine → Prop
  | refused (error : Error) : Arranged e r table expected (.error error, e)
  | revised (answer : Answer) (ids : List ColumnId)
      (hexpected : e.bindings.Expects table expected)
      (htarget : r.operation.target (e.bindings.current table).columns = .ok ids) :
      Arranged e r table expected (.ok answer, e.revise r.fresh table ids)

theorem Arranged.settle {α : Type} {r : Request} {table : TableId} {expected : Option Etag}
    (answer : α → Answer) {outcome : Except Error (α × Engine)}
    (h : ∀ a e', outcome = .ok (a, e') → e.bindings.Expects table expected ∧ ∃ ids,
      r.operation.target (e.bindings.current table).columns = .ok ids ∧
        e' = e.revise r.fresh table ids) :
    e.Arranged r table expected (e.settle answer outcome) := by
  cases outcome with
  | error error => exact .refused error
  | ok p =>
      obtain ⟨hexpected, ids, htarget, he⟩ := h p.1 p.2 rfl
      show e.Arranged r table expected (.ok (answer p.1), p.2)
      rw [he]
      exact .revised (answer p.1) ids hexpected htarget

/-- **How a request for a new schema is settled.** -/
theorem perform_arranged {r : Request} {table : TableId} {expected : Option Etag}
    (h : r.operation.arranges? = some (table, expected)) :
    e.Arranged r table expected (e.perform r) := by
  unfold perform
  cases hop : r.operation with
  | bind table ids expected =>
      rw [hop] at h
      cases h
      refine .settle _ (fun changed e' hb => ?_)
      obtain ⟨hexpected, he⟩ := bind_eq_ok hb
      rw [hop]
      exact ⟨hexpected, ids, rfl, he⟩
  | changeSchema table changes expected =>
      rw [hop] at h
      cases h
      refine .settle _ (fun binding e' hc => ?_)
      obtain ⟨hexpected, -, ids, htarget, he⟩ := changeSchema_eq_ok hc
      rw [hop]
      exact ⟨hexpected, ids, htarget, he⟩
  | _ =>
      rw [hop] at h
      cases h

/-- A request on a condition that does not hold is refused, and the engine stays as it is. -/
theorem perform_of_ne {r : Request} {table : TableId} {expected : Etag}
    (h : r.operation.arranges? = some (table, some expected))
    (hne : expected ≠ (e.bindings.current table).etag) :
    ∃ error, e.perform r = (.error error, e) := by
  have harranged := perform_arranged (e := e) h
  generalize e.perform r = settled at harranged ⊢
  cases harranged with
  | refused error => exact ⟨error, rfl⟩
  | revised answer ids hexpected _ => exact absurd (hexpected expected rfl) hne

/-! ### The revisions of a course -/

/-- The new schema that an event makes: the table that it asks one for, the schema that the table has
behind it if that is another than before, and the stamp that comes with the request. -/
def revision? (e : Engine) : Event → Option Binding
  | .authorize _ => none
  | .request r =>
      match r.operation.arranges? with
      | none => none
      | some (table, _) =>
          let columns := ((e.perform r).2.bindings.current table).columns
          if columns = (e.bindings.current table).columns then none
          else some ⟨table, columns, r.fresh⟩

/-- The new schemas that a course makes, one after the other. -/
def revisions (e : Engine) : List Event → List Binding
  | [] => []
  | v :: vs => (e.revision? v).toList ++ (e.handle v).2.revisions vs

theorem revisions_append (us vs : List Event) :
    e.revisions (us ++ vs) = e.revisions us ++ (e.course us).2.revisions vs := by
  induction us generalizing e with
  | nil => rfl
  | cons u us ih =>
      have hrest := ih (e := (e.handle u).2)
      simp only [List.cons_append, revisions, hrest, List.append_assoc]
      rfl

theorem current_revise_of_ne {table : TableId} {ids : List ColumnId}
    (h : (e.bindings.current table).columns ≠ ids) (fresh : Etag) (t : TableId) :
    (e.revise fresh table ids).bindings.current t =
      if t = table then ⟨table, ids, fresh⟩ else e.bindings.current t := by
  rw [revise_of_ne h]
  exact Bindings.current_revised e.bindings fresh table t ids

theorem revision?_of_revise {r : Request} {table : TableId} {expected : Option Etag}
    {ids : List ColumnId} (h : r.operation.arranges? = some (table, expected))
    (hperform : (e.perform r).2 = e.revise r.fresh table ids)
    (hne : (e.bindings.current table).columns ≠ ids) :
    e.revision? (.request r) = some ⟨table, ids, r.fresh⟩ := by
  simp only [revision?, h]
  rw [hperform, current_revise_of_ne hne, if_pos rfl]
  exact if_neg (fun he => hne he.symm)

/-- Only a request for a new schema makes one, and it stamps it with the stamp that it brings. -/
theorem current_of_arranges {r : Request} {table : TableId} {expected : Option Etag}
    (h : r.operation.arranges? = some (table, expected)) (t : TableId) :
    (e.perform r).2.bindings.current t = e.bindings.current t ∨
      e.revision? (.request r) = some ((e.perform r).2.bindings.current t) := by
  have harranged := perform_arranged (e := e) h
  have hrevision : ∀ ids, (e.perform r).2 = e.revise r.fresh table ids →
      (e.bindings.current table).columns ≠ ids →
      e.revision? (.request r) = some ⟨table, ids, r.fresh⟩ :=
    fun ids => revision?_of_revise h
  generalize e.perform r = settled at harranged hrevision ⊢
  cases harranged with
  | refused error => exact Or.inl rfl
  | revised answer ids _ _ =>
      by_cases hsame : (e.bindings.current table).columns = ids
      · rw [revise_of_eq hsame]
        exact Or.inl rfl
      · rw [current_revise_of_ne hsame, hrevision ids rfl hsame]
        split
        · exact Or.inr rfl
        · exact Or.inl rfl

/-- Any other request leaves what is kept of a table as it is, or it is forgotten. -/
theorem get?_bindings_of_not_arranges {r : Request} (h : r.operation.arranges? = none) (t : TableId) :
    (e.perform r).2.bindings.get? t =
      if (Event.request r).forgets t then none else e.bindings.get? t := by
  cases hop : r.operation with
  | bind | changeSchema =>
      rw [hop] at h
      cases h
  | unbind table =>
      have hforgets : (Event.request r).forgets t = decide (t = table) := by
        simp [Event.forgets, Event.removesAll, hop, eq_comm]
      unfold perform
      rw [hop, hforgets]
      show SortedMap.get? (e.bindings.erase table) t = _
      rw [SortedMap.get?_erase]
      simp
  | truncate =>
      have hforgets : (Event.request r).forgets t = r.caller.admin := by
        simp [Event.forgets, Event.removesAll, hop]
      unfold perform truncate
      rw [hop, hforgets]
      cases r.caller.admin <;> rfl
  | _ =>
      have hforgets : (Event.request r).forgets t = false := by
        simp [Event.forgets, Event.removesAll, hop]
      rw [(e.perform_within r).bindings (by simp [hop, Operation.changes]), hforgets]
      rfl

/-- Any other request leaves the binding of a table as it is, or takes it away. -/
theorem current_of_not_arranges {r : Request} (h : r.operation.arranges? = none) (t : TableId) :
    (e.perform r).2.bindings.current t = e.bindings.current t ∨
      (e.perform r).2.bindings.current t = .empty t := by
  unfold Bindings.current Bindings.find?
  rw [get?_bindings_of_not_arranges h]
  split
  · exact Or.inr rfl
  · exact Or.inl rfl

/-- **What an event does to the binding of a table**: nothing, or it takes the binding away, or it makes
a new schema. -/
theorem handle_current (e : Engine) (v : Event) (t : TableId) :
    (e.handle v).2.bindings.current t = e.bindings.current t ∨
      (e.handle v).2.bindings.current t = .empty t ∨
      e.revision? v = some ((e.handle v).2.bindings.current t) := by
  cases v with
  | authorize authority => exact Or.inl rfl
  | request r =>
      cases h : r.operation.arranges? with
      | none => exact (current_of_not_arranges h t).imp_right Or.inl
      | some p => exact (current_of_arranges h t).imp_right Or.inr

/-! ### What is shown -/

def Shown (e : Engine) (vs : List Event) (table : TableId) (b : Binding) : Prop :=
  ∃ us, us <+: vs ∧ (e.course us).2.bindings.current table = b

/-- **What is shown during a course**: what was there before, or that there is no schema, or a schema
that the course makes. -/
theorem shown_cases {vs : List Event} {t : TableId} {b : Binding} (h : e.Shown vs t b) :
    b = e.bindings.current t ∨ b = .empty t ∨ b ∈ e.revisions vs := by
  induction vs generalizing e with
  | nil =>
      obtain ⟨us, hus, rfl⟩ := h
      rw [List.prefix_nil.1 hus]
      exact Or.inl rfl
  | cons v vs ih =>
      obtain ⟨us, hus, hb⟩ := h
      cases us with
      | nil => exact Or.inl hb.symm
      | cons u us =>
          obtain ⟨rfl, hrest⟩ := List.cons_prefix_cons.1 hus
          rcases ih ⟨us, hrest, hb⟩ with hcurrent | hempty | hmem
          · rcases e.handle_current u t with hold | hnone | hnew
            · exact Or.inl (hcurrent.trans hold)
            · exact Or.inr (Or.inl (hcurrent.trans hnone))
            · refine Or.inr (Or.inr (List.mem_append_left _ ?_))
              rw [hnew, hcurrent]
              exact List.mem_singleton_self _
          · exact Or.inr (Or.inl hempty)
          · exact Or.inr (Or.inr (List.mem_append_right _ hmem))

/-- At the start no table has a schema. -/
theorem shown_from_start {settings : Settings} {authority : Authority} {vs : List Event}
    {t : TableId} {b : Binding} (h : Shown { settings, authority } vs t b) :
    b = .empty t ∨ b ∈ revisions { settings, authority } vs := by
  rcases shown_cases h with hstart | hempty | hmem
  · exact Or.inl hstart
  · exact Or.inl hempty
  · exact Or.inr hmem

/-- What is answered as the binding of a table is what the table has behind the request. -/
theorem answer_eq_binding {r : Request} {table : TableId} {answer : Answer}
    (hop : r.operation = .binding table ∨
      ∃ changes expected, r.operation = .changeSchema table changes expected)
    (h : (e.perform r).1 = .ok answer) :
    answer = .binding ((e.perform r).2.bindings.current table) := by
  unfold perform at h ⊢
  rcases hop with hop | ⟨changes, expected, hop⟩
  · rw [hop] at h ⊢
    cases h
    rfl
  · rw [hop] at h ⊢
    dsimp only at h ⊢
    cases hc : e.changeSchema r.fresh r.caller table changes expected with
    | error error =>
        rw [hc] at h
        cases h
    | ok p =>
        rw [hc] at h
        cases h
        obtain ⟨-, hbinding, -⟩ := changeSchema_eq_ok hc
        exact congrArg Answer.binding hbinding

/-- What is answered as the binding of a table is shown. -/
theorem shown_of_answer {us vs : List Event} {r : Request} {table : TableId} {b : Binding}
    (hus : us ++ [.request r] <+: vs)
    (hop : r.operation = .binding table ∨
      ∃ changes expected, r.operation = .changeSchema table changes expected)
    (h : ((e.course us).2.perform r).1 = .ok (.binding b)) : e.Shown vs table b := by
  refine ⟨us ++ [.request r], hus, ?_⟩
  rw [course_append]
  cases answer_eq_binding hop h
  rfl

/-! ### Stamps -/

/-- The stamps of the new schemas that a course makes differ, and none is the stamp that tables
without a schema show. -/
structure FreshStamps (e : Engine) (vs : List Event) : Prop where
  distinct : ((e.revisions vs).map (·.etag)).Nodup
  unbound : Etag.unbound ∉ (e.revisions vs).map (·.etag)

section

variable {settings : Settings} {authority : Authority} {vs : List Event} {r : Request}

/-- **A stamp says what the schema is**, at whatever time and of whatever table it is shown. -/
theorem FreshStamps.columns_eq (h : FreshStamps { settings, authority } vs) {t t' : TableId}
    {b b' : Binding} (hb : Shown { settings, authority } vs t b)
    (hb' : Shown { settings, authority } vs t' b') (he : b.etag = b'.etag) :
    b.columns = b'.columns := by
  rcases shown_from_start hb with rfl | hmem
  · rcases shown_from_start hb' with rfl | hmem'
    · rfl
    · exact absurd (List.mem_map.2 ⟨b', hmem', he.symm⟩) h.unbound
  · rcases shown_from_start hb' with rfl | hmem'
    · exact absurd (List.mem_map.2 ⟨b, hmem, he⟩) h.unbound
    · rw [List.inj_on_of_nodup_map h.distinct hmem hmem' he]

theorem FreshStamps.of_append {us : List Event} (h : e.FreshStamps (us ++ vs)) :
    e.FreshStamps us := by
  have hrevisions := e.revisions_append us vs
  refine ⟨?_, fun hmem => h.unbound ?_⟩
  · have hdistinct := h.distinct
    rw [hrevisions, List.map_append] at hdistinct
    exact hdistinct.of_append_left
  · rw [hrevisions, List.map_append]
    exact List.mem_append_left _ hmem

/-- The stamp of a new schema is one that nothing has shown before. -/
theorem FreshStamps.etag_ne {v : Event} (h : FreshStamps { settings, authority } (vs ++ [v]))
    {t : TableId} {b new : Binding} (hnew : (course { settings, authority } vs).2.revision? v = some new)
    (hb : Shown { settings, authority } vs t b) : b.etag ≠ new.etag := by
  have hrevisions : revisions { settings, authority } (vs ++ [v]) =
      revisions { settings, authority } vs ++ [new] := by
    rw [revisions_append, revisions, hnew]
    rfl
  have hdistinct := h.distinct
  have hunbound := h.unbound
  rw [hrevisions, List.map_append] at hdistinct hunbound
  intro he
  rcases shown_from_start hb with rfl | hmem
  · exact hunbound (List.mem_append_right _ (List.mem_singleton.2 he))
  · exact List.disjoint_of_nodup_append hdistinct (List.mem_map_of_mem hmem)
      (List.mem_singleton.2 he)

/-- **A request on a condition loses no update.**  Behind any course of an engine a new schema is asked
for on the condition that the table still has the stamp `expected`.

If the request is not refused, the table has this stamp, and its schema is that of every binding that
was ever shown under it; the schema that is asked for is made of this one.  If the table has that schema
already, the engine stays as it is.  Else the table gets it under the stamp that comes with the request,
which nothing has shown before.  If the table has another stamp, the request is refused and the engine
stays as it is. -/
theorem FreshStamps.no_lost_update
    (h : FreshStamps { settings, authority } (vs ++ [.request r])) {table : TableId}
    {expected : Etag} (hr : r.operation.arranges? = some (table, some expected)) :
    let e := (course { settings, authority } vs).2
    (∀ answer, (e.perform r).1 = .ok answer →
      (e.bindings.current table).etag = expected ∧
      (∀ t seen, Shown { settings, authority } vs t seen → seen.etag = expected →
        (e.bindings.current table).columns = seen.columns) ∧
      ∃ ids, r.operation.target (e.bindings.current table).columns = .ok ids ∧
        if (e.bindings.current table).columns = ids then (e.perform r).2 = e
        else (e.perform r).2.bindings.current table = ⟨table, ids, r.fresh⟩ ∧
          ∀ t seen, Shown { settings, authority } vs t seen → seen.etag ≠ r.fresh) ∧
    (expected ≠ (e.bindings.current table).etag →
      ∃ error, e.perform r = (.error error, e)) := by
  intro e
  have hcurrent : Shown { settings, authority } vs table (e.bindings.current table) :=
    ⟨vs, List.prefix_rfl, rfl⟩
  have harranged := perform_arranged (e := e) hr
  have hrevision : ∀ ids, (e.perform r).2 = e.revise r.fresh table ids →
      (e.bindings.current table).columns ≠ ids →
      e.revision? (.request r) = some ⟨table, ids, r.fresh⟩ :=
    fun ids => revision?_of_revise hr
  refine ⟨?_, perform_of_ne hr⟩
  intro answer hok
  generalize e.perform r = settled at hok harranged hrevision ⊢
  cases harranged with
  | refused error => cases hok
  | revised answer ids hexpected htarget =>
      have hetag := (hexpected expected rfl).symm
      refine ⟨hetag, ?_, ids, htarget, ?_⟩
      · intro t seen hseen he
        exact h.of_append.columns_eq hcurrent hseen (hetag.trans he.symm)
      · split
        · next hsame => exact revise_of_eq hsame r.fresh
        · next hdiffers =>
            refine ⟨?_, fun t seen => h.etag_ne (hrevision ids rfl hdiffers)⟩
            rw [current_revise_of_ne hdiffers, if_pos rfl]

end

end Engine

namespace Sample

def look : Request := arrange .unbound (.binding table)

/-- The table is bound to a column under the stamp 1 and to no column under the stamp 2. -/
def emptied : List Event :=
  [.request (arrange .unbound (.createColumn number)),
    .request (arrange ⟨⟨1⟩⟩ (.bind table [number.id] none)),
    .request (arrange ⟨⟨2⟩⟩ (.bind table [] (some ⟨⟨1⟩⟩)))]

/-- The request to add the column again if the table still has the stamp 2. -/
def addition : Request :=
  arrange ⟨⟨3⟩⟩ (.changeSchema table [.add number.id] (some ⟨⟨2⟩⟩))

end Sample

namespace Engine

/-- Whoever has looked at the binding in between adds the column to what was seen. -/
theorem no_lost_update_emptied_table :
    FreshStamps {} (Sample.emptied ++ [.request Sample.look] ++ [.request Sample.addition]) ∧
      Sample.addition.operation.arranges? = some (Sample.table, some ⟨⟨2⟩⟩) ∧
      Shown {} (Sample.emptied ++ [.request Sample.look]) Sample.table ⟨Sample.table, [], ⟨⟨2⟩⟩⟩ ∧
      ((course {} (Sample.emptied ++ [.request Sample.look])).2.perform Sample.addition).1 =
        .ok (.binding ⟨Sample.table, [Sample.number.id], ⟨⟨3⟩⟩⟩) ∧
      ((course {} (Sample.emptied ++ [.request Sample.look])).2.bindings.current
        Sample.table).columns = [] := by
  have hstamps : (revisions {}
      (Sample.emptied ++ [.request Sample.look] ++ [.request Sample.addition])).map (·.etag) =
        [⟨⟨1⟩⟩, ⟨⟨2⟩⟩, ⟨⟨3⟩⟩] := by
    decide +kernel
  have hfresh : FreshStamps {}
      (Sample.emptied ++ [.request Sample.look] ++ [.request Sample.addition]) := by
    constructor
    · rw [hstamps]
      decide
    · rw [hstamps]
      decide
  have hlook : ((course {} Sample.emptied).2.perform Sample.look).1 =
      .ok (.binding ⟨Sample.table, [], ⟨⟨2⟩⟩⟩) := by
    decide +kernel
  have hshown := shown_of_answer List.prefix_rfl (Or.inl rfl) hlook
  have hadd : ((course {} (Sample.emptied ++ [.request Sample.look])).2.perform
      Sample.addition).1 = .ok (.binding ⟨Sample.table, [Sample.number.id], ⟨⟨3⟩⟩⟩) := by
    decide +kernel
  obtain ⟨-, hcolumns, -⟩ := (hfresh.no_lost_update rfl).1 _ hadd
  exact ⟨hfresh, rfl, hshown, hadd, hcolumns Sample.table _ hshown rfl⟩

end Engine

end VersionedTables
