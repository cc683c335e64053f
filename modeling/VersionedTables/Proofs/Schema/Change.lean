import Mathlib.Data.List.Nodup
import VersionedTables.Proofs.Outcome
import VersionedTables.Schema.Basic

/-!
# What changes make of a schema

Changes are applied one after the other, each to the list that the ones before it leave.  The list may name a
column twice on the way, and then it is the first place of a column that counts.

* **`SchemaChange.Makes`**, **`SchemaChange.apply_eq_ok_iff`** — what one change makes of a list.
* **`SchemaChange.Refused`**, **`SchemaChange.exists_error_applyAll_iff`** — what is refused.
* **`SchemaChange.BringsNew`** — changes that bring in no column that is there already.
* **`SchemaChange.applyAll_laws`** — what a list of changes makes, when it is refused, and what it keeps.
* **`SchemaChange.removal_laws`** — when a removal undoes an addition, and when a second one is idle.
-/

namespace VersionedTables

namespace SchemaChange

variable {ids made l r : List ColumnId} {old new x : ColumnId} {change : SchemaChange}
  {changes : List SchemaChange}

/-! ### One change -/

/-- What one change makes of a list.  A change that names no column makes nothing, and so does the
replacement of a column that is not there. -/
inductive Makes : List ColumnId → SchemaChange → List ColumnId → Prop
  | update {l r : List ColumnId} {old : ColumnId} (new : ColumnId) (first : old ∉ l) :
      Makes (l ++ old :: r) (.update old new) (l ++ new :: r)
  | remove {l r : List ColumnId} {old : ColumnId} (first : old ∉ l) :
      Makes (l ++ old :: r) (.remove old) (l ++ r)
  /-- There is no `old` to be taken out. -/
  | idle {ids : List ColumnId} {old : ColumnId} (absent : old ∉ ids) :
      Makes ids (.remove old) ids
  | add (ids : List ColumnId) (new : ColumnId) : Makes ids (.add new) (ids ++ [new])

/-- A change is refused if it names no column, or if it replaces a column that is not there. -/
def Refused (ids : List ColumnId) (change : SchemaChange) : Prop :=
  (change.old = none ∧ change.new = none) ∨ ∃ old new, change = .update old new ∧ old ∉ ids

theorem idxOf_append_cons (first : old ∉ l) : (l ++ old :: r).idxOf old = l.length := by
  rw [List.idxOf_append_of_notMem first, List.idxOf_cons_self, Nat.add_zero]

/-- The new column takes the place of the first old one, also if the two are the same: then the one that
was put in front is removed again. -/
theorem apply_update (new : ColumnId) (first : old ∉ l) :
    apply (l ++ old :: r) (.update old new) = .ok (l ++ new :: r) := by
  have hmem : old ∈ l ++ old :: r := List.mem_append_right l List.mem_cons_self
  have hinsert : (l ++ old :: r).insertIdx l.length new = l ++ new :: old :: r :=
    List.modifyTailIdx_add (List.cons new) 0 l (old :: r)
  have herase : (new :: old :: r).erase old = new :: r := by
    by_cases h : new = old
    · rw [h, List.erase_cons_head]
    · rw [List.erase_cons_tail (by simpa using h), List.erase_cons_head]
  show (if old ∈ l ++ old :: r then _ else _) = _
  rw [if_pos hmem, idxOf_append_cons first, hinsert, List.erase_append_right _ first, herase]

theorem apply_update_of_not_mem (new : ColumnId) (absent : old ∉ ids) :
    apply ids (.update old new) = .error (.replacedColumnMissing old) := if_neg absent

theorem apply_remove (first : old ∉ l) : apply (l ++ old :: r) (.remove old) = .ok (l ++ r) := by
  show Except.ok ((l ++ old :: r).erase old) = _
  rw [List.erase_append_right _ first, List.erase_cons_head]

theorem apply_remove_of_not_mem (absent : old ∉ ids) : apply ids (.remove old) = .ok ids := by
  show Except.ok (ids.erase old) = _
  rw [List.erase_of_not_mem absent]

/-- **What a change makes of a list**, whatever stands in it. -/
theorem apply_eq_ok_iff : apply ids change = .ok made ↔ Makes ids change made := by
  constructor
  · intro h
    obtain ⟨_ | old, _ | new⟩ := change
    · cases h
    · cases h
      exact .add ids new
    · by_cases hmem : old ∈ ids
      · obtain ⟨l, r, rfl, first⟩ := List.eq_append_cons_of_mem hmem
        cases (apply_remove first).symm.trans h
        exact .remove first
      · cases (apply_remove_of_not_mem hmem).symm.trans h
        exact .idle hmem
    · by_cases hmem : old ∈ ids
      · obtain ⟨l, r, rfl, first⟩ := List.eq_append_cons_of_mem hmem
        cases (apply_update new first).symm.trans h
        exact .update new first
      · cases (apply_update_of_not_mem new hmem).symm.trans h
  · intro h
    cases h with
    | update new first => exact apply_update new first
    | remove first => exact apply_remove first
    | idle absent => exact apply_remove_of_not_mem absent
    | add ids new => rfl

theorem exists_error_apply_iff : (∃ e, apply ids change = .error e) ↔ Refused ids change := by
  obtain ⟨_ | old, _ | new⟩ := change
  · simp [apply, Refused]
  · simp [apply, Refused, update]
  · simp [apply, Refused, update]
  · by_cases hmem : old ∈ ids
    · simp [apply, Refused, update, hmem]
    · simp [apply, Refused, update, hmem]

namespace Makes

/-- A replacement is seen in one place only. -/
theorem getElem?_update (h : Makes ids (.update old new) made) :
    made.length = ids.length ∧
      ∀ i, made[i]? = if i = ids.idxOf old then some new else ids[i]? := by
  generalize hc : SchemaChange.update old new = change at h
  cases h with
  | update new' first =>
      cases hc
      refine ⟨by simp only [List.length_append, List.length_cons], fun i => ?_⟩
      rw [idxOf_append_cons first]
      split
      · next hi => rw [hi, List.getElem?_append_right (Nat.le_refl _), Nat.sub_self]; rfl
      · next hi =>
          simp only [List.getElem?_append, List.getElem?_cons]
          split
          · rfl
          · rw [if_neg (by omega), if_neg (by omega)]
  | remove | idle | add => cases hc

/-- Columns that a change does not name stay, in their order. -/
theorem filter_eq {p : ColumnId → Bool} (h : Makes ids change made)
    (hold : ∀ old ∈ change.old, p old = false) (hnew : ∀ new ∈ change.new, p new = false) :
    made.filter p = ids.filter p := by
  cases h with
  | @update l r old new first =>
      have hold := hold old rfl
      have hnew := hnew new rfl
      simp [hold, hnew]
  | @remove l r old first =>
      have hold := hold old rfl
      simp [hold]
  | idle absent => rfl
  | add ids new =>
      have hnew := hnew new rfl
      simp [hnew]

/-- A change that brings in no column that is there already makes no column stand twice. -/
theorem nodup (h : Makes ids change made) (hids : ids.Nodup)
    (hnew : ∀ new ∈ change.new, change.old ≠ some new → new ∉ ids) : made.Nodup := by
  cases h with
  | @update l r old new first =>
      by_cases hsame : old = new
      · rwa [← hsame]
      · have habsent := hnew new rfl (fun h => hsame (Option.some.inj h))
        simp only [List.nodup_append, List.nodup_cons, List.mem_append, List.mem_cons] at hids habsent ⊢
        grind
  | remove first => exact hids.sublist (List.Sublist.append_left (List.sublist_cons_self _ _) _)
  | idle absent => exact hids
  | add ids new =>
      have habsent := hnew new rfl (fun h => nomatch h)
      exact List.nodup_append.2 ⟨hids, List.nodup_singleton new, by grind⟩

end Makes

/-! ### Lists of changes -/

/-- **The rest of the changes goes on where the first ones end**, if these are not refused. -/
theorem applyAll_append (ids : List ColumnId) (a b : List SchemaChange) :
    applyAll ids (a ++ b) = (applyAll ids a >>= fun made => applyAll made b) :=
  List.foldlM_append

theorem applyAll_cons (ids : List ColumnId) (change : SchemaChange) (changes : List SchemaChange) :
    applyAll ids (change :: changes) = (apply ids change >>= fun made => applyAll made changes) :=
  List.foldlM_cons

theorem applyAll_singleton (ids : List ColumnId) (change : SchemaChange) :
    applyAll ids [change] = apply ids change := by
  rw [applyAll_cons]
  exact bind_pure _

/-- **A list of changes is refused if and only if one of them is refused** by what those before it make. -/
theorem exists_error_applyAll_iff : (∃ e, applyAll ids changes = .error e) ↔
    ∃ a change b made, changes = a ++ change :: b ∧ applyAll ids a = .ok made ∧
      Refused made change := by
  induction changes generalizing ids with
  | nil => simp [applyAll, pure, Except.pure]
  | cons change changes ih =>
      rw [applyAll_cons]
      cases happly : apply ids change with
      | error e =>
          have hrefused : Refused ids change := exists_error_apply_iff.1 ⟨e, happly⟩
          exact iff_of_true ⟨e, rfl⟩ ⟨[], change, changes, ids, rfl, rfl, hrefused⟩
      | ok mid =>
          rw [Outcome.ok_bind, ih]
          constructor
          · intro h
            obtain ⟨a, change', b, made, rfl, ha, hrefused⟩ := h
            refine ⟨change :: a, change', b, made, rfl, ?_, hrefused⟩
            rw [applyAll_cons, happly, Outcome.ok_bind, ha]
          · intro h
            obtain ⟨a, change', b, made, hsplit, ha, hrefused⟩ := h
            cases a with
            | nil =>
                obtain ⟨rfl, rfl⟩ := List.cons.inj hsplit
                cases ha
                obtain ⟨e, he⟩ := exists_error_apply_iff.2 hrefused
                cases happly.symm.trans he
            | cons change₀ a =>
                obtain ⟨rfl, rfl⟩ := List.cons.inj hsplit
                rw [applyAll_cons, happly, Outcome.ok_bind] at ha
                exact ⟨a, change', b, made, rfl, ha, hrefused⟩

/-- A change that names no column is refused wherever it stands, since a list of changes is refused as
soon as one of them is. -/
theorem exists_error_iff_names : (∃ e, applyAll ids changes = .error e) ↔
    (∃ change ∈ changes, change.old = none ∧ change.new = none) ∨
      ∃ a old new b made, changes = a ++ .update old new :: b ∧ applyAll ids a = .ok made ∧
        old ∉ made := by
  rw [exists_error_applyAll_iff]
  constructor
  · intro h
    obtain ⟨a, change, b, made, rfl, ha, hempty | ⟨old, new, rfl, hold⟩⟩ := h
    · exact Or.inl ⟨change, List.mem_append_right a List.mem_cons_self, hempty⟩
    · exact Or.inr ⟨a, old, new, b, made, rfl, ha, hold⟩
  · intro h
    rcases h with ⟨change, hmem, hempty⟩ | ⟨a, old, new, b, made, rfl, ha, hold⟩
    · obtain ⟨a, b, rfl⟩ := List.append_of_mem hmem
      cases ha : applyAll ids a with
      | ok made => exact ⟨a, change, b, made, rfl, ha, Or.inl hempty⟩
      | error e =>
          obtain ⟨a', change', b', made, rfl, ha', hrefused⟩ := exists_error_applyAll_iff.1 ⟨e, ha⟩
          exact ⟨a', change', b' ++ change :: b, made, by simp, ha', hrefused⟩
    · exact ⟨a, .update old new, b, made, rfl, ha, Or.inr ⟨old, new, rfl, hold⟩⟩

/-- Every column that is added, or that takes the place of another one, is not in the list that the
changes before make. -/
def BringsNew (ids : List ColumnId) (changes : List SchemaChange) : Prop :=
  ∀ a change b made, changes = a ++ change :: b → applyAll ids a = .ok made →
    ∀ new ∈ change.new, change.old ≠ some new → new ∉ made

theorem bringsNew_nil (ids : List ColumnId) : BringsNew ids [] := by
  intro a change b made h
  cases (List.append_eq_nil_iff.1 h.symm).2

/-- The first change brings in no column of the list, nor does any other one of what the first one makes. -/
theorem bringsNew_cons_iff : BringsNew ids (change :: changes) ↔
    (∀ new ∈ change.new, change.old ≠ some new → new ∉ ids) ∧
      ∀ made, apply ids change = .ok made → BringsNew made changes := by
  constructor
  · intro h
    refine ⟨h [] change changes ids rfl rfl, ?_⟩
    intro made happly a change' b made' hsplit ha
    refine h (change :: a) change' b made' (congrArg (change :: ·) hsplit) ?_
    rw [applyAll_cons, happly, Outcome.ok_bind, ha]
  · intro h a change' b made hsplit ha
    obtain ⟨hfirst, hrest⟩ := h
    cases a with
    | nil =>
        obtain ⟨rfl, rfl⟩ := List.cons.inj hsplit
        cases ha
        exact hfirst
    | cons change₀ a =>
        obtain ⟨rfl, rfl⟩ := List.cons.inj hsplit
        rw [applyAll_cons] at ha
        obtain ⟨mid, happly, ha⟩ := Outcome.bind_eq_ok_iff.1 ha
        exact hrest mid happly a change' b made rfl ha

/-- Changes that bring in no column that is there already make no column stand twice. -/
theorem nodup_applyAll (hids : ids.Nodup) (hnew : BringsNew ids changes)
    (h : applyAll ids changes = .ok made) : made.Nodup := by
  induction changes generalizing ids with
  | nil =>
      cases h
      exact hids
  | cons change changes ih =>
      rw [applyAll_cons] at h
      obtain ⟨mid, happly, h⟩ := Outcome.bind_eq_ok_iff.1 h
      obtain ⟨hfirst, hrest⟩ := bringsNew_cons_iff.1 hnew
      exact ih ((apply_eq_ok_iff.1 happly).nodup hids hfirst) (hrest mid happly) h

/-- Columns that no change names stay, in their order. -/
theorem filter_applyAll {p : ColumnId → Bool} (hp : ∀ id ∈ Schema.named changes, p id = false)
    (h : applyAll ids changes = .ok made) : made.filter p = ids.filter p := by
  induction changes generalizing ids with
  | nil =>
      cases h
      rfl
  | cons change changes ih =>
      rw [applyAll_cons] at h
      obtain ⟨mid, happly, h⟩ := Outcome.bind_eq_ok_iff.1 h
      simp only [Schema.named, List.flatMap_cons, List.forall_mem_append, Option.mem_toList] at hp
      obtain ⟨⟨hnew, hold⟩, hrest⟩ := hp
      exact (ih hrest h).trans ((apply_eq_ok_iff.1 happly).filter_eq hold hnew)

/-- **What a list of changes makes of a schema**, whatever the schema is.  It is made change by change; a
replacement is seen in the first place of the old column and nowhere else.  The list is refused if and only
if one of the changes names no column or replaces one that is not there at that moment.  Columns that no
change names stay in their order, and no column stands twice if none stands twice to begin with and none is
brought in that is there already. -/
theorem applyAll_laws (ids : List ColumnId) :
    (∀ a b, applyAll ids (a ++ b) = (applyAll ids a >>= fun made => applyAll made b)) ∧
    (∀ change made, applyAll ids [change] = .ok made ↔ Makes ids change made) ∧
    (∀ old new made, applyAll ids [.update old new] = .ok made → made.length = ids.length ∧
      ∀ i, made[i]? = if i = ids.idxOf old then some new else ids[i]?) ∧
    (∀ changes, (∃ e, applyAll ids changes = .error e) ↔
      (∃ change ∈ changes, change.old = none ∧ change.new = none) ∨
        ∃ a old new b made, changes = a ++ .update old new :: b ∧ applyAll ids a = .ok made ∧
          old ∉ made) ∧
    ∀ changes made, applyAll ids changes = .ok made →
      made.filter (· ∉ Schema.named changes) = ids.filter (· ∉ Schema.named changes) ∧
      (ids.Nodup → BringsNew ids changes → made.Nodup) := by
  refine ⟨applyAll_append ids, ?_, ?_, fun changes => exists_error_iff_names, ?_⟩
  · intro change made
    rw [applyAll_singleton]
    exact apply_eq_ok_iff
  · intro old new made h
    rw [applyAll_singleton] at h
    exact (apply_eq_ok_iff.1 h).getElem?_update
  · intro changes made h
    refine ⟨filter_applyAll ?_ h, fun hids hnew => nodup_applyAll hids hnew h⟩
    intro id hid
    simpa using hid

/-- Two columns are replaced, removed and added again; none of them stands twice at any moment. -/
theorem applyAll_laws_two_columns :
    applyAll [⟨"x"⟩, ⟨"y"⟩] [.update ⟨"x"⟩ ⟨"z"⟩, .remove ⟨"y"⟩, .add ⟨"x"⟩] =
        .ok [⟨"z"⟩, ⟨"x"⟩] ∧
      BringsNew [⟨"x"⟩, ⟨"y"⟩] [.update ⟨"x"⟩ ⟨"z"⟩, .remove ⟨"y"⟩, .add ⟨"x"⟩] ∧
      ([⟨"z"⟩, ⟨"x"⟩] : List ColumnId).Nodup := by
  have happly : applyAll [⟨"x"⟩, ⟨"y"⟩] [.update ⟨"x"⟩ ⟨"z"⟩, .remove ⟨"y"⟩, .add ⟨"x"⟩] =
      .ok [⟨"z"⟩, ⟨"x"⟩] := by decide
  have hnew : BringsNew [⟨"x"⟩, ⟨"y"⟩]
      [.update ⟨"x"⟩ ⟨"z"⟩, .remove ⟨"y"⟩, .add ⟨"x"⟩] := by
    refine bringsNew_cons_iff.2 ⟨by decide, fun made h => ?_⟩
    cases h
    refine bringsNew_cons_iff.2 ⟨by decide, fun made h => ?_⟩
    cases h
    exact bringsNew_cons_iff.2 ⟨by decide, fun made _ => bringsNew_nil made⟩
  obtain ⟨-, -, -, -, hkeeps⟩ := applyAll_laws [⟨"x"⟩, ⟨"y"⟩]
  exact ⟨happly, hnew, (hkeeps _ _ happly).2 (by decide) hnew⟩

/-! ### Removals -/

/-- A column that is added and removed again goes to the end if it was there, since the removal takes out
its first place. -/
theorem applyAll_add_remove (ids : List ColumnId) (x : ColumnId) :
    applyAll ids [.add x, .remove x] = .ok (if x ∈ ids then ids.erase x ++ [x] else ids) := by
  have hlist : applyAll ids [.add x, .remove x] = .ok ((ids ++ [x]).erase x) := rfl
  rw [hlist, List.erase_append, List.erase_cons_head, List.append_nil]

/-- Where no column stands twice, a column goes to the end without a trace only if it is the last one. -/
theorem erase_append_eq_self_iff (hids : ids.Nodup) (hx : x ∈ ids) :
    ids.erase x ++ [x] = ids ↔ ids.getLast? = some x := by
  obtain ⟨l, r, rfl, first⟩ := List.eq_append_cons_of_mem hx
  rw [List.erase_append_right _ first, List.erase_cons_head, List.append_assoc,
    List.append_cancel_left_eq]
  have hrest : x ∉ r := (List.nodup_cons.1 (List.nodup_append.1 hids).2.1).1
  cases r with
  | nil => simp
  | cons y r =>
      have hxy : x ≠ y := fun h => hrest (h ▸ List.mem_cons_self)
      have hlast : (l ++ x :: y :: r).getLast? = (y :: r).getLast? := by
        rw [List.getLast?_append_of_ne_nil l (List.cons_ne_nil x _), List.getLast?_cons_cons]
      rw [hlast]
      refine iff_of_false (fun h => hxy (List.cons.inj h).1.symm) (fun h => ?_)
      exact hrest (List.mem_of_getLast? h)

theorem add_remove_restores_iff (hids : ids.Nodup) :
    applyAll ids [.add x, .remove x] = .ok ids ↔ x ∉ ids ∨ ids.getLast? = some x := by
  rw [applyAll_add_remove, Except.ok.injEq]
  by_cases hx : x ∈ ids
  · rw [if_pos hx, erase_append_eq_self_iff hids hx]
    exact ⟨Or.inr, fun h => h.resolve_left (not_not_intro hx)⟩
  · rw [if_neg hx]
    exact iff_of_true rfl (Or.inl hx)

/-- A second removal finds nothing to take out if and only if the column stood once at most. -/
theorem erase_erase_eq_iff (ids : List ColumnId) (x : ColumnId) :
    (ids.erase x).erase x = ids.erase x ↔ ids.count x ≤ 1 := by
  rw [List.erase_eq_self_iff, ← List.count_eq_zero, List.count_erase_self]
  omega

theorem remove_remove_iff {a : List SchemaChange} (ha : applyAll ids a = .ok made) :
    applyAll ids (a ++ [.remove x, .remove x]) = applyAll ids (a ++ [.remove x]) ↔
      made.count x ≤ 1 := by
  rw [applyAll_append, applyAll_append, ha]
  show Except.ok ((made.erase x).erase x) = Except.ok (made.erase x) ↔ _
  rw [Except.ok.injEq, erase_erase_eq_iff]

/-- A removal may stand twice in a list of changes that go on behind it, if the column stands once at most
when it is reached. -/
theorem remove_remove_idle {a : List SchemaChange} (b : List SchemaChange)
    (h : ∀ made, applyAll ids a = .ok made → made.count x ≤ 1) :
    applyAll ids (a ++ .remove x :: .remove x :: b) = applyAll ids (a ++ .remove x :: b) := by
  have htwice : a ++ .remove x :: .remove x :: b = (a ++ [.remove x, .remove x]) ++ b := by simp
  have honce : a ++ .remove x :: b = (a ++ [.remove x]) ++ b := by simp
  have hsame : applyAll ids (a ++ [.remove x, .remove x]) = applyAll ids (a ++ [.remove x]) := by
    cases ha : applyAll ids a with
    | ok made => exact (remove_remove_iff ha).2 (h made ha)
    | error e =>
        rw [applyAll_append, applyAll_append, ha]
        rfl
  rw [htwice, honce, applyAll_append ids _ b, applyAll_append ids _ b, hsame]

/-- **When a removal undoes an addition, and when a second one is idle.**  Of a list in which no column
stands twice, a column that is added and removed again leaves the list as it was if and only if it was not
there or was the last one; else it has gone to the end.  A removal may be repeated wherever the column
stands once at most, and only there: a column that stands twice is taken out a second time. -/
theorem removal_laws :
    (∀ (ids : List ColumnId) (x : ColumnId), ids.Nodup →
      applyAll ids [.add x, .remove x] = .ok (if x ∈ ids then ids.erase x ++ [x] else ids) ∧
      (applyAll ids [.add x, .remove x] = .ok ids ↔ x ∉ ids ∨ ids.getLast? = some x)) ∧
    ∀ (ids : List ColumnId) (a : List SchemaChange) (x : ColumnId),
      ((∀ made, applyAll ids a = .ok made → made.count x ≤ 1) →
        ∀ b, applyAll ids (a ++ .remove x :: .remove x :: b) =
          applyAll ids (a ++ .remove x :: b)) ∧
      ∀ made, applyAll ids a = .ok made →
        (applyAll ids (a ++ [.remove x, .remove x]) = applyAll ids (a ++ [.remove x]) ↔
          made.count x ≤ 1) := by
  refine ⟨?_, ?_⟩
  · intro ids x hids
    exact ⟨applyAll_add_remove ids x, add_remove_restores_iff hids⟩
  · intro ids a x
    exact ⟨fun h b => remove_remove_idle b h, fun made ha => remove_remove_iff ha⟩

/-- The last of two columns is added and removed again, and a column that was replaced is removed twice. -/
theorem removal_laws_two_columns :
    applyAll [⟨"x"⟩, ⟨"y"⟩] [.add ⟨"y"⟩, .remove ⟨"y"⟩] = .ok [⟨"x"⟩, ⟨"y"⟩] ∧
      applyAll [⟨"x"⟩, ⟨"y"⟩] [.update ⟨"x"⟩ ⟨"z"⟩, .remove ⟨"z"⟩, .remove ⟨"z"⟩, .add ⟨"x"⟩] =
        applyAll [⟨"x"⟩, ⟨"y"⟩] [.update ⟨"x"⟩ ⟨"z"⟩, .remove ⟨"z"⟩, .add ⟨"x"⟩] := by
  obtain ⟨hundone, hidle⟩ := removal_laws
  refine ⟨(hundone [⟨"x"⟩, ⟨"y"⟩] ⟨"y"⟩ (by decide)).2.2 (Or.inr rfl), ?_⟩
  refine (hidle [⟨"x"⟩, ⟨"y"⟩] [.update ⟨"x"⟩ ⟨"z"⟩] ⟨"z"⟩).1 ?_ [.add ⟨"x"⟩]
  intro made h
  cases h
  decide

/-- A column that is there already and is not the last one goes to the end when it is added and removed
again; one that was added a second time is taken out twice by two removals. -/
theorem not_removal_laws :
    (¬∀ (ids : List ColumnId) (x : ColumnId), ids.Nodup →
      applyAll ids [.add x, .remove x] = .ok ids) ∧
    ¬∀ (ids : List ColumnId) (a b : List SchemaChange) (x : ColumnId), ids.Nodup →
      applyAll ids (a ++ .remove x :: .remove x :: b) = applyAll ids (a ++ .remove x :: b) := by
  refine ⟨fun h => ?_, fun h => ?_⟩
  · have hundone := h [⟨"x"⟩, ⟨"y"⟩] ⟨"x"⟩ (by decide)
    have hmoved : applyAll [⟨"x"⟩, ⟨"y"⟩] [.add ⟨"x"⟩, .remove ⟨"x"⟩] =
        .ok [⟨"y"⟩, ⟨"x"⟩] := by decide
    exact absurd (hmoved.symm.trans hundone) (by decide)
  · have hidle := h [⟨"x"⟩] [.add ⟨"x"⟩] [] ⟨"x"⟩ (by decide)
    have hgone : applyAll [⟨"x"⟩] [.add ⟨"x"⟩, .remove ⟨"x"⟩, .remove ⟨"x"⟩] = .ok [] := by decide
    have hleft : applyAll [⟨"x"⟩] [.add ⟨"x"⟩, .remove ⟨"x"⟩] = .ok [⟨"x"⟩] := by decide
    exact absurd (hgone.symm.trans (hidle.trans hleft)) (by decide)

end SchemaChange

end VersionedTables
