import VersionedTables.Proofs.Schema.Legal

/-!
# How a schema is judged

The columns of a schema are counted, looked up and measured.  Widths are measured in 64 bits and stop at the
greatest number, and the columns are counted twice, before they are looked up and by the first of the
rules.  Neither shows in the verdict: it is that of the exact numbers, unless the settings allow every
number of bytes that there is.  The order of the columns does not count, and there is room for a part where
there is room for the whole.

* **`Capacity.resolve_of_defined`** — known columns are judged by the rules alone.
* **`Capacity.Judged`**, **`Capacity.resolve_judged`** — the four verdicts.
* **`Capacity.resolve_perm`**, **`Capacity.exists_resolve_of_sublist`** — other orders, and parts.
* **`Capacity.verdict_exact`** — the verdict on a schema.
-/

namespace VersionedTables

namespace Capacity

/-! ### The four verdicts -/

section

variable {settings : Settings} {catalog : Catalog} {ids : List ColumnId} {columns : List Column}

/-- The rules of the settings, one after the other. -/
theorem checkAll_rules (settings : Settings) (columns : List Column) :
    checkAll (rules settings) columns =
      if settings.maxColumnsPerTable.toNat ≤ columns.length then
        .error (.tooLarge .columnCount (Bounded.ofNatSat columns.length) settings.maxColumnsPerTable)
      else if settings.maxBytesPerRow < Column.maxRowBytes columns then
        .error (.tooLarge .rowBytes (Column.maxRowBytes columns) settings.maxBytesPerRow)
      else .ok () := by
  have hrules : checkAll (rules settings) columns =
      (CapacityRule.checkCount settings.maxColumnsPerTable columns.length >>= fun _ =>
        (if settings.maxBytesPerRow < Column.maxRowBytes columns then
          .error (.tooLarge .rowBytes (Column.maxRowBytes columns) settings.maxBytesPerRow)
        else .ok ()) >>= fun _ => pure ()) := rfl
  rw [hrules, CapacityRule.checkCount]
  split
  · rfl
  · rw [Outcome.ok_bind]
    split
    · rfl
    · rfl

/-- Columns that are known are judged by the rules; that they were counted before does not show. -/
theorem resolve_of_defined (hids : ids ≠ [])
    (hmap : ids.map (fun id => catalog.get? id) = columns.map some) :
    resolve settings catalog ids = (checkAll (rules settings) columns).map (fun _ => columns) := by
  have hlength : ids.length = columns.length := by
    simpa only [List.length_map] using congrArg List.length hmap
  rw [resolve, if_neg (by simpa using hids), checkAll_rules, CapacityRule.checkCount, hlength]
  split
  · rfl
  · rw [Outcome.ok_bind, Catalog.resolve_eq_ok_iff.2 hmap, Outcome.ok_bind, checkAll_rules]
    split
    · contradiction
    · split
      · rfl
      · rfl

/-- So many columns are refused that they are not looked up. -/
theorem resolve_of_length_le (hids : ids ≠ [])
    (hcount : settings.maxColumnsPerTable.toNat ≤ ids.length) :
    resolve settings catalog ids =
      .error (.tooLarge .columnCount (Bounded.ofNatSat ids.length) settings.maxColumnsPerTable) := by
  rw [resolve, if_neg (by simpa using hids), CapacityRule.checkCount, if_pos hcount]
  rfl

/-- Otherwise a column that is not known is refused. -/
theorem exists_resolve_of_unknown (hids : ids ≠ [])
    (hcount : ids.length < settings.maxColumnsPerTable.toNat)
    (hunknown : ∃ id ∈ ids, catalog.get? id = none) :
    ∃ id, resolve settings catalog ids = .error (.unknownColumn id) := by
  obtain ⟨id, herror⟩ := Catalog.exists_error_resolve_iff.2 hunknown
  refine ⟨id, ?_⟩
  rw [resolve, if_neg (by simpa using hids), CapacityRule.checkCount_eq_ok_iff.2 hcount,
    Outcome.ok_bind, herror]
  rfl

/-- The exact width of a row lies above a ceiling if the width in 64 bits does, unless the ceiling is the
greatest number. -/
theorem lt_maxRowBytes_iff {max : UInt64} (hmax : max.toNat < Bounded.greatest) :
    max < Column.maxRowBytes columns ↔ max.toNat < Column.rowWidth columns := by
  rw [UInt64.lt_iff_toNat_lt, Column.toNat_maxRowBytes]
  omega

theorem maxRowBytes_eq_ofNatSat (columns : List Column) :
    Column.maxRowBytes columns = Bounded.ofNatSat (Column.rowWidth columns) := by
  rw [← UInt64.toNat_inj, Column.toNat_maxRowBytes, Bounded.toNat_ofNatSat]

end

/-- The verdict on a schema that names the columns `ids`: they are counted first, looked up next, and
measured at last, all of it with exact numbers. -/
structure Judged (settings : Settings) (catalog : Catalog) (ids : List ColumnId)
    (verdict : Except Error (List Column)) : Prop where
  tooMany : verdict = .error
      (.tooLarge .columnCount (Bounded.ofNatSat ids.length) settings.maxColumnsPerTable) ↔
    settings.maxColumnsPerTable.toNat ≤ ids.length
  unknown : (∃ id, verdict = .error (.unknownColumn id)) ↔
    ids.length < settings.maxColumnsPerTable.toNat ∧ ∃ id ∈ ids, catalog.get? id = none
  tooWide : ∀ bytes, verdict = .error (.tooLarge .rowBytes bytes settings.maxBytesPerRow) ↔
    ids.length < settings.maxColumnsPerTable.toNat ∧ ∃ columns,
      ids.map (fun id => catalog.get? id) = columns.map some ∧
      settings.maxBytesPerRow.toNat < Column.rowWidth columns ∧
      bytes = Bounded.ofNatSat (Column.rowWidth columns)
  accepted : ∀ columns, verdict = .ok columns ↔
    ids.length < settings.maxColumnsPerTable.toNat ∧
      ids.map (fun id => catalog.get? id) = columns.map some ∧
      Column.rowWidth columns ≤ settings.maxBytesPerRow.toNat

section

variable {settings : Settings} {catalog : Catalog} {ids : List ColumnId} {columns : List Column}

theorem judged_of_length_le (hids : ids ≠ [])
    (hcount : settings.maxColumnsPerTable.toNat ≤ ids.length) :
    Judged settings catalog ids (resolve settings catalog ids) := by
  have hnot : ¬ids.length < settings.maxColumnsPerTable.toNat := by omega
  rw [resolve_of_length_le hids hcount]
  constructor
  · simp [hcount]
  · simp [hnot]
  · simp [hnot]
  · simp [hnot]

theorem judged_of_unknown (hids : ids ≠ [])
    (hcount : ids.length < settings.maxColumnsPerTable.toNat)
    (hunknown : ∃ id ∈ ids, catalog.get? id = none) :
    Judged settings catalog ids (resolve settings catalog ids) := by
  have hnot : ∀ columns : List Column, ids.map (fun id => catalog.get? id) ≠ columns.map some :=
    fun columns hmap => Catalog.not_exists_unknown hmap hunknown
  obtain ⟨id, herror⟩ := exists_resolve_of_unknown hids hcount hunknown
  rw [herror]
  constructor
  · simp [hcount]
  · exact ⟨fun _ => ⟨hcount, hunknown⟩, fun _ => ⟨id, rfl⟩⟩
  · simp [hnot]
  · simp [hnot]

theorem judged_of_defined (hmax : settings.maxBytesPerRow.toNat < Bounded.greatest)
    (hids : ids ≠ []) (hcount : ids.length < settings.maxColumnsPerTable.toNat)
    (hmap : ids.map (fun id => catalog.get? id) = columns.map some) :
    Judged settings catalog ids (resolve settings catalog ids) := by
  have hlength : ids.length = columns.length := by
    simpa only [List.length_map] using congrArg List.length hmap
  have hknown := Catalog.not_exists_unknown hmap
  have hunique : ∀ columns' : List Column,
      ids.map (fun id => catalog.get? id) = columns'.map some ↔ columns' = columns := by
    intro columns'
    rw [hmap, List.map_inj_right (fun _ _ e => Option.some.inj e), eq_comm]
  rw [resolve_of_defined hids hmap, checkAll_rules, if_neg (by omega)]
  by_cases hwide : settings.maxBytesPerRow.toNat < Column.rowWidth columns
  · rw [if_pos ((lt_maxRowBytes_iff hmax).2 hwide), maxRowBytes_eq_ofNatSat]
    constructor
    · simp [Except.map, hcount]
    · simp [Except.map, hknown]
    · simp [Except.map, hunique, hcount, hwide, eq_comm]
    · simp [Except.map, hunique, hwide]
  · rw [if_neg (fun hlt => hwide ((lt_maxRowBytes_iff hmax).1 hlt))]
    have hroom := Nat.le_of_not_lt hwide
    constructor
    · simp [Except.map, hcount]
    · simp [Except.map, hknown]
    · simp [Except.map, hunique, hwide]
    · intro columns'
      rw [hunique]
      constructor
      · intro h
        cases h
        exact ⟨hcount, rfl, hroom⟩
      · rintro ⟨-, rfl, -⟩
        rfl

/-- **A schema is judged by the exact numbers.** -/
theorem resolve_judged (catalog : Catalog)
    (hmax : settings.maxBytesPerRow.toNat < Bounded.greatest) (hids : ids ≠ []) :
    Judged settings catalog ids (resolve settings catalog ids) := by
  rcases Nat.lt_or_ge ids.length settings.maxColumnsPerTable.toNat with hcount | hcount
  · by_cases hunknown : ∃ id ∈ ids, catalog.get? id = none
    · exact judged_of_unknown hids hcount hunknown
    · have hknown : ∀ id ∈ ids, (catalog.get? id).isSome := fun id hid =>
        Option.isSome_iff_ne_none.2 (fun hnone => hunknown ⟨id, hid, hnone⟩)
      obtain ⟨columns, -, hmap⟩ := Catalog.exists_resolve hknown
      exact judged_of_defined hmax hids hcount hmap
  · exact judged_of_length_le hids hcount

end

/-! ### Other orders, and parts -/

section

variable {settings : Settings} {catalog : Catalog} {ids : List ColumnId} {columns : List Column}

/-- The order of the columns does not matter. -/
theorem checkAll_perm {columns' : List Column} (h : columns.Perm columns') :
    checkAll (rules settings) columns = checkAll (rules settings) columns' := by
  rw [checkAll_rules, checkAll_rules, h.length_eq, Column.maxRowBytes_perm h]

theorem resolve_perm (settings : Settings) (catalog : Catalog) {ids' : List ColumnId}
    (h : ids.Perm ids') :
    Outcome.Agree List.Perm (resolve settings catalog ids) (resolve settings catalog ids') := by
  by_cases hids : ids = []
  · subst hids
    obtain rfl := h.nil_eq
    exact .ok (List.Perm.refl [])
  · have hids' : ids' ≠ [] := fun hnil => hids (hnil ▸ h).eq_nil
    rw [resolve, resolve, if_neg (by simpa using hids), if_neg (by simpa using hids'), h.length_eq]
    refine .bind _ (fun _ => (Catalog.resolve_perm h).andThen ?_)
    intro columns columns' hcolumns
    rw [checkAll_perm hcolumns]
    exact .bind _ (fun _ => .ok hcolumns)

/-- There is room for some of the columns where there is room for all of them. -/
theorem Holds.of_sublist {columns' : List Column} (h : Holds settings columns)
    (hsub : columns'.Sublist columns) : Holds settings columns' := by
  constructor
  · intro hne
    have hne' : columns ≠ [] := fun hnil => hne (List.sublist_nil.1 (hnil ▸ hsub))
    exact Nat.lt_of_le_of_lt hsub.length_le (h.count hne')
  · exact UInt64.le_trans (Column.maxRowBytes_le_of_sublist hsub) h.rowBytes

theorem exists_resolve_of_sublist {ids' : List ColumnId} (hsub : ids'.Sublist ids)
    (h : resolve settings catalog ids = .ok columns) :
    ∃ columns', resolve settings catalog ids' = .ok columns' ∧ columns'.Sublist columns := by
  obtain ⟨hmap, hholds⟩ := resolve_eq_ok_iff.1 h
  have hsome : (ids'.map (fun id => catalog.get? id)).Sublist (columns.map some) :=
    hmap ▸ hsub.map _
  obtain ⟨columns', hcolumns', hmap'⟩ := List.sublist_map_iff.1 hsome
  exact ⟨columns', resolve_eq_ok_iff.2 ⟨hmap', hholds.of_sublist hcolumns'⟩, hcolumns'⟩

end

/-- **The verdict on a schema is exact.**  Stopping on the way does not show in the width of a row.  A schema
that names columns is judged by the exact numbers, repeated columns counted as often as they are named; if
all of them are known, the verdict is that of the rules.  In another order the verdict is the same, and a
part of a schema that is accepted is accepted. -/
theorem verdict_exact (settings : Settings) (catalog : Catalog) :
    (∀ schema, (Column.maxRowBytes schema).toNat =
      min (Column.rowWidth schema) Bounded.greatest) ∧
    (settings.maxBytesPerRow.toNat < Bounded.greatest → ∀ ids, ids ≠ [] →
      Judged settings catalog ids (resolve settings catalog ids)) ∧
    (∀ ids columns, ids ≠ [] → ids.map (fun id => catalog.get? id) = columns.map some →
      resolve settings catalog ids =
        (checkAll (rules settings) columns).map (fun _ => columns)) ∧
    (∀ ids ids', ids.Perm ids' →
      Outcome.Agree List.Perm (resolve settings catalog ids) (resolve settings catalog ids')) ∧
    ∀ ids ids' columns, ids'.Sublist ids → resolve settings catalog ids = .ok columns →
      ∃ columns', resolve settings catalog ids' = .ok columns' ∧ columns'.Sublist columns :=
  ⟨Column.toNat_maxRowBytes, fun hmax _ hids => resolve_judged catalog hmax hids,
    fun _ _ hids hmap => resolve_of_defined hids hmap,
    fun _ _ h => resolve_perm settings catalog h,
    fun _ _ _ hsub h => exists_resolve_of_sublist hsub h⟩

end Capacity

namespace Sample

/-- A column of texts of any length: four times its bound does not fit into 64 bits. -/
def vast : Column := ⟨⟨"v"⟩, { name := "v", type := .string, maxSize := some 0xFFFFFFFFFFFFFFFF }⟩

def spacious : Settings := { maxBytesPerRow := 0xFFFFFFFFFFFFFFFE }

end Sample

namespace Capacity

/-- A column that is named twice is too wide, although its width in 64 bits has stopped long before. -/
theorem verdict_exact_vast_column :
    Sample.spacious.maxBytesPerRow.toNat < Bounded.greatest ∧
      resolve Sample.spacious (Catalog.add ∅ Sample.vast) [Sample.vast.id, Sample.vast.id] =
        .error (.tooLarge .rowBytes 0xFFFFFFFFFFFFFFFF 0xFFFFFFFFFFFFFFFE) := by
  have hmax : Sample.spacious.maxBytesPerRow.toNat < Bounded.greatest := by decide
  have hjudged := (verdict_exact Sample.spacious (Catalog.add ∅ Sample.vast)).2.1 hmax
    [Sample.vast.id, Sample.vast.id] (by decide)
  exact ⟨hmax, (hjudged.tooWide _).2 ⟨by decide, [Sample.vast, Sample.vast], rfl, by decide, rfl⟩⟩

end Capacity

end VersionedTables
