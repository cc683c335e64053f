import VersionedTables.Proofs.Column.Width
import VersionedTables.Proofs.Schema.Columns

/-!
# Legal schemas

A schema is legal when it names no column twice, when all its columns are in the catalog, and when a
table has room for them.  To bind a schema is to check just that, and the expected stamp; a legal schema
stays legal as long as the catalog only grows.

* **`Capacity.Holds`**, **`Capacity.resolve_eq_ok_iff`** — the room that a table has.
* **`Schema.Legal`** — what is checked of a schema.
* **`Schema.bind_eq_ok_iff`**, **`Schema.applyChanges_eq_ok_iff`** — what binding and changing do.
-/

namespace VersionedTables

/-! ### Capacity -/

structure Capacity.Holds (settings : Settings) (columns : List Column) : Prop where
  /-- There are fewer columns than the settings say, if there are any. -/
  count : columns ≠ [] → columns.length < settings.maxColumnsPerTable.toNat
  rowBytes : Column.maxRowBytes columns ≤ settings.maxBytesPerRow

/-- Where the ceiling is not the greatest number, the exact width of a row keeps below it. -/
theorem Capacity.Holds.rowWidth_le {settings : Settings} {columns : List Column}
    (h : Capacity.Holds settings columns)
    (hmax : settings.maxBytesPerRow.toNat < Bounded.greatest) :
    Column.rowWidth columns ≤ settings.maxBytesPerRow.toNat := by
  have hbytes := UInt64.le_iff_toNat_le.1 h.rowBytes
  rw [Column.toNat_maxRowBytes] at hbytes
  omega

theorem CapacityRule.checkCount_eq_ok_iff {max : UInt64} {count : Nat} :
    checkCount max count = .ok () ↔ count < max.toNat := by
  unfold checkCount
  split
  · next h => simpa using h
  · next h => simpa using h

theorem CapacityRule.check_bytesAtMost_eq_ok_iff {max : UInt64} {columns : List Column} :
    check columns (.bytesAtMost max) = .ok () ↔ Column.maxRowBytes columns ≤ max := by
  show (if max < Column.maxRowBytes columns then _ else _) = _ ↔ _
  split
  · next h => simpa using h
  · next h => simpa using h

/-- **A schema is resolved if and only if its columns are defined and there is room for them.** -/
theorem Capacity.resolve_eq_ok_iff {settings : Settings} {catalog : Catalog}
    {ids : List ColumnId} {columns : List Column} :
    resolve settings catalog ids = .ok columns ↔
      ids.map (fun id => catalog.get? id) = columns.map some ∧ Holds settings columns := by
  unfold resolve
  by_cases hids : ids = []
  · subst hids
    rw [List.isEmpty_nil, if_pos rfl]
    constructor
    · intro h
      cases h
      exact ⟨rfl, fun hne => absurd rfl hne, UInt64.le_iff_toNat_le.2 (Nat.zero_le _)⟩
    · intro h
      rw [List.map_eq_nil_iff.1 h.1.symm]
  · rw [if_neg (by simpa using hids)]
    constructor
    · intro h
      obtain ⟨⟨⟩, hcount, h⟩ := Outcome.bind_eq_ok_iff.1 h
      obtain ⟨schema, hresolve, h⟩ := Outcome.bind_eq_ok_iff.1 h
      obtain ⟨⟨⟩, hrules, h⟩ := Outcome.bind_eq_ok_iff.1 h
      cases h
      have hmap := Catalog.resolve_eq_ok_iff.1 hresolve
      have hlen := congrArg List.length hmap
      rw [List.length_map, List.length_map] at hlen
      have hrules := Outcome.forM_eq_ok_iff.1 hrules
      refine ⟨hmap, fun _ => ?_, ?_⟩
      · rw [← hlen]
        exact CapacityRule.checkCount_eq_ok_iff.1 hcount
      · exact CapacityRule.check_bytesAtMost_eq_ok_iff.1 (hrules _ (by simp [rules]))
    · intro h
      obtain ⟨hmap, hholds⟩ := h
      have hlen := congrArg List.length hmap
      rw [List.length_map, List.length_map] at hlen
      have hne : columns ≠ [] := by
        intro hnil
        rw [hnil, List.length_nil] at hlen
        exact hids (List.eq_nil_of_length_eq_zero hlen)
      have hcount := CapacityRule.checkCount_eq_ok_iff.2 (hholds.count hne)
      have hrules : checkAll (rules settings) columns = .ok () := by
        refine Outcome.forM_eq_ok_iff.2 ?_
        intro rule hrule
        rcases List.mem_cons.1 hrule with rfl | hrule
        · exact hcount
        · rw [List.mem_singleton.1 hrule]
          exact CapacityRule.check_bytesAtMost_eq_ok_iff.2 hholds.rowBytes
      rw [hlen, hcount, Outcome.ok_bind, Catalog.resolve_eq_ok_iff.2 hmap, Outcome.ok_bind, hrules]
      rfl

/-! ### Binding -/

namespace Schema

/-- A schema that a table may have, with its columns. -/
structure Legal (settings : Settings) (catalog : Catalog) (ids : List ColumnId)
    (columns : List Column) : Prop where
  distinct : ids.Nodup
  defined : ids.map (fun id => catalog.get? id) = columns.map some
  room : Capacity.Holds settings columns

theorem Legal.of_extends {settings : Settings} {catalog catalog' : Catalog} {ids : List ColumnId}
    {columns : List Column} (h : Legal settings catalog ids columns)
    (hc : catalog'.Extends catalog) : Legal settings catalog' ids columns :=
  ⟨h.distinct, hc.map_get? h.defined, h.room⟩

/-- A table without columns has a legal schema. -/
theorem legal_nil (settings : Settings) (catalog : Catalog) : Legal settings catalog [] [] :=
  ⟨List.nodup_nil, rfl, fun hne => absurd rfl hne, UInt64.le_iff_toNat_le.2 (Nat.zero_le _)⟩

theorem checkDistinct_eq_ok_iff {ids : List ColumnId} : checkDistinct ids = .ok () ↔ ids.Nodup := by
  unfold checkDistinct
  rw [← Repeats.first?_eq_none_iff]
  cases Repeats.first? ids with
  | some id => simp
  | none => simp

end Schema

namespace Bindings

/-- The stamp that is expected of a table, if any is, is the one that it has. -/
def Expects (b : Bindings) (table : TableId) (expected : Option Etag) : Prop :=
  ∀ etag ∈ expected, etag = (b.current table).etag

theorem checkEtag_eq_ok_iff {b : Bindings} {table : TableId} {expected : Option Etag} :
    b.checkEtag table expected = .ok () ↔ b.Expects table expected := by
  unfold checkEtag Expects
  cases expected with
  | none => simp
  | some etag =>
      simp only [Option.mem_some_iff, forall_eq']
      split
      · next h => simp [h]
      · next h => simp [h]

/-- The bindings when a table has got a new schema under the stamp `fresh`. -/
def revised (b : Bindings) (fresh : Etag) (table : TableId) (ids : List ColumnId) : Bindings :=
  b.insert table
    ⟨⟨table, ids, fresh⟩, ids.foldl (fun s id => s.insert id ()) (b.everBound table)⟩

/-- The table has the new schema, and all other tables have what they had. -/
theorem current_revised (b : Bindings) (fresh : Etag) (table t : TableId) (ids : List ColumnId) :
    Bindings.current (b.revised fresh table ids) t =
      if t = table then ⟨table, ids, fresh⟩ else b.current t := current_insert b table t _

end Bindings

namespace Schema

variable {settings : Settings} {catalog : Catalog} {fresh : Etag} {bindings bindings' : Bindings}
  {table : TableId} {ids : List ColumnId} {expected : Option Etag} {changed : Bool}

/-- **What it is to bind a schema**: it has to be legal and the stamp has to be the expected one; then
the bindings stay as they are if the table has the schema already, and else it gets the schema and the
stamp `fresh`. -/
theorem bind_eq_ok_iff :
    bind settings catalog fresh bindings table ids expected = .ok (changed, bindings') ↔
      ((∃ columns, Legal settings catalog ids columns) ∧ bindings.Expects table expected) ∧
        if (bindings.current table).columns = ids then changed = false ∧ bindings' = bindings
        else changed = true ∧ bindings' = bindings.revised fresh table ids := by
  have hcheck : bindings.checkEtag table expected = .ok () ↔ bindings.Expects table expected :=
    Bindings.checkEtag_eq_ok_iff
  unfold bind
  constructor
  · intro h
    obtain ⟨⟨⟩, hdistinct, h⟩ := Outcome.bind_eq_ok_iff.1 h
    obtain ⟨columns, hresolve, h⟩ := Outcome.bind_eq_ok_iff.1 h
    obtain ⟨⟨⟩, hetag, h⟩ := Outcome.bind_eq_ok_iff.1 h
    obtain ⟨hdefined, hroom⟩ := Capacity.resolve_eq_ok_iff.1 hresolve
    refine ⟨⟨⟨columns, checkDistinct_eq_ok_iff.1 hdistinct, hdefined, hroom⟩, hcheck.1 hetag⟩, ?_⟩
    split
    · next hsame =>
        rw [if_pos hsame] at h
        cases h
        exact ⟨rfl, rfl⟩
    · next hnew =>
        rw [if_neg hnew, Bindings.replace, hetag] at h
        cases h
        exact ⟨rfl, rfl⟩
  · intro h
    obtain ⟨⟨⟨columns, hlegal⟩, hexpects⟩, h⟩ := h
    have hetag := hcheck.2 hexpects
    rw [checkDistinct_eq_ok_iff.2 hlegal.distinct, Outcome.ok_bind,
      Capacity.resolve_eq_ok_iff.2 ⟨hlegal.defined, hlegal.room⟩, Outcome.ok_bind, hetag,
      Outcome.ok_bind]
    split
    · next hsame =>
        rw [if_pos hsame] at h
        obtain ⟨rfl, rfl⟩ := h
        rfl
    · next hnew =>
        rw [if_neg hnew] at h
        obtain ⟨rfl, rfl⟩ := h
        rw [Bindings.replace, hetag]
        rfl

/-- **What it is to change a schema**: the changes are applied to the schema that the table has, and
what they make of it is bound. -/
theorem applyChanges_eq_ok_iff {changes : List SchemaChange} {binding : Binding} :
    applyChanges settings catalog fresh bindings table changes expected = .ok (binding, bindings') ↔
      bindings.Expects table expected ∧ ∃ ids changed,
        SchemaChange.applyAll (bindings.current table).columns changes = .ok ids ∧
        bind settings catalog fresh bindings table ids (some (bindings.current table).etag) =
          .ok (changed, bindings') ∧
        binding = bindings'.current table := by
  unfold applyChanges
  constructor
  · intro h
    obtain ⟨⟨⟩, hetag, h⟩ := Outcome.bind_eq_ok_iff.1 h
    obtain ⟨ids, happly, h⟩ := Outcome.bind_eq_ok_iff.1 h
    obtain ⟨⟨changed, bs⟩, hbind, h⟩ := Outcome.bind_eq_ok_iff.1 h
    cases h
    exact ⟨Bindings.checkEtag_eq_ok_iff.1 hetag, ids, changed, happly, hbind, rfl⟩
  · intro h
    obtain ⟨hexpects, ids, changed, happly, hbind, rfl⟩ := h
    rw [Bindings.checkEtag_eq_ok_iff.2 hexpects, Outcome.ok_bind]
    show (SchemaChange.applyAll (bindings.current table).columns changes >>= _) = _
    rw [happly, Outcome.ok_bind, hbind]
    rfl

end Schema

end VersionedTables
