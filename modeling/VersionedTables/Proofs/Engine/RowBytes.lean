import VersionedTables.Proofs.Column.Cells
import VersionedTables.Proofs.Engine.Schemas

/-!
# How many bytes a row takes

A table is bound to a schema only if its rows keep the ceiling of the settings, and this is reckoned with
the widths of columns.  Rows of plain values keep the ceiling; others are committed all the same, and may
take more bytes than any row is to take.

* **`Engine.acceptable_of_append`** — under which schema a row set was committed.
* **`Engine.plain_rows_keep_width`** — what is allowed and plain keeps the widths and the ceiling.
* **`Engine.not_values_keep_width`** — what is allowed need not.
-/

namespace VersionedTables

namespace Engine

variable {e : Engine}

/-- A row set that is not refused was acceptable under the schema of the table. -/
theorem acceptable_of_append (hl : e.ledger.Sound e.initial) {millis : UInt64} {caller : Caller}
    {table : TableId} {delta : RowSet} {references : RowReferences}
    (h : (e.append millis caller table delta).1 = .ok references) :
    ∃ schema columns, Schema.columns e.catalog e.bindings table = .ok schema ∧
      delta.Acceptable table schema (e.counter table).lastRowId columns := by
  unfold append at h
  split at h
  · cases h
  · next schema hschema =>
      obtain ⟨⟨⟩, -, hcolumns⟩ := Outcome.bind_eq_ok_iff.1 hschema
      unfold appendUnder at h
      split at h
      · cases h
      · rcases Ledger.append_cases hl caller.userId millis table schema delta with
          ⟨error, -, herror⟩ | ⟨columns, hs, -⟩
        · rw [herror] at h
          cases h
        · exact ⟨schema, columns, hcolumns, hs⟩

/-- The columns of a table have a size bound where their type is sized. -/
theorem KeepsSchemas.sized (he : e.KeepsSchemas) {ids : List ColumnId} {columns : List Column}
    (h : ids.map (fun id => e.catalog.get? id) = columns.map some) :
    ∀ c ∈ columns, c.spec.Sized := by
  intro c hc
  obtain ⟨id, -, hget⟩ := Outcome.exists_of_mem_of_map_eq_some h hc
  obtain ⟨spec, hspec⟩ := he.defined id c hget
  exact ColumnSpec.sized_of_define hspec

/-- Where bytes keep a width, they keep it in 64 bits. -/
theorem ofNatSat_le {n width : Nat} {bound : UInt64} (h : n ≤ width)
    (hbound : bound.toNat = min width Bounded.greatest) : Bounded.ofNatSat n ≤ bound := by
  rw [UInt64.le_iff_toNat_le, Bounded.toNat_ofNatSat, hbound]
  omega

/-- **What is allowed and plain keeps the widths and the ceiling**, whatever the settings.  A defined
column allows in its cells no plain value that takes more bytes than the width of the column, if it is
kept in the row.  A row of plain values that is committed to a table takes no more bytes in the row than
the width of the schema of the table, which is at most what the settings say. -/
theorem plain_rows_keep_width (settings : Settings) :
    (∀ spec column value, ColumnSpec.define settings spec = .ok column →
      column.spec.type ≠ .largeText → column.spec.checkCell (some value) = .ok () →
      column.spec.type.Plain value →
      value.utf8ByteSize ≤ column.spec.width ∧
        Bounded.ofNatSat value.utf8ByteSize ≤ column.spec.maxBytes) ∧
    ∀ e : Engine, e.Reachable → e.settings = settings → ∀ millis caller table delta references,
      (e.append millis caller table delta).1 = .ok references →
      ∃ schema columns, Schema.columns e.catalog e.bindings table = .ok schema ∧
        delta.headers.map (fun h => schema.find? (·.id = h)) = columns.map some ∧
        Column.maxRowBytes schema ≤ settings.maxBytesPerRow ∧
        ∀ r ∈ delta.rows, Column.PlainRow columns r.values →
          Column.rowBytes columns r.values ≤ Column.rowWidth schema ∧
            Bounded.ofNatSat (Column.rowBytes columns r.values) ≤ Column.maxRowBytes schema := by
  refine ⟨?_, ?_⟩
  · intro spec column value hdefine hinline hcell hplain
    have hbytes := ColumnSpec.bytes_le_width (ColumnSpec.sized_of_define hdefine) hcell hplain hinline
    exact ⟨hbytes, ofNatSat_le hbytes (ColumnType.toNat_maxBytes _ _)⟩
  · intro e h hsettings millis caller table delta references hok
    subst hsettings
    obtain ⟨schema, columns, hschema, hs⟩ := acceptable_of_append h.sound hok
    obtain ⟨schema', hlegal⟩ := h.keepsSchemas.legal table
    have hsame : schema' = schema := by
      have hresolve := (Catalog.resolve_eq_ok_iff.2 hlegal.defined).symm.trans hschema
      exact Except.ok.inj hresolve
    subst hsame
    refine ⟨schema', columns, hschema, hs.named, hlegal.room.rowBytes, ?_⟩
    intro r hr hplain
    obtain ⟨hnodup, hsub⟩ := hs.columns
    have hsized := h.keepsSchemas.sized hlegal.defined
    have hbytes : Column.rowBytes columns r.values ≤ Column.rowWidth columns := by
      refine Column.rowBytes_le_rowWidth (fun c hc => hsized c (hsub hc)) ?_ hplain
      rcases hs.rows r hr with hdelete | hfits
      · rw [(Row.isDeletion_iff.1 hdelete).2, List.zip_nil_right]
        exact nofun
      · exact hfits.cells
    have hwidth := hbytes.trans (Column.rowWidth_le_of_subset hnodup hsub)
    exact ⟨hwidth, ofNatSat_le hwidth (Column.toNat_maxRowBytes _)⟩

end Engine

namespace Sample

/-- An engine of which a row takes at most twenty bytes, with a table of numbers. -/
def tight : Engine :=
  (Engine.run { settings := { maxBytesPerRow := 20 } }
    [arrange .unbound (.createColumn number), arrange ⟨⟨1⟩⟩ (.bind table [number.id] none)]).2

def least : String := "-9223372036854775808"

end Sample

namespace Engine

/-- The least number fills a row of numbers. -/
theorem plain_rows_keep_width_least_number :
    ColumnSpec.define {} Sample.number = .ok Sample.numbers ∧
      Sample.number.checkCell (some Sample.least) = .ok () ∧
      Sample.number.type.Plain Sample.least ∧
      Sample.least.utf8ByteSize ≤ Sample.number.width ∧
      Sample.tight.Reachable ∧
      (Sample.tight.append 0 (.administrator 1) Sample.table
        ⟨Sample.table, [Sample.number.id], [.new [some Sample.least]]⟩).1 =
          .ok ⟨Sample.table, 1, [Sample.number.id], [1]⟩ ∧
      Column.PlainRow [Sample.numbers] [some Sample.least] ∧
      Column.rowBytes [Sample.numbers] [some Sample.least] ≤ Column.rowWidth [Sample.numbers] := by
  have hdefine : ColumnSpec.define {} Sample.number = .ok Sample.numbers := rfl
  have hcell : Sample.number.checkCell (some Sample.least) = .ok () := by decide
  have hplain : Sample.number.type.Plain Sample.least := ⟨rfl, by decide⟩
  have hrow : Column.PlainRow [Sample.numbers] [some Sample.least] := by
    intro c hc value hvalue
    rw [List.mem_singleton.1 hc] at hvalue ⊢
    cases hvalue
    exact hplain
  have hreach : Sample.tight.Reachable := .run (.start _ _) _
  have happend : (Sample.tight.append 0 (.administrator 1) Sample.table
      ⟨Sample.table, [Sample.number.id], [.new [some Sample.least]]⟩).1 =
        .ok ⟨Sample.table, 1, [Sample.number.id], [1]⟩ := by
    decide +kernel
  have hschema : Schema.columns Sample.tight.catalog Sample.tight.bindings Sample.table =
      .ok [Sample.numbers] := by
    decide +kernel
  have hbytes :=
    ((plain_rows_keep_width {}).1 Sample.number Sample.numbers Sample.least hdefine nofun hcell hplain).1
  obtain ⟨schema, columns, hschema', hnamed, -, hwidth⟩ :=
    (plain_rows_keep_width Sample.tight.settings).2 _ hreach rfl _ _ _ _ _ happend
  cases hschema'.symm.trans hschema
  have hfind : [Sample.number.id].map (fun h => [Sample.numbers].find? (·.id = h)) =
      [Sample.numbers].map some := by
    simp [Sample.numbers]
  have hcolumns : columns = [Sample.numbers] :=
    (List.map_inj_right (fun _ _ he => Option.some.inj he)).1 (hnamed.symm.trans hfind)
  subst hcolumns
  exact ⟨hdefine, hcell, hplain, hbytes, hreach, happend, hrow,
    (hwidth _ (List.mem_singleton_self _) hrow).1⟩

/-- A number with twenty spaces in front takes more bytes than a cell of the column is to take. -/
theorem not_values_keep_width :
    ¬∀ settings spec column value, ColumnSpec.define settings spec = .ok column →
      column.spec.type ≠ .largeText → column.spec.checkCell (some value) = .ok () →
      value.utf8ByteSize ≤ column.spec.maxBytes.toNat := by
  intro hall
  have hbytes := hall {} Sample.number ⟨Sample.number.id, Sample.number⟩ "                    5"
    rfl nofun (by decide)
  revert hbytes
  decide

end Engine

end VersionedTables
