import VersionedTables.Proofs.CommandLine.Replay
import VersionedTables.Proofs.Engine.Schemas

/-!
# A schema checked on the command line

The command line defines the columns of a file in an engine that holds nothing, and tells whether there
is room for them in a table.  What it prints is read back as the report, so that nobody takes one report
for another.  To bind a table to the columns takes one thing more: the command does not look whether two of
them are the same column, as two specifications with one normal form are.

* **`SchemaReport.Concerns`** — what a report says of columns.
* **`CommandLine.run_checkSchema`** — the command line prints the report.
* **`CommandLine.ok_of_iff`** — when it says that the columns are ok.
* **`CommandLine.checkSchema_predicts`** — what the report says about binding.
-/

namespace VersionedTables

instance : SolidFormat SchemaReport where
  canonical r := Json.canonical_record_zip (by simp [canonical])
  read?_write r := Json.read_record_zip (by decide) rfl (by simp)
  write_ne_null _ h := by cases h

/-- A report is one on these columns. -/
structure SchemaReport.Concerns (r : SchemaReport) (columns : List Column) : Prop where
  count : r.columns = columns.length
  ids : r.columnIds = columns.map (·.id)
  bytes : r.maxRowBytes = Column.maxRowBytes columns
  ok_iff : r.ok = true ↔ r.error = none

namespace CommandLine

variable {files : Files} {config : Option String} {path : String} {settings : Settings}
  {specs : List ColumnSpec} {columns : List Column} {e : Engine}

/-- The command line prints the report on the columns that it defines. -/
theorem run_checkSchema (hsettings : readSettings files config = .ok settings)
    (hspecs : readFile files path = .ok specs)
    (hcreate : Engine.createColumns { settings, authority := { permissive := true } }
      (.administrator 0) specs = .ok (columns, e))
    {arguments : List String}
    (hread : Invocation.read? arguments = some (.command config (.checkSchema path))) :
    Prints files arguments
      (printed (JsonFormat.write (SchemaReport.of columns (e.checkSchema (columns.map (·.id)))))) := by
  refine prints_of_run ?_
  rw [run, hread]
  show (readSettings files config >>= fun settings =>
    checkSchema { settings, authority := { permissive := true } } files path) = _
  rw [hsettings, Outcome.ok_bind, checkSchema, hspecs, Outcome.ok_bind, hcreate]
  rfl

theorem concerns_of (columns : List Column) (outcome : Except Error (List Column)) :
    (SchemaReport.of columns outcome).Concerns columns where
  count := rfl
  ids := rfl
  bytes := rfl
  ok_iff := by
    cases outcome with
    | ok found => exact iff_of_true rfl rfl
    | error error => exact iff_of_false Bool.false_ne_true (Option.some_ne_none _)

/-- The columns are ok exactly if a table has room for them. -/
theorem ok_of_iff (settings : Settings) (catalog : Catalog) (columns : List Column) :
    (SchemaReport.of columns (Capacity.resolve settings catalog (columns.map (·.id)))).ok = true ↔
      ∃ found, (columns.map (·.id)).map (fun id => catalog.get? id) = found.map some ∧
        Capacity.Holds settings found := by
  simp only [← Capacity.resolve_eq_ok_iff]
  cases Capacity.resolve settings catalog (columns.map (·.id)) with
  | ok found => exact iff_of_true rfl ⟨found, rfl⟩
  | error error =>
      refine iff_of_false Bool.false_ne_true ?_
      rintro ⟨found, hfound⟩
      cases hfound

/-- **What the command line says of columns.**  It prints a report, which is read back from the text.  The
columns are ok, without an error, exactly if there is room for the columns that stand under their names.  No
table of the engine has a schema yet, and any of them can be bound to the columns exactly if these are ok and
no two of them have one name; then the bytes that are told are the most that a row of the schema takes, as
far as 64 bits go. -/
theorem checkSchema_predicts (hsettings : readSettings files config = .ok settings)
    (hspecs : readFile files path = .ok specs)
    (hcreate : Engine.createColumns { settings, authority := { permissive := true } }
      (.administrator 0) specs = .ok (columns, e)) :
    ∃ report : SchemaReport, report.Concerns columns ∧
      JsonFormat.decode? (printed (JsonFormat.write report)) = some report ∧
      (∀ outer given, Flag.config.Written config outer → Flag.columns.Written (some path) given →
        Prints files (outer ++ "check-schema" :: given) (printed (JsonFormat.write report))) ∧
      (∀ arguments, Invocation.read? arguments = some (.command config (.checkSchema path)) →
        Prints files arguments (printed (JsonFormat.write report))) ∧
      (report.ok = true ↔ ∃ found,
        (columns.map (·.id)).map (fun id => e.catalog.get? id) = found.map some ∧
          Capacity.Holds settings found) ∧
      e.bindings = ∅ ∧ ∀ caller table fresh, e.authority.allows caller table .update = true →
        ((∃ changed e', e.bind fresh caller table (columns.map (·.id)) none = .ok (changed, e')) ↔
          report.ok = true ∧ (columns.map (·.id)).Nodup) ∧
        ∀ changed e', e.bind fresh caller table (columns.map (·.id)) none = .ok (changed, e') →
          Schema.columns e'.catalog e'.bindings table = .ok columns ∧
            report.maxRowBytes.toNat = min (Column.rowWidth columns) Bounded.greatest := by
  have he := (Engine.createColumns_eq_ok hcreate).2
  have hsame : e.settings = settings := by rw [he]
  have hok : (SchemaReport.of columns (e.checkSchema (columns.map (·.id)))).ok = true ↔ ∃ found,
      (columns.map (·.id)).map (fun id => e.catalog.get? id) = found.map some ∧
        Capacity.Holds settings found := by
    rw [Engine.checkSchema, hsame]
    exact ok_of_iff settings e.catalog columns
  refine ⟨_, concerns_of columns _, decode?_printed _, ?_,
    fun arguments => run_checkSchema hsettings hspecs hcreate, hok, by rw [he], ?_⟩
  · intro outer given hconfig hcolumns
    exact run_checkSchema hsettings hspecs hcreate (Invocation.read?_checkSchema hconfig hcolumns)
  · intro caller table fresh haccess
    have hlegal : (∃ changed e', e.bind fresh caller table (columns.map (·.id)) none =
        .ok (changed, e')) ↔ ∃ found, Schema.Legal e.settings e.catalog (columns.map (·.id)) found :=
      Engine.exists_bind_iff haccess
    refine ⟨?_, ?_⟩
    · rw [hlegal, hok]
      constructor
      · intro h
        obtain ⟨found, hfound⟩ := h
        exact ⟨⟨found, hfound.defined, hsame ▸ hfound.room⟩, hfound.distinct⟩
      · intro h
        obtain ⟨⟨found, hdefined, hroom⟩, hdistinct⟩ := h
        exact ⟨found, hdistinct, hdefined, hsame ▸ hroom⟩
    · intro changed e' hbind
      obtain ⟨found, hfound⟩ := hlegal.1 ⟨changed, e', hbind⟩
      have hcatalog : (columns.map (·.id)).map (fun id => e.catalog.get? id) = columns.map some := by
        rw [he]
        exact Catalog.map_get?_foldl_add hfound.distinct
      exact ⟨Engine.columns_of_bind hcatalog hbind, Column.toNat_maxRowBytes columns⟩

end CommandLine

namespace Sample

def columnFile (specs : List ColumnSpec) (path : String) : Option String :=
  if path = "columns.json" then some (JsonFormat.encode specs) else none

def defined (columns : List Column) : Engine :=
  { authority := { permissive := true }, catalog := columns.foldl Catalog.add ∅ }

/-- What is printed of a column of numbers. -/
def numbersReport : String := "\x7b
  \"columns\": 1,
  \"column_ids\": [
    \"40c5de8de95cb976f60808a45a2eadea9e0473d32acba60bba0dca220dd3f492\"
  ],
  \"max_row_bytes\": 20,
  \"ok\": true,
  \"error\": null
\x7d
"

end Sample

namespace CommandLine

theorem readFile_columnFile (specs : List ColumnSpec) :
    readFile (Sample.columnFile specs) "columns.json" = .ok specs := readFile_encode rfl

/-- A column of numbers is ok, and a table is bound to it. -/
theorem checkSchema_predicts_one_column :
    readSettings (Sample.columnFile [Sample.number]) none = .ok {} ∧
      readFile (Sample.columnFile [Sample.number]) "columns.json" = .ok [Sample.number] ∧
      Engine.createColumns { authority := { permissive := true } } (.administrator 0)
        [Sample.number] = .ok ([Sample.numbers], Sample.defined [Sample.numbers]) ∧
      Prints (Sample.columnFile [Sample.number]) ["check-schema", "--columns", "columns.json"]
        Sample.numbersReport ∧
      JsonFormat.decode? Sample.numbersReport =
        some (⟨1, [Sample.numbers.id], 20, true, none⟩ : SchemaReport) ∧
      ∃ changed e', (Sample.defined [Sample.numbers]).bind ⟨⟨1⟩⟩ (.administrator 0) Sample.table
        [Sample.numbers.id] none = .ok (changed, e') := by
  have hsettings : readSettings (Sample.columnFile [Sample.number]) none = .ok {} := rfl
  have hcreate : Engine.createColumns { authority := { permissive := true } } (.administrator 0)
      [Sample.number] = .ok ([Sample.numbers], Sample.defined [Sample.numbers]) := rfl
  obtain ⟨report, hreport, hdecode, hprints, -, hok, -, hbind⟩ :=
    checkSchema_predicts hsettings (readFile_columnFile _) hcreate
  have hdistinct : ([Sample.numbers].map (·.id)).Nodup := List.nodup_singleton _
  have htrue : report.ok = true := hok.2
    ⟨[Sample.numbers], Catalog.map_get?_foldl_add hdistinct, fun _ => by decide, by decide⟩
  have hfields : report = ⟨1, [Sample.numbers.id], 20, true, none⟩ := by
    obtain ⟨count, ids, bytes, ok, error⟩ := report
    obtain ⟨rfl, rfl, rfl, hnone⟩ := hreport
    obtain rfl : ok = true := htrue
    obtain rfl : error = none := hnone.1 rfl
    rfl
  have htext : printed (JsonFormat.write report) = Sample.numbersReport := by
    rw [hfields]
    decide +kernel
  have hprinted := hprints [] ["--columns", "columns.json"] .absent (.apart (by decide))
  rw [htext] at hdecode hprinted
  exact ⟨hsettings, readFile_columnFile _, hcreate, hprinted, hfields ▸ hdecode,
    (hbind (.administrator 0) Sample.table ⟨⟨1⟩⟩ rfl).1.2 ⟨htrue, hdistinct⟩⟩

/-- The same column twice is ok, and no table is bound to it. -/
theorem not_checkSchema_predicts :
    ¬∀ (files : Files) (config : Option String) (path : String) (settings : Settings)
      (specs : List ColumnSpec) (columns : List Column) (e : Engine) (arguments : List String)
      (text : String) (report : SchemaReport) (caller : Caller) (table : TableId) (fresh : Etag),
      readSettings files config = .ok settings → readFile files path = .ok specs →
      Engine.createColumns { settings, authority := { permissive := true } } (.administrator 0)
        specs = .ok (columns, e) →
      Invocation.read? arguments = some (.command config (.checkSchema path)) →
      Prints files arguments text → JsonFormat.decode? text = some report →
      e.authority.allows caller table .update = true →
      (report.ok = true ↔
        ∃ changed e', e.bind fresh caller table (columns.map (·.id)) none = .ok (changed, e')) := by
  intro hall
  have hcreate : Engine.createColumns { authority := { permissive := true } } (.administrator 0)
      [Sample.number, Sample.number] = .ok ([Sample.numbers, Sample.numbers],
        Sample.defined [Sample.numbers, Sample.numbers]) := rfl
  have hread := Invocation.read?_checkSchema .absent
    (.apart (show Argument.isValue "columns.json" = true by decide))
  have hdefined : [Sample.numbers.id, Sample.numbers.id].map
      (fun id => (Sample.defined [Sample.numbers, Sample.numbers]).catalog.get? id) =
        [Sample.numbers, Sample.numbers].map some := by
    simp [Sample.defined, Catalog.get?_add]
  have hsettings : readSettings (Sample.columnFile [Sample.number, Sample.number]) none = .ok {} :=
    rfl
  have hprints := run_checkSchema hsettings (readFile_columnFile _) hcreate hread
  have hok := (ok_of_iff {} (Sample.defined [Sample.numbers, Sample.numbers]).catalog
    [Sample.numbers, Sample.numbers]).2 ⟨_, hdefined, fun _ => by decide, by decide⟩
  have hbind := (hall _ _ _ _ _ _ _ _ _ _ (.administrator 0) Sample.table ⟨⟨1⟩⟩ hsettings
    (readFile_columnFile _) hcreate hread hprints (decode?_printed _) rfl).1 hok
  obtain ⟨columns, hlegal⟩ := (Engine.exists_bind_iff rfl).1 hbind
  exact absurd hlegal.distinct (by simp)

end CommandLine

end VersionedTables
