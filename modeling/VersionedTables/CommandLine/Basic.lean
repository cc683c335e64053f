import VersionedTables.CommandLine.Arguments
import VersionedTables.Engine.Basic

/-!
# The command line

Two commands work on files alone: one tells whether a table can have a list of columns, the other
shows what a backup holds. Each works on an engine of its own that holds nothing yet.

* **`CommandLine.run`** — the text that a command line prints, or why there is none.
* **`CommandFailure`** — why there is none.
* **`SchemaReport`** — what is told of a list of columns.
-/

namespace VersionedTables

/-- Why a command prints nothing. -/
inductive CommandFailure where
  | usage
  /-- A file cannot be read, or its text is not what it should be. -/
  | input (path : String)
  | refused (e : Error)
  | noChunks (path : String)
deriving DecidableEq

namespace CommandFailure

def exitCode : CommandFailure → UInt32
  | usage => 2
  | _ => 1

def message : CommandFailure → String
  | usage => "the arguments cannot be understood; for more information, try '--help'"
  | input path => s!"{path} cannot be read"
  | refused e => e.message
  | noChunks path => s!"backup {path} contains no chunks"

end CommandFailure

namespace HelpTopic

def lines : HelpTopic → List String
  | program =>
      ["Offline tools for tabula schemas and row history",
       "",
       "Usage: tabula [OPTIONS] <COMMAND>",
       "",
       "Commands:",
       "  check-schema  Check whether a list of columns fits in one table",
       "  replay        Rebuild table content from an exported backup",
       "  help          Print this message or the help of the given subcommand(s)",
       "",
       "Options:",
       "      --config <CONFIG>  Path to engine config JSON",
       "  -h, --help             Print help"]
  | checkSchema =>
      ["Check whether a list of columns fits in one table",
       "",
       "Usage: tabula check-schema [OPTIONS] --columns <COLUMNS>",
       "",
       "Options:",
       "      --columns <COLUMNS>  Path to a JSON array of column definitions",
       "      --config <CONFIG>    Path to engine config JSON",
       "  -h, --help               Print help"]
  | replay =>
      ["Rebuild table content from an exported backup",
       "",
       "Usage: tabula replay [OPTIONS] --backup <BACKUP>",
       "",
       "Options:",
       "      --backup <BACKUP>    Path to a JSON array of backup chunks",
       "      --config <CONFIG>    Path to engine config JSON",
       "      --version <VERSION>  Stop after this version",
       "  -h, --help               Print help"]
  | help =>
      ["Print this message or the help of the given subcommand(s)",
       "",
       "Usage: tabula help [COMMAND]...",
       "",
       "Arguments:",
       "  [COMMAND]...  Print help for the subcommand(s)"]

def text (t : HelpTopic) : String := String.join (t.lines.map (· ++ "\n"))

end HelpTopic

/-- What is told of a schema: its columns, the bytes of a row, and whether a table can have it. -/
structure SchemaReport where
  columns : Nat
  columnIds : List ColumnId
  maxRowBytes : UInt64
  ok : Bool
  error : Option String
deriving DecidableEq

namespace SchemaReport

/-- The report on columns that a table can have or cannot. -/
def of (columns : List Column) (outcome : Except Error (List Column)) : SchemaReport :=
  let refusal : Option String := match outcome with
    | .ok _ => none
    | .error e => some e.message
  ⟨columns.length, columns.map (·.id), Column.maxRowBytes columns, refusal.isNone, refusal⟩

def fieldNames : List String := ["columns", "column_ids", "max_row_bytes", "ok", "error"]

/-- Reports are only written here; `read?` is what is found by whoever reads one. -/
instance : JsonFormat SchemaReport where
  write r := .record (fieldNames.zip
    [JsonFormat.write r.columns, JsonFormat.write r.columnIds, .word r.maxRowBytes,
      JsonFormat.write r.ok, JsonFormat.write r.error])
  read? v := do
    let [columns, columnIds, maxRowBytes, ok, error] ← v.slots? fieldNames | none
    return ⟨← columns.required?, ← columnIds.required?, ← maxRowBytes.required?, ← ok.required?,
      ← error.nullable?⟩

end SchemaReport

namespace CommandLine

/-- The texts of files, by their paths. -/
abbrev Files := String → Option String

def readFile {α : Type} [JsonFormat α] (files : Files) (path : String) :
    Except CommandFailure α :=
  match (files path).bind JsonFormat.decode? with
  | some a => .ok a
  | none => .error (.input path)

/-- The settings of a file, or those by default. -/
def readSettings (files : Files) : Option String → Except CommandFailure Settings
  | none => .ok {}
  | some path =>
      match files path with
      | none => .error (.input path)
      | some text => (Settings.read text).mapError .refused

def printed (v : Json) : String := v.pretty ++ "\n"

def checkSchema (e : Engine) (files : Files) (path : String) : Except CommandFailure String := do
  let specs ← readFile files path
  let (columns, e) ← (e.createColumns (.administrator 0) specs).mapError .refused
  return printed (JsonFormat.write (SchemaReport.of columns (e.checkSchema (columns.map (·.id)))))

def replay (e : Engine) (files : Files) (path : String) (version : Option Version) :
    Except CommandFailure String := do
  let chunks ← readFile files path
  let (outcome, e) := e.restore chunks
  match ← outcome.mapError .refused with
  | none => throw (.noChunks path)
  | some summary =>
      let snapshot ← (e.replay summary.table version).mapError .refused
      return printed (JsonFormat.write snapshot)

def execute (files : Files) : Invocation → Except CommandFailure String
  | .help topic => .ok topic.text
  | .command config command => do
      let settings ← readSettings files config
      let e : Engine := { settings, authority := { permissive := true } }
      match command with
      | .checkSchema path => checkSchema e files path
      | .replay path version => replay e files path version

def run (files : Files) (arguments : List String) : Except CommandFailure String :=
  match Invocation.read? arguments with
  | none => .error .usage
  | some invocation => execute files invocation

def exitCode : Except CommandFailure String → UInt32
  | .ok _ => 0
  | .error failure => failure.exitCode

def paths : Invocation → List String
  | .help _ => []
  | .command config (.checkSchema path) => config.toList ++ [path]
  | .command config (.replay path _) => config.toList ++ [path]

end CommandLine

end VersionedTables
