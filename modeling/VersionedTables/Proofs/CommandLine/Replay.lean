import VersionedTables.CommandLine.Basic
import VersionedTables.Proofs.Backup.RoundTrip
import VersionedTables.Proofs.CommandLine.Arguments
import VersionedTables.Proofs.Engine.Replay
import VersionedTables.Proofs.Json.Persisted

/-!
# A replay on the command line

The command line shows of a backup what the engine shows that wrote it.  The text of the chunks is read
back as the chunks, these are restored into an engine that holds nothing, under whatever settings, and
the replay there is the replay of the table where it came from.  Whoever reads what is printed has the
snapshot again.

* **`CommandLine.read?_printed`** — what is printed of a document is read back.
* **`CommandLine.replay_eq_ok`** — what the command prints, stage by stage.
* **`Engine.Reachable.replay_backup`** — from the engine to the printed text.
-/

namespace VersionedTables

namespace CommandLine

structure Prints (files : Files) (arguments : List String) (text : String) : Prop where
  output : run files arguments = .ok text
  exitCode : exitCode (run files arguments) = 0

theorem prints_of_run {files : Files} {arguments : List String} {text : String}
    (h : run files arguments = .ok text) : Prints files arguments text := by
  refine ⟨h, ?_⟩
  rw [h]
  rfl

/-- **What is printed of a document is read back** as the document. -/
theorem read?_printed {v : Json} (hv : v.Canonical) : Json.read? (printed v) = some v :=
  Json.read?_pretty hv "\n" (by simp [Json.isSpace])

theorem decode?_printed {α : Type} [JsonFormat α] [LawfulFormat α] (a : α) :
    JsonFormat.decode? (printed (JsonFormat.write a)) = some a := by
  rw [JsonFormat.decode?, read?_printed (canonical a), Option.bind_some, read?_write]

/-- A file that holds the text of a value is read as the value. -/
theorem readFile_encode {α : Type} [JsonFormat α] [LawfulFormat α] {files : Files} {path : String}
    {a : α} (h : files path = some (JsonFormat.encode a)) : readFile files path = .ok a := by
  rw [readFile, h, Option.bind_some, JsonFormat.decode?_encode]

/-- A file that holds the text of settings is read as the settings. -/
theorem readSettings_encode {files : Files} {path : String} {settings : Settings}
    (h : files path = some (JsonFormat.encode settings)) :
    readSettings files (some path) = .ok settings := by
  have hread : Settings.read (JsonFormat.encode settings) = .ok settings := by
    rw [Settings.read, JsonFormat.decode?_encode]
  rw [readSettings, h]
  show (Settings.read (JsonFormat.encode settings)).mapError _ = _
  rw [hread]
  rfl

/-- A replay prints the snapshot of what it restores. -/
theorem replay_eq_ok {e e' : Engine} {files : Files} {path : String} {version : Option Version}
    {chunks : List BackupChunk} {summary : RestoreSummary} {snapshot : Snapshot}
    (hread : readFile files path = .ok chunks)
    (hrestore : e.restore chunks = (.ok (some summary), e'))
    (hreplay : e'.replay summary.table version = .ok snapshot) :
    replay e files path version = .ok (printed (JsonFormat.write snapshot)) := by
  rw [replay, hread, Outcome.ok_bind, hrestore]
  show ((e'.replay summary.table version).mapError CommandFailure.refused >>= fun snapshot =>
    Except.ok (printed (JsonFormat.write snapshot))) = _
  rw [hreplay]
  rfl

end CommandLine

namespace Engine

/-- **The command line replays a backup as the engine replays the table**, and what it prints is read back
as the snapshot that the engine shows. -/
theorem Reachable.replay_backup {source : Engine} (h : source.Reachable) {table : TableId}
    (hsource : source.ledger.log.history table ≠ []) {max : UInt64} (hmax : max ≠ 0)
    (version : Option Version) :
    ∃ chunks snapshot, source.exportTable table max = .ok chunks ∧
      source.replay table version = .ok snapshot ∧
      JsonFormat.decode? ((JsonFormat.write snapshot).pretty ++ "\n") = some snapshot ∧
      ∀ (files : CommandLine.Files) (config : Option String) (path : String) (settings : Settings),
        files path = some (JsonFormat.encode chunks) →
        CommandLine.readSettings files config = .ok settings →
        (∀ arguments, Invocation.read? arguments = some (.command config (.replay path version)) →
          CommandLine.Prints files arguments ((JsonFormat.write snapshot).pretty ++ "\n")) ∧
        ∀ outer backup upTo, Flag.config.Written config outer →
          Flag.backup.Written (some path) backup →
          Flag.version.Written (version.map (fun v => String.ofList (Numeral.ofWord v))) upTo →
          CommandLine.Prints files (outer ++ "replay" :: (backup ++ upTo))
            ((JsonFormat.write snapshot).pretty ++ "\n") := by
  obtain ⟨snapshot, hsnapshot, -⟩ := Snapshot.exists_replay h.sound.log table version
  have hreplay : source.replay table version = .ok snapshot := hsnapshot _ (.refl _ table)
  -- The chunks are the same wherever they go, so any engine without history shows that there are some.
  obtain ⟨_, -, hexported⟩ := h.exists_restored {} hsource rfl
  obtain ⟨chunks, hexport, -⟩ := hexported max hmax
  refine ⟨chunks, snapshot, hexport, hreplay, CommandLine.decode?_printed snapshot, ?_⟩
  intro files config path settings hfile hsettings
  -- The engine of the command holds nothing, so that it takes the chunks.
  obtain ⟨l', hkeeps, hrestored⟩ := h.exists_restored
    { settings, authority := { permissive := true } } hsource rfl
  obtain ⟨chunks', hexport', hrestore⟩ := hrestored max hmax
  obtain rfl : chunks' = chunks := Except.ok.inj (hexport'.symm.trans hexport)
  have hsame : Snapshot.replay l'.log table version = .ok snapshot :=
    (Snapshot.replay_congr h.sound.log hkeeps version).trans hreplay
  have hrun : ∀ arguments,
      Invocation.read? arguments = some (.command config (.replay path version)) →
      CommandLine.Prints files arguments ((JsonFormat.write snapshot).pretty ++ "\n") := by
    intro arguments hread
    refine CommandLine.prints_of_run ?_
    rw [CommandLine.run, hread]
    show (CommandLine.readSettings files config >>= fun settings => CommandLine.replay
      { settings, authority := { permissive := true } } files path version) = _
    rw [hsettings, Outcome.ok_bind]
    exact CommandLine.replay_eq_ok (CommandLine.readFile_encode hfile) hrestore hsame
  refine ⟨hrun, ?_⟩
  intro outer backup upTo hconfig hbackup hversion
  exact hrun _ (Invocation.read?_replay hconfig hbackup hversion)

end Engine

namespace Sample

def files (chunks : List BackupChunk) (path : String) : Option String :=
  if path = "config.json" then some (JsonFormat.encode elsewhere.settings)
  else if path = "backup.json" then some (JsonFormat.encode chunks) else none

/-- The table at version two. -/
def atTwo : Snapshot :=
  ⟨table, some 2, .ofList
    [(9, ⟨2, .ofList [(column.id, some "x"), (remark.id, some "w")]⟩),
      (10, ⟨1, .ofList [(column.id, none), (remark.id, some "z")]⟩)]⟩

def atTwoText : String := "\x7b
  \"table_id\": \"00000000-0000-0000-0000-000000000000\",
  \"version\": 2,
  \"rows\": \x7b
    \"9\": \x7b
      \"version\": 2,
      \"values\": \x7b
        \"a\": \"x\",
        \"b\": \"w\"
      \x7d
    \x7d,
    \"10\": \x7b
      \"version\": 1,
      \"values\": \x7b
        \"a\": null,
        \"b\": \"z\"
      \x7d
    \x7d
  \x7d
\x7d"

end Sample

namespace Engine

set_option maxRecDepth 3000 in
/-- The replay of a backup of four changes, up to version two.  Row 9 stands before row 10. -/
theorem replay_backup_up_to_two :
    Sample.revised.Reachable ∧ Sample.revised.ledger.log.history Sample.table ≠ [] ∧
    ∃ chunks, Sample.revised.exportTable Sample.table 1 = .ok chunks ∧
      Sample.revised.replay Sample.table (some 2) = .ok Sample.atTwo ∧
      CommandLine.Prints (Sample.files chunks)
        ["--config", "config.json", "replay", "--backup", "backup.json", "--version=2"]
        (Sample.atTwoText ++ "\n") ∧
      JsonFormat.decode? (Sample.atTwoText ++ "\n") = some Sample.atTwo := by
  have hne : Sample.revised.ledger.log.history Sample.table ≠ [] :=
    List.cons_ne_nil _ _
  obtain ⟨chunks, snapshot, hexport, hreplay, hdecode, hprints⟩ :=
    Reachable.replay_backup Sample.reachable_revised hne (show (1 : UInt64) ≠ 0 by decide) (some 2)
  obtain rfl : snapshot = Sample.atTwo :=
    (Except.ok.inj ((Sample.replay_revised (some 2)).symm.trans hreplay)).symm
  have htext : (JsonFormat.write Sample.atTwo).pretty = Sample.atTwoText := rfl
  rw [htext] at hdecode
  have hsettings : CommandLine.readSettings (Sample.files chunks) (some "config.json") =
      .ok Sample.elsewhere.settings := CommandLine.readSettings_encode rfl
  have hprinted := (hprints (Sample.files chunks) (some "config.json") "backup.json" _ rfl hsettings).2
    ["--config", "config.json"] ["--backup", "backup.json"] ["--version=2"]
    (.apart (by decide)) (.apart (by decide)) (.joined "2")
  rw [htext] at hprinted
  exact ⟨Sample.reachable_revised, hne, chunks, hexport, hreplay, hprinted, hdecode⟩

end Engine

end VersionedTables
