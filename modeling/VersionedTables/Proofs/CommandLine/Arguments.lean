import VersionedTables.CommandLine.Arguments

/-!
# Options read back

The value of an option may stand behind an equals sign or in an argument of its own.  Both are read as
the same value: where it waits to be checked makes no difference to what is settled in the end.

* **`Flag.Written`** — the arguments that give an option a value, or leave it out.
* **`readOptions?_written`** — they are read as that value.
* **`Invocation.read?_replay`**, **`Invocation.read?_checkSchema`** — what the command lines of the
  commands ask for.
-/

namespace VersionedTables

namespace Numeral

theorem word?_ofWord (n : UInt64) : word? (ofWord n) = some n := by
  have hplus : ∀ cs, ofWord n ≠ '+' :: cs := by
    intro cs h
    have hmem : '+' ∈ ofWord n := by
      rw [h]
      exact List.mem_cons_self
    exact absurd (Nat.isDigit_of_mem_toDigits (by decide) (by decide) hmem) (by decide)
  rw [word?]
  · exact natural?_bind_ofWord n
  · exact hplus

end Numeral

/-! ### Values of options -/

namespace GivenFlags

def ofOption (f : Flag) (value : Option String) : GivenFlags := (value.map (f, ·)).toList

theorem value?_ofOption (f g : Flag) (value : Option String) :
    (ofOption f value).value? g = if f = g then value else none := by
  cases value with
  | none => simp [ofOption, value?]
  | some v => by_cases h : f = g <;> simp [ofOption, value?, h]

theorem value?_append (a b : GivenFlags) (f : Flag) :
    value? (a ++ b) f = (a.value? f).or (b.value? f) := by
  simp [value?, List.find?_append, Option.map_or]

end GivenFlags

/-! ### One option -/

/-- The arguments that give an option a value, or leave it out. -/
inductive Flag.Written (f : Flag) : Option String → List String → Prop where
  | absent : f.Written none []
  | joined (value : String) : f.Written (some value) ["--" ++ f.name ++ "=" ++ value]
  | apart {value : String} (h : Argument.isValue value = true) :
      f.Written (some value) ["--" ++ f.name, value]

theorem Flag.name_ne_help (f : Flag) : f.name ≠ "help" := by
  cases f <;> decide

namespace Argument

theorem ofChars_name (f : Flag) : ofChars ("--" ++ f.name).toList = .long f.name none := by
  cases f <;> rfl

theorem ofChars_joined (f : Flag) (value : String) :
    ofChars ("--" ++ f.name ++ "=" ++ value).toList = .long f.name (some value) := by
  rw [String.toList_append, String.toList_append, String.toList_append]
  have hlong : ofChars ("--".toList ++ f.name.toList ++ "=".toList ++ value.toList) =
      .long f.name (some (String.ofList value.toList)) := by
    cases f <;> rfl
  rw [hlong, String.ofList_toList]

end Argument

section

variable {allowed : List Flag} {f : Flag} {o : OptionsRead} {given : GivenFlags}

theorem readOptions?_joined {given' : GivenFlags} (value : String) (rest : List String)
    (hf : allowed.find? (·.name = f.name) = some f) (hsettle : o.settle? = some given)
    (hadd : given.add? f value = some given') :
    readOptions? allowed o (("--" ++ f.name ++ "=" ++ value) :: rest) =
      readOptions? allowed { checked := given' } rest := by
  rw [readOptions?, Argument.ofChars_joined]
  simp [f.name_ne_help, hf, hsettle, hadd]

theorem readOptions?_apart {value : String} (rest : List String)
    (hvalue : Argument.isValue value = true)
    (hf : allowed.find? (·.name = f.name) = some f) (hsettle : o.settle? = some given) :
    readOptions? allowed o (("--" ++ f.name) :: value :: rest) =
      readOptions? allowed { checked := given, waiting := some (f, value) } rest := by
  rw [readOptions?, Argument.ofChars_name]
  simp [f.name_ne_help, hf, hsettle, hvalue]

/-- **A written option is read**, and settles with its value behind the others. -/
theorem readOptions?_written (allowed : List Flag) {value : Option String} {arguments : List String}
    (h : f.Written value arguments)
    (hf : allowed.find? (·.name = f.name) = some f) (hsettle : o.settle? = some given)
    (hnew : given.value? f = none) (hadmits : ∀ v ∈ value, f.admits v = true) :
    ∃ o' : OptionsRead, o'.settle? = some (given ++ .ofOption f value) ∧
      ∀ rest, readOptions? allowed o (arguments ++ rest) = readOptions? allowed o' rest := by
  have hadd : ∀ v ∈ value, given.add? f v = some (given ++ [(f, v)]) := by
    intro v hv
    rw [GivenFlags.add?, hnew, hadmits v hv]
    rfl
  cases h with
  | absent =>
      refine ⟨o, ?_, fun _ => rfl⟩
      rw [hsettle, GivenFlags.ofOption]
      exact congrArg some (List.append_nil given).symm
  | joined v =>
      exact ⟨{ checked := given ++ [(f, v)] }, rfl,
        fun rest => readOptions?_joined v rest hf hsettle (hadd v rfl)⟩
  | apart hvalue =>
      exact ⟨{ checked := given, waiting := some (f, _) }, hadd _ rfl,
        fun rest => readOptions?_apart rest hvalue hf hsettle⟩

end

/-! ### The command lines of the commands -/

/-- The options in front of a command wait to be settled behind its own. -/
theorem readOptions?_outer {config : Option String} {outer : List String}
    (hconfig : Flag.config.Written config outer) (word : String)
    (hword : Argument.ofChars word.toList = .word) (rest : List String) :
    ∃ o : OptionsRead, o.settle? = some (.ofOption .config config) ∧
      readOptions? [.config] {} (outer ++ word :: rest) = some (.word o word rest) := by
  obtain ⟨o, ho, houter⟩ := readOptions?_written [.config] (o := {}) hconfig
    (by decide) rfl rfl (fun _ _ => rfl)
  refine ⟨o, ho, ?_⟩
  rw [houter, readOptions?, hword]

/-- **The command line of a replay** is read as what it is written for. -/
theorem Invocation.read?_replay {config : Option String} {path : String} {version : Option UInt64}
    {outer backup upTo : List String} (hconfig : Flag.config.Written config outer)
    (hbackup : Flag.backup.Written (some path) backup)
    (hversion : Flag.version.Written
      (version.map (fun v => String.ofList (Numeral.ofWord v))) upTo) :
    read? (outer ++ "replay" :: (backup ++ upTo)) =
      some (.command config (.replay path version)) := by
  -- The options in front of the command, then its own, one after the other.
  obtain ⟨o, ho, hword⟩ := readOptions?_outer hconfig "replay" rfl (backup ++ upTo)
  obtain ⟨o₁, ho₁, hfirst⟩ := readOptions?_written [.config, .backup, .version] (o := {})
    hbackup (by decide) rfl rfl (fun _ _ => rfl)
  have hadmits : ∀ v ∈ version.map (fun v => String.ofList (Numeral.ofWord v)),
      Flag.version.admits v = true := by
    intro v hv
    obtain ⟨n, -, rfl⟩ := Option.map_eq_some_iff.1 hv
    simp [Flag.admits, Numeral.word?_ofWord]
  obtain ⟨o₂, ho₂, hsecond⟩ := readOptions?_written [.config, .backup, .version]
    hversion (by decide) ho₁ rfl hadmits
  have hinner : readOptions? [.config, .backup, .version] {} (backup ++ upTo) =
      o₂.settle?.map .nothing := by
    rw [hfirst, ← List.append_nil upTo, hsecond, readOptions?]
  have hnumeral : (version.map (fun v => String.ofList (Numeral.ofWord v))).bind
      (fun v => Numeral.word? v.toList) = version := by
    cases version <;> simp [Numeral.word?_ofWord]
  rw [read?, hword]
  show readCommand? o [.backup, .version] .replay replay? (backup ++ upTo) = _
  rw [readCommand?, hinner, ho₂]
  simp [ho, replay?, GivenFlags.value?_append, GivenFlags.value?_ofOption, hnumeral]

/-- **The command line that checks a schema** is read as what it is written for. -/
theorem Invocation.read?_checkSchema {config : Option String} {path : String}
    {outer columns : List String} (hconfig : Flag.config.Written config outer)
    (hcolumns : Flag.columns.Written (some path) columns) :
    read? (outer ++ "check-schema" :: columns) = some (.command config (.checkSchema path)) := by
  obtain ⟨o, ho, hword⟩ := readOptions?_outer hconfig "check-schema" rfl columns
  obtain ⟨o₁, ho₁, hfirst⟩ := readOptions?_written [.config, .columns] (o := {}) hcolumns
    (by decide) rfl rfl (fun _ _ => rfl)
  have hinner : readOptions? [.config, .columns] {} columns = o₁.settle?.map .nothing := by
    rw [← List.append_nil columns, hfirst, readOptions?]
  rw [read?, hword]
  show readCommand? o [.columns] .checkSchema checkSchema? columns = _
  rw [readCommand?, hinner, ho₁]
  simp [ho, checkSchema?, GivenFlags.value?_ofOption]

end VersionedTables
