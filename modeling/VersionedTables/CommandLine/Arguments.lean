import VersionedTables.Bounded
import VersionedTables.Text.Numeral

/-!
# Arguments of the command line

A command line is a command with its options; options are read from left to right, and the first
thing that is wrong, or a question for help, ends the reading. A value that stands in an argument
of its own is checked only when something more is known to follow it, so a command that asks for
help is heard before the value in front of the command is refused.

* **`OptionsRead`** — options as far as they are read.
* **`Invocation`** — what is asked for.
* **`Invocation.read?`** — what a list of arguments asks for, if they can be understood.
-/

namespace VersionedTables

/-- The options that take a value. -/
inductive Flag where
  | config
  | columns
  | backup
  | version
deriving DecidableEq, Repr

namespace Flag

def name : Flag → String
  | config => "config"
  | columns => "columns"
  | backup => "backup"
  | version => "version"

/-- Whether a text is a value of an option. -/
def admits : Flag → String → Bool
  | version, value => (Numeral.word? value.toList).isSome
  | _, _ => true

end Flag

inductive Command where
  | checkSchema (columns : String)
  | replay (backup : String) (version : Option UInt64)
deriving DecidableEq

inductive HelpTopic where
  | program
  | checkSchema
  | replay
  | help
deriving DecidableEq, Repr

/-- What a command line asks for. -/
inductive Invocation where
  | help (topic : HelpTopic)
  | command (config : Option String) (command : Command)
deriving DecidableEq

/-! ### Options -/

/-- The values of options, in the order given. -/
abbrev GivenFlags := List (Flag × String)

namespace GivenFlags

def value? (g : GivenFlags) (f : Flag) : Option String := (g.find? (·.1 = f)).map (·.2)

/-- The values with one more, unless the option is given already or the value is none of its
values. -/
def add? (g : GivenFlags) (f : Flag) (value : String) : Option GivenFlags :=
  if (g.value? f).isNone && f.admits value then some (g ++ [(f, value)]) else none

end GivenFlags

/-- Options as far as they are read. A value that stands in an argument of its own waits to be
checked until an option, a question for help or the end follows it. -/
structure OptionsRead where
  checked : GivenFlags := []
  waiting : Option (Flag × String) := none

namespace OptionsRead

/-- The values of all options, if none of them has to be refused. -/
def settle? (o : OptionsRead) : Option GivenFlags :=
  match o.waiting with
  | none => some o.checked
  | some (f, value) => o.checked.add? f value

end OptionsRead

/-- What stands behind some options. -/
inductive OptionsEnd where
  | nothing (given : GivenFlags)
  | help
  /-- A word that is neither an option nor a value, and what follows it. The options before it may
  still have a value that waits. -/
  | word (options : OptionsRead) (word : String) (rest : List String)

/-- What one argument is by itself. -/
inductive Argument where
  /-- Two dashes, behind which nothing is an option. -/
  | dashes
  /-- An option, with the value that follows an equals sign, if one does. -/
  | long (name : String) (value : Option String)
  | short (letter : Char)
  | word

namespace Argument

/-- What an argument is by itself. A lone dash is a word. -/
def ofChars : List Char → Argument
  | ['-', '-'] => dashes
  | '-' :: '-' :: cs =>
      let value := match cs.dropWhile (· ≠ '=') with
        | [] => none
        | _ :: value => some (String.ofList value)
      long (String.ofList (cs.takeWhile (· ≠ '='))) value
  | '-' :: c :: _ => short c
  | _ => word

/-- Whether an argument can be the value of the option before it. -/
def isValue (s : String) : Bool :=
  match ofChars s.toList with
  | word => true
  | _ => false

end Argument

/-- Reads options, of which those in `allowed` are known and `options` were read before, up to what
stands behind them. -/
def readOptions? (allowed : List Flag) (options : OptionsRead) :
    List String → Option OptionsEnd
  | [] => options.settle?.map .nothing
  | argument :: rest =>
      match Argument.ofChars argument.toList with
      | .dashes => if rest.isEmpty then options.settle?.map .nothing else none
      | .short letter => if letter = 'h' then options.settle?.map (fun _ => .help) else none
      | .word => some (.word options argument rest)
      | .long "help" value =>
          if value.isNone then options.settle?.map (fun _ => .help) else none
      | .long name (some value) => do
          let f ← allowed.find? (·.name = name)
          let given ← options.settle?
          readOptions? allowed { checked := ← given.add? f value } rest
      | .long name none => do
          let f ← allowed.find? (·.name = name)
          let given ← options.settle?
          match rest with
          | [] => none
          | value :: rest =>
              if Argument.isValue value then
                readOptions? allowed { checked := given, waiting := some (f, value) } rest
              else none

/-! ### Invocations -/

namespace Invocation

def readTopic? : List String → Option HelpTopic
  | [] => some .program
  | ["check-schema"] => some .checkSchema
  | ["replay"] => some .replay
  | ["help"] => some .help
  | _ => none

/-- Reads the options behind the name of a command. What help is about is `topic`; the command is
made of the options by `command?`. The options `outer` in front of the command are settled after
its own, and not if it asks for help; settings that are given here count before theirs. -/
def readCommand? (outer : OptionsRead) (allowed : List Flag) (topic : HelpTopic)
    (command? : GivenFlags → Option Command) (rest : List String) : Option Invocation :=
  match readOptions? (.config :: allowed) {} rest with
  | some (.nothing given) => do
      let outer ← outer.settle?
      return .command ((given.value? .config).or (outer.value? .config)) (← command? given)
  | some .help => some (.help topic)
  | _ => none

def checkSchema? (given : GivenFlags) : Option Command :=
  (given.value? .columns).map .checkSchema

def replay? (given : GivenFlags) : Option Command :=
  (given.value? .backup).map fun path =>
    .replay path ((given.value? .version).bind (fun v => Numeral.word? v.toList))

/-- What a list of arguments asks for, if they can be understood. -/
def read? (arguments : List String) : Option Invocation :=
  match readOptions? [.config] {} arguments with
  | some .help => some (.help .program)
  | some (.word outer "check-schema" rest) =>
      readCommand? outer [.columns] .checkSchema checkSchema? rest
  | some (.word outer "replay" rest) =>
      readCommand? outer [.backup, .version] .replay replay? rest
  | some (.word _ "help" rest) => (readTopic? rest).map .help
  | _ => none

end Invocation

end VersionedTables
