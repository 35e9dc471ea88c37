import Filewise.Command
import Filewise.Number.Numeral

/-!
# Arguments of commands

The first argument names the command; what follows are its switches, in any order and
each at most once. A switch has a name after two dashes, perhaps a letter after one
dash, and perhaps a value, in the same argument or in the next. Arguments are read from
left to right up to the first mistake or the first wish for help.

## Main definitions

* `Switch`: a switch of a command.
* `Switch.scan`: the switches that are set.
* `Command.ofArguments`: the command that arguments ask for.
* `UsageError`: why they ask for none.
-/

namespace Filewise

/-- Why arguments ask for nothing that can be done. -/
inductive UsageError where
  | noCommand
  | unknownCommand (name : String)
  | unexpected (argument : String)
  | noValue (switch : String)
  | badValue (switch value : String)
  | repeated (switch : String)
  deriving DecidableEq, Repr

/-- The sentence of a usage error. -/
def UsageError.message : UsageError → String
  | .noCommand => "no command given"
  | .unknownCommand name => s!"unrecognized subcommand '{name}'"
  | .unexpected argument => s!"unexpected argument '{argument}' found"
  | .noValue switch => s!"a value is required for '--{switch}' but none was supplied"
  | .badValue switch value => s!"invalid value '{value}' for '--{switch}'"
  | .repeated switch => s!"the argument '--{switch}' cannot be used multiple times"

/-- What a switch is set to. -/
inductive SwitchValue where
  /-- Nothing: it is there or not. -/
  | none
  | path
  | count
  deriving DecidableEq, Repr

/-- Whether a text can be the value of a switch. -/
def SwitchValue.accepts : SwitchValue → String → Bool
  | .none, _ => false
  | .path, text => !text.isEmpty
  | .count, text => (Numeral.unsigned? text.toList).isSome

/-- A switch of a command. -/
structure Switch where
  name : String
  letter : Option Char
  value : SwitchValue
  deriving DecidableEq, Repr

/-- The switches that are set, with the texts of their values. -/
abbrev Settings := List (String × String)

namespace Switch

/-- What reading switches leads to. -/
inductive Scan where
  | help
  | set (settings : Settings)

/-- A switch that is set to a text, over those before it. -/
def put (s : Switch) (text : String) (settings : Settings) : Except UsageError Settings :=
  if settings.any fun (name, _) => name == s.name then .error (.repeated s.name)
  else if s.value = .none ∨ s.value.accepts text then .ok ((s.name, text) :: settings)
  else .error (.badValue s.name text)

/-- Whether an argument is a switch, and hence not the value of the one before it. -/
def isSwitch (argument : String) : Bool :=
  match argument.toList with
  | '-' :: _ :: _ => true
  | _ => false

/-- Sets a switch, given the value in its own argument, if there is one, and the
arguments that follow. -/
def take (s : Switch) (inside : Option String) (rest : List String) (settings : Settings) :
    Except UsageError (Settings × List String) :=
  match s.value, inside, rest with
  | .none, none, rest => do return (← s.put "" settings, rest)
  | .none, some value, _ => .error (.unexpected value)
  | _, some value, rest => do return (← s.put value settings, rest)
  | _, none, value :: rest =>
    -- a single dash is a value, anything longer after a dash is a switch
    if isSwitch value then .error (.noValue s.name)
    else do return (← s.put value settings, rest)
  | _, none, [] => .error (.noValue s.name)

/-- A name and the value after its equals sign, if there is one. -/
def splitValue (text : List Char) : String × Option String :=
  let name := String.ofList (text.takeWhile (· != '='))
  match text.dropWhile (· != '=') with
  | _ :: value => (name, some (String.ofList value))
  | [] => (name, none)

/-- The value behind a letter, with or without an equals sign. -/
def valueBehind : List Char → Option String
  | [] => none
  | '=' :: value => some (String.ofList value)
  | value => some (String.ofList value)

/-- What one argument, given by its characters after the first dash, asks for. -/
inductive Request where
  | help
  | set (s : Switch) (inside : Option String)
  | unknown

/-- What an argument asks for, given its characters after the first dash. -/
def request (switches : List Switch) : List Char → Request
  | '-' :: text =>
    let (name, inside) := splitValue text
    if name = "help" then (if inside.isNone then .help else .unknown)
    else
      match switches.find? fun s => s.name == name with
      | some s => .set s inside
      | none => .unknown
  | letter :: behind =>
    if letter = 'h' then .help
    else
      match switches.find? fun s => s.letter == some letter with
      | some s => .set s (valueBehind behind)
      | none => .unknown
  | [] => .unknown

/-- The switches that arguments set, over those before them. The first argument bounds
the number of switches. -/
def scanWithin (switches : List Switch) : Nat → Settings → List String → Except UsageError Scan
  | _, settings, [] => .ok (.set settings)
  | 0, _, argument :: _ => .error (.unexpected argument)
  | bound + 1, settings, argument :: rest =>
    if argument = "--" then
      match rest with
      | [] => .ok (.set settings)
      | next :: _ => .error (.unexpected next)
    else
      match argument.toList with
      | '-' :: text =>
        match request switches text with
        | .help => .ok .help
        | .unknown => .error (.unexpected argument)
        | .set s inside => do
          let (settings, rest) ← s.take inside rest settings
          scanWithin switches bound settings rest
      | _ => .error (.unexpected argument)

/-- The switches that arguments set. -/
def scan (switches : List Switch) (arguments : List String) : Except UsageError Scan :=
  scanWithin switches arguments.length [] arguments

end Switch

namespace Settings

/-- The text that a switch is set to. -/
def text? (settings : Settings) (name : String) : Option String :=
  (settings.find? fun (n, _) => n == name).map Prod.snd

/-- The path that a switch is set to. -/
def path? (settings : Settings) (name : String) : Option Path := (settings.text? name).map Path.mk

/-- The number that a switch is set to. -/
def count? (settings : Settings) (name : String) : Option Nat :=
  (settings.text? name).bind fun text => Numeral.unsigned? text.toList

end Settings

namespace Command

/-- The switch for a configuration file. -/
def configSwitch : Switch := ⟨"config", some 'c', .path⟩

/-- The switches of a build. -/
def buildSwitches : List Switch :=
  [configSwitch, ⟨"concurrency", some 'j', .count⟩, ⟨"report-json", none, .path⟩]

/-- The switches of a plan. -/
def planSwitches : List Switch := [configSwitch, ⟨"json", none, .none⟩]

/-- The build that settings ask for. -/
def ofBuildSettings (settings : Settings) : Command :=
  .build
    { config := settings.path? "config"
      workers := settings.count? "concurrency"
      report := settings.path? "report-json" }

/-- The plan that settings ask for. -/
def ofPlanSettings (settings : Settings) : Command :=
  .plan
    { config := settings.path? "config", isForPrograms := (settings.text? "json").isSome }

/-- The topic that a command is about. -/
def topic? : String → Option HelpTopic
  | "build" => some .build
  | "plan" => some .plan
  | "transformers" => some .transformers
  | "help" => some .help
  | _ => none

/-- The help that names ask for. -/
def helpOn : List String → Except UsageError Command
  | [] => .ok (.help .program)
  | name :: rest =>
    match topic? name, rest with
    | none, _ => .error (.unknownCommand name)
    | some topic, [] => .ok (.help topic)
    | some _, next :: _ => .error (.unknownCommand next)

/-- The command with switches, given what it is about and how settings make it. -/
def withSwitches (topic : HelpTopic) (switches : List Switch) (make : Settings → Command)
    (arguments : List String) : Except UsageError Command := do
  match ← Switch.scan switches arguments with
  | .help => return .help topic
  | .set settings => return make settings

/-- The command that arguments ask for. -/
def ofArguments : List String → Except UsageError Command
  | [] => .error .noCommand
  | "build" :: rest => withSwitches .build buildSwitches ofBuildSettings rest
  | "plan" :: rest => withSwitches .plan planSwitches ofPlanSettings rest
  | "transformers" :: rest => withSwitches .transformers [] (fun _ => .transformers) rest
  | "help" :: rest => helpOn rest
  | argument :: rest =>
    match Switch.scan [] (argument :: rest) with
    | .ok .help => .ok (.help .program)
    | .ok (.set _) => .error .noCommand
    | .error e =>
      if Switch.isSwitch argument then .error e else .error (.unknownCommand argument)

end Command

end Filewise
