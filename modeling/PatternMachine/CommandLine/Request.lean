import PatternMachine.CommandLine.Word
import PatternMachine.Text.Integer

/-!
# Requests

The words of a command line are taken from left to right. Options take effect as they come. The
first row of plain words that no option interrupts gives the pattern and the inputs; plain words
after a later option are left over, and so are words that look like options but are none.
-/

namespace PatternMachine.CommandLine

structure Settings where
  verbosity : Nat := 0
  lineNumbers : Bool := false
  countOnly : Bool := false
  dump : Bool := false
  /-- The strategy, unless it was taken back. -/
  strategy : Option Strategy := some .depthFirst
  /-- The nesting limit, unless it was taken back. -/
  maxDepth : Option Int := some 100000
  deriving DecidableEq

/-- A command line that asks for lines to be scanned, or for a pattern to be shown. -/
structure Request where
  settings : Settings
  config : Config
  pattern : String
  files : List String
  deriving DecidableEq

inductive Stop where
  | help
  | version
  | usage (error : UsageError)
  | abort (abort : Abort)
  deriving DecidableEq

/-- What the words so far amount to. -/
structure Collected where
  settings : Settings := {}
  /-- The pattern and the inputs. -/
  arguments : Option (String × List String) := none
  /-- The plain words since the last option. -/
  waiting : List String := []
  leftover : List String := []

namespace Collected

/-- Notes a plain word. -/
def wait (word : String) (collected : Collected) : Collected :=
  { collected with waiting := collected.waiting ++ [word] }

/-- Notes words that nothing takes. -/
def leave (words : List String) (collected : Collected) : Collected :=
  { collected with leftover := collected.leftover ++ words }

/-- Gives the waiting words their place when an option comes. -/
def settle (collected : Collected) : Collected :=
  match collected.waiting, collected.arguments with
  | [], _ => collected
  | pattern :: files, none => { collected with arguments := some (pattern, files), waiting := [] }
  | words, some _ => { collected.leave words with waiting := [] }

/--
The pattern and the inputs among the last plain words. The separator may stand on either side of
the pattern or, once, among the inputs.
-/
def divide : List String → Option (String × List String)
  | [] | ["--"] => none
  | "--" :: pattern :: files
  | pattern :: "--" :: files
  | pattern :: files => some (pattern, files.erase "--")

def settleLast (collected : Collected) : Collected :=
  match collected.arguments, divide collected.waiting with
  | none, some arguments => { collected with arguments := some arguments, waiting := [] }
  | _, _ => { collected.leave collected.waiting with waiting := [] }

def raise (flag : Flag) (collected : Collected) : Except Stop Collected :=
  let settings := collected.settings
  match flag with
  | .help => .error .help
  | .version => .error .version
  | .verbose =>
      .ok { collected with settings := { settings with verbosity := settings.verbosity + 1 } }
  | .lineNumber => .ok { collected with settings := { settings with lineNumbers := true } }
  | .count => .ok { collected with settings := { settings with countOnly := true } }
  | .dump => .ok { collected with settings := { settings with dump := true } }

def raiseAll : List Flag → Collected → Except Stop Collected
  | [], collected => .ok collected
  | flag :: rest, collected =>
      match collected.raise flag with
      | .error stop => .error stop
      | .ok next => raiseAll rest next

/-- Takes back the value of an option. -/
def unset (setting : Setting) (collected : Collected) : Collected :=
  let settings := collected.settings
  match setting with
  | .strategy => { collected with settings := { settings with strategy := none } }
  | .maxDepth => { collected with settings := { settings with maxDepth := none } }

/-- Carries out an option with its value; the separator as a value takes the value back. -/
def assign (setting : Setting) (value : String) (collected : Collected) :
    Except Stop Collected :=
  let settings := collected.settings
  if value = "--" then .ok (collected.unset setting)
  else
    match setting with
    | .strategy =>
        match Strategy.ofName? value with
        | none => .error (.usage (.invalidStrategy value))
        | some strategy =>
            .ok { collected with settings := { settings with strategy := some strategy } }
    | .maxDepth =>
        match Text.parseInt? value with
        | none => .error (.usage (.invalidInteger setting value))
        | some depth =>
            .ok { collected with settings := { settings with maxDepth := some depth } }

end Collected

/--
The options that a short option and the characters attached to it make. Only options without a
value have a short spelling, so every character must spell an option. The option before the first
one that does not is what the rest was attached to in vain.
-/
def clustered (flag : Flag) : List Char → Except UsageError (List Flag)
  | [] => .ok [flag]
  | letter :: rest =>
      match Switch.ofSpelling? (String.ofList ['-', letter]) with
      | some (.flag next) =>
          match clustered next rest with
          | .error error => .error error
          | .ok flags => .ok (flag :: flags)
      | _ => .error (.ignoredValue (.flag flag) (String.ofList (letter :: rest)))

namespace Collected

def take : List Word → Collected → Except Stop Collected
  | [], collected => .ok collected.settleLast
  | .plain text :: rest, collected => take rest (collected.wait text)
  | .separator :: rest, collected => take rest (collected.wait "--")
  | .unknown text :: rest, collected => take rest (collected.settle.leave [text])
  | .option (.flag flag) _ none :: rest, collected =>
      match collected.settle.raise flag with
      | .error stop => .error stop
      | .ok next => take rest next
  | .option (.flag flag) true (some (letter :: letters)) :: rest, collected =>
      match clustered flag (letter :: letters) with
      | .error error => .error (.usage error)
      | .ok flags =>
          match collected.settle.raiseAll flags with
          | .error stop => .error stop
          | .ok next => take rest next
  | .option (.flag flag) _ (some attached) :: _, _ =>
      .error (.usage (.ignoredValue (.flag flag) (String.ofList attached)))
  | .option (.setting setting) _ (some attached) :: rest, collected =>
      match collected.settle.assign setting (String.ofList attached) with
      | .error stop => .error stop
      | .ok next => take rest next
  | .option (.setting setting) _ none :: .plain value :: rest, collected =>
      match collected.settle.assign setting value with
      | .error stop => .error stop
      | .ok next => take rest next
  | .option (.setting setting) _ none :: _, _ => .error (.usage (.missingValue setting))

end Collected

namespace Settings

def config (settings : Settings) : Except Stop Config :=
  let usual : Config := {}
  match settings.strategy, settings.maxDepth with
  | none, _ => .error (.usage .noStrategy)
  | some _, none => .error (.abort .noDepth)
  | some strategy, some depth =>
      match Config.ofLimits strategy usual.maxAddress usual.maxOffset depth
          usual.warnUnreachable with
      | .error error => .error (.usage (.refused error))
      | .ok config => .ok config

end Settings

namespace Request

def ofWords (words : List String) : Except Stop Request :=
  match Word.classifyAll words with
  | .error error => .error (.usage error)
  | .ok words =>
      match Collected.take words {} with
      | .error stop => .error stop
      | .ok collected =>
          match collected.arguments, collected.leftover with
          | none, _ => .error (.usage .missingArguments)
          | some _, word :: rest => .error (.usage (.unrecognized (word :: rest)))
          | some (pattern, files), [] =>
              match collected.settings.config with
              | .error stop => .error stop
              | .ok config => .ok ⟨collected.settings, config, pattern, files⟩

end Request

end PatternMachine.CommandLine
