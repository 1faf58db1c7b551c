import PatternMachine.Config

/-!
# Command-line options

The options of the line scanner with their spellings, the ways in which a command line can be
wrong, and those in which it ends the program early.
-/

namespace PatternMachine.CommandLine

inductive Flag where
  | help
  | version
  | verbose
  | lineNumber
  | count
  | dump
  deriving DecidableEq

inductive Setting where
  | strategy
  | maxDepth
  deriving DecidableEq

inductive Switch where
  | flag (flag : Flag)
  | setting (setting : Setting)
  deriving DecidableEq

namespace Switch

/-- All spellings of all options in the order in which they are offered. -/
def spellings : List (String × Switch) :=
  [("-h", .flag .help), ("--help", .flag .help), ("--version", .flag .version),
    ("-v", .flag .verbose), ("--verbose", .flag .verbose),
    ("-n", .flag .lineNumber), ("--line-number", .flag .lineNumber),
    ("-c", .flag .count), ("--count", .flag .count),
    ("--strategy", .setting .strategy), ("--max-depth", .setting .maxDepth),
    ("--dump", .flag .dump)]

def ofSpelling? (spelling : String) : Option Switch :=
  spellings.lookup spelling

/-- All spellings of an option, as errors name it. -/
def title (switch : Switch) : String :=
  "/".intercalate ((spellings.filter fun entry => entry.2 = switch).map Prod.fst)

end Switch

inductive UsageError where
  /-- A shortened option has several completions. -/
  | ambiguous (word : String) (spellings : List String)
  /-- A value is attached to an option that takes none. -/
  | ignoredValue (switch : Switch) (value : String)
  /-- An option lacks its value. -/
  | missingValue (setting : Setting)
  | invalidInteger (setting : Setting) (value : String)
  | invalidStrategy (value : String)
  /-- There is no pattern. -/
  | missingArguments
  /-- The strategy was taken back and no other given. -/
  | noStrategy
  /-- Words that are neither options nor inputs. -/
  | unrecognized (words : List String)
  /-- The values do not make a configuration. -/
  | refused (error : ConfigError)
  deriving DecidableEq

namespace UsageError

def message : UsageError → String
  | .ambiguous word spellings =>
      "ambiguous option: " ++ word ++ " could match " ++ ", ".intercalate spellings
  | .ignoredValue switch value =>
      "argument " ++ switch.title ++ ": ignored explicit argument " ++ Text.quote value
  | .missingValue setting =>
      "argument " ++ (Switch.setting setting).title ++ ": expected one argument"
  | .invalidInteger setting value =>
      "argument " ++ (Switch.setting setting).title ++ ": invalid int value: " ++ Text.quote value
  | .invalidStrategy value =>
      "argument " ++ (Switch.setting .strategy).title ++ ": invalid choice: " ++
        Text.quote value ++ " (choose from " ++
        ", ".intercalate (Strategy.all.map fun strategy => Text.quote strategy.name) ++ ")"
  | .missingArguments => "the following arguments are required: pattern, FILE"
  | .noStrategy => "[] is not a valid Strategy"
  | .unrecognized words => "unrecognized arguments: " ++ " ".intercalate words
  | .refused error => error.message

end UsageError

/-- What ends the program without a status of its own. -/
inductive Abort where
  /-- The nesting limit was taken back and no other given. -/
  | noDepth
  /-- The name of an input has a character that ends names. -/
  | nullInName
  deriving DecidableEq

namespace Abort

def message : Abort → String
  | .noDepth => "'<' not supported between instances of 'list' and 'int'"
  | .nullInName => "embedded null byte"

end Abort

end PatternMachine.CommandLine
