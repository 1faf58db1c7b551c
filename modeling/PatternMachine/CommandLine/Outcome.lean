import PatternMachine.CommandLine.Help
import PatternMachine.CommandLine.Report

/-!
# Outcomes

What a command line leaves: a status and the texts for the two output streams. The error stream
is the log: the events from the least severity on that the request asks for, each on a line behind
the time at which it is written.
-/

namespace PatternMachine.CommandLine

inductive Outcome where
  /-- The command line is wrong. -/
  | usage (error : UsageError)
  /-- The exit code and the texts for the two output streams. -/
  | done (code : Nat) (stdout stderr : String)
  /-- The program ends without a status of its own. -/
  | aborted (abort : Abort)
  deriving DecidableEq

namespace Outcome

def threshold (verbosity : Nat) : Severity :=
  match verbosity with
  | 0 => .warning
  | 1 => .info
  | _ => .debug

/-- A level in exactly five places. -/
def tag (severity : Severity) : String :=
  let label := severity.label.toList.take 5
  String.ofList (label ++ List.replicate (5 - label.length) ' ')

theorem tag_eq (severity : Severity) :
    tag severity =
      match severity with
      | .debug => "DEBUG"
      | .info => "INFO "
      | .warning => "WARNI"
      | .error => "ERROR" := by
  cases severity <;> rfl

def isShown (least : Severity) (event : Event) : Bool :=
  least.rank ≤ event.severity.rank

/-- An event as a line of the log, but for its time. An event without words has no line. -/
def line? (event : Event) : Option String :=
  match event.message with
  | .error _ => none
  | .ok words => some ("[" ++ tag event.severity ++ "] " ++ event.channel ++ ": " ++ words)

/-- The lines of the log, but for their times. -/
def log (verbosity : Nat) (events : List Event) : List String :=
  (events.filter (isShown (threshold verbosity))).filterMap line?

def stamped (clock : Nat → String) (lines : List String) : List String :=
  lines.mapIdx fun index line => clock index ++ " " ++ line

def ofReport (clock : Nat → String) (verbosity : Nat) (report : Report) : Outcome :=
  .done report.status.code (textOf report.output)
    (textOf (stamped clock (log verbosity report.events)))

def ofWords (clock : Nat → String) (world : World) (words : List String) : Outcome :=
  match Request.ofWords words with
  | .error .help => .done 0 helpText ""
  | .error .version => .done 0 (programName ++ " " ++ programVersion ++ "\n") ""
  | .error (.usage error) => .usage error
  | .error (.abort abort) => .aborted abort
  | .ok request =>
      match request.abort? with
      | some abort => .aborted abort
      | none => ofReport clock request.settings.verbosity (request.run world)

end Outcome

end PatternMachine.CommandLine
