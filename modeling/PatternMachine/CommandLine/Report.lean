import PatternMachine.CommandLine.Input
import PatternMachine.CommandLine.Request
import PatternMachine.Regex.Lines

/-!
# Reports

The report of a scan holds the lines printed, the events, and the status: whether some line
matched, none did, or something went wrong. An input that cannot be read to its end counts as
failed, and its failed lines and its count are not reported.
-/

namespace PatternMachine.CommandLine

inductive Status where
  | matched
  | noMatch
  | failed
  deriving DecidableEq

namespace Status

def code : Status → Nat
  | .matched => 0
  | .noMatch => 1
  | .failed => 2

end Status

structure Report where
  status : Status
  output : List String := []
  events : List Event := []
  deriving DecidableEq

/-- What the scan of one input adds to the report. -/
structure InputReport where
  output : List String
  events : List Event
  matching : Nat
  failed : Bool
  deriving DecidableEq

namespace InputReport

/-- The name of an input in front of what is printed for it, if there are several inputs. -/
def labelled (label : Option String) (text : String) : String :=
  match label with
  | none => text
  | some name => name ++ ":" ++ text

def printed (settings : Settings) (label : Option String) (found : Nat × String) : String :=
  labelled label
    (if settings.lineNumbers then toString found.1 ++ ":" ++ found.2 else found.2)

/-- The name of an input in messages about its lines. -/
def place (name : String) : String :=
  if name = World.stdinName then "<stdin>" else name

def ofReading (settings : Settings) (regex : Regex) (label : Option String)
    (name : String) (reading : Reading) : InputReport :=
  let scan := regex.scan reading.lines
  let lines := if settings.countOnly then [] else scan.matching.map (printed settings label)
  match reading.problem with
  | some problem => ⟨lines, scan.events ++ [.unreadable name problem], 0, true⟩
  | none =>
      let count :=
        if settings.countOnly then [labelled label (toString scan.matching.length)] else []
      let failures := scan.failures.map fun failure =>
        Event.evaluationFailed (place name) failure.1 failure.2
      ⟨lines ++ count, scan.events ++ failures, scan.matching.length, !scan.failures.isEmpty⟩

end InputReport

namespace Report

def total : List InputReport → Nat
  | [] => 0
  | input :: rest => input.matching + total rest

def ofInputs (inputs : List InputReport) : Report :=
  let total := total inputs
  { status :=
      if inputs.any InputReport.failed then .failed
      else if total = 0 then .noMatch
      else .matched
    output := inputs.flatMap InputReport.output
    events := inputs.flatMap InputReport.events ++ [.total total] }

def ofReadings (settings : Settings) (regex : Regex) (readings : List (String × Reading)) :
    Report :=
  let severalInputs := 1 < readings.length
  ofInputs (readings.map fun (name, reading) =>
    .ofReading settings regex (if severalInputs then some name else none) name reading)

def ofDump (regex : Regex) : Report :=
  match regex.dump with
  | .ok text => { status := .matched, output := [text] }
  | .error problem => { status := .failed, output := [problem.message] }

end Report

namespace Request

/-- The inputs of a request: the standard input if no other is named. -/
def inputs (request : Request) : List String :=
  if request.files.isEmpty then [World.stdinName] else request.files

/-- What ends the program when the request is carried out: no file can have a null in its name. -/
def abort? (request : Request) : Option Abort :=
  match (Regex.compile request.config request.pattern).value with
  | .error _ => none
  | .ok _ =>
      if !request.settings.dump && request.files.any fun name => name.contains '\x00' then
        some .nullInName
      else none

def run (world : World) (request : Request) : Report :=
  let compiled := Regex.compile request.config request.pattern
  match compiled.value with
  | .error error =>
      { status := .failed,
        events := compiled.events ++ [.invalidPattern request.pattern error.message] }
  | .ok regex =>
      let report :=
        if request.settings.dump then Report.ofDump regex
        else Report.ofReadings request.settings regex (world.read request.inputs)
      { report with events := compiled.events ++ report.events }

end Request

end PatternMachine.CommandLine
