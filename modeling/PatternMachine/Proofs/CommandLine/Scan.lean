import PatternMachine.Proofs.CommandLine.Log

/-!
# What a command line reports

A request to scan inputs prints, counts and logs what the lines of the inputs give when each is
searched by itself, and its exit code tells whether anything failed or matched. Inputs are read
to their end or not at all.
-/

namespace PatternMachine

namespace Config

theorem checkedLimit_eq_ok {limit : Limit} {value : Int} {bound : Nat}
    (checked : checkedLimit limit value = .ok bound) : value = bound := by
  unfold checkedLimit at checked
  split at checked
  · cases checked
  · cases checked
    omega

theorem ofLimits_eq_ok {strategy : Strategy} {maxAddress maxOffset maxDepth : Int}
    {warnUnreachable : Bool} {config : Config}
    (made : ofLimits strategy maxAddress maxOffset maxDepth warnUnreachable = .ok config) :
    ∃ address offset depth : Nat, maxAddress = address ∧ maxOffset = offset ∧
      maxDepth = depth ∧ config = ⟨strategy, address, offset, depth, warnUnreachable⟩ := by
  unfold ofLimits at made
  split at made
  · cases made
  · rename_i address addressOk
    split at made
    · cases made
    · rename_i offset offsetOk
      split at made
      · cases made
      · rename_i depth depthOk
        cases made
        exact ⟨address, offset, depth, checkedLimit_eq_ok addressOk, checkedLimit_eq_ok offsetOk,
          checkedLimit_eq_ok depthOk, rfl⟩

end Config

namespace CommandLine

/-! ## What is to be reported -/

/-- An input that can be read: its name and its numbered lines. -/
structure Readable where
  name : String
  lines : List (Nat × String)

namespace Readable

def among (readings : List (String × Reading)) : List Readable :=
  (readings.filter fun entry => entry.2.problem.isNone).map fun entry =>
    ⟨entry.1, Text.numbered 1 entry.2.lines⟩

/-- The name of the input with a colon behind it, if there are several inputs. -/
def tag (several : Bool) (input : Readable) : String :=
  if several then input.name ++ ":" else ""

def printed (settings : Settings) (regex : Regex) (several : Bool) (input : Readable) :
    List String :=
  (input.lines.filter fun found => regex.accepts found.2).map fun found =>
    input.tag several ++
      (if settings.lineNumbers then toString found.1 ++ ":" else "") ++ found.2

/-- The number of lines that are printed if they are not only counted. -/
def counted (settings : Settings) (regex : Regex) (several : Bool) (input : Readable) : String :=
  input.tag several ++ toString (input.printed settings regex several).length

def failures (regex : Regex) (input : Readable) : List Event :=
  input.lines.filterMap fun found =>
    (regex.fault? found.2).map (.evaluationFailed (InputReport.place input.name) found.1)

end Readable

/-- The failed lines as the log names them: the input, the number of the line and the fault. -/
def Readable.failureLines (regex : Regex) (input : Readable) : List String :=
  input.lines.filterMap fun found =>
    (regex.fault? found.2).map fun fault =>
      failureMark ++ InputReport.place input.name ++ ":" ++ toString found.1 ++ ": " ++
        fault.message

def scanOutput (settings : Settings) (regex : Regex) (several : Bool)
    (readings : List (String × Reading)) : List String :=
  if settings.countOnly then
    (Readable.among readings).map (Readable.counted settings regex several)
  else (Readable.among readings).flatMap (Readable.printed settings regex several)

def scanCode (regex : Regex) (readings : List (String × Reading)) : Nat :=
  if readings.any (fun entry => entry.2.problem.isSome) ||
      (Readable.among readings).any fun input =>
        input.lines.any fun found => (regex.fault? found.2).isSome then 2
  else if (Readable.among readings).any fun input =>
      input.lines.any fun found => regex.accepts found.2 then 0
  else 1

/-- Each input was read to its end or not at all. -/
inductive AllOrNothing : List (String × Reading) → Prop where
  | nil : AllOrNothing []
  | readable (name : String) (lines : List String) {rest : List (String × Reading)}
      (whole : AllOrNothing rest) : AllOrNothing ((name, ⟨lines, none⟩) :: rest)
  | unreadable (name problem : String) {rest : List (String × Reading)}
      (whole : AllOrNothing rest) : AllOrNothing ((name, ⟨[], some problem⟩) :: rest)

theorem allOrNothing_iff {readings : List (String × Reading)} :
    AllOrNothing readings ↔
      ∀ entry ∈ readings, entry.2.problem = none ∨ entry.2.lines = [] := by
  constructor
  · intro whole
    induction whole with
    | nil => exact fun entry mem => absurd mem List.not_mem_nil
    | readable name lines _ ih => exact List.forall_mem_cons.mpr ⟨.inl rfl, ih⟩
    | unreadable name problem _ ih => exact List.forall_mem_cons.mpr ⟨.inr rfl, ih⟩
  · intro whole
    induction readings with
    | nil => exact .nil
    | cons entry rest ih =>
        obtain ⟨here, later⟩ := List.forall_mem_cons.mp whole
        obtain ⟨name, lines, problem⟩ := entry
        cases problem with
        | none => exact .readable name lines (ih later)
        | some problem =>
            obtain rfl : lines = [] := here.resolve_left (Option.some_ne_none problem)
            exact .unreadable name problem (ih later)

/-! ## Single inputs -/

namespace InputReport

theorem labelled_eq (several : Bool) (input : Readable) (text : String) :
    labelled (if several then some input.name else none) text = input.tag several ++ text := by
  cases several
  · exact String.empty_append.symm
  · rfl

theorem printed_eq (settings : Settings) (several : Bool) (input : Readable)
    (found : Nat × String) :
    printed settings (if several then some input.name else none) found =
      input.tag several ++
        (if settings.lineNumbers then toString found.1 ++ ":" else "") ++ found.2 := by
  rw [printed, labelled_eq]
  split
  · simp only [String.append_assoc]
  · rw [String.append_empty]

/-- What the scan of an entry of the readings adds to the report. -/
def ofEntry (settings : Settings) (regex : Regex) (several : Bool) (entry : String × Reading) :
    InputReport :=
  ofReading settings regex (if several then some entry.1 else none) entry.1 entry.2

theorem ofEntry_readable (settings : Settings) (regex : Regex) (several : Bool) (name : String)
    (lines : List String) :
    let input : Readable := ⟨name, Text.numbered 1 lines⟩
    ofEntry settings regex several (name, ⟨lines, none⟩) =
      { output := if settings.countOnly then [input.counted settings regex several]
          else input.printed settings regex several
        events := (regex.scan lines).events ++ input.failures regex
        matching := (input.lines.filter fun found => regex.accepts found.2).length
        failed := input.lines.any fun found => (regex.fault? found.2).isSome } := by
  intro input
  have failures : ((regex.scan lines).failures.map fun failure =>
      Event.evaluationFailed (place name) failure.1 failure.2) = input.failures regex := by
    simp only [Regex.scan_eq, List.map_filterMap, Option.map_map]
    rfl
  have failed : (!(regex.scan lines).failures.isEmpty) =
      input.lines.any fun found => (regex.fault? found.2).isSome := by
    rw [Bool.eq_iff_iff, Bool.not_eq_true', List.isEmpty_eq_false_iff, Regex.scan_eq]
    simp [input, List.filterMap_eq_nil_iff, Option.isSome_iff_ne_none]
  have printed : (regex.scan lines).matching.map
      (printed settings (if several then some name else none)) =
        input.printed settings regex several := by
    rw [Regex.scan_eq]
    exact List.map_congr_left fun found _ => printed_eq settings several input found
  have counted : labelled (if several then some name else none)
      (toString (regex.scan lines).matching.length) = input.counted settings regex several := by
    rw [Readable.counted, ← printed, List.length_map]
    exact labelled_eq several input _
  simp only [ofEntry, ofReading, failures, failed, printed, counted]
  cases settings.countOnly <;> simp [Regex.scan_eq, input]

theorem ofEntry_unreadable (settings : Settings) (regex : Regex) (several : Bool)
    (name problem : String) :
    ofEntry settings regex several (name, ⟨[], some problem⟩) =
      ⟨[], [.unreadable name problem], 0, true⟩ := by
  simp [ofEntry, ofReading, Regex.scan_eq]

end InputReport

/-! ## All inputs -/

/-- The events of a scan do not speak of failures; these are added behind. -/
theorem filter_scan_events (regex : Regex) (lines : List String) :
    (regex.scan lines).events.filter Event.isEvaluationFailed = [] := by
  refine Event.filter_isEvaluationFailed fun event mem => ?_
  rw [Regex.severity_of_scan mem]
  exact Severity.noConfusion

namespace Readable

theorem filter_failures (regex : Regex) (input : Readable) :
    (input.failures regex).filter Event.isEvaluationFailed = input.failures regex := by
  rw [List.filter_eq_self]
  intro event mem
  obtain ⟨found, -, failed⟩ := List.mem_filterMap.mp mem
  obtain ⟨fault, -, rfl⟩ := Option.map_eq_some_iff.mp failed
  rfl

variable {name problem : String} {lines : List String} {rest : List (String × Reading)}

@[simp]
theorem among_nil : among [] = [] :=
  rfl

@[simp]
theorem among_cons_readable :
    among ((name, ⟨lines, none⟩) :: rest) = ⟨name, Text.numbered 1 lines⟩ :: among rest :=
  rfl

@[simp]
theorem among_cons_unreadable :
    among ((name, ⟨lines, some problem⟩) :: rest) = among rest :=
  rfl

end Readable

section Readings

variable {readings : List (String × Reading)}
  (whole : AllOrNothing readings) (settings : Settings) (regex : Regex)
  (several : Bool)
include whole

theorem flatMap_output_eq :
    (readings.map (InputReport.ofEntry settings regex several)).flatMap InputReport.output =
      scanOutput settings regex several readings := by
  unfold scanOutput
  induction whole with
  | nil => simp
  | readable name lines _ ih =>
      rw [List.map_cons, List.flatMap_cons, ih, InputReport.ofEntry_readable]
      split <;> simp
  | unreadable name problem _ ih =>
      rw [List.map_cons, List.flatMap_cons, ih, InputReport.ofEntry_unreadable]
      simp

/-- Something failed if an input was not read or a line of another one failed. -/
theorem any_failed_eq :
    (readings.map (InputReport.ofEntry settings regex several)).any InputReport.failed =
      (readings.any (fun entry => entry.2.problem.isSome) ||
        (Readable.among readings).any fun input =>
          input.lines.any fun found => (regex.fault? found.2).isSome) := by
  induction whole with
  | nil => rfl
  | readable name lines _ ih =>
      rw [List.map_cons, List.any_cons, ih, InputReport.ofEntry_readable]
      simp [Bool.or_left_comm]
  | unreadable name problem _ ih =>
      rw [List.map_cons, List.any_cons, ih, InputReport.ofEntry_unreadable]
      simp

theorem total_eq_zero_iff :
    Report.total (readings.map (InputReport.ofEntry settings regex several)) = 0 ↔
      (Readable.among readings).any
        (fun input => input.lines.any fun found => regex.accepts found.2) = false := by
  induction whole with
  | nil => simp [Report.total]
  | readable name lines _ ih =>
      rw [List.map_cons, Report.total, Nat.add_eq_zero_iff, ih, InputReport.ofEntry_readable]
      simp
  | unreadable name problem _ ih =>
      rw [List.map_cons, Report.total, Nat.add_eq_zero_iff, ih, InputReport.ofEntry_unreadable]
      simp

/-- The failed lines that are logged are those of the inputs that were read. -/
theorem filter_events_eq :
    ((readings.map (InputReport.ofEntry settings regex several)).flatMap
        InputReport.events).filter Event.isEvaluationFailed =
      (Readable.among readings).flatMap (Readable.failures regex) := by
  induction whole with
  | nil => rfl
  | readable name lines _ ih =>
      rw [List.map_cons, List.flatMap_cons, List.filter_append, ih,
        InputReport.ofEntry_readable, List.filter_append, filter_scan_events, List.nil_append,
        Readable.filter_failures, Readable.among_cons_readable, List.flatMap_cons]
  | unreadable name problem _ ih =>
      rw [List.map_cons, List.flatMap_cons, List.filter_append, ih,
        InputReport.ofEntry_unreadable]
      rfl

theorem code_eq_scanCode :
    (Report.ofInputs (readings.map (InputReport.ofEntry settings regex several))).status.code =
      scanCode regex readings := by
  simp only [Report.ofInputs, scanCode, any_failed_eq whole]
  split
  · rfl
  · by_cases none : Report.total
        (readings.map (InputReport.ofEntry settings regex several)) = 0
    · rw [if_pos none, (total_eq_zero_iff whole settings regex several).mp none]
      rfl
    · rw [if_neg none, if_pos (eq_true_of_ne_false
        (mt (total_eq_zero_iff whole settings regex several).mpr none))]
      rfl

end Readings

theorem Report.ofReadings_eq (settings : Settings) (regex : Regex)
    (readings : List (String × Reading)) :
    ofReadings settings regex readings =
      ofInputs (readings.map (InputReport.ofEntry settings regex (1 < readings.length))) := by
  unfold ofReadings
  refine congrArg ofInputs (List.map_congr_left fun entry _ => ?_)
  simp only [InputReport.ofEntry, decide_eq_true_eq]

/-! ## Command lines -/

namespace World

theorem map_fst_read (world : World) (names : List String) :
    (world.read names).map Prod.fst = names := by
  induction names generalizing world with
  | nil => rfl
  | cons name rest ih =>
      rw [read]
      split
      · exact congrArg (name :: ·) (ih _)
      · exact congrArg (name :: ·) (ih world)

end World

namespace Settings

theorem config_eq_ok {settings : Settings} {config : Config}
    (configured : settings.config = .ok config) :
    ∃ (strategy : Strategy) (depth : Nat), settings.strategy = some strategy ∧
      settings.maxDepth = some (depth : Int) ∧
      config = { strategy := strategy, maxDepth := depth } := by
  unfold Settings.config at configured
  split at configured
  · cases configured
  · cases configured
  · rename_i strategy depth chosen limited
    simp only at configured
    split at configured
    · cases configured
    · rename_i made
      cases configured
      obtain ⟨address, offset, bound, addressEq, offsetEq, rfl, rfl⟩ :=
        Config.ofLimits_eq_ok made
      refine ⟨strategy, bound, chosen, limited, ?_⟩
      rw [← Int.ofNat_inj.mp addressEq, ← Int.ofNat_inj.mp offsetEq]

end Settings

namespace Request

variable {world : World} {words : List String} {request : Request}

theorem config_of_ofWords (parsed : ofWords words = .ok request) :
    request.settings.config = .ok request.config := by
  unfold ofWords at parsed
  split at parsed
  · cases parsed
  · split at parsed
    · cases parsed
    · split at parsed
      · cases parsed
      · cases parsed
      · split at parsed
        · cases parsed
        · rename_i configured
          cases parsed
          exact configured

theorem abort?_eq_none (named : ∀ name ∈ request.files, '\x00' ∉ name.toList) :
    request.abort? = none := by
  unfold abort?
  split
  · rfl
  · have none : (request.files.any fun name => name.contains '\x00') = false :=
      List.any_eq_false.mpr fun name mem => by simpa using named name mem
    rw [none, Bool.and_false]
    rfl

theorem run_of_error (world : World) {error : CompileError}
    (failed : (Regex.compile request.config request.pattern).value = .error error) :
    ∃ events, request.run world = { status := .failed, events := events } := by
  simp only [run, failed]
  exact ⟨_, rfl⟩

/-- A scan reports what its inputs give, behind the events of compiling. -/
theorem run_of_ok {regex : Regex} (scans : request.settings.dump = false)
    (compiled : (Regex.compile request.config request.pattern).value = .ok regex) :
    let inputs := (world.read request.inputs).map
      (InputReport.ofEntry request.settings regex (1 < request.inputs.length))
    request.run world =
      { Report.ofInputs inputs with
        events := (Regex.compile request.config request.pattern).events ++
          (Report.ofInputs inputs).events } := by
  have several : (world.read request.inputs).length = request.inputs.length := by
    rw [← List.length_map Prod.fst, World.map_fst_read]
  simp only [run, compiled, scans, Report.ofReadings_eq, several]
  rfl

theorem run_scan {regex : Regex} (scans : request.settings.dump = false)
    (compiled : (Regex.compile request.config request.pattern).value = .ok regex)
    (whole : AllOrNothing (world.read request.inputs)) :
    (request.run world).status.code = scanCode regex (world.read request.inputs) ∧
    (request.run world).output = scanOutput request.settings regex
      (1 < request.inputs.length) (world.read request.inputs) ∧
    (request.run world).events.filter Event.isEvaluationFailed =
      (Readable.among (world.read request.inputs)).flatMap (Readable.failures regex) := by
  rw [run_of_ok scans compiled]
  refine ⟨code_eq_scanCode whole _ _ _, flatMap_output_eq whole _ _ _, ?_⟩
  have none : (Regex.compile request.config request.pattern).events.filter
      Event.isEvaluationFailed = [] :=
    Event.filter_isEvaluationFailed fun _ => Regex.severity_of_compile
  simp only [Report.ofInputs, List.filter_append, none, filter_events_eq whole]
  exact List.append_nil _

end Request

namespace Outcome

variable {world : World} {words : List String} {request : Request}

theorem filterMap_failures (regex : Regex) (inputs : List Readable) :
    (inputs.flatMap (Readable.failures regex)).filterMap line? =
      inputs.flatMap (Readable.failureLines regex) := by
  rw [List.filterMap_flatMap]
  refine List.flatMap_congr fun input _ => ?_
  rw [Readable.failures, Readable.failureLines, List.filterMap_filterMap]
  refine List.filterMap_congr fun found _ => ?_
  cases regex.fault? found.2 with
  | none => rfl
  | some fault => exact line?_evaluationFailed _ _ _

theorem ofWords_eq_ofReport (clock : Nat → String)
    (parsed : Request.ofWords words = .ok request)
    (named : ∀ name ∈ request.files, '\x00' ∉ name.toList) :
    ofWords clock world words =
      ofReport clock request.settings.verbosity (request.run world) := by
  simp only [ofWords, parsed, Request.abort?_eq_none named]

/--
A command line that asks for a scan, of inputs that can be read to their end or not at all, reports
exactly what was scanned. A pattern that cannot be compiled gives the exit code for failures and
prints nothing. Otherwise the exit code and what is printed are those of the lines, input by input.
The log has a line for every event that is to be shown, each behind its time, and those of its lines
that speak of failures name the failed lines of the inputs that were read, in their order and each
once.
-/
theorem ofWords_scan (clock : Nat → String) (parsed : Request.ofWords words = .ok request)
    (scans : request.settings.dump = false)
    (named : ∀ name ∈ request.files, '\x00' ∉ name.toList)
    (whole : ∀ entry ∈ world.read request.inputs,
      entry.2.problem = none ∨ entry.2.lines = []) :
    (∃ (strategy : Strategy) (depth : Nat), request.settings.strategy = some strategy ∧
      request.settings.maxDepth = some (depth : Int) ∧
      request.config = { strategy := strategy, maxDepth := depth }) ∧
    (world.read request.inputs).map Prod.fst = request.inputs ∧
    (∀ error, (Regex.compile request.config request.pattern).value = .error error →
      ∃ stderr, ofWords clock world words = .done 2 "" stderr) ∧
    (∀ event ∈ (request.run world).events, ∃ words, event.message = .ok words) ∧
    ∀ regex, (Regex.compile request.config request.pattern).value = .ok regex →
      ofWords clock world words =
        .done (scanCode regex (world.read request.inputs))
          (textOf (scanOutput request.settings regex (1 < request.inputs.length)
            (world.read request.inputs)))
          (textOf ((log request.settings.verbosity (request.run world).events).mapIdx
            fun index line => clock index ++ " " ++ line)) ∧
      (log request.settings.verbosity (request.run world).events).filter speaksOfFailure =
        (Readable.among (world.read request.inputs)).flatMap (Readable.failureLines regex) := by
  have whole := allOrNothing_iff.mpr whole
  refine ⟨Settings.config_eq_ok (Request.config_of_ofWords parsed), world.map_fst_read _,
    fun error failed => ?_, fun event => Request.exists_message_of_run, fun regex compiled => ?_⟩
  · obtain ⟨events, ran⟩ := Request.run_of_error world failed
    rw [ofWords_eq_ofReport clock parsed named, ran]
    exact ⟨_, rfl⟩
  · obtain ⟨code, output, failures⟩ := Request.run_scan scans compiled whole
    rw [ofWords_eq_ofReport clock parsed named, ofReport, code, output, filter_log, failures,
      filterMap_failures]
    exact ⟨rfl, rfl⟩

/-- A file with the lines `b` and `ab`, no other file, and the line `cb` in the standard input. -/
def twoSources : World where
  file name := if name = "x" then .content [98, 10, 97, 98, 10] else .missing
  stdin := .ofBytes [99, 98, 10]

/-- A clock that moves on by a second from line to line. -/
def everySecond (index : Nat) : String :=
  "12:00:0" ++ toString index

theorem ofWords_scan_twoSources :
    ∃ request, Request.ofWords ["-n", "--max-depth", "1", "a*b", "x", "y", "-"] = .ok request ∧
      request.settings.dump = false ∧
      (∀ name ∈ request.files, '\x00' ∉ name.toList) ∧
      (∀ entry ∈ twoSources.read request.inputs,
        entry.2.problem = none ∨ entry.2.lines = []) ∧
      ofWords everySecond twoSources ["-n", "--max-depth", "1", "a*b", "x", "y", "-"] =
        .done 2 "x:1:b\n-:1:cb\n" (textOf
          ["12:00:00 [ERROR] bytere: evaluation failed at x:2: recursion limit exceeded at pc 0",
            "12:00:01 [ERROR] bytere: cannot read y: [Errno 2] No such file or directory: 'y'"]) ∧
      (log 0 (request.run twoSources).events).filter speaksOfFailure =
        ["[ERROR] bytere: evaluation failed at x:2: recursion limit exceeded at pc 0"] := by
  let request : Request :=
    ⟨{ lineNumbers := true, maxDepth := some 1 }, { maxDepth := 1 }, "a*b", ["x", "y", "-"]⟩
  have parsed : Request.ofWords ["-n", "--max-depth", "1", "a*b", "x", "y", "-"] =
      .ok request := by rfl
  have named : ∀ name ∈ request.files, '\x00' ∉ name.toList := by decide +kernel
  have whole : ∀ entry ∈ twoSources.read request.inputs,
      entry.2.problem = none ∨ entry.2.lines = [] := by decide +kernel
  let star : Pattern := .sequence [.repetition .zeroOrMore (.literal "a"), .literal "b"]
  let regex : Regex := ⟨"a*b", star,
    ⟨#[.split 1 3, .literal "a", .jump 0, .literal "b", .accept]⟩, { maxDepth := 1 }⟩
  have compiled : (Regex.compile { maxDepth := 1 } "a*b").value = .ok regex := by rfl
  obtain ⟨-, -, -, -, scanned⟩ := ofWords_scan everySecond parsed rfl named whole
  obtain ⟨outcome, failures⟩ := scanned regex compiled
  have code : scanCode regex (twoSources.read request.inputs) = 2 := by decide +kernel
  have output : scanOutput request.settings regex (1 < request.inputs.length)
      (twoSources.read request.inputs) = ["x:1:b", "-:1:cb"] := by decide +kernel
  have logged : log request.settings.verbosity (request.run twoSources).events =
      ["[ERROR] bytere: evaluation failed at x:2: recursion limit exceeded at pc 0",
        "[ERROR] bytere: cannot read y: [Errno 2] No such file or directory: 'y'"] := by
    decide +kernel
  have failed : (Readable.among (twoSources.read request.inputs)).flatMap
      (Readable.failureLines regex) =
        ["[ERROR] bytere: evaluation failed at x:2: recursion limit exceeded at pc 0"] := by
    decide +kernel
  rw [code, output, logged] at outcome
  exact ⟨request, parsed, rfl, named, whole, outcome, failures.trans failed⟩

end Outcome

end CommandLine

end PatternMachine
