import PatternMachine.CommandLine.Outcome
import PatternMachine.Proofs.Regex.Lines

/-!
# What the log says

Everything that is reported about a request has words, so that the log has a line for every event
that is to be shown. The lines of the log that speak of lines that could not be evaluated are those
of the events that say so, whatever else is shown.
-/

namespace PatternMachine

def Event.isEvaluationFailed : Event → Bool
  | .evaluationFailed _ _ _ => true
  | _ => false

/-- Where nothing is an error, nothing says that a line could not be evaluated. -/
theorem Event.filter_isEvaluationFailed {events : List Event}
    (minor : ∀ event ∈ events, event.severity ≠ .error) :
    events.filter isEvaluationFailed = [] := by
  refine List.filter_eq_nil_iff.mpr fun event mem failed => minor event mem ?_
  cases event <;> cases failed
  rfl

namespace CommandLine

/-! ## Words -/

namespace InputReport

theorem severity_of_ofReading {settings : Settings} {regex : Regex} {label : Option String}
    {name : String} {reading : Reading} {event : Event}
    (mem : event ∈ (ofReading settings regex label name reading).events) :
    event.severity ≠ .warning := by
  have scanned (mem : event ∈ (regex.scan reading.lines).events) :
      event.severity ≠ .warning := by
    rw [Regex.severity_of_scan mem]
    exact Severity.noConfusion
  obtain ⟨lines, problem⟩ := reading
  cases problem with
  | some problem =>
      rcases List.mem_append.mp mem with search | last
      · exact scanned search
      · obtain rfl := List.mem_singleton.mp last
        exact Severity.noConfusion
  | none =>
      rcases List.mem_append.mp mem with search | failure
      · exact scanned search
      · obtain ⟨_, -, rfl⟩ := List.mem_map.mp failure
        exact Severity.noConfusion

end InputReport

/-- All that is reported about a request has words. -/
theorem Request.exists_message_of_run {world : World} {request : Request} {event : Event}
    (mem : event ∈ (request.run world).events) : ∃ words, event.message = .ok words := by
  unfold run at mem
  simp only at mem
  split at mem
  · rcases List.mem_append.mp mem with compiling | last
    · exact Regex.exists_message_of_compile compiling
    · obtain rfl := List.mem_singleton.mp last
      exact ⟨_, rfl⟩
  · rename_i regex _
    rcases List.mem_append.mp mem with compiling | reported
    · exact Regex.exists_message_of_compile compiling
    · split at reported
      · unfold Report.ofDump at reported
        split at reported <;> cases reported
      · rcases List.mem_append.mp reported with input | total
        · obtain ⟨report, read, inside⟩ := List.mem_flatMap.mp input
          obtain ⟨entry, -, rfl⟩ := List.mem_map.mp read
          exact Event.exists_message (InputReport.severity_of_ofReading inside)
        · obtain rfl := List.mem_singleton.mp total
          exact ⟨_, rfl⟩

/-! ## Failures -/

/-- How the log begins to speak of a line that could not be evaluated. -/
def failureMark : String :=
  "[ERROR] bytere: evaluation failed at "

def speaksOfFailure (line : String) : Bool :=
  failureMark.toList.isPrefixOf line.toList

namespace Outcome

theorem isShown_of_isEvaluationFailed {event : Event} (failed : event.isEvaluationFailed = true)
    (verbosity : Nat) : isShown (threshold verbosity) event = true := by
  cases event <;> cases failed
  unfold threshold
  split <;> rfl

theorem speaksOfFailure_of_line? {event : Event} {line : String}
    (shown : line? event = some line) : speaksOfFailure line = event.isEvaluationFailed := by
  unfold line? at shown
  split at shown
  · cases shown
  · rename_i words written
    cases shown
    -- most events have another level than a failure, the others another first word
    cases event with
    | unreachableContent _ | generated _ _ _ _ | evaluated _ _ _ | matchedAt _ | total _ =>
        simp [speaksOfFailure, failureMark, tag_eq, Event.severity, Event.channel,
          Event.isEvaluationFailed, List.isPrefixOf]
    | invalidPattern _ _ | evaluationFailed _ _ _ | unreadable _ _ =>
        cases written
        simp [speaksOfFailure, failureMark, tag_eq, Event.severity, Event.channel,
          Event.isEvaluationFailed, List.isPrefixOf]

theorem line?_evaluationFailed (input : String) (number : Nat) (fault : Fault) :
    line? (.evaluationFailed input number fault) =
      some (failureMark ++ input ++ ":" ++ toString number ++ ": " ++ fault.message) := by
  simp only [line?, Event.message, Event.severity, Event.channel, tag_eq, Option.some.injEq]
  rw [← String.toList_inj]
  simp [failureMark]

/-- What the log says of failures are the lines of the failures that were reported. -/
theorem filter_log (verbosity : Nat) (events : List Event) :
    (log verbosity events).filter speaksOfFailure =
      (events.filter Event.isEvaluationFailed).filterMap line? := by
  rw [log, List.filter_filterMap, List.filterMap_filter, List.filterMap_filter]
  refine List.filterMap_congr fun event _ => ?_
  cases shown : line? event with
  | none => simp
  | some line =>
      have speaks := speaksOfFailure_of_line? shown
      cases failed : event.isEvaluationFailed with
      | false => simp [Option.filter, speaks, failed]
      | true =>
          simp [Option.filter, speaks, failed, isShown_of_isEvaluationFailed failed verbosity]

end Outcome

end CommandLine

end PatternMachine
