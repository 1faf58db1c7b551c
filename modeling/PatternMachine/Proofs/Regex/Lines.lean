import PatternMachine.Proofs.Program.Reports
import PatternMachine.Regex.Lines

/-!
# What a scan finds

A scan takes the lines of an input one by one. What it finds and what it reports are the matching
lines, the failed lines and the events of all its lines, in their order and each with its number.
-/

namespace PatternMachine

namespace Text

/-- Lines with their numbers, the first of which is given, and without the breaks behind them. -/
def numbered (number : Nat) (lines : List String) : List (Nat × String) :=
  (lines.zipIdx number).map fun entry => (entry.2, trimLineBreaks entry.1)

@[simp]
theorem numbered_nil (number : Nat) : numbered number [] = [] :=
  rfl

@[simp]
theorem numbered_cons (number : Nat) (line : String) (rest : List String) :
    numbered number (line :: rest) = (number, trimLineBreaks line) :: numbered (number + 1) rest :=
  rfl

end Text

namespace Regex

variable {regex : Regex}

def accepts (regex : Regex) (line : String) : Bool :=
  match (regex.searchLine line).value with
  | .ok found => found
  | .error _ => false

def fault? (regex : Regex) (line : String) : Option Fault :=
  match (regex.searchLine line).value with
  | .ok _ => none
  | .error fault => some fault

theorem accepts_iff {line : String} :
    regex.accepts line = true ↔ (regex.searchLine line).value = .ok true := by
  unfold accepts
  cases (regex.searchLine line).value <;> simp

theorem fault?_eq_some_iff {line : String} {fault : Fault} :
    regex.fault? line = some fault ↔ (regex.searchLine line).value = .error fault := by
  unfold fault?
  cases (regex.searchLine line).value <;> simp

theorem scanFrom_eq (regex : Regex) (number : Nat) (scan : LineScan) (lines : List String) :
    regex.scanFrom number scan lines =
      { matching := scan.matching.reverse ++
          (Text.numbered number lines).filter fun found => regex.accepts found.2
        failures := scan.failures.reverse ++
          (Text.numbered number lines).filterMap fun found =>
            (regex.fault? found.2).map fun fault => (found.1, fault)
        events := scan.events.reverse ++
          (Text.numbered number lines).flatMap fun found =>
            (regex.searchLine found.2).events } := by
  induction lines generalizing number scan with
  | nil => simp [scanFrom, LineScan.inOrder]
  | cons line rest ih =>
      rw [scanFrom, ih, LineScan.note, Text.numbered_cons]
      cases value : (regex.searchLine (Text.trimLineBreaks line)).value with
      | error fault => simp [accepts, fault?, value]
      | ok found => cases found <;> simp [accepts, fault?, value]

/-- A scan finds the lines that match and the lines that fail, and reports all searches. -/
theorem scan_eq (regex : Regex) (lines : List String) :
    regex.scan lines =
      { matching := (Text.numbered 1 lines).filter fun found => regex.accepts found.2
        failures := (Text.numbered 1 lines).filterMap fun found =>
          (regex.fault? found.2).map fun fault => (found.1, fault)
        events := (Text.numbered 1 lines).flatMap fun found =>
          (regex.searchLine found.2).events } :=
  regex.scanFrom_eq 1 {} lines

end Regex

/-! ## Events -/

namespace Machine

theorem severity_of_runLogged {machine : Machine} {strategy : Strategy} {text : Array Symbol}
    {event : Event} (mem : event ∈ (machine.runLogged strategy text).events) :
    event.severity = .debug := by
  unfold runLogged at mem
  split at mem
  · cases mem
  · obtain rfl := List.mem_singleton.mp mem
    rfl

theorem severity_of_searchAt {machine : Machine} {strategy : Strategy} {line : Array Symbol}
    {offsets : List Nat} {event : Event}
    (mem : event ∈ (machine.searchAt strategy line offsets).events) : event.severity = .debug := by
  induction offsets with
  | nil => cases mem
  | cons offset later ih =>
      simp only [searchAt] at mem
      split at mem
      · exact severity_of_runLogged mem
      · split at mem
        · rcases List.mem_append.mp mem with run | found
          · exact severity_of_runLogged run
          · obtain rfl := List.mem_singleton.mp found
            rfl
        · exact (List.mem_append.mp mem).elim severity_of_runLogged ih

end Machine

namespace Regex

variable {config : Config} {source : String} {event : Event}

theorem severity_of_scan {regex : Regex} {lines : List String}
    (mem : event ∈ (regex.scan lines).events) : event.severity = .debug := by
  rw [scan_eq] at mem
  obtain ⟨found, -, searched⟩ := List.mem_flatMap.mp mem
  exact Machine.severity_of_searchAt searched

theorem exists_mem_build (mem : event ∈ (compile config source).events) :
    ∃ pattern, Pattern.read source = .ok pattern ∧ event ∈ (pattern.build config).events := by
  unfold compile at mem
  split at mem
  · cases mem
  · rename_i pattern parsed
    refine ⟨pattern, parsed, ?_⟩
    simp only at mem
    split at mem <;> exact mem

theorem severity_of_compile (mem : event ∈ (compile config source).events) :
    event.severity ≠ .error := by
  obtain ⟨pattern, -, reported⟩ := exists_mem_build mem
  exact Pattern.severity_of_build reported

theorem exists_message_of_compile (mem : event ∈ (compile config source).events) :
    ∃ words, event.message = .ok words := by
  obtain ⟨pattern, parsed, reported⟩ := exists_mem_build mem
  exact Pattern.exists_message_of_build (Pattern.canonical_of_read parsed).writable reported

end Regex

end PatternMachine
