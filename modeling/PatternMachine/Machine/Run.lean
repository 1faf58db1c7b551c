import PatternMachine.Event
import PatternMachine.Machine.Breadth

/-!
# Runs

A run evaluates a program once from the start of a text, by the strategy asked for or else by
that of the configuration. A run that returns is reported.
-/

namespace PatternMachine

namespace Machine

def strategy (machine : Machine) (choice : Option Strategy) : Strategy :=
  choice.getD machine.config.strategy

def run (machine : Machine) (strategy : Strategy) (text : Array Symbol) : Except Fault Verdict :=
  match strategy with
  | .depthFirst => machine.runDepth text
  | .breadthFirst => machine.runBreadth text

def runLogged (machine : Machine) (strategy : Strategy) (text : Array Symbol) :
    Logged (Except Fault Verdict) :=
  match machine.run strategy text with
  | .error fault => ⟨[], .error fault⟩
  | .ok verdict => ⟨[.evaluated strategy text.size verdict], .ok verdict⟩

/--
Searches a line from the given offsets on, in order. The run at an offset sees only the rest of
the line, so one that relied on the start anchor counts only at offset zero. The first offset
that holds a match ends the search.
-/
def searchAt (machine : Machine) (strategy : Strategy) (line : Array Symbol) :
    List Nat → Logged (Except Fault Bool)
  | [] => ⟨[], .ok false⟩
  | offset :: later =>
      let attempt := machine.runLogged strategy (line.extract offset line.size)
      match attempt.value with
      | .error fault => ⟨attempt.events, .error fault⟩
      | .ok verdict =>
          if verdict.holdsAt offset then ⟨attempt.events ++ [.matchedAt offset], .ok true⟩
          else
            let rest := machine.searchAt strategy line later
            ⟨attempt.events ++ rest.events, rest.value⟩

/-- Whether the program matches anywhere in a line, its end included. -/
def matchLine (machine : Machine) (strategy : Strategy) (line : Array Symbol) :
    Logged (Except Fault Bool) :=
  machine.searchAt strategy line (List.range (line.size + 1))

end Machine

end PatternMachine
