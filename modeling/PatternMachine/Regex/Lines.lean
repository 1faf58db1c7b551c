import PatternMachine.Regex.Basic

/-!
# Matching lines

The lines of an input are numbered from one and searched in order, each without the line breaks
at its end. A line whose evaluation fails is either noted, and the scan goes on, or ends the scan.
-/

namespace PatternMachine

namespace Text

def isLineBreak (c : Char) : Bool :=
  c == '\n' || c == '\r'

/-- A line without the line breaks at its end. -/
def trimLineBreaks (line : String) : String :=
  String.ofList (line.toList.reverse.dropWhile isLineBreak).reverse

end Text

/-- The lines of an input that match and the lines whose evaluation failed, with their numbers. -/
structure LineScan where
  matching : List (Nat × String) := []
  failures : List (Nat × Fault) := []
  events : List Event := []

/-- The lines that match before the first failure, and that failure. -/
structure StrictScan where
  matching : List (Nat × String) := []
  failure : Option (Nat × Fault) := none
  events : List Event := []

namespace LineScan

/-- Takes note of a line that was searched; all lists are kept with the newest entry first. -/
def note (scan : LineScan) (number : Nat) (text : String) (search : Logged (Except Fault Bool)) :
    LineScan :=
  let events := search.events.reverse ++ scan.events
  match search.value with
  | .error fault => ⟨scan.matching, (number, fault) :: scan.failures, events⟩
  | .ok true => ⟨(number, text) :: scan.matching, scan.failures, events⟩
  | .ok false => ⟨scan.matching, scan.failures, events⟩

def inOrder (scan : LineScan) : LineScan :=
  ⟨scan.matching.reverse, scan.failures.reverse, scan.events.reverse⟩

end LineScan

namespace Regex

def searchLine (regex : Regex) (line : String) : Logged (Except Fault Bool) :=
  regex.matchLine none (symbols line)

def scanFrom (regex : Regex) (number : Nat) (scan : LineScan) : List String → LineScan
  | [] => scan.inOrder
  | line :: rest =>
      let text := Text.trimLineBreaks line
      regex.scanFrom (number + 1) (scan.note number text (regex.searchLine text)) rest

def scan (regex : Regex) (lines : List String) : LineScan :=
  regex.scanFrom 1 {} lines

/-- Goes on with a scan at the line with the given number, up to the first failure. -/
def strictScanFrom (regex : Regex) (number : Nat) (scan : LineScan) : List String → StrictScan
  | [] =>
      let done := scan.inOrder
      ⟨done.matching, none, done.events⟩
  | line :: rest =>
      let text := Text.trimLineBreaks line
      let search := regex.searchLine text
      let next := scan.note number text search
      match search.value with
      | .error fault =>
          let done := next.inOrder
          ⟨done.matching, some (number, fault), done.events⟩
      | .ok _ => regex.strictScanFrom (number + 1) next rest

def strictScan (regex : Regex) (lines : List String) : StrictScan :=
  regex.strictScanFrom 1 {} lines

end Regex

end PatternMachine
