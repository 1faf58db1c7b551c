import PatternMachine.Pattern.Basic

/-!
# Reading patterns

A pattern is read in one pass from left to right. The reader keeps, for every group that is
still open, the items of the branch being read and the branches already closed; quantifiers apply
to the last item, a bar closes the branch, a right parenthesis puts the finished group behind the
items of the level around it. Empty groups and a bar before the end of a group leave nothing.

Each operation either succeeds or leaves the reader as it was.
-/

namespace PatternMachine

inductive ReadReason where
  | invalidEscape
  | invalidRightParenthesis
  | noPrevious
  | noRightParenthesis
  | empty
  | trailingEscape
  deriving DecidableEq

namespace ReadReason

def text : ReadReason → String
  | .invalidEscape => "invalid escape"
  | .invalidRightParenthesis => "invalid right parenthesis"
  | .noPrevious => "no previous expression"
  | .noRightParenthesis => "no right parenthesis"
  | .empty => "empty expression"
  | .trailingEscape => "trailing escape"

end ReadReason

/-- A reason with the place and the symbol to blame; a negative position is none. -/
structure ReadError where
  reason : ReadReason
  position : Int := -1
  symbol : Option Symbol := none
  deriving DecidableEq

namespace ReadError

/-- The error in words: the reason, then the symbol and the place as far as they are known. -/
def message (error : ReadError) : String :=
  let symbol :=
    match error.symbol with
    | some s => " " ++ Text.quote s
    | none => ""
  let place := if error.position < 0 then "" else " at position " ++ toString error.position
  error.reason.text ++ symbol ++ place

end ReadError

/-- One level of nesting: the items of the open branch and the closed branches, newest first. -/
structure Level where
  items : List Pattern := []
  branches : List Pattern := []
  deriving DecidableEq

namespace Level

def push (item : Pattern) (level : Level) : Level :=
  { level with items := item :: level.items }

/-- Closes the open branch if it holds an item. -/
def closeBranch (level : Level) : Level :=
  match level.items with
  | [] => level
  | items => ⟨[], .sequence items.reverse :: level.branches⟩

end Level

/-- The alternatives as one tree, nested to the right so that the first is preferred. -/
def Pattern.ofBranches : List Pattern → Option Pattern
  | [] => none
  | first :: rest =>
      match ofBranches rest with
      | none => some first
      | some others => some (.alternative first others)

/-- The level being read and the levels around it, innermost first. -/
structure Reader where
  level : Level := {}
  outer : List Level := []
  deriving DecidableEq

namespace Reader

/-- The characters that may follow a backslash. -/
def escapable : List Char :=
  ['\\', '(', ')', '|', '+', '*', '?', '.', '^', '$']

def push (item : Pattern) (reader : Reader) : Reader :=
  { reader with level := reader.level.push item }

def escape (position : Int) (symbol : Symbol) (reader : Reader) : Except ReadError Reader :=
  if escapable.any (fun c => symbol = String.ofList [c]) then .ok (reader.push (.literal symbol))
  else .error { reason := .invalidEscape, position := position, symbol := some symbol }

theorem escape_character (position : Int) (c : Char) (reader : Reader) :
    reader.escape position (String.ofList [c]) =
      if c ∈ escapable then .ok (reader.push (.literal (String.ofList [c])))
      else .error ⟨.invalidEscape, position, some (String.ofList [c])⟩ := by
  have special : escapable.any (fun d => String.ofList [c] = String.ofList [d]) = true ↔
      c ∈ escapable := by simp
  unfold escape
  simp only [special]

def quantify (position : Int) (quantifier : Quantifier) (reader : Reader) :
    Except ReadError Reader :=
  match reader.level.items with
  | [] => .error { reason := .noPrevious, position := position }
  | last :: items =>
      .ok { reader with level.items := .repetition quantifier last :: items }

def closeBranch (reader : Reader) : Reader :=
  { reader with level := reader.level.closeBranch }

/-- Ends a branch that must not be empty. -/
def bar (position : Int) (reader : Reader) : Except ReadError Reader :=
  match reader.level.items with
  | [] => .error { reason := .noPrevious, position := position }
  | _ :: _ => .ok reader.closeBranch

def openGroup (reader : Reader) : Reader :=
  ⟨{}, reader.level :: reader.outer⟩

/-- Ends a group and makes it an item of the level around it; an empty group leaves no item. -/
def closeGroup (position : Int) (reader : Reader) : Except ReadError Reader :=
  match reader.outer with
  | [] => .error { reason := .invalidRightParenthesis, position := position }
  | level :: outer =>
      match Pattern.ofBranches reader.level.closeBranch.branches.reverse with
      | none => .ok ⟨level, outer⟩
      | some group => .ok ⟨level.push group, outer⟩

/-- Reads one character that follows no backslash and is none. -/
def character (position : Nat) (c : Char) (reader : Reader) : Except ReadError Reader :=
  match c with
  | '+' => reader.quantify position .oneOrMore
  | '*' => reader.quantify position .zeroOrMore
  | '?' => reader.quantify position .zeroOrOne
  | '(' => .ok reader.openGroup
  | ')' => reader.closeGroup position
  | '|' => reader.bar position
  | '.' => .ok (reader.push .wildcard)
  | '^' => .ok (reader.push .lineStart)
  | '$' => .ok (reader.push .lineEnd)
  | c => .ok (reader.push (.literal (String.ofList [c])))

/-- Where a scan stopped: the reader there and the error or the pending backslash. -/
structure Scanned where
  reader : Reader
  result : Except ReadError (Option Nat)

/--
Reads characters from a position on. A backslash at position `pending` makes the next character
an escape.
-/
def scan (position : Nat) (pending : Option Nat) : List Char → Reader → Scanned
  | [], reader => ⟨reader, .ok pending⟩
  | c :: rest, reader =>
      match pending with
      | some _ =>
          match reader.escape position (String.ofList [c]) with
          | .error error => ⟨reader, .error error⟩
          | .ok next => scan (position + 1) none rest next
      | none =>
          if c = '\\' then scan (position + 1) (some position) rest reader
          else
            match reader.character position c with
            | .error error => ⟨reader, .error error⟩
            | .ok next => scan (position + 1) none rest next

/-- The tree of all that was read, if no group is open and there is something to match. -/
def finish (reader : Reader) : Except ReadError Pattern :=
  match reader.outer with
  | _ :: _ => .error { reason := .noRightParenthesis }
  | [] =>
      match Pattern.ofBranches reader.level.closeBranch.branches.reverse with
      | none => .error { reason := .empty }
      | some pattern => .ok pattern

/-- Reads a whole pattern on top of what was read before; an error leaves the reader there. -/
def readAll (source : String) (reader : Reader) : Reader × Except ReadError Pattern :=
  let scanned := scan 0 none source.toList reader
  match scanned.result with
  | .error error => (scanned.reader, .error error)
  | .ok (some position) =>
      (scanned.reader, .error { reason := .trailingEscape, position := position })
  | .ok none =>
      match scanned.reader.finish with
      | .error error => (scanned.reader, .error error)
      | .ok pattern => (scanned.reader.closeBranch, .ok pattern)

end Reader

namespace Pattern

def read (source : String) : Except ReadError Pattern :=
  (Reader.readAll source {}).2

end Pattern

end PatternMachine
