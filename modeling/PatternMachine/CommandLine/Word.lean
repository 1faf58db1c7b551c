import PatternMachine.CommandLine.Option
import PatternMachine.Text.DecimalDigit

/-!
# Words of a command line

Each word of a command line is an option, a plain word, or the separator that makes all later
words plain. A long option may be shortened as long as only one option begins so, and may carry a
value behind an equals sign. What follows a short option, with an equals sign between them or
without, is attached to it. A word that begins with a dash but looks like a negative number or
holds a space is plain.
-/

namespace PatternMachine.CommandLine

inductive Word where
  | plain (text : String)
  | separator
  /-- An option, spelled with a single dash or not, and the text attached to it. -/
  | option (switch : Switch) (short : Bool) (attached : Option (List Char))
  /-- A word that looks like an option but is none. -/
  | unknown (text : String)
  deriving DecidableEq

namespace Word

/-- The characters before the first equals sign, and those after it if there is one. -/
def cutAtEquals : List Char → List Char × Option (List Char)
  | [] => ([], none)
  | c :: rest =>
      if c = '=' then ([], some rest)
      else
        let (name, value) := cutAtEquals rest
        (c :: name, value)

/-- A row of one or more digits. -/
def isDigits (text : List Char) : Bool :=
  !text.isEmpty && text.all Text.isDecimalDigit

/-- A minus and digits, with a point before the last digits or without; a line feed may follow. -/
def isNegativeNumber (word : List Char) : Bool :=
  match word with
  | '-' :: digits =>
      let digits := if digits.getLast? = some '\n' then digits.dropLast else digits
      let whole := digits.takeWhile Text.isDecimalDigit
      match digits.drop whole.length with
      | [] => !whole.isEmpty
      | '.' :: fraction => isDigits fraction
      | _ :: _ => false
  | _ => false

/-- The options that a word may mean though it is no spelling, each with its spelling. -/
def candidates (word : List Char) : List (String × Word) :=
  match word with
  | '-' :: '-' :: _ =>
      let (name, value) := cutAtEquals word
      (Switch.spellings.filter fun entry => name.isPrefixOf entry.1.toList).map fun entry =>
        (entry.1, .option entry.2 false value)
  | '-' :: letter :: rest =>
      (Switch.spellings.filter fun entry => entry.1.toList = ['-', letter]).map fun entry =>
        (entry.1, .option entry.2 true (some rest))
  | _ => []

/-- The option that a spelling with a value behind an equals sign means. -/
def withValue? (word : List Char) : Option Word :=
  match cutAtEquals word with
  | (_, none) => none
  | (name, some value) =>
      (Switch.ofSpelling? (String.ofList name)).map fun switch =>
        .option switch (name.length = 2) (some value)

/-- What a word other than the separator is. -/
def classify (word : String) : Except UsageError Word :=
  let text := word.toList
  if text.head? ≠ some '-' then .ok (.plain word)
  else
    match Switch.ofSpelling? word with
    | some switch => .ok (.option switch (text.length = 2) none)
    | none =>
        if text.length = 1 then .ok (.plain word)
        else
          match withValue? text with
          | some meant => .ok meant
          | none =>
              match candidates text with
              | [(_, meant)] => .ok meant
              | [] =>
                  if isNegativeNumber text || text.contains ' ' then .ok (.plain word)
                  else .ok (.unknown word)
              | several => .error (.ambiguous word (several.map Prod.fst))

/-- What the words of a command line are; the first ambiguous one decides. -/
def classifyAll : List String → Except UsageError (List Word)
  | [] => .ok []
  | word :: rest =>
      if word = "--" then .ok (.separator :: rest.map .plain)
      else
        match classify word with
        | .error error => .error error
        | .ok first =>
            match classifyAll rest with
            | .error error => .error error
            | .ok words => .ok (first :: words)

end Word

end PatternMachine.CommandLine
