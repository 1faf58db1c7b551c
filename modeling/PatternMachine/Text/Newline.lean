/-!
# Lines

A line ends with a line feed, a carriage return, or a carriage return and a line feed. Nothing
else ends a line. What follows the last end is a line only if it is not empty.
-/

namespace PatternMachine.Text

/-- The lines that ended, without their ends, and what follows the last of them. -/
structure Lines where
  ended : List String
  rest : List Char
  deriving DecidableEq

namespace Lines

/--
Splits a text behind the lines that ended before and the characters of the present line, both
last one first. Unless the text is `whole`, a carriage return at its end may be half of an end
and does not count as one.
-/
def splitFrom (whole : Bool) (ended : List String) (line : List Char) : List Char → Lines
  | [] => ⟨ended.reverse, line.reverse⟩
  | '\n' :: text => splitFrom whole (String.ofList line.reverse :: ended) [] text
  | '\r' :: '\n' :: text => splitFrom whole (String.ofList line.reverse :: ended) [] text
  | ['\r'] =>
      if whole then ⟨(String.ofList line.reverse :: ended).reverse, []⟩
      else ⟨ended.reverse, ('\r' :: line).reverse⟩
  | '\r' :: text => splitFrom whole (String.ofList line.reverse :: ended) [] text
  | c :: text => splitFrom whole ended (c :: line) text

def ofText (text : List Char) : List String :=
  let lines := splitFrom true [] [] text
  if lines.rest.isEmpty then lines.ended else lines.ended ++ [String.ofList lines.rest]

/-- The lines that are sure to have ended in the beginning of a text. -/
def ofBeginning (text : List Char) : List String :=
  (splitFrom false [] [] text).ended

end Lines

end PatternMachine.Text
