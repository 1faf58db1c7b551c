import PatternMachine.Text.Padded
import PatternMachine.Text.Printable

/-!
# Quoted text

A quoted text stands between single quotes, or between double quotes when it holds a single
quote and no double quote. Inside, a backslash and the quote in use follow a backslash; line
feed, carriage return and tab have letters of their own; every other unprintable character is
written by its code point in two, four or eight hexadecimal digits.
-/

namespace PatternMachine.Text

def quoteMark (text : List Char) : Char :=
  if text.contains '\'' && !text.contains '"' then '"' else '\''

/-- The code point of an unprintable character, in the shortest of the three widths. -/
def escapeCode (c : Char) : List Char :=
  if c.toNat < 0x100 then '\\' :: 'x' :: hex 2 c.toNat
  else if c.toNat < 0x10000 then '\\' :: 'u' :: hex 4 c.toNat
  else '\\' :: 'U' :: hex 8 c.toNat

/-- How one character is written between quotes of the given kind. -/
def quoteChar (mark c : Char) : List Char :=
  if c = mark ∨ c = '\\' then ['\\', c]
  else if c = '\n' then ['\\', 'n']
  else if c = '\r' then ['\\', 'r']
  else if c = '\t' then ['\\', 't']
  else if isPrintable c then [c]
  else escapeCode c

def quote (text : String) : String :=
  let mark := quoteMark text.toList
  String.ofList (mark :: text.toList.flatMap (quoteChar mark) ++ [mark])

end PatternMachine.Text
