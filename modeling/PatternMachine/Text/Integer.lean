import PatternMachine.Text.DecimalDigit

/-!
# Integers in text

An integer is read from decimal digits of any script, with a sign or without, with single
underscores between digits and with blanks around the whole. Blanks are space, tab, line feed,
vertical tab, form feed, carriage return and the blanks of Unicode outside ASCII. A text of more
than 4300 digits is refused.
-/

namespace PatternMachine.Text

def isBlank (c : Char) : Bool :=
  [0x9, 0xa, 0xb, 0xc, 0xd, 0x20, 0x85, 0xa0, 0x1680, 0x2028, 0x2029, 0x202f, 0x205f,
    0x3000].contains c.toNat || (0x2000 ≤ c.toNat && c.toNat ≤ 0x200a)

def maxDigits : Nat := 4300

/-- The characters without the blanks at either end. -/
def trimBlanks (text : List Char) : List Char :=
  ((text.dropWhile isBlank).reverse.dropWhile isBlank).reverse

/-- The values of digits that single underscores may separate; a digit comes next. -/
def digitValues? : List Char → Option (List Nat)
  | [] => none
  | [c] => (digitValue? c).map fun value => [value]
  | c :: '_' :: rest =>
      match digitValue? c, digitValues? rest with
      | some value, some values => some (value :: values)
      | _, _ => none
  | c :: rest =>
      match digitValue? c, digitValues? rest with
      | some value, some values => some (value :: values)
      | _, _ => none

def ofDigitValues (values : List Nat) : Nat :=
  values.foldl (fun number value => 10 * number + value) 0

def parseNat? (text : List Char) : Option Nat :=
  match digitValues? text with
  | none => none
  | some values => if maxDigits < values.length then none else some (ofDigitValues values)

def parseInt? (text : String) : Option Int :=
  match trimBlanks text.toList with
  | '-' :: digits => (parseNat? digits).map fun number => -(number : Int)
  | '+' :: digits => (parseNat? digits).map fun number => (number : Int)
  | digits => (parseNat? digits).map fun number => (number : Int)

end PatternMachine.Text
