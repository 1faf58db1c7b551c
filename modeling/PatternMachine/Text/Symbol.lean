import PatternMachine.Text.Quoted

/-!
# Symbols

A symbol is the unit of input that a literal is compared with. It is usually one character, but
an input may be cut into longer or empty symbols as well.
-/

namespace PatternMachine

/-- One unit of input text. -/
abbrev Symbol := String

/-- An unprintable symbol that is not one character, so that no code point names it. -/
structure Uncoded where
  length : Nat
  deriving DecidableEq

namespace Uncoded

def message (problem : Uncoded) : String :=
  "ord() expected a character, but string of length " ++ toString problem.length ++ " found"

end Uncoded

namespace Symbol

/-- The code point of a symbol of one character, in at least four hexadecimal digits. -/
def code (symbol : Symbol) : Except Uncoded String :=
  match symbol.toList with
  | [c] => .ok (String.ofList ('0' :: 'x' :: Text.hex 4 c.toNat))
  | others => .error ⟨others.length⟩

/-- A printable symbol as `shown` writes it, any other by its code point. -/
def named (shown : String → String) (symbol : Symbol) : Except Uncoded String :=
  if Text.allPrintable symbol then .ok (shown symbol) else code symbol

theorem named_of_printable {shown : String → String} {symbol : Symbol}
    (h : Text.allPrintable symbol = true) : named shown symbol = .ok (shown symbol) := by
  simp [named, h]

theorem named_singleton (shown : String → String) (c : Char) :
    ∃ name, named shown (String.ofList [c]) = .ok name := by
  unfold named
  split
  · exact ⟨_, rfl⟩
  · exact ⟨_, by simp [code]; rfl⟩

end Symbol

/-- The characters of a text, each a symbol of its own. -/
def symbols (text : String) : Array Symbol :=
  (text.toList.map fun c => String.ofList [c]).toArray

end PatternMachine
