/-!
# Padded numbers

Addresses and code points are written in at least four places, filled with zeros from the left.
The sign of a negative number takes one of the places and comes first; a longer number is
written in full.
-/

namespace PatternMachine.Text

def padZeros (width : Nat) (digits : List Char) : List Char :=
  List.replicate (width - digits.length) '0' ++ digits

/-- A decimal number in at least four places. -/
def decimal4 (value : Int) : String :=
  if value < 0 then String.ofList ('-' :: padZeros 3 (Nat.toDigits 10 value.natAbs))
  else String.ofList (padZeros 4 (Nat.toDigits 10 value.natAbs))

/-- A number in lower-case hexadecimal digits, at least `width` of them. -/
def hex (width value : Nat) : List Char :=
  padZeros width (Nat.toDigits 16 value)

theorem length_padZeros (width : Nat) (digits : List Char) :
    (padZeros width digits).length = max width digits.length := by
  simp [padZeros]
  omega

end PatternMachine.Text
