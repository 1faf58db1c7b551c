import Mathlib.Logic.Function.Basic
import PatternMachine.Text.Padded

/-!
# Numerals

The digits of a number can be read again, whatever zeros stand in front of them. So the padded
forms of numbers, decimal with a sign or hexadecimal, determine the numbers, and they hold digits
and at most one sign and nothing else.
-/

namespace PatternMachine.Text

variable {base width value : Nat} {c : Char}

def digitOf (c : Char) : Nat :=
  if c.toNat < 0x3a then c.toNat - 0x30 else c.toNat - 0x57

def numberOf (base : Nat) (digits : List Char) : Nat :=
  digits.foldl (fun number c => base * number + digitOf c) 0

theorem digitOf_digitChar : ∀ value < 16, digitOf value.digitChar = value := by
  decide

theorem numberOf_concat (base : Nat) (digits : List Char) (c : Char) :
    numberOf base (digits ++ [c]) = base * numberOf base digits + digitOf c := by
  simp [numberOf]

theorem numberOf_toDigits (many : 1 < base) (few : base ≤ 16) (value : Nat) :
    numberOf base (Nat.toDigits base value) = value := by
  induction value using Nat.strongRecOn with
  | ind value ih =>
      rw [Nat.toDigits_eq_if many]
      split
      · rename_i small
        simp [numberOf, digitOf_digitChar value (by omega)]
      · rename_i large
        have fewer : value / base < value := Nat.div_lt_self (by omega) many
        have last : value % base < base := Nat.mod_lt value (by omega)
        rw [numberOf_concat, ih _ fewer, digitOf_digitChar _ (by omega), Nat.div_add_mod]

theorem numberOf_padZeros (base width : Nat) (digits : List Char) :
    numberOf base (padZeros width digits) = numberOf base digits := by
  have zeros (count : Nat) : numberOf base (List.replicate count '0') = 0 := by
    induction count with
    | zero => rfl
    | succ count ih => rw [List.replicate_succ', numberOf_concat, ih]; rfl
  unfold padZeros numberOf
  rw [List.foldl_append]
  exact congrArg (fun start => digits.foldl _ start) (zeros _)

theorem padZeros_toDigits_injective (many : 1 < base) (few : base ≤ 16) (width : Nat) :
    Function.Injective fun value => padZeros width (Nat.toDigits base value) :=
  Function.LeftInverse.injective (g := numberOf base) fun value =>
    (numberOf_padZeros base width _).trans (numberOf_toDigits many few value)

theorem exists_digitChar_of_mem_toDigits (many : 1 < base) (mem : c ∈ Nat.toDigits base value) :
    ∃ digit < base, digit.digitChar = c := by
  induction value using Nat.strongRecOn with
  | ind value ih =>
      rw [Nat.toDigits_eq_if many] at mem
      split at mem
      · rename_i small
        exact ⟨value, small, (List.mem_singleton.mp mem).symm⟩
      · rename_i large
        rcases List.mem_append.mp mem with front | last
        · exact ih _ (Nat.div_lt_self (by omega) many) front
        · exact ⟨_, Nat.mod_lt value (by omega), (List.mem_singleton.mp last).symm⟩

theorem exists_digitChar_of_mem (many : 1 < base)
    (mem : c ∈ padZeros width (Nat.toDigits base value)) :
    ∃ digit < base, digit.digitChar = c := by
  rcases List.mem_append.mp mem with zero | digit
  · exact ⟨0, by omega, (List.eq_of_mem_replicate zero).symm⟩
  · exact exists_digitChar_of_mem_toDigits many digit

/-! ## Hexadecimal numbers -/

theorem hex_injective (width : Nat) : Function.Injective (hex width) :=
  padZeros_toDigits_injective (by decide) (by decide) width

theorem not_mem_hex (noDigit : ∀ digit < 16, digit.digitChar ≠ c) : c ∉ hex width value := by
  intro mem
  obtain ⟨digit, small, same⟩ := exists_digitChar_of_mem (by decide) mem
  exact noDigit digit small same

/-! ## Decimal numbers with a sign -/

theorem toList_decimal4 (value : Int) :
    (decimal4 value).toList =
      if value < 0 then '-' :: padZeros 3 (Nat.toDigits 10 value.natAbs)
      else padZeros 4 (Nat.toDigits 10 value.natAbs) := by
  unfold decimal4
  split <;> exact String.toList_ofList

theorem not_mem_decimal4 {value : Int} (noSign : c ≠ '-')
    (noDigit : ∀ digit < 10, digit.digitChar ≠ c) : c ∉ (decimal4 value).toList := by
  have padded (width : Nat) : c ∉ padZeros width (Nat.toDigits 10 value.natAbs) := by
    intro mem
    obtain ⟨digit, small, same⟩ := exists_digitChar_of_mem (by decide) mem
    exact noDigit digit small same
  rw [toList_decimal4]
  split
  · exact fun mem => (List.mem_cons.mp mem).elim noSign (padded 3)
  · exact padded 4

theorem decimal4_injective : Function.Injective decimal4 := by
  intro one other same
  have lists : (decimal4 one).toList = (decimal4 other).toList := congrArg String.toList same
  have unsigned (value : Nat) : '-' ∉ padZeros 4 (Nat.toDigits 10 value) := by
    intro mem
    obtain ⟨digit, small, sign⟩ := exists_digitChar_of_mem (by decide) mem
    revert sign
    revert digit
    decide
  have padded := padZeros_toDigits_injective (by decide : 1 < 10) (by decide)
  rw [toList_decimal4, toList_decimal4] at lists
  by_cases negative : one < 0 <;> by_cases negative' : other < 0
  · rw [if_pos negative, if_pos negative'] at lists
    have same := padded 3 (List.cons.inj lists).2
    omega
  · rw [if_pos negative, if_neg negative'] at lists
    exact absurd (lists ▸ List.mem_cons_self) (unsigned _)
  · rw [if_neg negative, if_pos negative'] at lists
    exact absurd (lists ▸ List.mem_cons_self) (unsigned _)
  · rw [if_neg negative, if_neg negative'] at lists
    have same := padded 4 lists
    omega

end PatternMachine.Text
