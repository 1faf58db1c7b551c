import Mathlib.Tactic.SplitIfs
import PatternMachine.Proofs.Text.Numerals
import PatternMachine.Text.Symbol

/-!
# Names of single characters

A printable character is shown, raw or between quotes, and any other is named by its code point.
The names stay apart, whatever characters are printable: a raw character is shorter than every
code point, and a quote is no zero.
-/

namespace PatternMachine

namespace Text

/-- Texts agree up to the first mark in them and behind it. -/
theorem append_mark_inj {mark : Char} {front front' rest rest' : List Char}
    (free : mark ∉ front) (free' : mark ∉ front')
    (same : front ++ mark :: rest = front' ++ mark :: rest') : front = front' ∧ rest = rest' := by
  induction front generalizing front' with
  | nil =>
      cases front' with
      | nil => exact ⟨rfl, (List.cons.inj same).2⟩
      | cons c front' => exact absurd ((List.cons.inj same).1 ▸ List.mem_cons_self) free'
  | cons c front ih =>
      cases front' with
      | nil => exact absurd ((List.cons.inj same).1 ▸ List.mem_cons_self) free
      | cons c' front' =>
          obtain ⟨rfl, sameRest⟩ := List.cons.inj same
          obtain ⟨rfl, behind⟩ := ih (List.not_mem_of_not_mem_cons free)
            (List.not_mem_of_not_mem_cons free') sameRest
          exact ⟨rfl, behind⟩

theorem toList_quote_singleton {c : Char} (printable : isPrintable c = true) :
    (quote (String.ofList [c])).toList =
      if c = '\'' then ['"', c, '"']
      else if c = '\\' then ['\'', '\\', c, '\'']
      else ['\'', c, '\''] := by
  have control (other : Char) (hidden : isPrintable other = false) : c ≠ other := by
    rintro rfl
    exact absurd printable (by rw [hidden]; decide)
  have breaks := control '\n' (by decide)
  have returns := control '\r' (by decide)
  have tabs := control '\t' (by decide)
  by_cases single : c = '\''
  · subst single
    decide
  · have mark : quoteMark [c] = '\'' := by
      simp [quoteMark, Ne.symm single]
    simp only [quote, String.toList_ofList, mark, List.flatMap_singleton, List.cons_append,
      if_neg single]
    by_cases backslash : c = '\\'
    · rw [if_pos backslash, quoteChar, if_pos (.inr backslash)]
      rfl
    · have plain : quoteChar '\'' c = [c] := by
        simp [quoteChar, single, backslash, breaks, returns, tabs, printable]
      rw [if_neg backslash, plain]
      rfl

/-- A quoted character ends by itself, so what follows it does not matter. -/
theorem quote_append_inj {one other : Char} {rest rest' : List Char}
    (printable : isPrintable one = true) (printable' : isPrintable other = true)
    (same : (quote (String.ofList [one])).toList ++ rest =
      (quote (String.ofList [other])).toList ++ rest') : one = other ∧ rest = rest' := by
  rw [toList_quote_singleton printable, toList_quote_singleton printable'] at same
  split_ifs at same <;> simp_all

theorem quote_append_ne_zero {c : Char} {rest digits : List Char}
    (printable : isPrintable c = true) :
    (quote (String.ofList [c])).toList ++ rest ≠ '0' :: digits := by
  rw [toList_quote_singleton printable]
  split_ifs <;> simp

end Text

namespace Symbol

variable {printable : Char → Bool} {symbol : Symbol} {name name' : String} {one other : Char}

/-- The name of a symbol when `printable` tells which characters are shown. -/
def namedBy (printable : Char → Bool) (shown : String → String) (symbol : Symbol) :
    Except Uncoded String :=
  if symbol.toList.all printable then .ok (shown symbol) else code symbol

theorem namedBy_isPrintable : namedBy Text.isPrintable = named :=
  rfl

theorem exists_char (single : symbol.length = 1) : ∃ c, symbol = String.ofList [c] := by
  rw [← String.length_toList, List.length_eq_one_iff] at single
  obtain ⟨c, only⟩ := single
  exact ⟨c, by rw [← only, String.ofList_toList]⟩

theorem namedBy_singleton (printable : Char → Bool) (shown : String → String) (c : Char) :
    namedBy printable shown (String.ofList [c]) =
      .ok (if printable c then shown (String.ofList [c])
        else String.ofList ('0' :: 'x' :: Text.hex 4 c.toNat)) := by
  simp only [namedBy, String.toList_ofList, List.all_cons, List.all_nil, Bool.and_true, code]
  split <;> rfl

/-- A code point is longer than a raw character. -/
theorem length_code (c : Char) : 6 ≤ ('0' :: 'x' :: Text.hex 4 c.toNat).length := by
  simp only [List.length_cons, Text.hex, Text.length_padZeros]
  omega

theorem namedBy_injective
    (same : namedBy printable id (String.ofList [one]) =
      namedBy printable id (String.ofList [other])) : one = other := by
  rw [namedBy_singleton, namedBy_singleton, Except.ok.injEq] at same
  have lists := congrArg String.toList same
  have longer := length_code one
  have longer' := length_code other
  split_ifs at lists with shown shown' shown' <;>
    simp only [id, String.toList_ofList] at lists
  · exact List.singleton_inj.mp lists
  · rw [← lists, List.length_singleton] at longer'
    omega
  · rw [lists, List.length_singleton] at longer
    omega
  · exact Char.toNat_inj.mp (Text.hex_injective 4 (List.cons.inj (List.cons.inj lists).2).2)

theorem lineFeed_not_mem_namedBy (lineFeed : printable '\n' = false)
    (ok : symbol.namedBy printable id = .ok name) : '\n' ∉ name.toList := by
  unfold namedBy at ok
  split at ok
  · rename_i all
    cases ok
    intro mem
    rw [List.all_eq_true.mp all _ mem] at lineFeed
    cases lineFeed
  · unfold code at ok
    split at ok
    · rename_i c _
      cases ok
      have digits : '\n' ∉ Text.hex 4 c.toNat := Text.not_mem_hex (by decide)
      simpa using digits
    · cases ok

theorem named_quote_append_inj {rest rest' : List Char}
    (ok : named Text.quote (String.ofList [one]) = .ok name)
    (ok' : named Text.quote (String.ofList [other]) = .ok name')
    (same : name.toList ++ ')' :: rest = name'.toList ++ ')' :: rest') :
    one = other ∧ rest = rest' := by
  rw [← namedBy_isPrintable, namedBy_singleton, Except.ok.injEq] at ok ok'
  have digits (c : Char) : ')' ∉ '0' :: 'x' :: Text.hex 4 c.toNat := by
    have plain : ')' ∉ Text.hex 4 c.toNat := Text.not_mem_hex (by decide)
    simpa using plain
  subst ok ok'
  split_ifs at same with shown shown' shown'
  · obtain ⟨rfl, behind⟩ := Text.quote_append_inj shown shown' same
    exact ⟨rfl, (List.cons.inj behind).2⟩
  · rw [String.toList_ofList] at same
    exact absurd same (Text.quote_append_ne_zero shown)
  · rw [String.toList_ofList] at same
    exact absurd same.symm (Text.quote_append_ne_zero shown')
  · rw [String.toList_ofList, String.toList_ofList] at same
    obtain ⟨codes, behind⟩ := Text.append_mark_inj (digits one) (digits other) same
    have sameDigits := (List.cons.inj (List.cons.inj codes).2).2
    exact ⟨Char.toNat_inj.mp (Text.hex_injective 4 sameDigits), behind⟩

end Symbol

end PatternMachine
