import PatternMachine.Proofs.Pattern.Completion
import PatternMachine.Proofs.Pattern.Reading

/-!
# Groups in context

A reader works on its innermost level and comes to the levels around it only by a right
parenthesis. So what it reads without an error on its own, it reads in the same way inside of any
open levels, and a text that can be read alone becomes one item of the level around it when it
stands in parentheses. What follows is read on top of what a front has left, with its places moved
by the length of the front; so a group can be replaced by any other group with the same tree.
-/

namespace PatternMachine

def Pattern.parenthesized (source : String) : String :=
  "(" ++ source ++ ")"

namespace Reader

open Pattern (parenthesized)

variable {position : Nat} {reader next last : Reader} {token : Token} {tokens : List Token}
  {c : Char} {source : String} {pattern : Pattern}

/-! ## Levels around a reader -/

/-- The reader with more open levels around its own. -/
def inside (around : List Level) (reader : Reader) : Reader :=
  { reader with outer := reader.outer ++ around }

section Inside

variable (around : List Level)

theorem escape_inside {position : Int} {symbol : Symbol}
    (ok : reader.escape position symbol = .ok next) :
    (reader.inside around).escape position symbol = .ok (next.inside around) := by
  unfold escape at ok ⊢
  split at ok
  · rename_i valid
    cases ok
    rw [if_pos valid]
    rfl
  · cases ok

theorem quantify_inside {position : Int} {quantifier : Quantifier}
    (ok : reader.quantify position quantifier = .ok next) :
    (reader.inside around).quantify position quantifier = .ok (next.inside around) := by
  obtain ⟨⟨items, branches⟩, outer⟩ := reader
  cases items with
  | nil => cases ok
  | cons item rest =>
      cases ok
      rfl

theorem bar_inside {position : Int} (ok : reader.bar position = .ok next) :
    (reader.inside around).bar position = .ok (next.inside around) := by
  obtain ⟨⟨items, branches⟩, outer⟩ := reader
  cases items with
  | nil => cases ok
  | cons item rest =>
      cases ok
      rfl

/-- A group that is closed without an error was opened by the reader itself. -/
theorem closeGroup_inside {position : Int} (ok : reader.closeGroup position = .ok next) :
    (reader.inside around).closeGroup position = .ok (next.inside around) := by
  obtain ⟨level, outer⟩ := reader
  cases outer with
  | nil => cases ok
  | cons above outer =>
      simp only [closeGroup, inside, List.cons_append] at ok ⊢
      split at ok
      · cases ok
        rfl
      · cases ok
        rfl

theorem character_inside (ok : reader.character position c = .ok next) :
    (reader.inside around).character position c = .ok (next.inside around) := by
  unfold character at ok ⊢
  split at ok
  · exact quantify_inside around ok
  · exact quantify_inside around ok
  · exact quantify_inside around ok
  · cases ok
    rfl
  · exact closeGroup_inside around ok
  · exact bar_inside around ok
  · cases ok
    rfl
  · cases ok
    rfl
  · cases ok
    rfl
  · cases ok
    rfl

theorem take_inside (ok : reader.take position token = .ok next) :
    (reader.inside around).take position token = .ok (next.inside around) := by
  cases token with
  | escape c => exact escape_inside around ok
  | plain c => exact character_inside around ok

/-- What is read without an error is read in the same way inside of open levels. -/
theorem Reads.inside (reads : Reads tokens reader last) :
    Reads tokens (reader.inside around) (last.inside around) := by
  induction reads with
  | nil => exact .nil
  | cons ended taken _ ih => exact .cons ended (take_inside around taken) ih

end Inside

/-! ## Groups -/

theorem closeGroup_of_finish (finished : last.finish = .ok pattern) (position : Int)
    (reader : Reader) :
    (last.inside (reader.level :: reader.outer)).closeGroup position =
      .ok (reader.push pattern) := by
  obtain ⟨level, outer⟩ := last
  unfold finish at finished
  split at finished
  · cases finished
  · rename_i alone
    obtain rfl : outer = [] := alone
    split at finished
    · cases finished
    · rename_i folded
      cases finished
      simp only [closeGroup, inside, List.nil_append, folded]
      rfl

theorem Reads.group (reads : Reads tokens {} last) (finished : last.finish = .ok pattern)
    (reader : Reader) :
    Reads (.plain '(' :: (tokens ++ [.plain ')'])) reader (reader.push pattern) := by
  have opened : reader.take 0 (.plain '(') =
      .ok (Reader.inside (reader.level :: reader.outer) {}) := rfl
  have within := reads.inside (reader.level :: reader.outer)
  have closed : (last.inside (reader.level :: reader.outer)).take 0 (.plain ')') =
      .ok (reader.push pattern) := closeGroup_of_finish finished _ reader
  have ending : Reads [.plain ')'] (last.inside (reader.level :: reader.outer))
      (reader.push pattern) := .cons (by decide) closed .nil
  exact .cons (by decide) opened (within.append ending)

/-- Wherever a reader stands, a group puts the tree of its text behind the items read before. -/
theorem scan_parenthesized (ok : Pattern.read source = .ok pattern) (position : Nat)
    (reader : Reader) :
    scan position none (parenthesized source).toList reader =
      ⟨reader.push pattern, .ok none⟩ := by
  obtain ⟨last, reads, finished⟩ := Pattern.read_eq_ok_iff.mp ok
  have text : (Token.plain '(' :: (Token.ofText source.toList ++ [.plain ')'])).flatMap
      Token.text = (parenthesized source).toList := by
    simp [parenthesized, Token.text, Token.flatMap_text_ofText]
  rw [← text]
  exact (reads.group finished reader).scan position

/-! ## Rests of a text -/

def Scanned.moved (shift : Nat) (scanned : Scanned) : Scanned :=
  ⟨scanned.reader,
    (scanned.result.map (Option.map (· + shift))).mapError (ReadError.moved shift)⟩

theorem step_moved (shift position : Nat) (pending : Option Nat) (c : Char) (reader : Reader) :
    step (position + shift) (pending.map (· + shift)) c reader =
      ((step position pending c reader).map (Prod.map (Option.map (· + shift)) id)).mapError
        (ReadError.moved shift) := by
  cases pending with
  | some start =>
      simp only [step, Option.map_some, escape_moved]
      cases reader.escape position (String.ofList [c]) <;> rfl
  | none =>
      simp only [step, Option.map_none, character_moved]
      split
      · rfl
      · cases reader.character position c <;> rfl

theorem scan_moved (shift position : Nat) (pending : Option Nat) (text : List Char)
    (reader : Reader) :
    scan (position + shift) (pending.map (· + shift)) text reader =
      (scan position pending text reader).moved shift := by
  induction text generalizing position pending reader with
  | nil => rfl
  | cons c rest ih =>
      rw [scan_cons, scan_cons, step_moved]
      cases step position pending c reader with
      | error error => rfl
      | ok after =>
          rw [← ih, Nat.add_right_comm]
          rfl

theorem mapError_finish (shift : Nat) (reader : Reader) :
    reader.finish.mapError (ReadError.moved shift) = reader.finish := by
  unfold finish
  split
  · rfl
  · split <;> rfl

end Reader

namespace Pattern

variable {front : String} {reader : Reader}

/--
Behind a front that leaves no escape open, the rest is read on top of what the front has left, and
its errors lie further on by the length of the front.
-/
theorem read_append (scanned : Reader.scan 0 none front.toList {} = ⟨reader, .ok none⟩)
    (back : String) :
    read (front ++ back) =
      (Reader.readAll back reader).2.mapError (ReadError.moved front.toList.length) := by
  have rest := Reader.scan_moved front.toList.length 0 none back.toList reader
  have whole : Reader.scan 0 none (front ++ back).toList {} =
      (Reader.scan 0 none back.toList reader).moved front.toList.length := by
    rw [String.toList_append, Reader.scan_append, scanned]
    exact rest
  simp only [read, Reader.readAll, whole, Reader.Scanned.moved]
  generalize Reader.scan 0 none back.toList reader = ended
  cases ended.result with
  | error error => rfl
  | ok waiting =>
      cases waiting with
      | some position =>
          exact congrArg Except.error (ReadError.moved_natCast _ position _ _).symm
      | none =>
          have finished := Reader.mapError_finish front.toList.length ended.reader
          cases result : ended.reader.finish with
          | error error =>
              rw [result] at finished
              exact finished.symm
          | ok pattern => rfl

theorem scan_append_parenthesized {source : String} {pattern : Pattern}
    (ok : read source = .ok pattern)
    (scanned : Reader.scan 0 none front.toList {} = ⟨reader, .ok none⟩) :
    Reader.scan 0 none (front ++ parenthesized source).toList {} =
      ⟨reader.push pattern, .ok none⟩ := by
  rw [String.toList_append, Reader.scan_append, scanned]
  exact Reader.scan_parenthesized ok _ reader

/--
A group is read in any context as its text is read alone. Wherever a reader stands, a text that can
be read is read in parentheses without an error, and its tree comes behind the items of the open
branch; the branches closed before and the levels around stay as they are. So two texts with one
tree can take each other's place as a group: behind a front that is read and leaves no escape open,
and before any rest, both give the same tree or errors for the same reason.
-/
theorem read_parenthesized_in_context :
    (∀ source pattern, read source = .ok pattern → ∀ position reader,
      Reader.scan position none (parenthesized source).toList reader =
        ⟨⟨⟨pattern :: reader.level.items, reader.level.branches⟩, reader.outer⟩, .ok none⟩) ∧
    ∀ one other pattern, read one = .ok pattern → read other = .ok pattern →
      ∀ front, (Reader.scan 0 none front.toList {}).result = .ok none → ∀ back,
        (∃ whole, read (front ++ parenthesized one ++ back) = .ok whole ∧
          read (front ++ parenthesized other ++ back) = .ok whole) ∨
        ∃ error error', read (front ++ parenthesized one ++ back) = .error error ∧
          read (front ++ parenthesized other ++ back) = .error error' ∧
          error.reason = error'.reason ∧ error.symbol = error'.symbol := by
  refine ⟨fun source pattern ok position reader => Reader.scan_parenthesized ok position reader,
    fun one other pattern oneOk otherOk front settled back => ?_⟩
  have scanned : Reader.scan 0 none front.toList {} =
      ⟨(Reader.scan 0 none front.toList {}).reader, .ok none⟩ :=
    congrArg (Reader.Scanned.mk _) settled
  rw [read_append (scan_append_parenthesized oneOk scanned),
    read_append (scan_append_parenthesized otherOk scanned)]
  cases (Reader.readAll back _).2 with
  | ok whole => exact .inl ⟨whole, rfl, rfl⟩
  | error error =>
      refine .inr ⟨_, _, rfl, rfl, ?_, ?_⟩
      · exact (ReadError.reason_moved _ error).1.trans (ReadError.reason_moved _ error).1.symm
      · exact (ReadError.reason_moved _ error).2.trans (ReadError.reason_moved _ error).2.symm

def eitherLetter : Pattern :=
  .alternative (.sequence [.literal "a"]) (.sequence [.literal "b"])

/-- An empty group and a bar at the end leave nothing, so both texts are read as one tree. -/
theorem read_parenthesized_in_context_eitherLetter :
    read "a|b" = .ok eitherLetter ∧ read "()a|b|" = .ok eitherLetter ∧
      (Reader.scan 0 none "x(y|".toList {}).result = .ok none ∧
      Reader.scan 4 none (parenthesized "()a|b|").toList ⟨⟨[.wildcard], []⟩, [{}]⟩ =
        ⟨⟨⟨[eitherLetter, .wildcard], []⟩, [{}]⟩, .ok none⟩ ∧
      (∃ whole, read ("x(y|" ++ parenthesized "a|b" ++ ")*") = .ok whole ∧
        read ("x(y|" ++ parenthesized "()a|b|" ++ ")*") = .ok whole) ∧
      read ("x(y|" ++ parenthesized "a|b" ++ ")+)") =
        .error ⟨.invalidRightParenthesis, 11, none⟩ ∧
      ∃ error, read ("x(y|" ++ parenthesized "()a|b|" ++ ")+)") = .error error ∧
        error.reason = .invalidRightParenthesis ∧ error.symbol = none := by
  obtain ⟨grouped, replaced⟩ := read_parenthesized_in_context
  have one : read "a|b" = .ok eitherLetter := by rfl
  have other : read "()a|b|" = .ok eitherLetter := by rfl
  have settled : (Reader.scan 0 none "x(y|".toList {}).result = .ok none := by rfl
  have looped : read ("x(y|" ++ parenthesized "a|b" ++ ")*") =
      .ok (.sequence [.literal "x",
        .repetition .zeroOrMore (.alternative (.sequence [.literal "y"])
          (.sequence [eitherLetter]))]) := by rfl
  have unopened : read ("x(y|" ++ parenthesized "a|b" ++ ")+)") =
      .error ⟨.invalidRightParenthesis, 11, none⟩ := by rfl
  refine ⟨one, other, settled, grouped _ _ other 4 ⟨⟨[.wildcard], []⟩, [{}]⟩, ?_, unopened, ?_⟩
  · rcases replaced _ _ _ one other "x(y|" settled ")*" with same | ⟨error, _, refused, -⟩
    · exact same
    · cases looped.symm.trans refused
  · rcases replaced _ _ _ one other "x(y|" settled ")+)" with
      ⟨whole, same, -⟩ | ⟨error, error', refused, refused', reason, symbol⟩
    · cases unopened.symm.trans same
    · cases unopened.symm.trans refused
      exact ⟨error', refused', reason.symm, symbol.symm⟩

end Pattern

end PatternMachine
