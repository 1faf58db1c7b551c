import PatternMachine.Pattern.Reader

/-!
# Tokens of a pattern

The text of a pattern is cut into tokens: a backslash with the character after it, and every other
character by itself. Whether a token offends depends on the tokens before it alone, on the groups
that they leave open and on the branch that they end in. Such tokens are given newest first.
-/

namespace PatternMachine

inductive Token where
  /-- A backslash with the character after it. -/
  | escape (c : Char)
  /-- Any other character. It is a backslash only at the end of the text. -/
  | plain (c : Char)
  deriving DecidableEq

namespace Token

def text : Token → List Char
  | .escape c => ['\\', c]
  | .plain c => [c]

def ofText : List Char → List Token
  | '\\' :: c :: rest => .escape c :: ofText rest
  | c :: rest => .plain c :: ofText rest
  | [] => []

theorem flatMap_text_ofText (source : List Char) : (ofText source).flatMap text = source := by
  fun_induction ofText source with
  | case1 c rest ih => simp [text, ih]
  | case2 c rest _ ih => simp [text, ih]
  | case3 => rfl

def span (tokens : List Token) : Nat :=
  (tokens.flatMap text).length

/-- The token stands for something to match: an escape, a dot, an anchor or a literal. -/
def isAtom : Token → Bool
  | .escape _ => true
  | .plain c => c ∉ ['(', ')', '|', '+', '*', '?', '\\']

def NoAtom (tokens : List Token) : Prop :=
  ∀ token ∈ tokens, token.isAtom = false

/-- The number of left parentheses that are still open behind the tokens. -/
def openGroups (past : List Token) : Nat :=
  past.count (.plain '(') - past.count (.plain ')')

/--
The branch that the tokens end in, newest first. It reaches back to the last bar or left
parenthesis outside the groups that were closed since; of these groups `closed` are entered from
behind.
-/
def branch (closed : Nat) : List Token → List Token
  | [] => []
  | token :: earlier =>
      match token, closed with
      | .plain ')', closed => .plain ')' :: branch (closed + 1) earlier
      | .plain '(', 0 | .plain '|', 0 => []
      | .plain '(', closed + 1 => .plain '(' :: branch closed earlier
      | token, closed => token :: branch closed earlier

/-- The token cannot follow the tokens before it, and this is the error. -/
inductive Offends (past : List Token) : Token → ReadError → Prop where
  | escape {c : Char} (invalid : c ∉ Reader.escapable) :
      Offends past (.escape c)
        ⟨.invalidEscape, (span past + 1 : Nat), some (String.ofList [c])⟩
  | closing (closed : openGroups past = 0) :
      Offends past (.plain ')') ⟨.invalidRightParenthesis, span past, none⟩
  | previous {c : Char} (needs : c ∈ ['+', '*', '?', '|']) (nothing : NoAtom (branch 0 past)) :
      Offends past (.plain c) ⟨.noPrevious, span past, none⟩

def Sound (past tokens : List Token) : Prop :=
  ∀ before token after error, tokens = before ++ token :: after →
    ¬ Offends (before.reverse ++ past) token error

/-! ## Branches -/

variable {past earlier : List Token} {token : Token}

@[simp]
theorem branch_closing (closed : Nat) (earlier : List Token) :
    branch closed (.plain ')' :: earlier) = .plain ')' :: branch (closed + 1) earlier := by
  cases closed <;> rfl

@[simp]
theorem branch_opening (closed : Nat) (earlier : List Token) :
    branch (closed + 1) (.plain '(' :: earlier) = .plain '(' :: branch closed earlier :=
  rfl

@[simp]
theorem branch_bar (closed : Nat) (earlier : List Token) :
    branch (closed + 1) (.plain '|' :: earlier) = .plain '|' :: branch (closed + 1) earlier :=
  rfl

/-- The token neither opens nor closes a group nor ends a branch. -/
def Inner (token : Token) : Prop :=
  token ≠ .plain '(' ∧ token ≠ .plain ')' ∧ token ≠ .plain '|'

theorem Inner.of_isAtom (atom : token.isAtom = true) : token.Inner := by
  refine ⟨?_, ?_, ?_⟩ <;>
  · rintro rfl
    exact absurd atom (by decide)

theorem branch_inner (inner : token.Inner) (closed : Nat) (earlier : List Token) :
    branch closed (token :: earlier) = token :: branch closed earlier := by
  obtain ⟨opening, closing, bar⟩ := inner
  rw [branch]
  · exact closing
  · exact fun same _ => opening same
  · exact fun same _ => bar same
  · exact fun _ same _ => opening same

/-! ## Counting -/

theorem span_cons (token : Token) (past : List Token) :
    span (token :: past) = span past + token.text.length := by
  rw [span, List.flatMap_cons, List.length_append, Nat.add_comm, span]

namespace NoAtom

theorem cons_iff : NoAtom (token :: past) ↔ token.isAtom = false ∧ NoAtom past :=
  List.forall_mem_cons

theorem append_iff : NoAtom (past ++ earlier) ↔ NoAtom past ∧ NoAtom earlier :=
  List.forall_mem_append

end NoAtom

/-! ## Offences -/

theorem Offends.unique {error error' : ReadError} (offends : Offends past token error)
    (offends' : Offends past token error') : error = error' := by
  cases offends with
  | escape _ =>
      cases offends'
      rfl
  | closing _ =>
      cases offends' with
      | closing _ => rfl
      | previous needs _ => exact absurd needs (by decide)
  | previous needs _ =>
      cases offends' with
      | closing _ => exact absurd needs (by decide)
      | previous _ _ => rfl

theorem not_offends_of_isAtom {c : Char} (atom : (plain c).isAtom = true) {error : ReadError} :
    ¬ Offends past (.plain c) error := by
  have signs : ∀ sign ∈ ['+', '*', '?', '|'], (plain sign).isAtom = false := by simp [isAtom]
  intro offends
  cases offends with
  | closing _ => exact absurd atom (by decide)
  | previous needs _ => exact absurd atom (by simp [signs c needs])

/-- A backslash at the end of the text is no offending token. -/
theorem not_offends_backslash {error : ReadError} : ¬ Offends past (.plain '\\') error := by
  intro offends
  cases offends with
  | previous needs _ => exact absurd needs (by decide)

namespace Sound

theorem nil : Sound past [] := by
  intro before token after error split
  simp at split

theorem cons {tokens : List Token} (fine : ∀ error, ¬ Offends past token error)
    (rest : Sound (token :: past) tokens) : Sound past (token :: tokens) := by
  intro before other after error split
  cases before with
  | nil =>
      obtain ⟨rfl, rfl⟩ := List.cons.inj split
      exact fine error
  | cons first before =>
      obtain ⟨rfl, tail⟩ := List.cons.inj split
      rw [List.reverse_cons, List.append_assoc]
      exact rest before other after error tail

end Sound

theorem leftmost_unique {tokens before before' after after' : List Token} {token token' : Token}
    {error error' : ReadError} (split : tokens = before ++ token :: after)
    (sound : Sound past before) (offends : Offends (before.reverse ++ past) token error)
    (split' : tokens = before' ++ token' :: after') (sound' : Sound past before')
    (offends' : Offends (before'.reverse ++ past) token' error') : error = error' := by
  rcases List.append_eq_append_iff.mp (split.symm.trans split') with
    ⟨between, rfl, tail⟩ | ⟨between, rfl, tail⟩
  · cases between with
    | nil =>
        obtain ⟨rfl, -⟩ := List.cons.inj tail
        rw [List.append_nil] at offends'
        exact offends.unique offends'
    | cons first between =>
        obtain ⟨rfl, -⟩ := List.cons.inj tail
        exact absurd offends (sound' before token between error rfl)
  · cases between with
    | nil =>
        obtain ⟨rfl, -⟩ := List.cons.inj tail
        rw [List.append_nil] at offends
        exact offends.unique offends'
    | cons first between =>
        obtain ⟨rfl, -⟩ := List.cons.inj tail
        exact absurd offends' (sound before' token' between error' rfl)

/-! ## Blame -/

/--
The error of a text with these tokens: that of the leftmost token that offends, or else of what
they leave open at the end.
-/
inductive Blames (tokens : List Token) : ReadError → Prop where
  | offends {before after : List Token} {token : Token} {error : ReadError}
      (split : tokens = before ++ token :: after) (sound : Sound [] before)
      (offends : Offends before.reverse token error) : Blames tokens error
  | backslash {before : List Token} (split : tokens = before ++ [.plain '\\'])
      (sound : Sound [] tokens) : Blames tokens ⟨.trailingEscape, span before, none⟩
  | opened (sound : Sound [] tokens) (ended : .plain '\\' ∉ tokens)
      (groups : 0 < openGroups tokens) : Blames tokens ⟨.noRightParenthesis, -1, none⟩
  | empty (sound : Sound [] tokens) (ended : .plain '\\' ∉ tokens)
      (closed : openGroups tokens = 0) (nothing : NoAtom tokens) :
      Blames tokens ⟨.empty, -1, none⟩

/-- No token offends, and the tokens leave nothing open and have something to match. -/
structure Fine (tokens : List Token) : Prop where
  sound : Sound [] tokens
  ended : .plain '\\' ∉ tokens
  closed : openGroups tokens = 0
  something : ¬ NoAtom tokens

theorem Sound.not_offends {tokens before after : List Token} {error : ReadError}
    (sound : Sound [] tokens) (split : tokens = before ++ token :: after) :
    ¬ Offends before.reverse token error := by
  have fine := sound before token after error split
  rwa [List.append_nil] at fine

namespace Blames

variable {tokens : List Token} {error error' : ReadError}

theorem unique (blames : Blames tokens error) (blames' : Blames tokens error') :
    error = error' := by
  cases blames with
  | offends split sound offends =>
      cases blames' with
      | offends split' sound' offends' =>
          rw [← List.append_nil (List.reverse _)] at offends offends'
          exact leftmost_unique split sound offends split' sound' offends'
      | backslash _ whole => exact absurd offends (whole.not_offends split)
      | opened whole _ _ => exact absurd offends (whole.not_offends split)
      | empty whole _ _ _ => exact absurd offends (whole.not_offends split)
  | backslash split sound =>
      cases blames' with
      | offends split' _ offends => exact absurd offends (sound.not_offends split')
      | backslash split' _ =>
          obtain ⟨rfl, -⟩ := List.append_inj' (split.symm.trans split') rfl
          rfl
      | opened _ ended _ => exact absurd (by simp [split]) ended
      | empty _ ended _ _ => exact absurd (by simp [split]) ended
  | opened sound ended groups =>
      cases blames' with
      | offends split' _ offends => exact absurd offends (sound.not_offends split')
      | backslash split' _ => exact absurd (by simp [split']) ended
      | opened _ _ _ => rfl
      | empty _ _ closed _ => exact absurd closed (Nat.ne_of_gt groups)
  | empty sound ended closed _ =>
      cases blames' with
      | offends split' _ offends => exact absurd offends (sound.not_offends split')
      | backslash split' _ => exact absurd (by simp [split']) ended
      | opened _ _ groups => exact absurd closed (Nat.ne_of_gt groups)
      | empty _ _ _ _ => rfl

theorem not_fine (blames : Blames tokens error) : ¬ Fine tokens := by
  rintro ⟨whole, ended, closed, something⟩
  cases blames with
  | offends split _ offends => exact whole.not_offends split offends
  | backslash split _ => exact ended (by simp [split])
  | opened _ _ groups => exact absurd closed (Nat.ne_of_gt groups)
  | empty _ _ _ nothing => exact something nothing

end Blames

end Token

end PatternMachine
