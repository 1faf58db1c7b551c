import PatternMachine.Proofs.Pattern.Blame

/-!
# Reading token by token

Whether a reader takes a token does not depend on its position, so that what was read of a text is
what was read of its tokens one after another. A text is read as a whole exactly when the reader
takes all its tokens and what they leave can be finished.
-/

namespace PatternMachine

/-! ## Texts that leave no escape open -/

/-- Every backslash of the text stands before the character that it escapes. -/
def Settled (text : List Char) : Prop :=
  .plain '\\' ∉ Token.ofText text

instance (text : List Char) : Decidable (Settled text) :=
  inferInstanceAs (Decidable (.plain '\\' ∉ Token.ofText text))

namespace Token

variable {front back : List Char} {c : Char}

theorem ofText_cons (plain : c ≠ '\\') (rest : List Char) :
    ofText (c :: rest) = .plain c :: ofText rest := by
  rw [ofText]
  exact fun _ _ same => absurd same plain

/-- Behind a text that leaves no escape open the tokens begin anew. -/
theorem ofText_append (settled : Settled front) (back : List Char) :
    ofText (front ++ back) = ofText front ++ ofText back := by
  fun_induction ofText front with
  | case1 c rest ih =>
      have later : Settled rest := fun mem => settled (List.mem_cons_of_mem _ mem)
      simp only [List.cons_append, ofText, ih later]
  | case2 c rest last ih =>
      have unsettled : c = '\\' → rest ≠ [] := by
        rintro rfl rfl
        exact settled List.mem_cons_self
      have plain : c ≠ '\\' := by
        rintro rfl
        cases rest with
        | nil => exact unsettled rfl rfl
        | cons d rest => exact last d rest rfl rfl
      have later : Settled rest := by
        rw [Settled, ofText_cons plain] at settled
        exact fun mem => settled (List.mem_cons_of_mem _ mem)
      rw [List.cons_append, ofText_cons plain, ih later]
      rfl
  | case3 => rfl

end Token

namespace Settled

variable {front back : List Char} {c : Char}

theorem nil : Settled [] := by
  decide

theorem append (one : Settled front) (other : Settled back) : Settled (front ++ back) := by
  rw [Settled, Token.ofText_append one, List.mem_append]
  exact fun mem => mem.elim one other

theorem cons (plain : c ≠ '\\') (rest : Settled back) : Settled (c :: back) := by
  rw [Settled, Token.ofText_cons plain, List.mem_cons]
  rintro (same | mem)
  · exact plain (Token.plain.inj same).symm
  · exact rest mem

theorem flatMap {α : Type} {text : α → List Char} {parts : List α}
    (all : ∀ part ∈ parts, Settled (text part)) : Settled (parts.flatMap text) := by
  induction parts with
  | nil => exact nil
  | cons part rest ih =>
      obtain ⟨one, others⟩ := List.forall_mem_cons.mp all
      exact append one (ih others)

end Settled

/-! ## Positions -/

namespace ReadError

def moved (shift : Nat) (error : ReadError) : ReadError :=
  if error.position < 0 then error else { error with position := error.position + shift }

theorem moved_natCast (shift position : Nat) (reason : ReadReason) (symbol : Option Symbol) :
    moved shift ⟨reason, position, symbol⟩ = ⟨reason, (position + shift : Nat), symbol⟩ := by
  have placed : ¬ (position : Int) < 0 := Int.not_lt.mpr (Int.natCast_nonneg position)
  rw [moved, if_neg placed, Int.natCast_add]

theorem reason_moved (shift : Nat) (error : ReadError) :
    (error.moved shift).reason = error.reason ∧ (error.moved shift).symbol = error.symbol := by
  unfold moved
  split <;> exact ⟨rfl, rfl⟩

end ReadError

namespace Reader

/-! ## One token -/

variable {reader next last : Reader} {token : Token} {tokens others : List Token}

section Positions

variable (position shift : Nat) (reader : Reader)

theorem escape_moved (symbol : Symbol) :
    reader.escape (position + shift : Nat) symbol =
      (reader.escape position symbol).mapError (ReadError.moved shift) := by
  unfold escape
  split
  · rfl
  · exact congrArg Except.error (ReadError.moved_natCast shift position _ _).symm

theorem quantify_moved (quantifier : Quantifier) :
    reader.quantify (position + shift : Nat) quantifier =
      (reader.quantify position quantifier).mapError (ReadError.moved shift) := by
  unfold quantify
  split
  · exact congrArg Except.error (ReadError.moved_natCast shift position _ _).symm
  · rfl

theorem bar_moved :
    reader.bar (position + shift : Nat) =
      (reader.bar position).mapError (ReadError.moved shift) := by
  unfold bar
  split
  · exact congrArg Except.error (ReadError.moved_natCast shift position _ _).symm
  · rfl

theorem closeGroup_moved :
    reader.closeGroup (position + shift : Nat) =
      (reader.closeGroup position).mapError (ReadError.moved shift) := by
  unfold closeGroup
  split
  · exact congrArg Except.error (ReadError.moved_natCast shift position _ _).symm
  · split <;> rfl

theorem character_moved (c : Char) :
    reader.character (position + shift) c =
      (reader.character position c).mapError (ReadError.moved shift) := by
  unfold character
  split
  · exact quantify_moved position shift reader _
  · exact quantify_moved position shift reader _
  · exact quantify_moved position shift reader _
  · rfl
  · exact closeGroup_moved position shift reader
  · exact bar_moved position shift reader
  · rfl
  · rfl
  · rfl
  · rfl

/-- Further on in a text a token is answered in the same way, with the place of an error moved. -/
theorem take_moved (token : Token) :
    reader.take (position + shift) token =
      (reader.take position token).mapError (ReadError.moved shift) := by
  cases token with
  | escape c =>
      rw [take, Nat.add_right_comm]
      exact escape_moved (position + 1) shift reader _
  | plain c => exact character_moved position shift reader c

end Positions

theorem take_anywhere {position : Nat} (position' : Nat)
    (ok : reader.take position token = .ok next) : reader.take position' token = .ok next := by
  rw [← Nat.zero_add position, take_moved] at ok
  rw [← Nat.zero_add position', take_moved]
  cases first : reader.take 0 token with
  | error error =>
      rw [first] at ok
      cases ok
  | ok found =>
      rw [first] at ok
      exact ok

/-! ## Several tokens -/

/-- The reader takes the tokens one after another and comes to the second reader. -/
inductive Reads : List Token → Reader → Reader → Prop where
  | nil {reader : Reader} : Reads [] reader reader
  | cons {token : Token} {tokens : List Token} {reader next last : Reader}
      (ended : token ≠ .plain '\\') (taken : reader.take 0 token = .ok next)
      (others : Reads tokens next last) : Reads (token :: tokens) reader last

namespace Reads

theorem append (front : Reads tokens reader next) (back : Reads others next last) :
    Reads (tokens ++ others) reader last := by
  induction front with
  | nil => exact back
  | cons ended taken _ ih => exact .cons ended taken (ih back)

theorem of_append (reads : Reads (tokens ++ others) reader last) :
    ∃ next, Reads tokens reader next ∧ Reads others next last := by
  induction tokens generalizing reader with
  | nil => exact ⟨reader, .nil, reads⟩
  | cons token tokens ih =>
      cases reads with
      | cons ended taken rest =>
          obtain ⟨next, front, back⟩ := ih rest
          exact ⟨next, .cons ended taken front, back⟩

end Reads

/-- A scan reads the tokens of the text if it reads the text and leaves no escape open. -/
theorem reads_of_scan {position : Nat} {text : List Char}
    (scanned : scan position none text reader = ⟨last, .ok none⟩) :
    Reads (Token.ofText text) reader last := by
  have step {token : Token} (ended : token ≠ .plain '\\') {rest : List Char}
      (ih : ∀ {position : Nat} {reader : Reader},
        scan position none rest reader = ⟨last, .ok none⟩ →
          Reads (Token.ofText rest) reader last)
      {position : Nat} {reader : Reader}
      (scanned : scan position none (token.text ++ rest) reader = ⟨last, .ok none⟩) :
      Reads (token :: Token.ofText rest) reader last := by
    rw [scan_token _ ended] at scanned
    split at scanned
    · cases scanned
    · rename_i next taken
      exact .cons ended (take_anywhere 0 taken) (ih scanned)
  fun_induction Token.ofText text generalizing position reader with
  | case1 c rest ih => exact step (by simp) ih scanned
  | case2 c rest last' ih =>
      by_cases backslash : c = '\\'
      · subst backslash
        cases rest with
        | nil => cases scanned
        | cons d rest => exact (last' d rest rfl rfl).elim
      · exact step (by simpa using backslash) ih scanned
  | case3 =>
      cases scanned
      exact .nil

theorem Reads.scan (reads : Reads tokens reader last) (position : Nat) :
    Reader.scan position none (tokens.flatMap Token.text) reader = ⟨last, .ok none⟩ := by
  induction reads generalizing position with
  | nil => rfl
  | cons ended taken _ ih =>
      rw [List.flatMap_cons, scan_token _ ended, take_anywhere position taken]
      exact ih _

end Reader

namespace Pattern

theorem read_eq_ok_iff {source : String} {pattern : Pattern} :
    read source = .ok pattern ↔
      ∃ reader, Reader.Reads (Token.ofText source.toList) {} reader ∧
        reader.finish = .ok pattern := by
  constructor
  · intro ok
    unfold read Reader.readAll at ok
    simp only at ok
    split at ok
    · cases ok
    · cases ok
    · rename_i scanned
      split at ok
      · cases ok
      · rename_i finished
        cases ok
        exact ⟨_, Reader.reads_of_scan (congrArg (Reader.Scanned.mk _) scanned), finished⟩
  · rintro ⟨reader, reads, finished⟩
    have scanned := reads.scan 0
    rw [Token.flatMap_text_ofText] at scanned
    simp only [read, Reader.readAll, scanned, finished]

end Pattern

end PatternMachine
