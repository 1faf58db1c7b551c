import PatternMachine.Proofs.Pattern.Written
import PatternMachine.Proofs.Text.Naming

/-!
# Reading written trees back

The text form of a tree ends by itself: whatever follows it, the tree and what follows are
determined by the whole. The name of a node is read up to the first bracket and tells the kind of
the node; the name of a literal does not go on behind its quote or its digits; and in a sequence,
where the next item would begin, the closing bracket can be told from every name. The literals must
be single characters.
-/

namespace PatternMachine

theorem Quantifier.label_injective : Function.Injective label := by
  intro one other same
  cases one <;> cases other <;> first | rfl | exact absurd same (by decide)

namespace Pattern

variable {pattern other item first second body : Pattern} {items rest : List Pattern}
  {quantifier : Quantifier} {text text' : String} {texts texts' : List String}
  {behind behind' : List Char}

/-- Every literal in the tree is one character. -/
def Coded (pattern : Pattern) : Prop :=
  ∀ symbol, .literal symbol ∈ pattern.nodes → symbol.length = 1

namespace Coded

theorem literal_iff {symbol : Symbol} : (literal symbol).Coded ↔ symbol.length = 1 := by
  simp [Coded, nodes]

theorem cons_iff : (sequence (item :: rest)).Coded ↔ item.Coded ∧ (sequence rest).Coded := by
  simp only [Coded, mem_nodes_cons_iff (isAtom_literal _), or_imp, forall_and]

theorem alternative_iff : (alternative first second).Coded ↔ first.Coded ∧ second.Coded := by
  simp only [Coded, mem_nodes_alternative_iff (isAtom_literal _), or_imp, forall_and]

theorem repetition_iff : (repetition quantifier body).Coded ↔ body.Coded := by
  simp only [Coded, mem_nodes_repetition_iff (isAtom_literal _)]

theorem writable (coded : pattern.Coded) : pattern.Writable :=
  fun symbol mem => .inr (coded symbol mem)

end Coded

/-! ## Parts of a text form -/

theorem written_literal_eq_ok {symbol : Symbol} : (literal symbol).written = .ok text ↔
    ∃ name, symbol.named Text.quote = .ok name ∧ text = "Char(" ++ name ++ ")" := by
  rw [written_literal]
  cases symbol.named Text.quote <;> simp [eq_comm]

theorem written_sequence_eq_ok : (sequence items).written = .ok text ↔
    ∃ texts, writtenAll items = .ok texts ∧
      text = "Sequence([" ++ commaSeparated texts ++ "])" := by
  rw [written_sequence]
  cases writtenAll items <;> simp [eq_comm]

theorem written_alternative_eq_ok : (alternative first second).written = .ok text ↔
    ∃ left right, first.written = .ok left ∧ second.written = .ok right ∧
      text = "Disjunction(" ++ left ++ ", " ++ right ++ ")" := by
  rw [written_alternative]
  cases first.written with
  | error problem => simp
  | ok left => cases second.written <;> simp [eq_comm]

theorem written_repetition_eq_ok : (repetition quantifier body).written = .ok text ↔
    ∃ inner, body.written = .ok inner ∧ text = quantifier.label ++ "(" ++ inner ++ ")" := by
  rw [written_repetition]
  cases body.written <;> simp [eq_comm]

theorem writtenAll_cons_eq_ok : writtenAll (item :: rest) = .ok texts ↔
    ∃ text others, item.written = .ok text ∧ writtenAll rest = .ok others ∧
      texts = text :: others := by
  rw [writtenAll_cons]
  cases item.written with
  | error problem => simp
  | ok text => cases writtenAll rest <;> simp [eq_comm]

theorem exists_written_eq_label (ok : pattern.written = .ok text) :
    ∃ inside, text.toList = pattern.label.toList ++ '(' :: inside := by
  cases pattern with
  | literal symbol =>
      obtain ⟨name, -, rfl⟩ := written_literal_eq_ok.mp ok
      exact ⟨name.toList ++ [')'], by simp [label]⟩
  | wildcard | lineStart | lineEnd =>
      cases ok
      exact ⟨[')'], by decide⟩
  | sequence items =>
      obtain ⟨texts, -, rfl⟩ := written_sequence_eq_ok.mp ok
      exact ⟨'[' :: (commaSeparated texts).toList ++ [']', ')'], by simp [label]⟩
  | alternative first second =>
      obtain ⟨left, right, -, -, rfl⟩ := written_alternative_eq_ok.mp ok
      exact ⟨left.toList ++ ',' :: ' ' :: right.toList ++ [')'], by simp [label]⟩
  | repetition quantifier body =>
      obtain ⟨inner, -, rfl⟩ := written_repetition_eq_ok.mp ok
      exact ⟨inner.toList ++ [')'], by simp [label]⟩

inductive Alike : Pattern → Pattern → Prop where
  | literal (symbol symbol' : Symbol) : Alike (.literal symbol) (.literal symbol')
  | wildcard : Alike .wildcard .wildcard
  | lineStart : Alike .lineStart .lineStart
  | lineEnd : Alike .lineEnd .lineEnd
  | sequence (items items' : List Pattern) : Alike (.sequence items) (.sequence items')
  | alternative (first second first' second' : Pattern) :
      Alike (.alternative first second) (.alternative first' second')
  | repetition (quantifier : Quantifier) (body body' : Pattern) :
      Alike (.repetition quantifier body) (.repetition quantifier body')

theorem alike_of_label (same : pattern.label = other.label) : pattern.Alike other := by
  cases pattern <;> cases other
  case repetition.repetition quantifier body quantifier' body' =>
      obtain rfl := Quantifier.label_injective same
      exact .repetition quantifier body body'
  -- The other pairs are equal in kind, or their labels differ for every quantifier.
  all_goals first
    | constructor
    | cases ‹Quantifier› <;> simp [label, Quantifier.label] at same
    | simp [label] at same

theorem bracket_not_mem_label (pattern : Pattern) : '(' ∉ pattern.label.toList := by
  cases pattern with
  | repetition quantifier body => cases quantifier <;> simp [label, Quantifier.label]
  | literal _ | wildcard | lineStart | lineEnd | sequence _ | alternative _ _ => simp [label]

theorem alike_of_written (ok : pattern.written = .ok text) (ok' : other.written = .ok text')
    (same : text.toList ++ behind = text'.toList ++ behind') : pattern.Alike other := by
  obtain ⟨inside, begins⟩ := exists_written_eq_label ok
  obtain ⟨inside', begins'⟩ := exists_written_eq_label ok'
  rw [begins, begins', List.append_assoc, List.append_assoc] at same
  obtain ⟨labels, -⟩ :=
    Text.append_mark_inj (bracket_not_mem_label pattern) (bracket_not_mem_label other) same
  exact alike_of_label (String.toList_inj.mp labels)

theorem written_ne_bracket (ok : pattern.written = .ok text) :
    text.toList ++ behind ≠ ']' :: behind' := by
  obtain ⟨inside, begins⟩ := exists_written_eq_label ok
  rw [begins]
  cases pattern with
  | repetition quantifier body => cases quantifier <;> simp [label, Quantifier.label]
  | literal _ | wildcard | lineStart | lineEnd | sequence _ | alternative _ _ => simp [label]

/-! ## Unique readability -/

/--
The text form of the tree ends by itself. No text form of another tree goes on in the same way, and
what follows the text form is determined.
-/
def Delimited (pattern : Pattern) : Prop :=
  ∀ ⦃other text text' behind behind'⦄, pattern.Coded → other.Coded →
    pattern.written = .ok text → other.written = .ok text' →
    text.toList ++ behind = text'.toList ++ behind' → pattern = other ∧ behind = behind'

/-- The items of a written sequence, to the end of it. -/
def bracketed (texts : List String) : List Char :=
  (commaSeparated texts).toList ++ [']', ')']

/-- Behind an item comes the end or a comma and the next item. -/
def bracketedRest : List String → List Char
  | [] => [']', ')']
  | texts => ',' :: ' ' :: bracketed texts

theorem bracketed_cons (text : String) (texts : List String) :
    bracketed (text :: texts) = text.toList ++ bracketedRest texts := by
  cases texts <;> simp [bracketed, bracketedRest, commaSeparated]

/-- Behind an item, either both sequences end or both go on. -/
theorem bracketed_of_rest (same : bracketedRest texts ++ behind = bracketedRest texts' ++ behind') :
    bracketed texts ++ behind = bracketed texts' ++ behind' := by
  cases texts with
  | nil =>
      cases texts' with
      | nil => exact same
      | cons text' others' => cases same
  | cons text others =>
      cases texts' with
      | nil => cases same
      | cons text' others' => exact (List.cons.inj (List.cons.inj same).2).2

theorem toList_written_sequence (texts : List String) (behind : List Char) :
    ("Sequence([" ++ commaSeparated texts ++ "])").toList ++ behind =
      "Sequence([".toList ++ (bracketed texts ++ behind) := by
  simp [bracketed]

namespace Delimited

theorem literal (symbol : Symbol) : (literal symbol).Delimited := by
  intro other text text' behind behind' coded coded' ok ok' same
  cases alike_of_written ok ok' same with
  | literal _ symbol' =>
      obtain ⟨c, rfl⟩ := Symbol.exists_char (Coded.literal_iff.mp coded)
      obtain ⟨c', rfl⟩ := Symbol.exists_char (Coded.literal_iff.mp coded')
      obtain ⟨name, named, rfl⟩ := written_literal_eq_ok.mp ok
      obtain ⟨name', named', rfl⟩ := written_literal_eq_ok.mp ok'
      simp only [String.toList_append, List.append_assoc, List.append_right_inj] at same
      obtain ⟨rfl, sameBehind⟩ := Symbol.named_quote_append_inj named named' same
      exact ⟨rfl, sameBehind⟩

theorem leaf (only : ∀ other, pattern.Alike other → other = pattern) : pattern.Delimited := by
  intro other text text' behind behind' _ _ ok ok' same
  obtain rfl := only other (alike_of_written ok ok' same)
  cases ok.symm.trans ok'
  exact ⟨rfl, List.append_cancel_left same⟩

theorem sequence_iff {items : List Pattern} : (sequence items).Delimited ↔
    ∀ ⦃items' texts texts' behind behind'⦄, (sequence items).Coded → (sequence items').Coded →
      writtenAll items = .ok texts → writtenAll items' = .ok texts' →
      bracketed texts ++ behind = bracketed texts' ++ behind' →
      items = items' ∧ behind = behind' := by
  constructor
  · intro delimited items' texts texts' behind behind' coded coded' all all' same
    obtain ⟨sameItems, sameBehind⟩ := delimited coded coded'
      (written_sequence_eq_ok.mpr ⟨texts, all, rfl⟩)
      (written_sequence_eq_ok.mpr ⟨texts', all', rfl⟩)
      (by rw [toList_written_sequence, toList_written_sequence, same])
    exact ⟨sequence.inj sameItems, sameBehind⟩
  · intro delimited other text text' behind behind' coded coded' ok ok' same
    cases alike_of_written ok ok' same with
    | sequence _ items' =>
        obtain ⟨texts, all, rfl⟩ := written_sequence_eq_ok.mp ok
        obtain ⟨texts', all', rfl⟩ := written_sequence_eq_ok.mp ok'
        rw [toList_written_sequence, toList_written_sequence, List.append_right_inj] at same
        obtain ⟨rfl, sameBehind⟩ := delimited coded coded' all all' same
        exact ⟨rfl, sameBehind⟩

theorem nil : (sequence []).Delimited := by
  refine sequence_iff.mpr fun items' texts texts' behind behind' _ _ all all' same => ?_
  cases all
  cases items' with
  | nil =>
      cases all'
      exact ⟨rfl, List.append_cancel_left same⟩
  | cons item' rest' =>
      obtain ⟨text', others', okItem', -, rfl⟩ := writtenAll_cons_eq_ok.mp all'
      rw [bracketed_cons, List.append_assoc] at same
      exact absurd same.symm (written_ne_bracket okItem')

theorem cons (itemDelimited : item.Delimited) (restDelimited : (sequence rest).Delimited) :
    (sequence (item :: rest)).Delimited := by
  refine sequence_iff.mpr fun items' texts texts' behind behind' coded coded' all all' same => ?_
  obtain ⟨text, others, okItem, okRest, rfl⟩ := writtenAll_cons_eq_ok.mp all
  rw [bracketed_cons, List.append_assoc] at same
  cases items' with
  | nil =>
      cases all'
      exact absurd same (written_ne_bracket okItem)
  | cons item' rest' =>
      obtain ⟨text', others', okItem', okRest', rfl⟩ := writtenAll_cons_eq_ok.mp all'
      obtain ⟨codedItem, codedRest⟩ := Coded.cons_iff.mp coded
      obtain ⟨codedItem', codedRest'⟩ := Coded.cons_iff.mp coded'
      rw [bracketed_cons, List.append_assoc] at same
      obtain ⟨rfl, sameRest⟩ := itemDelimited codedItem codedItem' okItem okItem' same
      obtain ⟨rfl, sameBehind⟩ := sequence_iff.mp restDelimited codedRest codedRest' okRest okRest'
        (bracketed_of_rest sameRest)
      exact ⟨rfl, sameBehind⟩

theorem alternative (firstDelimited : first.Delimited) (secondDelimited : second.Delimited) :
    (alternative first second).Delimited := by
  intro other text text' behind behind' coded coded' ok ok' same
  cases alike_of_written ok ok' same with
  | alternative _ _ first' second' =>
      obtain ⟨codedFirst, codedSecond⟩ := Coded.alternative_iff.mp coded
      obtain ⟨codedFirst', codedSecond'⟩ := Coded.alternative_iff.mp coded'
      obtain ⟨left, right, okFirst, okSecond, rfl⟩ := written_alternative_eq_ok.mp ok
      obtain ⟨left', right', okFirst', okSecond', rfl⟩ := written_alternative_eq_ok.mp ok'
      simp only [String.toList_append, List.append_assoc, List.append_right_inj] at same
      obtain ⟨rfl, sameSecond⟩ := firstDelimited codedFirst codedFirst' okFirst okFirst' same
      obtain ⟨rfl, sameBehind⟩ := secondDelimited codedSecond codedSecond' okSecond okSecond'
        (List.append_cancel_left sameSecond)
      exact ⟨rfl, List.append_cancel_left sameBehind⟩

theorem repetition (bodyDelimited : body.Delimited) : (repetition quantifier body).Delimited := by
  intro other text text' behind behind' coded coded' ok ok' same
  cases alike_of_written ok ok' same with
  | repetition _ _ body' =>
      obtain ⟨inner, okBody, rfl⟩ := written_repetition_eq_ok.mp ok
      obtain ⟨inner', okBody', rfl⟩ := written_repetition_eq_ok.mp ok'
      simp only [String.toList_append, List.append_assoc, List.append_right_inj] at same
      obtain ⟨rfl, sameBehind⟩ := bodyDelimited (Coded.repetition_iff.mp coded)
        (Coded.repetition_iff.mp coded') okBody okBody' same
      exact ⟨rfl, List.append_cancel_left sameBehind⟩

end Delimited

theorem delimited (pattern : Pattern) : pattern.Delimited := by
  induction pattern using byItems with
  | literal symbol => exact .literal symbol
  | wildcard => exact .leaf fun _ alike => by cases alike; rfl
  | lineStart => exact .leaf fun _ alike => by cases alike; rfl
  | lineEnd => exact .leaf fun _ alike => by cases alike; rfl
  | nil => exact .nil
  | cons item rest ihItem ihRest => exact .cons ihItem ihRest
  | alternative first second ihFirst ihSecond => exact .alternative ihFirst ihSecond
  | repetition quantifier body ih => exact .repetition ih

/--
A written tree determines the tree. A tree whose literals are single characters has a text form, and
no other such tree has the same.
-/
theorem written_determines :
    (∀ pattern : Pattern, pattern.Coded → ∃ text, pattern.written = .ok text) ∧
    ∀ one other : Pattern, one.Coded → other.Coded → one.written = other.written →
      one = other := by
  have total (pattern : Pattern) (coded : pattern.Coded) : ∃ text, pattern.written = .ok text :=
    exists_written_iff.mpr coded.writable
  refine ⟨total, fun one other coded coded' same => ?_⟩
  obtain ⟨text, ok⟩ := total one coded
  have alone : text.toList ++ [] = text.toList ++ [] := rfl
  exact (one.delimited coded coded' ok (same ▸ ok) alone).1

/-- Literals that are also signs of the text form, a repetition without bounds and nothing. -/
def confusing : Pattern :=
  .alternative
    (.sequence [.literal "'", .literal "\\", .literal ",", .literal ")", .sequence []])
    (.repetition .unspecified (.sequence [.literal "\"", .literal "\n"]))

theorem written_determines_confusing :
    confusing.Coded ∧
      confusing.written = .ok ("Disjunction(Sequence([Char(\"'\"), Char('\\\\'), Char(','), " ++
        "Char(')'), Sequence([])]), Repeat(Sequence([Char('\"'), Char(0x000a)])))") ∧
      ∀ other : Pattern, other.Coded → other.written = confusing.written → other = confusing := by
  have single : "'".length = 1 ∧ "\\".length = 1 ∧ ",".length = 1 ∧ ")".length = 1 ∧
      "\"".length = 1 ∧ "\n".length = 1 := by decide
  have coded : confusing.Coded := by
    simpa [Coded, confusing, nodes, nodesOf] using single
  exact ⟨coded, rfl, fun other codedOther => written_determines.2 other _ codedOther coded⟩

end Pattern

end PatternMachine
