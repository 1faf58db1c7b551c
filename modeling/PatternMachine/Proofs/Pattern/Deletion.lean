import Mathlib.Logic.Relation
import PatternMachine.Proofs.Pattern.Printed
import PatternMachine.Proofs.Pattern.Reading

/-!
# What reading leaves out

A reader leaves out empty groups and bars before the end of a group or of the text, and nothing
else. What it holds is printed as the text that it has read without them, so that deleting them
from a text that is read ends at the printed tree. A deletion does not change what is read, so
that it ends there in whatever order they are deleted.
-/

namespace PatternMachine

/-- An empty group of the text, or a bar before the end of a group or of the text, is deleted. -/
inductive Deletes : List Char → List Char → Prop where
  | group {before after : List Char} (settled : Settled before) :
      Deletes (before ++ '(' :: ')' :: after) (before ++ after)
  | inner {before after : List Char} (settled : Settled before) :
      Deletes (before ++ '|' :: ')' :: after) (before ++ ')' :: after)
  | last {before : List Char} (settled : Settled before) : Deletes (before ++ ['|']) before

abbrev Erodes : List Char → List Char → Prop :=
  Relation.ReflTransGen Deletes

theorem Deletes.length_lt {text fewer : List Char} (deletes : Deletes text fewer) :
    fewer.length < text.length := by
  cases deletes with
  | group _ | inner _ | last _ =>
      simp only [List.length_append, List.length_cons, List.length_nil]
      omega

theorem Erodes.length_le {text fewer : List Char} (erodes : Erodes text fewer) :
    fewer.length ≤ text.length := by
  induction erodes with
  | refl => exact Nat.le_refl _
  | tail _ deletes ih => exact Nat.le_trans (Nat.le_of_lt deletes.length_lt) ih

/-! ## What a reader holds in print -/

/-- The text of branches of which each is closed by a bar. -/
def Pattern.printedClosed (branches : List Pattern) : List Char :=
  branches.flatMap fun branch => branch.printed ++ ['|']

/-- The text of a level: its closed branches, then the items of the open one. -/
def Level.printed (level : Level) : List Char :=
  Pattern.printedClosed level.branches.reverse ++ Pattern.printedAll level.items.reverse

namespace Reader

/-- The text of the levels around the one being read, each ended by the group it is left for. -/
def printedOuter (outer : List Level) : List Char :=
  outer.reverse.flatMap fun level => level.printed ++ ['(']

def printed (reader : Reader) : List Char :=
  printedOuter reader.outer ++ reader.level.printed

end Reader

namespace Pattern

theorem settled_printed (pattern : Pattern) : Settled pattern.printed := by
  have settled_grouped {item : Pattern} (inside : Settled item.printed) :
      Settled (item.grouped item.printed) := by
    unfold grouped
    split
    · exact .cons (by decide) (.append inside (by decide))
    · exact .cons (by decide) (.append inside (by decide))
    · exact inside
  have settled_escaped (c : Char) : Settled (escaped c) := by
    unfold escaped
    split
    · simp [Settled, Token.ofText]
    · rename_i plain
      refine .cons (fun same => plain ?_) .nil
      rw [same]
      decide
  induction pattern using byItems with
  | literal symbol => exact .flatMap fun c _ => settled_escaped c
  | wildcard => decide
  | lineStart => decide
  | lineEnd => decide
  | nil => decide
  | cons item rest ihItem ihRest => exact .append (settled_grouped ihItem) ihRest
  | alternative first second ihFirst ihSecond =>
      exact .append ihFirst (.cons (by decide) ihSecond)
  | repetition quantifier body ih =>
      exact .append (settled_grouped ih) (by cases quantifier <;> decide)

theorem settled_printedClosed (branches : List Pattern) : Settled (printedClosed branches) :=
  .flatMap fun branch _ => .append branch.settled_printed (by decide)

theorem printedAll_append (items others : List Pattern) :
    printedAll (items ++ others) = printedAll items ++ printedAll others := by
  induction items with
  | nil => rfl
  | cons item rest ih => simp only [List.cons_append, printedAll, ih, List.append_assoc]

/-- Closed branches are the tree that they fold to with one more bar. -/
theorem printedClosed_of_ofBranches {branches : List Pattern} {pattern : Pattern}
    (folded : ofBranches branches = some pattern) :
    printedClosed branches = pattern.printed ++ ['|'] := by
  induction branches generalizing pattern with
  | nil => cases folded
  | cons branch rest ih =>
      cases restFolded : ofBranches rest with
      | none =>
          obtain rfl : rest = [] := by
            cases rest with
            | nil => rfl
            | cons other rest =>
                unfold ofBranches at restFolded
                split at restFolded <;> cases restFolded
          cases folded
          exact List.append_nil _
      | some others =>
          simp only [ofBranches, restFolded, Option.some.injEq] at folded
          have tail := ih restFolded
          unfold printedClosed at tail ⊢
          rw [← folded, List.flatMap_cons, tail, printed]
          simp only [List.append_assoc, List.cons_append, List.nil_append]

theorem Canonical.grouped_printed {pattern : Pattern} (canonical : pattern.Canonical) :
    pattern.grouped pattern.printed = '(' :: (pattern.printed ++ [')']) := by
  cases canonical <;> rfl

end Pattern

namespace Level

theorem settled_printed (level : Level) : Settled level.printed :=
  .append (Pattern.settled_printedClosed _) (Pattern.sequence level.items.reverse).settled_printed

theorem printed_push (item : Pattern) (level : Level) :
    (level.push item).printed = level.printed ++ item.grouped item.printed := by
  simp only [printed, push, List.reverse_cons, Pattern.printedAll_append, Pattern.printedAll,
    List.append_nil, List.append_assoc]

theorem closeBranch_closeBranch (level : Level) :
    level.closeBranch.closeBranch = level.closeBranch := by
  obtain ⟨items, branches⟩ := level
  cases items <;> rfl

theorem printed_of_none {level : Level}
    (folded : Pattern.ofBranches level.closeBranch.branches.reverse = none) :
    level.printed = [] := by
  obtain ⟨items, branches⟩ := level
  obtain ⟨rfl, rfl⟩ := (Pattern.ofBranches_closeBranch_eq_none_iff _).mp folded
  rfl

/-- A level with an open branch is printed as the tree it folds to, and else with one more bar. -/
theorem printed_of_some {level : Level} {pattern : Pattern}
    (folded : Pattern.ofBranches level.closeBranch.branches.reverse = some pattern) :
    level.printed = pattern.printed ∨ level.printed = pattern.printed ++ ['|'] := by
  have closed := Pattern.printedClosed_of_ofBranches folded
  obtain ⟨items, branches⟩ := level
  cases items with
  | nil => exact .inr ((List.append_nil _).trans closed)
  | cons item items =>
      refine .inl (List.append_cancel_right (Eq.trans ?_ closed))
      simp only [printed, closeBranch, Pattern.printedClosed, List.reverse_cons,
        List.flatMap_append, List.flatMap_cons, List.flatMap_nil, List.append_nil,
        Pattern.printed, List.append_assoc]

end Level

namespace Reader

variable {reader next : Reader} {token : Token} {tokens : List Token}

theorem settled_printed (reader : Reader) : Settled reader.printed :=
  .append (.flatMap fun level _ => .append level.settled_printed (by decide))
    reader.level.settled_printed

theorem printed_push (item : Pattern) (reader : Reader) :
    (reader.push item).printed = reader.printed ++ item.grouped item.printed := by
  simp only [printed, push, Level.printed_push, List.append_assoc]

theorem printed_literal (c : Char) (reader : Reader) :
    (reader.push (.literal (String.ofList [c]))).printed = reader.printed ++ Pattern.escaped c := by
  simp [printed_push, Pattern.grouped, Pattern.printed]

theorem printed_openGroup (reader : Reader) :
    reader.openGroup.printed = reader.printed ++ ['('] := by
  simp [printed, openGroup, printedOuter, Level.printed, Pattern.printedClosed, Pattern.printedAll]

theorem printed_quantify {position : Int} {quantifier : Quantifier}
    (ok : reader.quantify position quantifier = .ok next) :
    next.printed = reader.printed ++ quantifier.sign := by
  obtain ⟨⟨items, branches⟩, outer⟩ := reader
  cases items with
  | nil => cases ok
  | cons last items =>
      cases ok
      simp only [printed, Level.printed, List.reverse_cons, Pattern.printedAll_append,
        Pattern.printedAll, Pattern.grouped, Pattern.printed, List.append_nil, List.append_assoc]

theorem printed_bar {position : Int} (ok : reader.bar position = .ok next) :
    next.printed = reader.printed ++ ['|'] := by
  obtain ⟨⟨items, branches⟩, outer⟩ := reader
  cases items with
  | nil => cases ok
  | cons last items =>
      cases ok
      simp only [printed, closeBranch, Level.closeBranch, Level.printed, Pattern.printedClosed,
        List.reverse_cons, List.flatMap_append, List.flatMap_cons, List.flatMap_nil,
        Pattern.printed, Pattern.printedAll, List.reverse_nil, List.append_nil, List.append_assoc]

/-! ## Deleting what is left out -/

theorem erodes_closeGroup {position : Int} (formed : reader.Formed)
    (ok : reader.closeGroup position = .ok next) (after : List Char) :
    Erodes (reader.printed ++ ')' :: after) (next.printed ++ after) := by
  obtain ⟨level, outer⟩ := reader
  cases outer with
  | nil => cases ok
  | cons around outer =>
      have text : (Reader.mk level (around :: outer)).printed =
          (Reader.mk around outer).printed ++ '(' :: level.printed := by
        simp [printed, printedOuter]
      simp only [closeGroup] at ok
      split at ok <;> cases ok
      · rename_i folded
        rw [text, Level.printed_of_none folded, List.append_assoc]
        exact .single (.group (settled_printed _))
      · rename_i group folded
        have kept : (Reader.mk (around.push group) outer).printed ++ after =
            (Reader.mk around outer).printed ++ '(' :: group.printed ++ ')' :: after := by
          have pushed := printed_push group ⟨around, outer⟩
          rw [(formed.level.canonical folded).grouped_printed] at pushed
          simpa [push] using congrArg (· ++ after) pushed
        rw [text, kept]
        rcases Level.printed_of_some folded with same | trailing
        · rw [same]
        · rw [trailing, ← List.cons_append, ← List.append_assoc, List.append_assoc _ ['|']]
          exact .single (.inner (.append (settled_printed _)
            (.cons (by decide) group.settled_printed)))

/-- What the reader holds before a token and the token come to what it holds behind it. -/
theorem erodes_take {position : Nat} (formed : reader.Formed) (ended : token ≠ .plain '\\')
    (ok : reader.take position token = .ok next) (after : List Char) :
    Erodes (reader.printed ++ (token.text ++ after)) (next.printed ++ after) := by
  have of_eq (same : next.printed = reader.printed ++ token.text) :
      Erodes (reader.printed ++ (token.text ++ after)) (next.printed ++ after) := by
    rw [same, List.append_assoc]
  cases token with
  | escape c =>
      refine of_eq ?_
      rw [take, escape_character] at ok
      split at ok <;> cases ok
      rename_i special
      rw [printed_literal, Pattern.escaped, if_pos special]
      rfl
  | plain c =>
      simp only [take] at ok
      unfold character at ok
      split at ok
      · exact of_eq (printed_quantify ok)
      · exact of_eq (printed_quantify ok)
      · exact of_eq (printed_quantify ok)
      · cases ok
        exact of_eq (printed_openGroup reader)
      · exact erodes_closeGroup formed ok after
      · exact of_eq (printed_bar ok)
      · cases ok
        exact of_eq (printed_push _ reader)
      · cases ok
        exact of_eq (printed_push _ reader)
      · cases ok
        exact of_eq (printed_push _ reader)
      · cases ok
        refine of_eq ?_
        have plain : c ∉ escapable := by
          have other : c ≠ '\\' := fun same => ended (congrArg Token.plain same)
          simp_all [escapable]
        rw [printed_literal, Pattern.escaped, if_neg plain]
        rfl

theorem Formed.take {position : Nat} (formed : reader.Formed)
    (ok : reader.take position token = .ok next) : next.Formed := by
  cases token with
  | escape c => exact formed.escape ok
  | plain c => exact formed.character ok

theorem Reads.erodes (reads : Reads tokens reader next) (formed : reader.Formed) :
    next.Formed ∧ Erodes (reader.printed ++ tokens.flatMap Token.text) next.printed := by
  induction reads with
  | nil => exact ⟨formed, by rw [List.flatMap_nil, List.append_nil]⟩
  | cons ended taken _ ih =>
      obtain ⟨lastFormed, others⟩ := ih (formed.take taken)
      exact ⟨lastFormed, (erodes_take formed ended taken _).trans others⟩

theorem erodes_finish {pattern : Pattern} (ok : reader.finish = .ok pattern) :
    Erodes reader.printed pattern.printed := by
  obtain ⟨level, outer⟩ := reader
  cases outer with
  | cons around outer => cases ok
  | nil =>
      simp only [finish] at ok
      split at ok <;> cases ok
      rename_i folded
      have text : (Reader.mk level []).printed = level.printed := rfl
      rw [text]
      rcases Level.printed_of_some folded with same | trailing
      · rw [same]
      · rw [trailing]
        exact .single (.last pattern.settled_printed)

/-! ## Reading what is left -/

theorem eq_closeBranch_of_bar {position : Int} (ok : reader.bar position = .ok next) :
    next = reader.closeBranch := by
  unfold bar at ok
  split at ok <;> cases ok
  rfl

theorem closeGroup_closeBranch (position : Int) (reader : Reader) :
    reader.closeBranch.closeGroup position = reader.closeGroup position := by
  simp only [closeGroup, closeBranch, Level.closeBranch_closeBranch]

theorem finish_closeBranch (reader : Reader) : reader.closeBranch.finish = reader.finish := by
  simp only [finish, closeBranch, Level.closeBranch_closeBranch]

end Reader

namespace Deletes

open Reader (Reads)

theorem read_eq {text fewer : List Char} (deletes : Deletes text fewer) {pattern : Pattern}
    (ok : Pattern.read (String.ofList text) = .ok pattern) :
    Pattern.read (String.ofList fewer) = .ok pattern := by
  obtain ⟨last, reads, finished⟩ := Pattern.read_eq_ok_iff.mp ok
  refine Pattern.read_eq_ok_iff.mpr ?_
  rw [String.toList_ofList] at reads ⊢
  cases deletes with
  | @group before after settled =>
      rw [Token.ofText_append settled] at reads ⊢
      obtain ⟨reader, front, back⟩ := reads.of_append
      cases back with
      | cons _ opened rest =>
          cases rest with
          | cons _ closed others =>
              cases opened
              cases closed
              exact ⟨last, front.append others, finished⟩
  | @inner before after settled =>
      rw [Token.ofText_append settled] at reads ⊢
      obtain ⟨reader, front, back⟩ := reads.of_append
      cases back with
      | cons _ barred rest =>
          cases rest with
          | cons ended closed others =>
              obtain rfl := Reader.eq_closeBranch_of_bar barred
              have same : reader.take 0 (.plain ')') = .ok _ :=
                (Reader.closeGroup_closeBranch _ reader).symm.trans closed
              exact ⟨last, front.append (.cons ended same others), finished⟩
  | last settled =>
      rw [Token.ofText_append settled] at reads
      obtain ⟨reader, front, back⟩ := reads.of_append
      cases back with
      | cons _ barred rest =>
          cases rest
          obtain rfl := Reader.eq_closeBranch_of_bar barred
          exact ⟨reader, front, (Reader.finish_closeBranch reader).symm.trans finished⟩

end Deletes

namespace Pattern

theorem erodes_printed {text : List Char} {pattern : Pattern}
    (ok : read (String.ofList text) = .ok pattern) : Erodes text pattern.printed := by
  obtain ⟨reader, reads, finished⟩ := read_eq_ok_iff.mp ok
  have front := (reads.erodes Reader.formed_start).2
  rw [Token.flatMap_text_ofText, String.toList_ofList] at front
  exact front.trans (Reader.erodes_finish finished)

theorem read_of_erodes {text fewer : List Char} (erodes : Erodes text fewer) {pattern : Pattern}
    (ok : read (String.ofList text) = .ok pattern) :
    read (String.ofList fewer) = .ok pattern := by
  induction erodes with
  | refl => exact ok
  | tail _ deletes ih => exact deletes.read_eq ih

/-- Nothing of a printed tree is left out when it is read. -/
theorem Canonical.not_deletes {pattern : Pattern} (canonical : pattern.Canonical)
    (fewer : List Char) : ¬ Deletes pattern.printed fewer := by
  intro deletes
  have back := erodes_printed (deletes.read_eq canonical.read_printed)
  exact absurd deletes.length_lt (Nat.not_lt_of_le back.length_le)

/--
Printing the tree of a text gives the text without what reading leaves out: the deletions end
there and nowhere else, and texts of one tree differ in what is deleted alone.
-/
theorem printed_of_read {source : String} {pattern : Pattern} (ok : read source = .ok pattern) :
    Erodes source.toList pattern.printed ∧
      (∀ text, Erodes source.toList text →
        ((∀ fewer, ¬ Deletes text fewer) ↔ text = pattern.printed)) ∧
      ∀ other, read other = .ok pattern →
        ∃ text, Erodes source.toList text ∧ Erodes other.toList text := by
  have ends {source : String} (ok : read source = .ok pattern) :
      Erodes source.toList pattern.printed := by
    rw [← String.ofList_toList (s := source)] at ok
    exact erodes_printed ok
  refine ⟨ends ok, fun text erodes => ?_, fun other same => ⟨_, ends ok, ends same⟩⟩
  constructor
  · intro done
    rw [← String.ofList_toList (s := source)] at ok
    rcases (erodes_printed (read_of_erodes erodes ok)).cases_head with same | ⟨fewer, deletes, -⟩
    · exact same
    · exact absurd deletes (done fewer)
  · rintro rfl
    exact (canonical_of_read ok).not_deletes

/-- An empty group leaves a bar before the end of a group, and another one before the end. -/
def branchesAndNothing : String := "a|(b|())|()"

theorem printed_of_read_branchesAndNothing :
    ∃ pattern, read branchesAndNothing = .ok pattern ∧ pattern.printed = ['a', '|', '(', 'b', ')'] ∧
      Erodes branchesAndNothing.toList pattern.printed ∧
      (∀ fewer, ¬ Deletes pattern.printed fewer) ∧
      ∃ text, Erodes branchesAndNothing.toList text ∧ Erodes "a|(b|)".toList text := by
  have ok : read branchesAndNothing =
      .ok (.alternative (.sequence [.literal "a"])
        (.sequence [.sequence [.literal "b"]])) := by
    rfl
  obtain ⟨erodes, ends, shared⟩ := printed_of_read ok
  exact ⟨_, ok, by decide, erodes, (ends _ erodes).mpr rfl, shared "a|(b|)" rfl⟩

end Pattern

end PatternMachine
