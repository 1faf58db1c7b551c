import PatternMachine.Pattern.Reader
import PatternMachine.Proofs.Pattern.Shape

/-!
# Canonical patterns

The trees that a reader makes. A branch is a sequence of one or more items, a canonical tree is
one branch or a branch with a canonical tree as its alternative, and an item is a leaf, a bounded
repetition of an item, or a canonical tree as a group. Every operation of the reader keeps its
items and branches in this form.
-/

namespace PatternMachine

namespace Pattern

mutual

/-- The tree can stand as an item of a branch. -/
inductive IsItem : Pattern → Prop where
  | literal (c : Char) : IsItem (.literal (String.ofList [c]))
  | wildcard : IsItem .wildcard
  | lineStart : IsItem .lineStart
  | lineEnd : IsItem .lineEnd
  | repetition {quantifier : Quantifier} {body : Pattern} (given : quantifier ≠ .unspecified)
      (item : IsItem body) : IsItem (.repetition quantifier body)
  | group {pattern : Pattern} (canonical : Canonical pattern) : IsItem pattern

/-- The tree is one branch or several, and every branch has an item. -/
inductive Canonical : Pattern → Prop where
  | branch {items : List Pattern} (filled : items ≠ []) (all : ∀ item ∈ items, IsItem item) :
      Canonical (.sequence items)
  | alternative {items : List Pattern} {rest : Pattern} (filled : items ≠ [])
      (all : ∀ item ∈ items, IsItem item) (others : Canonical rest) :
      Canonical (.alternative (.sequence items) rest)

end

theorem Bounded.sequence_iff {items : List Pattern} :
    (sequence items).Bounded ↔ ∀ item ∈ items, item.Bounded := by
  induction items with
  | nil => simp [Bounded, nodes_sequence, nodesOf_nil, isBare]
  | cons item rest ih => rw [Bounded.cons_iff, ih, List.forall_mem_cons]

mutual

theorem IsItem.bounded {pattern : Pattern} : pattern.IsItem → pattern.Bounded
  | .literal _ => by simp [Bounded, nodes, isBare]
  | .wildcard => by decide
  | .lineStart => by decide
  | .lineEnd => by decide
  | .repetition given item => Bounded.repetition_iff.mpr ⟨given, item.bounded⟩
  | .group canonical => canonical.bounded

theorem Canonical.bounded {pattern : Pattern} : pattern.Canonical → pattern.Bounded
  | .branch _ all => Bounded.sequence_iff.mpr fun item mem => (all item mem).bounded
  | .alternative _ all others =>
      Bounded.alternative_iff.mpr
        ⟨Bounded.sequence_iff.mpr fun item mem => (all item mem).bounded, others.bounded⟩

end

/-- One branch with at least one item. -/
inductive IsBranch : Pattern → Prop where
  | intro {items : List Pattern} (filled : items ≠ []) (all : ∀ item ∈ items, item.IsItem) :
      IsBranch (.sequence items)

theorem canonical_of_ofBranches {branches : List Pattern} {pattern : Pattern}
    (all : ∀ branch ∈ branches, branch.IsBranch) (folded : ofBranches branches = some pattern) :
    pattern.Canonical := by
  induction branches generalizing pattern with
  | nil => cases folded
  | cons branch rest ih =>
      obtain ⟨⟨filled, items⟩, others⟩ := List.forall_mem_cons.mp all
      cases restFolded : ofBranches rest with
      | none =>
          simp only [ofBranches, restFolded, Option.some.injEq] at folded
          exact folded ▸ .branch filled items
      | some other =>
          simp only [ofBranches, restFolded, Option.some.injEq] at folded
          exact folded ▸ .alternative filled items (ih others restFolded)

end Pattern

/-! ## What a reader holds -/

/-- All items of the level are items and all its closed branches are branches. -/
structure Level.Formed (level : Level) : Prop where
  items : ∀ item ∈ level.items, item.IsItem
  branches : ∀ branch ∈ level.branches, branch.IsBranch

namespace Level.Formed

variable {level : Level}

theorem empty : Level.Formed {} :=
  ⟨fun _ mem => absurd mem List.not_mem_nil, fun _ mem => absurd mem List.not_mem_nil⟩

theorem push (formed : level.Formed) {item : Pattern} (isItem : item.IsItem) :
    (level.push item).Formed :=
  ⟨List.forall_mem_cons.mpr ⟨isItem, formed.items⟩, formed.branches⟩

theorem closeBranch (formed : level.Formed) : level.closeBranch.Formed := by
  obtain ⟨items, branches⟩ := level
  cases items with
  | nil => exact formed
  | cons item rest =>
      have branch : (Pattern.sequence (item :: rest).reverse).IsBranch := by
        refine .intro (by simp) fun other mem => ?_
        exact formed.items other (List.mem_reverse.mp mem)
      exact ⟨empty.items, List.forall_mem_cons.mpr ⟨branch, formed.branches⟩⟩

theorem canonical (formed : level.Formed) {pattern : Pattern}
    (folded : Pattern.ofBranches level.closeBranch.branches.reverse = some pattern) :
    pattern.Canonical := by
  refine Pattern.canonical_of_ofBranches (fun branch mem => ?_) folded
  exact formed.closeBranch.branches branch (List.mem_reverse.mp mem)

end Level.Formed

namespace Reader

structure Formed (reader : Reader) : Prop where
  level : reader.level.Formed
  outer : ∀ level ∈ reader.outer, level.Formed

namespace Formed

variable {reader next : Reader}

theorem push (formed : reader.Formed) {item : Pattern} (isItem : item.IsItem) :
    (reader.push item).Formed :=
  ⟨formed.level.push isItem, formed.outer⟩

theorem literal (formed : reader.Formed) (c : Char) :
    (reader.push (.literal (String.ofList [c]))).Formed :=
  formed.push (.literal c)

theorem escape (formed : reader.Formed) {position : Int} {c : Char}
    (ok : reader.escape position (String.ofList [c]) = .ok next) : next.Formed := by
  unfold Reader.escape at ok
  split at ok <;> cases ok
  exact formed.literal c

theorem quantify (formed : reader.Formed) {position : Int} {quantifier : Quantifier}
    (given : quantifier ≠ .unspecified) (ok : reader.quantify position quantifier = .ok next) :
    next.Formed := by
  obtain ⟨⟨items, branches⟩, outer⟩ := reader
  cases items with
  | nil => cases ok
  | cons last items =>
      cases ok
      obtain ⟨isItem, items⟩ := List.forall_mem_cons.mp formed.level.items
      exact ⟨⟨List.forall_mem_cons.mpr ⟨.repetition given isItem, items⟩, formed.level.branches⟩,
        formed.outer⟩

theorem bar (formed : reader.Formed) {position : Int} (ok : reader.bar position = .ok next) :
    next.Formed := by
  unfold Reader.bar at ok
  split at ok <;> cases ok
  exact ⟨formed.level.closeBranch, formed.outer⟩

theorem openGroup (formed : reader.Formed) : reader.openGroup.Formed :=
  ⟨.empty, List.forall_mem_cons.mpr ⟨formed.level, formed.outer⟩⟩

theorem closeGroup (formed : reader.Formed) {position : Int}
    (ok : reader.closeGroup position = .ok next) : next.Formed := by
  obtain ⟨level, outer⟩ := reader
  cases outer with
  | nil => cases ok
  | cons around outer =>
      obtain ⟨aroundFormed, outerFormed⟩ := List.forall_mem_cons.mp formed.outer
      simp only [Reader.closeGroup] at ok
      split at ok <;> cases ok
      · exact ⟨aroundFormed, outerFormed⟩
      · rename_i group folded
        exact ⟨aroundFormed.push (.group (formed.level.canonical folded)), outerFormed⟩

theorem character (formed : reader.Formed) {position : Nat} {c : Char}
    (ok : reader.character position c = .ok next) : next.Formed := by
  unfold Reader.character at ok
  split at ok
  · exact formed.quantify (by simp) ok
  · exact formed.quantify (by simp) ok
  · exact formed.quantify (by simp) ok
  · cases ok
    exact formed.openGroup
  · exact formed.closeGroup ok
  · exact formed.bar ok
  · cases ok
    exact formed.push .wildcard
  · cases ok
    exact formed.push .lineStart
  · cases ok
    exact formed.push .lineEnd
  · cases ok
    exact formed.literal _

/-- A scan keeps the form, wherever it stops. -/
theorem scan (formed : reader.Formed) (position : Nat) (pending : Option Nat) (text : List Char) :
    (scan position pending text reader).reader.Formed := by
  induction text generalizing position pending reader with
  | nil => exact formed
  | cons c rest ih =>
      cases pending with
      | some start =>
          simp only [Reader.scan]
          split
          · exact formed
          · rename_i next ok
            exact ih (formed.escape ok) _ _
      | none =>
          simp only [Reader.scan]
          split
          · exact ih formed _ _
          · split
            · exact formed
            · rename_i next ok
              exact ih (formed.character ok) _ _

theorem finish (formed : reader.Formed) {pattern : Pattern} (ok : reader.finish = .ok pattern) :
    pattern.Canonical := by
  unfold Reader.finish at ok
  split at ok
  · cases ok
  · split at ok
    · cases ok
    · rename_i folded
      cases ok
      exact formed.level.canonical folded

end Formed

theorem formed_start : Reader.Formed {} :=
  ⟨.empty, fun _ mem => absurd mem List.not_mem_nil⟩

end Reader

namespace Pattern

theorem canonical_of_read {source : String} {pattern : Pattern}
    (ok : read source = .ok pattern) : pattern.Canonical := by
  have formed := Reader.formed_start.scan 0 none source.toList
  unfold read Reader.readAll at ok
  simp only at ok
  split at ok
  · cases ok
  · cases ok
  · split at ok
    · cases ok
    · rename_i finished
      cases ok
      exact formed.finish finished

end Pattern

end PatternMachine
