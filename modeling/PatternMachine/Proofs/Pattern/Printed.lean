import PatternMachine.Proofs.Pattern.Canonical

/-!
# Printed patterns

The text that a canonical tree is read from. A literal that means something to the reader stands
behind a backslash, and a tree that is an item of another stands in parentheses. Reading the text
of an item puts just this item behind those read before, so that a printed tree is read back.
-/

namespace PatternMachine

/-- The sign of a quantifier; a repetition without bounds has none. -/
def Quantifier.sign : Quantifier → List Char
  | .oneOrMore => ['+']
  | .zeroOrMore => ['*']
  | .zeroOrOne => ['?']
  | .unspecified => []

namespace Pattern

/-- A literal character, behind a backslash if it means something to the reader. -/
def escaped (c : Char) : List Char :=
  if c ∈ Reader.escapable then ['\\', c] else [c]

/-- The text of an item: that of a sequence or of alternatives stands in parentheses. -/
def grouped (text : List Char) : Pattern → List Char
  | .sequence _ | .alternative _ _ => '(' :: (text ++ [')'])
  | _ => text

def parts : Pattern → List Pattern
  | .alternative first second => first :: second.parts
  | pattern => [pattern]

theorem ofBranches_parts (pattern : Pattern) : ofBranches pattern.parts = some pattern := by
  fun_induction parts pattern with
  | case1 first second ih => simp only [ofBranches, ih]
  | case2 pattern => rfl

mutual

def printed : Pattern → List Char
  | .literal symbol => symbol.toList.flatMap escaped
  | .wildcard => ['.']
  | .lineStart => ['^']
  | .lineEnd => ['$']
  | .sequence items => printedAll items
  | .alternative first second => first.printed ++ '|' :: second.printed
  | .repetition quantifier body => body.grouped body.printed ++ quantifier.sign

def printedAll : List Pattern → List Char
  | [] => []
  | item :: rest => item.grouped item.printed ++ printedAll rest

end

end Pattern

theorem Level.closeBranch_reverse {items : List Pattern} (filled : items ≠ [])
    (branches : List Pattern) :
    (Level.mk items.reverse branches).closeBranch = ⟨[], .sequence items :: branches⟩ := by
  unfold closeBranch
  split
  · rename_i none
    exact absurd (List.reverse_eq_nil_iff.mp none) filled
  · rw [List.reverse_reverse]

namespace Reader

/-- Reading the text takes the first reader to the second, whatever follows. -/
def Takes (text : List Char) (reader next : Reader) : Prop :=
  ∀ position rest, scan position none (text ++ rest) reader =
    scan (position + text.length) none rest next

namespace Takes

variable {text text' : List Char} {reader next last : Reader}

theorem nil : Takes [] reader reader :=
  fun _ _ => rfl

theorem append (one : Takes text reader next) (other : Takes text' next last) :
    Takes (text ++ text') reader last := by
  intro position rest
  rw [List.append_assoc, one, other, List.length_append, Nat.add_assoc]

theorem character {c : Char} (plain : c ≠ '\\')
    (ok : ∀ position, reader.character position c = .ok next) : Takes [c] reader next := by
  intro position rest
  simp only [List.cons_append, List.nil_append, scan, if_neg plain, ok, List.length_singleton]

theorem escape {c : Char} (special : c ∈ escapable) :
    Takes ['\\', c] reader (reader.push (.literal (String.ofList [c]))) := by
  intro position rest
  have ok : reader.escape (position + 1 : Nat) (String.ofList [c]) =
      .ok (reader.push (.literal (String.ofList [c]))) := by
    rw [escape_character, if_pos special]
  simp only [List.cons_append, List.nil_append, scan, if_pos, ok]
  rfl

theorem character_literal {c : Char} (plain : c ∉ escapable) (position : Nat) :
    reader.character position c = .ok (reader.push (.literal (String.ofList [c]))) := by
  unfold Reader.character
  split <;> first | rfl | exact absurd (by decide) plain

theorem literal (c : Char) :
    Takes (Pattern.escaped c) reader (reader.push (.literal (String.ofList [c]))) := by
  unfold Pattern.escaped
  split
  · rename_i special
    exact escape special
  · rename_i plain
    refine character (fun same => plain ?_) (character_literal plain)
    rw [same]
    decide

theorem sign {quantifier : Quantifier} (given : quantifier ≠ .unspecified) (item : Pattern) :
    Takes quantifier.sign (reader.push item) (reader.push (.repetition quantifier item)) := by
  cases quantifier with
  | unspecified => exact absurd rfl given
  | oneOrMore => exact character (by decide) fun _ => rfl
  | zeroOrMore => exact character (by decide) fun _ => rfl
  | zeroOrOne => exact character (by decide) fun _ => rfl

theorem items_behind {items : List Pattern}
    (all : ∀ item ∈ items, ∀ reader : Reader,
      Takes (item.grouped item.printed) reader (reader.push item))
    (before branches : List Pattern) (outer : List Level) :
    Takes (Pattern.printedAll items) ⟨⟨before, branches⟩, outer⟩
      ⟨⟨items.reverse ++ before, branches⟩, outer⟩ := by
  induction items generalizing before with
  | nil => exact nil
  | cons item rest ih =>
      obtain ⟨one, others⟩ := List.forall_mem_cons.mp all
      rw [List.reverse_cons, List.append_assoc]
      exact (one _).append (ih others (item :: before))

theorem items {items : List Pattern}
    (all : ∀ item ∈ items, ∀ reader : Reader,
      Takes (item.grouped item.printed) reader (reader.push item))
    (branches : List Pattern) (outer : List Level) :
    Takes (Pattern.printedAll items) ⟨⟨[], branches⟩, outer⟩
      ⟨⟨items.reverse, branches⟩, outer⟩ := by
  have behind := items_behind all [] branches outer
  rwa [List.append_nil] at behind

theorem bar {items : List Pattern} (filled : items ≠ []) (branches : List Pattern)
    (outer : List Level) :
    Takes ['|'] ⟨⟨items.reverse, branches⟩, outer⟩
      ⟨⟨[], .sequence items :: branches⟩, outer⟩ := by
  refine character (by decide) fun position => ?_
  simp only [Reader.character, Reader.bar]
  split
  · rename_i none
    exact absurd (List.reverse_eq_nil_iff.mp none) filled
  · rw [closeBranch, Level.closeBranch_reverse filled]

/-- Between parentheses the branches of a tree become an item of the level around them. -/
theorem group {pattern : Pattern} {level : Level} {text : List Char}
    (closed : level.closeBranch = ⟨[], pattern.parts.reverse⟩)
    (inside : Takes text reader.openGroup ⟨level, reader.level :: reader.outer⟩) :
    Takes ('(' :: (text ++ [')'])) reader (reader.push pattern) := by
  have opened : Takes ['('] reader reader.openGroup := character (by decide) fun _ => rfl
  have ended : Takes [')'] ⟨level, reader.level :: reader.outer⟩ (reader.push pattern) := by
    refine character (by decide) fun position => ?_
    have folded : Pattern.ofBranches level.closeBranch.branches.reverse = some pattern := by
      rw [closed, List.reverse_reverse, Pattern.ofBranches_parts]
    simp only [Reader.character, closeGroup, folded]
    rfl
  exact opened.append (inside.append ended)

end Takes

end Reader

namespace Pattern

mutual

theorem IsItem.takes {pattern : Pattern} (reader : Reader) :
    pattern.IsItem → Reader.Takes (pattern.grouped pattern.printed) reader (reader.push pattern)
  | .literal c => by
      have text : (literal (String.ofList [c])).printed = escaped c := by
        simp [printed]
      exact text ▸ .literal c
  | .wildcard => .character (by decide) fun _ => rfl
  | .lineStart => .character (by decide) fun _ => rfl
  | .lineEnd => .character (by decide) fun _ => rfl
  | .repetition given item => (item.takes reader).append (.sign given _)
  | .group canonical => by
      obtain ⟨level, inside, closed⟩ := canonical.takes [] (reader.level :: reader.outer)
      rw [List.append_nil] at closed
      have text : pattern.grouped pattern.printed = '(' :: (pattern.printed ++ [')']) := by
        cases canonical <;> rfl
      exact text ▸ .group closed inside

/-- Reading the text of a canonical tree adds its branches to those of the level. -/
theorem Canonical.takes {pattern : Pattern} (branches : List Pattern) (outer : List Level) :
    pattern.Canonical → ∃ level,
      Reader.Takes pattern.printed ⟨⟨[], branches⟩, outer⟩ ⟨level, outer⟩ ∧
        level.closeBranch = ⟨[], pattern.parts.reverse ++ branches⟩
  | .branch filled all =>
      ⟨_, .items (fun item mem reader => (all item mem).takes reader) branches outer,
        Level.closeBranch_reverse filled branches⟩
  | @Canonical.alternative items _ filled all others => by
      obtain ⟨level, taken, closed⟩ := others.takes (.sequence items :: branches) outer
      refine ⟨level, ?_, ?_⟩
      · have first : Reader.Takes (printedAll items) ⟨⟨[], branches⟩, outer⟩
            ⟨⟨items.reverse, branches⟩, outer⟩ :=
          .items (fun item mem reader => (all item mem).takes reader) branches outer
        exact first.append ((Reader.Takes.bar filled branches outer).append taken)
      · rw [closed, parts, List.reverse_cons, List.append_assoc]
        rfl

end

theorem Canonical.read_printed {pattern : Pattern} (canonical : pattern.Canonical) :
    read (String.ofList pattern.printed) = .ok pattern := by
  obtain ⟨level, taken, closed⟩ := canonical.takes [] []
  have scanned : Reader.scan 0 none pattern.printed {} = ⟨⟨level, []⟩, .ok none⟩ := by
    have all := taken 0 []
    rw [List.append_nil] at all
    rw [all]
    rfl
  have folded : ofBranches level.closeBranch.branches.reverse = some pattern := by
    rw [closed, List.append_nil, List.reverse_reverse, ofBranches_parts]
  simp only [read, Reader.readAll, String.toList_ofList, scanned, Reader.finish, folded]

/-- The canonical trees are the trees that are read, and each is read from its own text. -/
theorem read_printed_and_canonical :
    (∀ pattern : Pattern, pattern.Canonical →
      read (String.ofList pattern.printed) = .ok pattern) ∧
    ∀ source pattern, read source = .ok pattern → pattern.Canonical :=
  ⟨fun _ canonical => canonical.read_printed, fun _ _ ok => canonical_of_read ok⟩

def starOrWildcard : Pattern :=
  .alternative
    (.sequence
      [.repetition .oneOrMore
          (.alternative (.sequence [.literal "a"]) (.sequence [.literal "*"])),
        .lineEnd])
    (.sequence [.wildcard])

theorem canonical_starOrWildcard : starOrWildcard.Canonical := by
  have single {item : Pattern} (isItem : item.IsItem) : ∀ other ∈ [item], other.IsItem := by
    simpa using isItem
  have group : (alternative (.sequence [.literal "a"]) (.sequence [.literal "*"])).Canonical :=
    .alternative (by simp) (single (.literal 'a')) (.branch (by simp) (single (.literal '*')))
  have looped : (repetition .oneOrMore
      (.alternative (.sequence [.literal "a"]) (.sequence [.literal "*"]))).IsItem :=
    .repetition (by simp) (.group group)
  refine .alternative (by simp) ?_ (.branch (by simp) (single .wildcard))
  exact List.forall_mem_cons.mpr ⟨looped, single .lineEnd⟩

theorem read_printed_and_canonical_starOrWildcard :
    starOrWildcard.Canonical ∧
      starOrWildcard.printed = ['(', 'a', '|', '\\', '*', ')', '+', '$', '|', '.'] ∧
      read (String.ofList starOrWildcard.printed) = .ok starOrWildcard ∧
      ∀ pattern, read (String.ofList starOrWildcard.printed) = .ok pattern →
        pattern.Canonical := by
  obtain ⟨readBack, canonical⟩ := read_printed_and_canonical
  exact ⟨canonical_starOrWildcard, by decide, readBack _ canonical_starOrWildcard,
    canonical (String.ofList starOrWildcard.printed)⟩

end Pattern

end PatternMachine
