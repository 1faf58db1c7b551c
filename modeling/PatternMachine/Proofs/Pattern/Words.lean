import Mathlib.Computability.Language
import PatternMachine.Proofs.Pattern.Atom
import PatternMachine.Proofs.Pattern.Ending

/-!
# The words of a pattern

The words of a pattern are the atoms along its paths. Scanning a word finds just what stands in it,
and scanning a pattern sums up the scans of all its words: each construction on trees is one on
languages, and a loop needs no third pass, since all that one round hands to the next is whether
an end anchor lies behind it.
-/

namespace PatternMachine

namespace Pattern

open scoped Computability

/-! ## What stands behind the end anchors of a word -/

def isContent : Pattern → Bool
  | .literal _ | .wildcard => true
  | .lineStart | .lineEnd | .sequence _ | .alternative _ _ | .repetition _ _ => false

def HasContent (word : List Pattern) : Prop :=
  ∃ atom ∈ word, atom.isContent = true

/-- The word has an end anchor with content somewhere behind it. -/
def ContentAfterEnd (word : List Pattern) : Prop :=
  ∃ front back, word = front ++ .lineEnd :: back ∧ HasContent back

/-- The word has an end anchor with no content behind it. -/
def EndBehind (word : List Pattern) : Prop :=
  ∃ front back, word = front ++ .lineEnd :: back ∧ ¬ HasContent back

/-- The word as it is entered with or without an end anchor behind. -/
def entered (endSeen : Bool) (word : List Pattern) : List Pattern :=
  if endSeen then .lineEnd :: word else word

mutual

/-- The words along the paths through a tree. -/
def words : Pattern → Language Pattern
  | .sequence items => wordsAll items
  | .alternative first second => first.words + second.words
  | .repetition .oneOrMore body => body.words * body.words∗
  | .repetition .zeroOrOne body => 1 + body.words
  | .repetition .zeroOrMore body | .repetition .unspecified body => body.words∗
  | atom => {[atom]}

def wordsAll : List Pattern → Language Pattern
  | [] => 1
  | item :: rest => item.words * wordsAll rest

end

variable {atom : Pattern} {word : List Pattern} {endSeen : Bool}

@[simp] theorem not_hasContent_nil : ¬ HasContent [] := by
  simp [HasContent]

@[simp] theorem hasContent_cons :
    HasContent (atom :: word) ↔ atom.isContent = true ∨ HasContent word := by
  simp [HasContent]

theorem exists_end_cons (holds : List Pattern → Prop) :
    (∃ front back, atom :: word = front ++ .lineEnd :: back ∧ holds back) ↔
      atom = .lineEnd ∧ holds word ∨
        ∃ front back, word = front ++ .lineEnd :: back ∧ holds back := by
  constructor
  · rintro ⟨_ | ⟨_, front⟩, back, same, held⟩
    · cases same
      exact .inl ⟨rfl, held⟩
    · cases same
      exact .inr ⟨front, back, rfl, held⟩
  · rintro (⟨rfl, held⟩ | ⟨front, back, rfl, held⟩)
    · exact ⟨[], word, rfl, held⟩
    · exact ⟨atom :: front, back, rfl, held⟩

@[simp] theorem not_contentAfterEnd_nil : ¬ ContentAfterEnd [] := by
  simp [ContentAfterEnd]

@[simp] theorem contentAfterEnd_cons :
    ContentAfterEnd (atom :: word) ↔ atom = .lineEnd ∧ HasContent word ∨ ContentAfterEnd word :=
  exists_end_cons HasContent

@[simp] theorem not_endBehind_nil : ¬ EndBehind [] := by
  simp [EndBehind]

@[simp] theorem endBehind_cons_iff :
    EndBehind (atom :: word) ↔ atom = .lineEnd ∧ ¬ HasContent word ∨ EndBehind word :=
  exists_end_cons fun back => ¬ HasContent back

/-! ## Scanning a word -/

theorem scanEnd_word (atoms : ∀ atom ∈ word, atom.isAtom = true) (endSeen : Bool) :
    ((scanEnd endSeen (sequence word)).contentAfter = true ↔
        ContentAfterEnd (entered endSeen word)) ∧
      ((scanEnd endSeen (sequence word)).endBehind = true ↔
        EndBehind (entered endSeen word)) := by
  induction word generalizing endSeen with
  | nil => cases endSeen <;> simp [scanEnd, scanEnds, entered]
  | cons atom rest ih =>
      obtain ⟨atomic, others⟩ := List.forall_mem_cons.mp atoms
      have seen := ih others true
      have unseen := ih others false
      rw [contentAfter_cons, endBehind_cons]
      cases atom with
      | literal symbol => cases endSeen <;> simp_all [scanEnd, entered, isContent]
      | wildcard => cases endSeen <;> simp_all [scanEnd, entered, isContent]
      | lineStart => cases endSeen <;> simp_all [scanEnd, entered, isContent]
      | lineEnd => cases endSeen <;> simp_all [scanEnd, entered, isContent]
      | sequence items => cases atomic
      | alternative first second => cases atomic
      | repetition quantifier body => cases atomic

theorem contentAfter_append (endSeen : Bool) (front back : List Pattern) :
    (scanEnd endSeen (sequence (front ++ back))).contentAfter =
      ((scanEnd endSeen (sequence front)).contentAfter ||
        (scanEnd (scanEnd endSeen (sequence front)).endBehind (sequence back)).contentAfter) := by
  induction front generalizing endSeen with
  | nil => rfl
  | cons item rest ih =>
      rw [List.cons_append, contentAfter_cons, ih, contentAfter_cons, endBehind_cons,
        Bool.or_assoc]

theorem endBehind_append (endSeen : Bool) (front back : List Pattern) :
    (scanEnd endSeen (sequence (front ++ back))).endBehind =
      (scanEnd (scanEnd endSeen (sequence front)).endBehind (sequence back)).endBehind := by
  induction front generalizing endSeen with
  | nil => rfl
  | cons item rest ih => rw [List.cons_append, endBehind_cons, ih, endBehind_cons]

/-- An end anchor behind the entry of a word hides nothing. -/
theorem scanEnd_word_mono (atoms : ∀ atom ∈ word, atom.isAtom = true) {more : Bool}
    (also : endSeen = true → more = true) :
    ((scanEnd endSeen (sequence word)).contentAfter = true →
        (scanEnd more (sequence word)).contentAfter = true) ∧
      ((scanEnd endSeen (sequence word)).endBehind = true →
        (scanEnd more (sequence word)).endBehind = true) := by
  simp only [scanEnd_word atoms]
  cases endSeen with
  | true =>
      rw [also rfl]
      exact ⟨id, id⟩
  | false =>
      cases more with
      | false => exact ⟨id, id⟩
      | true => exact ⟨fun content => contentAfterEnd_cons.mpr (.inr content),
          fun behind => endBehind_cons_iff.mpr (.inr behind)⟩

/-! ## Scanning a language -/

/-- The scan sums up the words: it finds what the scan of some word finds. -/
structure SumsUp (words : Language Pattern) (scan : Bool → EndScan) : Prop where
  inhabited : ∃ word, word ∈ words
  atoms {word : List Pattern} (inside : word ∈ words) : ∀ atom ∈ word, atom.isAtom = true
  content (endSeen : Bool) : (scan endSeen).contentAfter = true ↔
    ∃ word ∈ words, (scanEnd endSeen (sequence word)).contentAfter = true
  behind (endSeen : Bool) : (scan endSeen).endBehind = true ↔
    ∃ word ∈ words, (scanEnd endSeen (sequence word)).endBehind = true

namespace SumsUp

variable {one other : Language Pattern} {scan again : Bool → EndScan}

theorem exists_behind_eq (sums : SumsUp one scan) (endSeen : Bool) :
    ∃ word ∈ one, (scanEnd endSeen (sequence word)).endBehind = (scan endSeen).endBehind := by
  cases behind : (scan endSeen).endBehind with
  | true => exact (sums.behind endSeen).mp behind
  | false =>
      obtain ⟨word, inside⟩ := sums.inhabited
      refine ⟨word, inside, Bool.eq_false_of_not_eq_true fun left => ?_⟩
      rw [(sums.behind endSeen).mpr ⟨word, inside, left⟩] at behind
      cases behind

theorem single (atomic : atom.isAtom = true) :
    SumsUp {[atom]} fun endSeen => scanEnd endSeen atom where
  inhabited := ⟨[atom], rfl⟩
  atoms := by
    rintro word rfl
    simpa using atomic
  content endSeen := by
    have same : (scanEnd endSeen (sequence [atom])).contentAfter =
        (scanEnd endSeen atom).contentAfter := Bool.or_false _
    rw [← same]
    exact ⟨fun found => ⟨[atom], rfl, found⟩, fun ⟨_, rfl, found⟩ => found⟩
  behind endSeen := ⟨fun left => ⟨[atom], rfl, left⟩, fun ⟨_, rfl, left⟩ => left⟩

theorem nothing : SumsUp 1 (fun endSeen => ⟨false, endSeen⟩) where
  inhabited := ⟨[], rfl⟩
  atoms := by
    rintro word rfl
    simp
  content endSeen := ⟨fun found => ⟨[], rfl, found⟩, fun ⟨_, rfl, found⟩ => found⟩
  behind endSeen := ⟨fun left => ⟨[], rfl, left⟩, fun ⟨_, rfl, left⟩ => left⟩

theorem add (sums : SumsUp one scan) (others : SumsUp other again) :
    SumsUp (one + other) fun endSeen =>
      ⟨(scan endSeen).contentAfter || (again endSeen).contentAfter,
        (scan endSeen).endBehind || (again endSeen).endBehind⟩ where
  inhabited := sums.inhabited.imp fun word inside => .inl inside
  atoms inside := inside.elim sums.atoms others.atoms
  content endSeen := by
    rw [Bool.or_eq_true, sums.content, others.content]
    simp only [Language.mem_add, or_and_right, exists_or]
  behind endSeen := by
    rw [Bool.or_eq_true, sums.behind, others.behind]
    simp only [Language.mem_add, or_and_right, exists_or]

theorem mul (sums : SumsUp one scan) (others : SumsUp other again) :
    SumsUp (one * other) fun endSeen =>
      ⟨(scan endSeen).contentAfter || (again (scan endSeen).endBehind).contentAfter,
        (again (scan endSeen).endBehind).endBehind⟩ where
  inhabited := by
    obtain ⟨front, first⟩ := sums.inhabited
    obtain ⟨back, second⟩ := others.inhabited
    exact ⟨front ++ back, Language.append_mem_mul first second⟩
  atoms := by
    intro word inside atom member
    obtain ⟨front, first, back, second, rfl⟩ := Language.mem_mul.mp inside
    exact (List.mem_append.mp member).elim (sums.atoms first atom) (others.atoms second atom)
  content endSeen := by
    rw [Bool.or_eq_true]
    constructor
    · rintro (content | content)
      · obtain ⟨front, first, found⟩ := (sums.content endSeen).mp content
        obtain ⟨back, second⟩ := others.inhabited
        refine ⟨front ++ back, Language.append_mem_mul first second, ?_⟩
        rw [contentAfter_append, found, Bool.true_or]
      · obtain ⟨front, first, left⟩ := sums.exists_behind_eq endSeen
        obtain ⟨back, second, found⟩ := (others.content _).mp content
        refine ⟨front ++ back, Language.append_mem_mul first second, ?_⟩
        rw [contentAfter_append, left, found, Bool.or_true]
    · rintro ⟨word, inside, found⟩
      obtain ⟨front, first, back, second, rfl⟩ := Language.mem_mul.mp inside
      rw [contentAfter_append, Bool.or_eq_true] at found
      refine found.imp (fun content => (sums.content endSeen).mpr ⟨front, first, content⟩)
        fun content => (others.content _).mpr ⟨back, second, ?_⟩
      exact (scanEnd_word_mono (others.atoms second)
        fun left => (sums.behind endSeen).mpr ⟨front, first, left⟩).1 content
  behind endSeen := by
    constructor
    · intro behind
      obtain ⟨front, first, left⟩ := sums.exists_behind_eq endSeen
      obtain ⟨back, second, found⟩ := (others.behind _).mp behind
      refine ⟨front ++ back, Language.append_mem_mul first second, ?_⟩
      rw [endBehind_append, left, found]
    · rintro ⟨word, inside, found⟩
      obtain ⟨front, first, back, second, rfl⟩ := Language.mem_mul.mp inside
      rw [endBehind_append] at found
      refine (others.behind _).mpr ⟨back, second, ?_⟩
      exact (scanEnd_word_mono (others.atoms second)
        fun left => (sums.behind endSeen).mpr ⟨front, first, left⟩).2 found

/--
Rounds of a loop find no more than one round does that is entered with all that may lie behind:
`top` is closed when a round entered with it hands on no more.
-/
theorem rounds (sums : SumsUp one scan) {top : Bool}
    (closed : (scan top).endBehind = true → top = true) {rounds : List (List Pattern)}
    (inside : ∀ round ∈ rounds, round ∈ one) (entry : endSeen = true → top = true) :
    ((scanEnd endSeen (sequence rounds.flatten)).contentAfter = true →
        (scan top).contentAfter = true) ∧
      ((scanEnd endSeen (sequence rounds.flatten)).endBehind = true → top = true) := by
  induction rounds generalizing endSeen with
  | nil => exact ⟨nofun, entry⟩
  | cons round rest ih =>
      obtain ⟨first, others⟩ := List.forall_mem_cons.mp inside
      obtain ⟨content, behind⟩ := scanEnd_word_mono (sums.atoms first) entry
      have onward : (scanEnd endSeen (sequence round)).endBehind = true → top = true := by
        intro left
        exact closed ((sums.behind top).mpr ⟨round, first, behind left⟩)
      obtain ⟨later, last⟩ := ih others onward
      rw [List.flatten_cons, contentAfter_append, endBehind_append, Bool.or_eq_true]
      refine ⟨?_, last⟩
      rintro (found | found)
      · exact (sums.content top).mpr ⟨round, first, content found⟩
      · exact later found

/-- What lies behind the entry of a loop or behind one round of it is closed. -/
theorem closed (scan : Bool → EndScan) (endSeen : Bool)
    (left : (scan (endSeen || (scan endSeen).endBehind)).endBehind = true) :
    (endSeen || (scan endSeen).endBehind) = true := by
  cases endSeen with
  | true => rfl
  | false =>
      rw [Bool.false_or] at left ⊢
      cases behind : (scan false).endBehind with
      | true => rfl
      | false =>
          rw [behind, behind] at left
          exact left

theorem exists_rounds_behind_eq (sums : SumsUp one scan) (endSeen : Bool) :
    ∃ word ∈ one∗, (scanEnd endSeen (sequence word)).endBehind =
      (endSeen || (scan endSeen).endBehind) := by
  cases endSeen with
  | true => exact ⟨[], Language.nil_mem_kstar one, rfl⟩
  | false =>
      obtain ⟨word, inside, left⟩ := sums.exists_behind_eq false
      exact ⟨word, (le_kstar : one ≤ one∗) inside, left⟩

theorem kstar (sums : SumsUp one scan) :
    SumsUp one∗ fun endSeen =>
      ⟨(scan (endSeen || (scan endSeen).endBehind)).contentAfter,
        endSeen || (scan endSeen).endBehind⟩ where
  inhabited := ⟨[], Language.nil_mem_kstar one⟩
  atoms := by
    intro word inside atom member
    obtain ⟨rounds, rfl, all⟩ := Language.mem_kstar.mp inside
    obtain ⟨round, isRound, held⟩ := List.mem_flatten.mp member
    exact sums.atoms (all round isRound) atom held
  content endSeen := by
    constructor
    · intro content
      obtain ⟨front, before, left⟩ := sums.exists_rounds_behind_eq endSeen
      obtain ⟨round, inside, found⟩ := (sums.content _).mp content
      have within : one∗ * one ≤ one∗ := kstar_mul_le_kstar
      refine ⟨front ++ round, within (Language.append_mem_mul before inside), ?_⟩
      rw [contentAfter_append, left, found, Bool.or_true]
    · rintro ⟨word, inside, found⟩
      obtain ⟨rounds, rfl, all⟩ := Language.mem_kstar.mp inside
      exact (sums.rounds (closed scan endSeen) all fun seen => by rw [seen, Bool.true_or]).1 found
  behind endSeen := by
    constructor
    · intro behind
      obtain ⟨front, before, left⟩ := sums.exists_rounds_behind_eq endSeen
      exact ⟨front, before, left.trans behind⟩
    · rintro ⟨word, inside, found⟩
      obtain ⟨rounds, rfl, all⟩ := Language.mem_kstar.mp inside
      exact (sums.rounds (closed scan endSeen) all fun seen => by rw [seen, Bool.true_or]).2 found

/-- Nothing is lost when an end anchor lies behind. -/
theorem mono (sums : SumsUp one scan) :
    ((scan false).contentAfter = true → (scan true).contentAfter = true) ∧
      ((scan false).endBehind = true → (scan true).endBehind = true) := by
  simp only [sums.content, sums.behind]
  constructor
  · rintro ⟨word, inside, found⟩
    exact ⟨word, inside, (scanEnd_word_mono (sums.atoms inside) fun _ => rfl).1 found⟩
  · rintro ⟨word, inside, left⟩
    exact ⟨word, inside, (scanEnd_word_mono (sums.atoms inside) fun _ => rfl).2 left⟩

theorem content_or (sums : SumsUp one scan) (endSeen more : Bool) :
    ((scan endSeen).contentAfter || (scan more).contentAfter) =
      (scan (endSeen || more)).contentAfter := by
  have mono := sums.mono.1
  cases endSeen <;> cases more <;> simp_all

/-- A second round is only scanned where the first one newly leaves an end anchor behind. -/
theorem second_round (sums : SumsUp one scan) (endSeen : Bool) :
    ((scan endSeen).contentAfter ||
        ((scan endSeen).endBehind && !endSeen && (scan true).contentAfter)) =
      (scan (endSeen || (scan endSeen).endBehind)).contentAfter := by
  cases endSeen with
  | true => simp
  | false =>
      cases (scan false).endBehind with
      | true => exact sums.content_or false true
      | false => exact Bool.or_false _

theorem later_rounds (sums : SumsUp one scan) (endSeen : Bool) :
    ((scan endSeen).endBehind || (scan (scan endSeen).endBehind).endBehind) =
      (scan endSeen).endBehind := by
  have mono := sums.mono.2
  cases behind : (scan endSeen).endBehind with
  | true => rfl
  | false => cases endSeen <;> simp_all

theorem of_eq (sums : SumsUp one scan) (same : ∀ endSeen, again endSeen = scan endSeen) :
    SumsUp one again :=
  funext same ▸ sums

end SumsUp

theorem scanEnd_loop {quantifier : Quantifier} (loops : quantifier ≠ .zeroOrOne) (endSeen : Bool)
    (body : Pattern) :
    scanEnd endSeen (.repetition quantifier body) =
      ⟨(scanEnd endSeen body).contentAfter ||
          ((scanEnd endSeen body).endBehind && !endSeen && (scanEnd true body).contentAfter),
        if quantifier = .oneOrMore then (scanEnd endSeen body).endBehind
        else endSeen || (scanEnd endSeen body).endBehind⟩ := by
  have again : (quantifier != .zeroOrOne) = true := bne_iff_ne.mpr loops
  simp only [scanEnd, again, Bool.and_true]

theorem sumsUp_scanEnd (pattern : Pattern) :
    SumsUp pattern.words fun endSeen => scanEnd endSeen pattern := by
  induction pattern using byItems with
  | literal symbol => exact .single rfl
  | wildcard => exact .single rfl
  | lineStart => exact .single rfl
  | lineEnd => exact .single rfl
  | nil => exact .nothing
  | cons item rest ihItem ihRest => exact ihItem.mul ihRest
  | alternative first second ihFirst ihSecond => exact ihFirst.add ihSecond
  | repetition quantifier body ih =>
      cases quantifier with
      | zeroOrOne => exact (SumsUp.nothing.add ih).of_eq fun endSeen => by simp [scanEnd]
      | oneOrMore =>
          refine (ih.mul ih.kstar).of_eq fun endSeen => ?_
          rw [ih.later_rounds, ih.content_or, ← ih.second_round]
          exact scanEnd_loop (by decide) endSeen body
      | zeroOrMore | unspecified =>
          refine ih.kstar.of_eq fun endSeen => ?_
          rw [← ih.second_round]
          exact scanEnd_loop (by decide) endSeen body

theorem scanEnd_iff_exists_word (pattern : Pattern) (endSeen : Bool) :
    ((scanEnd endSeen pattern).contentAfter = true ↔
        ∃ word ∈ pattern.words, ContentAfterEnd (entered endSeen word)) ∧
      ((scanEnd endSeen pattern).endBehind = true ↔
        ∃ word ∈ pattern.words, EndBehind (entered endSeen word)) := by
  have sums := sumsUp_scanEnd pattern
  rw [sums.content, sums.behind]
  constructor
  · exact exists_congr fun word =>
      and_congr_right fun inside => (scanEnd_word (sums.atoms inside) endSeen).1
  · exact exists_congr fun word =>
      and_congr_right fun inside => (scanEnd_word (sums.atoms inside) endSeen).2

/--
A pattern has content after an end anchor just when some word of it has an end anchor with content
somewhere behind it. A scan entered with or without an end anchor behind finds content when this
holds of a word as it is entered, and leaves an end anchor behind when a word as it is entered has
one with no content behind it.
-/
theorem hasContentAfterEnd_iff_exists_word (pattern : Pattern) :
    (pattern.hasContentAfterEnd = true ↔ ∃ word ∈ pattern.words, ContentAfterEnd word) ∧
      ∀ endSeen,
        ((scanEnd endSeen pattern).contentAfter = true ↔
            ∃ word ∈ pattern.words, ContentAfterEnd (entered endSeen word)) ∧
          ((scanEnd endSeen pattern).endBehind = true ↔
            ∃ word ∈ pattern.words, EndBehind (entered endSeen word)) :=
  ⟨(scanEnd_iff_exists_word pattern false).1, scanEnd_iff_exists_word pattern⟩

/-- In a second round the literal stands behind the anchor of the first one. -/
example :
    (repetition .oneOrMore (.sequence [.literal "a", .lineEnd])).hasContentAfterEnd = true := by
  decide

end Pattern

end PatternMachine
