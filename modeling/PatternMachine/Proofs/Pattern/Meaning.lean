import PatternMachine.Proofs.Pattern.Shape

/-!
# The meaning of patterns

What a pattern allows from an offset of a text and a note of the start anchor: to go on at an
offset with a note, or to end the whole match. The parts of a pattern are put together by
composition, union and iteration. The normal form has the same meaning.
-/

namespace PatternMachine

/-- What one way through a pattern comes to. -/
inductive Outcome where
  /-- The match goes on behind the pattern. -/
  | goes (offset : Nat) (headUsed : Bool)
  /-- An end anchor has ended the match. -/
  | ends (headUsed : Bool)
  deriving DecidableEq

def Outcome.headUsed : Outcome → Bool
  | .goes _ headUsed => headUsed
  | .ends headUsed => headUsed

/-- The outcomes from an offset and a note. -/
abbrev Meaning :=
  Nat → Bool → Outcome → Prop

namespace Meaning

variable {first second once : Meaning} {offset offset' : Nat} {used used' : Bool}
  {outcome : Outcome}

/-- The first meaning and then the second, unless the first has ended the match. -/
inductive Then (first second : Meaning) : Meaning where
  | goes {offset offset' : Nat} {used used' : Bool} {outcome : Outcome}
      (one : first offset used (.goes offset' used')) (other : second offset' used' outcome) :
      Then first second offset used outcome
  | ends {offset : Nat} {used flag : Bool} (one : first offset used (.ends flag)) :
      Then first second offset used (.ends flag)

/-- Any number of rounds, the last of which may end the match. -/
inductive Iterated (once : Meaning) : Meaning where
  | stop {offset : Nat} {used : Bool} : Iterated once offset used (.goes offset used)
  | again {offset offset' : Nat} {used used' : Bool} {outcome : Outcome}
      (round : once offset used (.goes offset' used'))
      (rounds : Iterated once offset' used' outcome) : Iterated once offset used outcome
  | ends {offset : Nat} {used flag : Bool} (round : once offset used (.ends flag)) :
      Iterated once offset used (.ends flag)

theorem Iterated.append (front : Iterated once offset used (.goes offset' used'))
    (back : Iterated once offset' used' outcome) : Iterated once offset used outcome := by
  generalize between : Outcome.goes offset' used' = middle at front
  induction front with
  | stop =>
      cases between
      exact back
  | again round _ ih => exact .again round (ih between)
  | ends _ => cases between

theorem Iterated.single (round : once offset used outcome) :
    Iterated once offset used outcome := by
  cases outcome with
  | goes offset' used' => exact .again round .stop
  | ends flag => exact .ends round

theorem iterated_iterated (once : Meaning) : Iterated (Iterated once) = Iterated once := by
  funext offset used outcome
  refine propext ⟨fun rounds => ?_, .single⟩
  induction rounds with
  | stop => exact .stop
  | again round _ ih => exact round.append ih
  | ends round => exact round

theorem then_skip (first : Meaning) :
    Then first (fun offset used outcome => outcome = .goes offset used) = first := by
  funext offset used outcome
  apply propext
  constructor
  · rintro (⟨one, rfl⟩ | one)
    · exact one
    · exact one
  · intro one
    cases outcome with
    | goes offset' used' => exact .goes one rfl
    | ends flag => exact .ends one

end Meaning

namespace Pattern

open Meaning

mutual

/-- The meaning of a pattern in a text. -/
def means (text : Array Symbol) : Pattern → Meaning
  | .literal symbol => fun offset used outcome =>
      text[offset]? = some symbol ∧ outcome = .goes (offset + 1) used
  | .wildcard => fun offset used outcome =>
      offset < text.size ∧ outcome = .goes (offset + 1) used
  | .lineStart => fun offset _ outcome => offset = 0 ∧ outcome = .goes offset true
  | .lineEnd => fun offset used outcome => offset = text.size ∧ outcome = .ends used
  | .sequence items => meansAll text items
  | .alternative first second => fun offset used outcome =>
      means text first offset used outcome ∨ means text second offset used outcome
  | .repetition .oneOrMore body => Then (means text body) (Iterated (means text body))
  | .repetition .zeroOrMore body => Iterated (means text body)
  | .repetition .zeroOrOne body => fun offset used outcome =>
      outcome = .goes offset used ∨ means text body offset used outcome
  | .repetition .unspecified _ => fun _ _ _ => False

def meansAll (text : Array Symbol) : List Pattern → Meaning
  | [] => fun offset used outcome => outcome = .goes offset used
  | item :: rest => Then (means text item) (meansAll text rest)

end

variable (text : Array Symbol)

theorem means_cons (item : Pattern) (rest : List Pattern) :
    (sequence (item :: rest)).means text = Then (item.means text) ((sequence rest).means text) :=
  rfl

theorem means_zeroOrMore (body : Pattern) :
    (repetition .zeroOrMore body).means text = Iterated (body.means text) :=
  rfl

/-! ## Normal forms -/

theorem means_ungrouped (pattern : Pattern) :
    pattern.ungrouped.means text = pattern.means text := by
  fun_induction ungrouped pattern with
  | case1 item ih => exact ih.trans (then_skip (item.means text)).symm
  | case2 pattern => rfl

theorem means_star (body : Pattern) : body.star.means text = Iterated (body.means text) := by
  rcases star_cases body with ⟨inner, same, collapsed⟩ | kept
  · rw [collapsed, ← means_ungrouped text body, same, means_zeroOrMore, iterated_iterated]
  · rw [kept, means_zeroOrMore]

/-- The normal form means what the pattern means. -/
theorem means_normal (pattern : Pattern) : pattern.normal.means text = pattern.means text := by
  induction pattern using byItems with
  | literal symbol => rfl
  | wildcard => rfl
  | lineStart => rfl
  | lineEnd => rfl
  | nil => rfl
  | cons item rest ihItem ihRest =>
      rw [means_cons, ← ihItem, ← ihRest]
      rfl
  | alternative first second ihFirst ihSecond => simp only [normal, means, ihFirst, ihSecond]
  | repetition quantifier body ih =>
      cases quantifier with
      | zeroOrMore => exact (means_star text body.normal).trans (congrArg Iterated ih)
      | oneOrMore => simp only [normal, means, ih]
      | zeroOrOne => simp only [normal, means, ih]
      | unspecified => rfl

end Pattern

end PatternMachine
