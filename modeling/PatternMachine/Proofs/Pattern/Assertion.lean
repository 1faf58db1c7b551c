import Mathlib.Logic.Relation
import PatternMachine.Machine.Verdict
import PatternMachine.Proofs.Pattern.Atom
import PatternMachine.Proofs.Pattern.Ending
import PatternMachine.Proofs.Pattern.Meaning

/-!
# The end anchor as an assertion

The ordinary reading of a pattern: an end anchor tests for the end of the text, and matching goes
on behind it. In the meaning of a pattern an end anchor ends the match instead, and what stands
behind it is never looked at. Whatever the ordinary reading matches has an outcome. The converse
needs that the rest of the pattern can be passed at the end of the text without consuming, which
the scan for content after an end anchor guarantees for patterns without start anchors.
-/

namespace PatternMachine

/-- An offset of a text and the note of the start anchor. -/
structure Waypoint where
  offset : Nat := 0
  headUsed : Bool := false
  deriving DecidableEq

namespace Pattern

mutual

/-- The ordinary reading of a pattern in a text: from which waypoint it leads to which. -/
def leads (text : Array Symbol) : Pattern → Waypoint → Waypoint → Prop
  | .literal symbol => fun here there =>
      text[here.offset]? = some symbol ∧ there = ⟨here.offset + 1, here.headUsed⟩
  | .wildcard => fun here there =>
      here.offset < text.size ∧ there = ⟨here.offset + 1, here.headUsed⟩
  | .lineStart => fun here there => here.offset = 0 ∧ there = ⟨here.offset, true⟩
  | .lineEnd => fun here there => here.offset = text.size ∧ there = here
  | .sequence items => leadsAll text items
  | .alternative first second => fun here there =>
      leads text first here there ∨ leads text second here there
  | .repetition .oneOrMore body => Relation.TransGen (leads text body)
  | .repetition .zeroOrMore body => Relation.ReflTransGen (leads text body)
  | .repetition .zeroOrOne body => Relation.ReflGen (leads text body)
  | .repetition .unspecified _ => fun _ _ => False

def leadsAll (text : Array Symbol) : List Pattern → Waypoint → Waypoint → Prop
  | [] => Eq
  | item :: rest => Relation.Comp (leads text item) (leadsAll text rest)

end

open Classical in
/--
The verdict of the ordinary reading from the start of a text. A match relies on the start anchor
if every way through the pattern does.
-/
noncomputable def ordinaryVerdict (text : Array Symbol) (pattern : Pattern) : Verdict where
  matched := decide (∃ there, pattern.leads text {} there)
  requiresHead := decide ((∃ there, pattern.leads text {} there) ∧
    ∀ there, pattern.leads text {} there → there.headUsed = true)

end Pattern

/-! ## Ordinary matches have outcomes -/

namespace Meaning

variable {first second once : Meaning} {here between there : Waypoint}

/-- The meaning leads from one waypoint to the other, or it ends the match before. -/
def Passes (meaning : Meaning) (here there : Waypoint) : Prop :=
  meaning here.offset here.headUsed (.goes there.offset there.headUsed) ∨
    ∃ flag, meaning here.offset here.headUsed (.ends flag)

namespace Passes

theorem append (front : first.Passes here between) (back : second.Passes between there) :
    (Then first second).Passes here there := by
  rcases front with front | ⟨flag, front⟩
  · rcases back with back | ⟨flag, back⟩
    · exact .inl (.goes front back)
    · exact .inr ⟨flag, .goes front back⟩
  · exact .inr ⟨flag, .ends front⟩

theorem again (round : once.Passes here between) (rounds : (Iterated once).Passes between there) :
    (Iterated once).Passes here there := by
  rcases round with round | ⟨flag, round⟩
  · rcases rounds with rounds | ⟨flag, rounds⟩
    · exact .inl (.again round rounds)
    · exact .inr ⟨flag, .again round rounds⟩
  · exact .inr ⟨flag, .ends round⟩

theorem iterated {leads : Waypoint → Waypoint → Prop}
    (round : ∀ here there, leads here there → once.Passes here there)
    (path : Relation.ReflTransGen leads here there) : (Iterated once).Passes here there := by
  induction path using Relation.ReflTransGen.head_induction_on with
  | refl => exact .inl .stop
  | head first _ ih => exact again (round _ _ first) ih

theorem outcome (passes : first.Passes here there) :
    ∃ outcome, first here.offset here.headUsed outcome := by
  rcases passes with goes | ⟨flag, ends⟩
  · exact ⟨_, goes⟩
  · exact ⟨_, ends⟩

end Passes

theorem Iterated.exists_ends {once : Meaning} {offset : Nat} {used flag : Bool}
    (rounds : Iterated once offset used (.ends flag)) :
    ∃ offset' used', Iterated once offset used (.goes offset' used') ∧
      once offset' used' (.ends flag) := by
  generalize last : Outcome.ends flag = outcome at rounds
  induction rounds with
  | stop => cases last
  | again round _ ih =>
      obtain ⟨offset', used', front, final⟩ := ih last
      exact ⟨offset', used', .again round front, final⟩
  | ends round =>
      cases last
      exact ⟨_, _, .stop, round⟩

end Meaning

namespace Pattern

open Meaning

variable {text : Array Symbol} {pattern : Pattern} {here there : Waypoint}

/-- Where the ordinary reading leads the meaning leads too, unless it ends the match before. -/
theorem passes_of_leads (leads : pattern.leads text here there) :
    (pattern.means text).Passes here there := by
  induction pattern using byItems generalizing here there with
  | literal symbol =>
      obtain ⟨found, rfl⟩ := leads
      exact .inl ⟨found, rfl⟩
  | wildcard =>
      obtain ⟨inside, rfl⟩ := leads
      exact .inl ⟨inside, rfl⟩
  | lineStart =>
      obtain ⟨start, rfl⟩ := leads
      exact .inl ⟨start, rfl⟩
  | lineEnd =>
      obtain ⟨ended, rfl⟩ := leads
      exact .inr ⟨there.headUsed, ended, rfl⟩
  | nil =>
      cases leads
      exact .inl rfl
  | cons item rest ihItem ihRest =>
      obtain ⟨between, front, back⟩ := leads
      exact (ihItem front).append (ihRest back)
  | alternative first second ihFirst ihSecond =>
      rcases leads with leads | leads
      · exact (ihFirst leads).imp .inl fun ⟨flag, ends⟩ => ⟨flag, .inl ends⟩
      · exact (ihSecond leads).imp .inr fun ⟨flag, ends⟩ => ⟨flag, .inr ends⟩
  | repetition quantifier body ih =>
      cases quantifier with
      | oneOrMore =>
          obtain ⟨between, first, rest⟩ := Relation.TransGen.head'_iff.mp leads
          exact (ih first).append (.iterated (fun _ _ => ih) rest)
      | zeroOrMore => exact .iterated (fun _ _ => ih) leads
      | zeroOrOne =>
          cases leads with
          | refl => exact .inl (.inl rfl)
          | single once => exact (ih once).imp .inr fun ⟨flag, ends⟩ => ⟨flag, .inr ends⟩
      | unspecified => cases leads

/-! ## Outcomes are ordinary matches -/

theorem leads_of_iterated {once : Meaning} {leads : Waypoint → Waypoint → Prop}
    (round : ∀ {offset offset' : Nat} {used used' : Bool},
      once offset used (.goes offset' used') → leads ⟨offset, used⟩ ⟨offset', used'⟩)
    {offset offset' : Nat} {used used' : Bool}
    (rounds : Iterated once offset used (.goes offset' used')) :
    Relation.ReflTransGen leads ⟨offset, used⟩ ⟨offset', used'⟩ := by
  generalize last : Outcome.goes offset' used' = outcome at rounds
  induction rounds with
  | stop =>
      cases last
      exact .refl
  | again first _ ih => exact .head (round first) (ih last)
  | ends _ => cases last

/-- Where the meaning goes on no end anchor was passed, and the ordinary reading leads there. -/
theorem leads_of_goes {offset offset' : Nat} {used used' : Bool}
    (means : pattern.means text offset used (.goes offset' used')) :
    pattern.leads text ⟨offset, used⟩ ⟨offset', used'⟩ := by
  induction pattern using byItems generalizing offset offset' used used' with
  | literal symbol =>
      obtain ⟨found, same⟩ := means
      cases same
      exact ⟨found, rfl⟩
  | wildcard =>
      obtain ⟨inside, same⟩ := means
      cases same
      exact ⟨inside, rfl⟩
  | lineStart =>
      obtain ⟨start, same⟩ := means
      cases same
      exact ⟨start, rfl⟩
  | lineEnd =>
      obtain ⟨-, same⟩ := means
      cases same
  | nil =>
      cases means
      rfl
  | cons item rest ihItem ihRest =>
      cases means with
      | goes front back => exact ⟨_, ihItem front, ihRest back⟩
  | alternative first second ihFirst ihSecond => exact means.imp ihFirst ihSecond
  | repetition quantifier body ih =>
      cases quantifier with
      | oneOrMore =>
          cases means with
          | goes front back =>
              exact Relation.TransGen.head'_iff.mpr ⟨_, ih front, leads_of_iterated ih back⟩
      | zeroOrMore => exact leads_of_iterated ih means
      | zeroOrOne =>
          rcases means with same | once
          · cases same
            exact .refl
          · exact .single (ih once)
      | unspecified => cases means

/-! ## Behind an end anchor -/

/-- A pattern without content and without start anchors can be passed at the end of the text. -/
theorem leads_at_end (bounded : pattern.Bounded) (headless : .lineStart ∉ pattern.nodes)
    (noContent : (scanEnd true pattern).contentAfter = false) (used : Bool) :
    pattern.leads text ⟨text.size, used⟩ ⟨text.size, used⟩ := by
  induction pattern using byItems with
  | literal symbol => cases noContent
  | wildcard => cases noContent
  | lineStart => exact absurd List.mem_cons_self headless
  | lineEnd => exact ⟨rfl, rfl⟩
  | nil => rfl
  | cons item rest ihItem ihRest =>
      obtain ⟨itemBounded, restBounded⟩ := Bounded.cons_iff.mp bounded
      rw [mem_nodes_cons_iff rfl, not_or] at headless
      rw [contentAfter_cons] at noContent
      obtain ⟨front, back⟩ := Bool.or_eq_false_iff.mp noContent
      rw [endBehind_of_noContent front] at back
      exact ⟨_, ihItem itemBounded headless.1 front, ihRest restBounded headless.2 back⟩
  | alternative first second ihFirst ihSecond =>
      rw [mem_nodes_alternative_iff rfl, not_or] at headless
      obtain ⟨front, -⟩ := Bool.or_eq_false_iff.mp noContent
      exact .inl (ihFirst (Bounded.alternative_iff.mp bounded).1 headless.1 front)
  | repetition quantifier body ih =>
      obtain ⟨given, bodyBounded⟩ := Bounded.repetition_iff.mp bounded
      rw [mem_nodes_repetition_iff rfl] at headless
      obtain ⟨once, -⟩ := Bool.or_eq_false_iff.mp noContent
      cases quantifier with
      | oneOrMore => exact .single (ih bodyBounded headless once)
      | zeroOrMore => exact .refl
      | zeroOrOne => exact .refl
      | unspecified => exact absurd rfl given

/--
Where the meaning ends the match and no content follows an end anchor, the ordinary reading leads
on from that end anchor through the rest of the pattern, and the scan has seen the anchor.
-/
theorem leads_of_ends (bounded : pattern.Bounded) (headless : .lineStart ∉ pattern.nodes)
    {endSeen : Bool} (noContent : (scanEnd endSeen pattern).contentAfter = false) {offset : Nat}
    {used flag : Bool} (means : pattern.means text offset used (.ends flag)) :
    pattern.leads text ⟨offset, used⟩ ⟨text.size, flag⟩ ∧
      (scanEnd endSeen pattern).endBehind = true := by
  induction pattern using byItems generalizing endSeen offset used with
  | literal symbol | wildcard | lineStart =>
      obtain ⟨-, same⟩ := means
      cases same
  | lineEnd =>
      obtain ⟨rfl, same⟩ := means
      cases same
      exact ⟨⟨rfl, rfl⟩, rfl⟩
  | nil => cases means
  | cons item rest ihItem ihRest =>
      obtain ⟨itemBounded, restBounded⟩ := Bounded.cons_iff.mp bounded
      rw [mem_nodes_cons_iff rfl, not_or] at headless
      rw [contentAfter_cons] at noContent
      rw [endBehind_cons]
      obtain ⟨front, back⟩ := Bool.or_eq_false_iff.mp noContent
      cases means with
      | goes one other =>
          obtain ⟨leads, behind⟩ := ihRest restBounded headless.2 back other
          exact ⟨⟨_, leads_of_goes one, leads⟩, behind⟩
      | ends one =>
          obtain ⟨leads, behind⟩ := ihItem itemBounded headless.1 front one
          rw [behind] at back ⊢
          exact ⟨⟨_, leads, leads_at_end restBounded headless.2 back flag⟩,
            endBehind_of_noContent back⟩
  | alternative first second ihFirst ihSecond =>
      obtain ⟨firstBounded, secondBounded⟩ := Bounded.alternative_iff.mp bounded
      rw [mem_nodes_alternative_iff rfl, not_or] at headless
      obtain ⟨front, back⟩ := Bool.or_eq_false_iff.mp noContent
      rcases means with means | means
      · obtain ⟨leads, behind⟩ := ihFirst firstBounded headless.1 front means
        exact ⟨.inl leads, Bool.or_eq_true_iff.mpr (.inl behind)⟩
      · obtain ⟨leads, behind⟩ := ihSecond secondBounded headless.2 back means
        exact ⟨.inr leads, Bool.or_eq_true_iff.mpr (.inr behind)⟩
  | repetition quantifier body ih =>
      obtain ⟨given, bodyBounded⟩ := Bounded.repetition_iff.mp bounded
      rw [mem_nodes_repetition_iff rfl] at headless
      obtain ⟨once, -⟩ := Bool.or_eq_false_iff.mp noContent
      -- The round that ends the match is the last one, so no round follows the end anchor.
      have last {offset : Nat} {used : Bool} (round : body.means text offset used (.ends flag)) :
          body.leads text ⟨offset, used⟩ ⟨text.size, flag⟩ ∧
            (scanEnd endSeen body).endBehind = true :=
        ih bodyBounded headless once round
      cases quantifier with
      | oneOrMore =>
          cases means with
          | goes one other =>
              obtain ⟨_, _, front, final⟩ := other.exists_ends
              obtain ⟨leads, behind⟩ := last final
              have rounds := (leads_of_iterated leads_of_goes front).tail leads
              exact ⟨Relation.TransGen.head'_iff.mpr ⟨_, leads_of_goes one, rounds⟩, behind⟩
          | ends one =>
              obtain ⟨leads, behind⟩ := last one
              exact ⟨.single leads, behind⟩
      | zeroOrMore =>
          obtain ⟨_, _, front, final⟩ := means.exists_ends
          obtain ⟨leads, behind⟩ := last final
          exact ⟨(leads_of_iterated leads_of_goes front).tail leads,
            Bool.or_eq_true_iff.mpr (.inr behind)⟩
      | zeroOrOne =>
          rcases means with same | round
          · cases same
          · obtain ⟨leads, behind⟩ := last round
            exact ⟨.single leads, Bool.or_eq_true_iff.mpr (.inr behind)⟩
      | unspecified => exact absurd rfl given

/-! ## Verdicts -/

theorem headUsed_of_leads (headless : .lineStart ∉ pattern.nodes)
    (leads : pattern.leads text here there) : there.headUsed = here.headUsed := by
  induction pattern using byItems generalizing here there with
  | literal symbol | wildcard =>
      obtain ⟨-, rfl⟩ := leads
      rfl
  | lineStart => exact absurd List.mem_cons_self headless
  | lineEnd =>
      obtain ⟨-, rfl⟩ := leads
      rfl
  | nil =>
      cases leads
      rfl
  | cons item rest ihItem ihRest =>
      rw [mem_nodes_cons_iff rfl, not_or] at headless
      obtain ⟨between, front, back⟩ := leads
      exact (ihRest headless.2 back).trans (ihItem headless.1 front)
  | alternative first second ihFirst ihSecond =>
      rw [mem_nodes_alternative_iff rfl, not_or] at headless
      exact leads.elim (ihFirst headless.1) (ihSecond headless.2)
  | repetition quantifier body ih =>
      rw [mem_nodes_repetition_iff rfl] at headless
      have rounds {here there : Waypoint}
          (path : Relation.ReflTransGen (body.leads text) here there) :
          there.headUsed = here.headUsed := by
        induction path with
        | refl => rfl
        | tail _ round same => exact (ih headless round).trans same
      cases quantifier with
      | oneOrMore => exact rounds leads.to_reflTransGen
      | zeroOrMore => exact rounds leads
      | zeroOrOne =>
          cases leads with
          | refl => rfl
          | single once => exact ih headless once
      | unspecified => cases leads

theorem exists_outcome_of_leads (leads : ∃ there, pattern.leads text {} there) :
    ∃ outcome, pattern.means text 0 false outcome := by
  obtain ⟨there, leads⟩ := leads
  exact (passes_of_leads leads).outcome

theorem exists_leads_of_means (bounded : pattern.Bounded) (headless : .lineStart ∉ pattern.nodes)
    (noContent : pattern.hasContentAfterEnd = false) {outcome : Outcome}
    (means : pattern.means text 0 false outcome) :
    ∃ there, pattern.leads text {} there ∧ there.headUsed = outcome.headUsed := by
  cases outcome with
  | goes offset used => exact ⟨_, leads_of_goes means, rfl⟩
  | ends flag => exact ⟨_, (leads_of_ends bounded headless noContent means).1, rfl⟩

theorem matched_ordinaryVerdict (text : Array Symbol) (pattern : Pattern) :
    (pattern.ordinaryVerdict text).matched = true ↔ ∃ there, pattern.leads text {} there := by
  simp [ordinaryVerdict]

theorem requiresHead_ordinaryVerdict (text : Array Symbol) (pattern : Pattern) :
    (pattern.ordinaryVerdict text).requiresHead = true ↔
      (∃ there, pattern.leads text {} there) ∧
        ∀ there, pattern.leads text {} there → there.headUsed = true := by
  simp [ordinaryVerdict]

theorem eq_ordinaryVerdict (bounded : pattern.Bounded) (headless : .lineStart ∉ pattern.nodes)
    (noContent : pattern.hasContentAfterEnd = false) {verdict : Verdict}
    (matched : verdict.matched = true ↔ ∃ outcome, pattern.means text 0 false outcome)
    (requiresHead : verdict.requiresHead = true ↔
      (∃ outcome, pattern.means text 0 false outcome) ∧
        ∀ outcome, pattern.means text 0 false outcome → outcome.headUsed = true) :
    verdict = pattern.ordinaryVerdict text := by
  have same : verdict.matched = (pattern.ordinaryVerdict text).matched := by
    rw [Bool.eq_iff_iff, matched, matched_ordinaryVerdict]
    refine ⟨fun ⟨outcome, means⟩ => ?_, exists_outcome_of_leads⟩
    obtain ⟨there, leads, -⟩ := exists_leads_of_means bounded headless noContent means
    exact ⟨there, leads⟩
  have unanchored : verdict.requiresHead = false := by
    refine Bool.eq_false_iff.mpr fun required => ?_
    obtain ⟨⟨outcome, means⟩, all⟩ := requiresHead.mp required
    obtain ⟨there, leads, note⟩ := exists_leads_of_means bounded headless noContent means
    have unused := headUsed_of_leads headless leads
    rw [note, all outcome means] at unused
    cases unused
  have ordinary : (pattern.ordinaryVerdict text).requiresHead = false := by
    refine Bool.eq_false_iff.mpr fun required => ?_
    obtain ⟨⟨there, leads⟩, all⟩ := (requiresHead_ordinaryVerdict text pattern).mp required
    have unused := headUsed_of_leads headless leads
    rw [all there leads] at unused
    cases unused
  obtain ⟨found, required⟩ := verdict
  exact congrArg₂ Verdict.mk same (unanchored.trans ordinary.symm)

end Pattern

end PatternMachine
