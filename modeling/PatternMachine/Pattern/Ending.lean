import PatternMachine.Pattern.Basic

/-!
# Content after the end anchor

An end anchor ends the match, so a literal or wildcard that can only be reached past one never
matches. The scan follows all paths through a tree at once: it tells whether some path has
content after an end anchor and whether some path leaves an end anchor behind it with no content
after that. Two passes over a loop body are enough, since a pass only hands on whether an end
anchor lies behind it.
-/

namespace PatternMachine

namespace Pattern

/-- What the paths through a part of a pattern do after an end anchor. -/
structure EndScan where
  /-- Some path has content after an end anchor. -/
  contentAfter : Bool
  /-- Some path leaves an end anchor behind and no content after it. -/
  endBehind : Bool
  deriving DecidableEq

mutual

/-- Scans a tree that is entered with or without an end anchor behind. -/
def scanEnd (endSeen : Bool) : Pattern → EndScan
  | .literal _ | .wildcard => ⟨endSeen, false⟩
  | .lineStart => ⟨false, endSeen⟩
  | .lineEnd => ⟨false, true⟩
  | .sequence items => scanEnds endSeen items
  | .alternative first second =>
      let left := scanEnd endSeen first
      let right := scanEnd endSeen second
      ⟨left.contentAfter || right.contentAfter, left.endBehind || right.endBehind⟩
  | .repetition quantifier body =>
      let once := scanEnd endSeen body
      let again := once.endBehind && !endSeen && quantifier != .zeroOrOne
      ⟨once.contentAfter || (again && (scanEnd true body).contentAfter),
        if quantifier = .oneOrMore then once.endBehind else endSeen || once.endBehind⟩

def scanEnds (endSeen : Bool) : List Pattern → EndScan
  | [] => ⟨false, endSeen⟩
  | item :: rest =>
      let here := scanEnd endSeen item
      let later := scanEnds here.endBehind rest
      ⟨here.contentAfter || later.contentAfter, later.endBehind⟩

end

/-- Some path through the pattern has content after an end anchor. -/
def hasContentAfterEnd (pattern : Pattern) : Bool :=
  (scanEnd false pattern).contentAfter

end Pattern

end PatternMachine
