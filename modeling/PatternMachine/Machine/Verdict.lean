/-!
# Verdicts

The verdict of an evaluation tells whether some path matched and whether every match that was
found relied on the start anchor.
-/

namespace PatternMachine

structure Verdict where
  /-- Some path reached a match. -/
  matched : Bool
  /-- The match relied on the start anchor. -/
  requiresHead : Bool := false
  deriving DecidableEq

namespace Verdict

def noMatch : Verdict :=
  ⟨false, false⟩

def accept (headUsed : Bool) : Verdict :=
  ⟨true, headUsed⟩

/-- A match beats no match; two matches rely on the start anchor only if both do. -/
def merge (first second : Verdict) : Verdict :=
  if !first.matched then second
  else if !second.matched then first
  else ⟨true, first.requiresHead && second.requiresHead⟩

/-- The match holds at an offset of the line: relying on the start anchor counts only at zero. -/
def holdsAt (offset : Nat) (verdict : Verdict) : Bool :=
  verdict.matched && (!verdict.requiresHead || offset == 0)

def truth (value : Bool) : String :=
  if value then "True" else "False"

def written (verdict : Verdict) : String :=
  "EvalResult(matched=" ++ truth verdict.matched ++
    ", requires_head=" ++ truth verdict.requiresHead ++ ")"

theorem matched_merge (first second : Verdict) :
    (first.merge second).matched = (first.matched || second.matched) := by
  unfold merge
  cases h : first.matched <;> cases h' : second.matched <;> simp [*]

end Verdict

end PatternMachine
