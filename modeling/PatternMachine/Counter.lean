/-!
# Counters with a ceiling

Addresses and offsets are counters that may reach a limit but never pass it.
-/

namespace PatternMachine

variable {Number Problem : Type}

/-- The counter moved on by `delta`, or the given problem if that passes the limit. -/
def checkedAdd [Add Number] [LT Number] [DecidableLT Number]
    (value delta limit : Number) (overflow : Problem) : Except Problem Number :=
  if limit < value + delta then .error overflow else .ok (value + delta)

theorem checkedAdd_eq_ok_iff {value delta limit next : Nat} {overflow : Problem} :
    checkedAdd value delta limit overflow = .ok next ↔
      value + delta ≤ limit ∧ next = value + delta := by
  unfold checkedAdd
  split <;> simp <;> omega

end PatternMachine
