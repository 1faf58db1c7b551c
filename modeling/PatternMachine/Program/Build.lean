import PatternMachine.Event
import PatternMachine.Pattern.Ending
import PatternMachine.Pattern.Normal
import PatternMachine.Program.Draft

/-!
# Building programs

A program is built from the normal form of a pattern. A pattern with content after an end anchor
is warned about before its code is generated; a program that was built is reported with the
numbers of its instructions and of the nodes it was built from.
-/

namespace PatternMachine

/-- What building leaves: the events, the program or an error, and the draft. -/
structure Built where
  events : List Event
  result : Except BuildError Program
  draft : Draft

namespace Draft

def warnings (config : Config) (normal : Pattern) : List Event :=
  if config.warnUnreachable && normal.hasContentAfterEnd then [.unreachableContent normal] else []

/-- Builds the program of a pattern behind the instructions of a draft. -/
def build (config : Config) (pattern : Pattern) (draft : Draft) : Built :=
  let normal := pattern.normal
  let warnings := warnings config normal
  match (complete config.maxAddress normal).run draft with
  | .error error draft => ⟨warnings, .error error, draft⟩
  | .ok program draft =>
      ⟨warnings ++ [.generated program.size normal.size normal.hasLineStart normal.hasLineEnd],
        .ok program, draft⟩

end Draft

namespace Pattern

def build (config : Config) (pattern : Pattern) : Logged (Except BuildError Program) :=
  let built := Draft.build config pattern {}
  ⟨built.events, built.result⟩

end Pattern

end PatternMachine
