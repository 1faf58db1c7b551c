import PatternMachine.Machine.Run
import PatternMachine.Pattern.Reader
import PatternMachine.Program.Build

/-!
# Compiled patterns

A compiled pattern keeps its text, its tree and its program together with the configuration
under which it was built and is run.
-/

namespace PatternMachine

inductive CompileError where
  | reading (error : ReadError)
  | building (error : BuildError)
  deriving DecidableEq

namespace CompileError

def message : CompileError → String
  | .reading error => error.message
  | .building error => error.message

end CompileError

structure Regex where
  source : String
  pattern : Pattern
  program : Program
  config : Config

namespace Regex

def compile (config : Config) (source : String) : Logged (Except CompileError Regex) :=
  match Pattern.read source with
  | .error error => ⟨[], .error (.reading error)⟩
  | .ok pattern =>
      let built := pattern.build config
      match built.value with
      | .error error => ⟨built.events, .error (.building error)⟩
      | .ok program =>
          ⟨built.events,
            .ok { source := source, pattern := pattern, program := program, config := config }⟩

def machine (regex : Regex) : Machine :=
  ⟨regex.program, regex.config⟩

/-- Evaluates the pattern once from the start of a text. -/
def run (regex : Regex) (choice : Option Strategy) (text : Array Symbol) :
    Logged (Except Fault Verdict) :=
  regex.machine.runLogged (regex.machine.strategy choice) text

def matchLine (regex : Regex) (choice : Option Strategy) (line : Array Symbol) :
    Logged (Except Fault Bool) :=
  regex.machine.matchLine (regex.machine.strategy choice) line

/-- The text, the tree as it was read and the listing of the program. -/
def dump (regex : Regex) : Except Uncoded String :=
  match regex.pattern.written with
  | .error problem => .error problem
  | .ok tree =>
      match regex.program.listing with
      | .error problem => .error problem
      | .ok code =>
          .ok ("expr: " ++ regex.source ++ "\nAST: " ++ tree ++ "\n\ncode:\n" ++ code)

def written (regex : Regex) : String :=
  "Regex(" ++ Text.quote regex.source ++ ")"

end Regex

inductive MatchError where
  | compiling (error : CompileError)
  | running (fault : Fault)
  deriving DecidableEq

/-- Compiles a pattern and tells whether it matches from the start of a text. -/
def isMatch (source : String) (choice : Option Strategy) (text : Array Symbol) :
    Except MatchError Bool :=
  match (Regex.compile {} source).value with
  | .error error => .error (.compiling error)
  | .ok regex =>
      match (regex.run choice text).value with
      | .error fault => .error (.running fault)
      | .ok verdict => .ok verdict.matched

end PatternMachine
