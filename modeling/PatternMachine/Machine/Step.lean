import PatternMachine.Config
import PatternMachine.Counter
import PatternMachine.Machine.Fault
import PatternMachine.Program.Basic

/-!
# Single steps

A thread is a place in the program and in the input, with a note whether it relied on the start
anchor. One instruction takes a thread on, ends it, or forks it; both strategies share this
meaning of the instructions. A run starts at offset zero and only counts up; a thread set at a
negative offset reads the input from its end.
-/

namespace PatternMachine

structure Thread where
  pc : Int := 0
  offset : Int := 0
  /-- The thread has passed a start anchor. -/
  headUsed : Bool := false
  deriving DecidableEq

/-- What one instruction asks for. -/
inductive Step where
  | advance (next : Thread)
  | fail
  | accept
  | fork (first second : Thread)
  deriving DecidableEq

structure Machine where
  program : Program
  config : Config := {}

/-- The symbol at an offset; a negative offset counts from the end. -/
def symbolAt? (text : Array Symbol) (offset : Int) : Option Symbol :=
  if 0 ≤ offset then text[offset.toNat]?
  else if 0 ≤ offset + text.size then text[(offset + text.size).toNat]?
  else none

namespace Config

def nextAddress (config : Config) (thread : Thread) : Except Fault Int :=
  checkedAdd thread.pc 1 config.maxAddress ⟨.addressOverflow, thread.pc⟩

def nextOffset (config : Config) (thread : Thread) : Except Fault Int :=
  checkedAdd thread.offset 1 config.maxOffset ⟨.offsetOverflow, thread.pc⟩

/-- Goes on behind an instruction that consumed a symbol. -/
def consume (config : Config) (thread : Thread) : Except Fault Step :=
  match config.nextAddress thread with
  | .error fault => .error fault
  | .ok pc =>
      match config.nextOffset thread with
      | .error fault => .error fault
      | .ok offset => .ok (.advance { thread with pc := pc, offset := offset })

def step (config : Config) (text : Array Symbol) (instruction : Instruction) (thread : Thread) :
    Except Fault Step :=
  match instruction with
  | .literal symbol =>
      if thread.offset < text.size then
        match symbolAt? text thread.offset with
        | none => .error ⟨.noSymbol, thread.pc⟩
        | some found => if found = symbol then config.consume thread else .ok .fail
      else .ok .fail
  | .any => if thread.offset < text.size then config.consume thread else .ok .fail
  | .head =>
      if thread.offset = 0 then
        match config.nextAddress thread with
        | .error fault => .error fault
        | .ok pc => .ok (.advance { thread with pc := pc, headUsed := true })
      else .ok .fail
  | .matchEnd => if text.size ≤ thread.offset then .ok .accept else .ok .fail
  | .jump target => .ok (.advance { thread with pc := target })
  | .split first second =>
      .ok (.fork { thread with pc := first } { thread with pc := second })
  | .accept => .ok .accept

end Config

namespace Machine

def step (machine : Machine) (text : Array Symbol) (thread : Thread) : Except Fault Step :=
  match machine.program.fetch? thread.pc with
  | none => .error ⟨.invalidAddress, thread.pc⟩
  | some instruction => machine.config.step text instruction thread

end Machine

end PatternMachine
