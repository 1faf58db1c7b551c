/-!
# Help

The name and version of the program and what it says about how to call it.
-/

namespace PatternMachine.CommandLine

def programName : String := "bytere"

def programVersion : String := "0.1.0"

/-- Lines as a text, each with a line feed behind it. -/
def textOf (lines : List String) : String :=
  String.join (lines.map fun line => line ++ "\n")

def usageText : String :=
  textOf [
    "usage: bytere [-h] [--version] [-v] [-n] [-c] [--strategy \x7bdepth,breadth\x7d]",
    "              [--max-depth N] [--dump]",
    "              pattern [FILE ...]"]

def helpText : String :=
  usageText ++ textOf [
    "",
    "Print lines matching a pattern, using a backtracking regex VM.",
    "",
    "positional arguments:",
    "  pattern               Regular expression.",
    "  FILE                  Files to scan; '-' or nothing reads standard input.",
    "",
    "options:",
    "  -h, --help            show this help message and exit",
    "  --version             show program's version number and exit",
    "  -v, --verbose         Increase verbosity (-v info, -vv debug).",
    "  -n, --line-number     Prefix each matching line with its line number.",
    "  -c, --count           Print only the number of matching lines per input.",
    "  --strategy \x7bdepth,breadth\x7d",
    "                        VM evaluation strategy (default: depth).",
    "  --max-depth N         Nesting limit of the depth-first evaluator (default:",
    "                        100000).",
    "  --dump                Print the AST and bytecode of the pattern instead of",
    "                        scanning.",
    "",
    "examples:",
    "  bytere '^(ab|cd)+$' words.txt",
    "  bytere -n --strategy breadth 'a.c' notes.txt",
    "  bytere --dump 'a**b'"]

end PatternMachine.CommandLine
