import Brainfuck.CommandLine.Arguments
import Brainfuck.Program.Basic

/-!
# The usage text

What the command says of itself, and how it reports arguments it does not understand.
-/

namespace Brainfuck

namespace CommandLine

/-- The usage text of the command called `name`. -/
def usage (name : String) : String :=
  String.intercalate "\n" [
    "Usage:",
    s!"  {name} [OPTIONS] <FILE>   # Run the Brainfuck program stored in FILE",
    "",
    "Options:",
    "  --eof <zero|unchanged>  What `,` stores at end of input (fallback BF_EOF; default zero)",
    "  --strict, -s            Reject unbalanced brackets before running (fallback BF_STRICT)",
    "  --debug,  -d            Print a step-by-step table of operations to stderr",
    "  --help,   -h            Show this help",
    "",
    "Notes:",
    s!"- Programs are limited to {Program.limit} bytes and end at the first NUL byte.",
    "- Bytes other than ><+-.,[] are ignored.",
    "- Settings may also be given in bf.toml under [interpreter] in the XDG config home.",
    "",
    ""]

/-- The report on arguments that were not understood: the first line of the message,
signed by the command, and the usage text. -/
def argumentReport (name : String) (e : ArgumentError) : String :=
  let first := String.ofList ((Text.lines e.message.toList).headD [])
  s!"{name}: {first}\n" ++ usage name

end CommandLine

end Brainfuck
