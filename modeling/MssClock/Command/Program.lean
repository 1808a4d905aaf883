import MssClock.Command.Arguments
import MssClock.Command.Decode

/-!
# The command

What the command prints and how it ends, for its arguments and the files it
can read.
-/

namespace MssClock

namespace Command

def versionText : String := "m2s-clkinfo 0.1.0\n"

def helpText : String :=
  Report.print
    ["Decode SmartFusion2 MSS clock register dumps",
      "",
      "Usage: m2s-clkinfo [OPTIONS]",
      "",
      "Options:",
      "  -f, --file <FILE>          Hjson file with the register dump",
      "  -s, --sysref <SYSREF>      SYSREF frequency in Hz",
      "      --facc1 <FACC1>        MSSDDR_FACC1_CR value",
      "      --pll-low <PLL_LOW>    MSSDDR_PLL_STATUS_LOW_CR value",
      "      --pll-high <PLL_HIGH>  MSSDDR_PLL_STATUS_HIGH_CR value",
      "  -b, --baud <BAUD>          Also print the console divisor latch for this baud rate",
      "  -h, --help                 Print help",
      "  -V, --version              Print version"]

inductive Result where
  | finished (printed : String)
  | failed (printed : String) (failure : Failure)
  | misused (error : ArgumentError)
  deriving DecidableEq, Repr

namespace Result

def exitCode : Result → UInt32
  | .finished _ => 0
  | .failed _ _ => 1
  | .misused _ => 2

def printed : Result → String
  | .finished printed => printed
  | .failed printed _ => printed
  | .misused _ => ""

def ofOutcome (outcome : Outcome) : Result :=
  match outcome.failure with
  | none => .finished outcome.printed
  | some failure => .failed outcome.printed failure

def ofStop : Stop → Result
  | .help => .finished helpText
  | .version => .finished versionText
  | .error e => .misused e

end Result

def run (read : String → Except ReadError String) (arguments : List String) :
    Result :=
  match Given.ofArguments arguments with
  | .error stop => .ofStop stop
  | .ok given => .ofOutcome (given.decode read)

/-- The file that a run with these arguments reads. -/
def file? (arguments : List String) : Option String :=
  match Given.ofArguments arguments with
  | .error _ => none
  | .ok given => given.file

end Command

end MssClock
