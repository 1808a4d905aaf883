import MssClock.Text.Terminal
import MssClock.Command.Option

/-!
# Errors on the command line

Each error has a text, of which the first line is its message.  The text is
made of pieces in different styles.  A control sequence that an argument
carries into the text reaches at most to the end of its piece, because the
next style starts with a sequence of its own.
-/

namespace MssClock

inductive ArgumentError where
  | valueRequired (o : ValueOption)
  | unexpected (argument : String)
  | repeated (o : ValueOption)
  | invalidWord (setting : Setting) (text : String) (cause : NumeralError)
  | invalidBaud (text : String) (cause : BaudError)
  | flagWithValue (f : Flag) (text : String)
  deriving DecidableEq, Repr

namespace ArgumentError

def hint : List String :=
  ["\n\nFor more information, try '", "--help", "'.\n"]

def usageLine : String :=
  "\n\nUsage: m2s-clkinfo [OPTIONS]"

/-- The pieces for a value that an option does not take.  The cause and the
start of the hint have no style and are one piece. -/
def invalidPieces (o : ValueOption) (text cause : String) : List String :=
  ["error: invalid value '", text, "' for '", o.usage,
    "': " ++ cause ++ "\n\nFor more information, try '", "--help", "'.\n"]

def pieces : ArgumentError → List String
  | .valueRequired o =>
      ["error: a value is required for '", o.usage,
        "' but none was supplied"] ++ hint
  | .unexpected argument =>
      ["error: unexpected argument '", argument, "' found", usageLine] ++ hint
  | .repeated o =>
      ["error: the argument '", o.usage, "' cannot be used multiple times",
        usageLine] ++ hint
  | .invalidWord setting text cause =>
      invalidPieces (.setting setting) text cause.message
  | .invalidBaud text cause => invalidPieces .baud text cause.message
  | .flagWithValue f text =>
      ["error: unexpected value '", text, "' for '", "--" ++ f.long,
        "' found; no more were expected", usageLine] ++ hint

/-- The text as it is shown. -/
def text (e : ArgumentError) : String :=
  String.join (e.pieces.map visible)

def message (e : ArgumentError) : String :=
  firstLine e.text

end ArgumentError

end MssClock
