import MssClock.Command.Program

/-!
# The command line program

Reads the one file that the arguments name, runs the command on it, and prints
the result.
-/

namespace MssClock

/-- Whether a cause has this number, whichever sign it is passed on with. -/
def isCause (number code : UInt32) : Bool :=
  code == number || code == 0 - number

def ReadError.ofSystem : IO.Error → ReadError
  | .noFileOrDirectory .. => .notFound
  | .inappropriateType _ code _ =>
      if isCause 21 code then .isDirectory else .notDirectory
  | .invalidArgument _ code message =>
      if isCause 36 code then .nameTooLong else .other message
  | e => .other (toString e)

def readText (path : String) : IO (Except ReadError String) := do
  if path.contains '\x00' then return .error .nulInName
  try
    let content ← IO.FS.readBinFile path
    match String.fromUTF8? content with
    | some text => return .ok text
    | none => return .error .invalidText
  catch e => return .error (.ofSystem e)

/-- The file that the arguments name, as a source that holds it alone. -/
def sourceFor (arguments : List String) :
    IO (String → Except ReadError String) := do
  match Command.file? arguments with
  | none => return fun _ => .error .notFound
  | some path =>
      let content ← readText path
      return fun _ => content

def Command.Result.complaint : Command.Result → String
  | .finished _ => ""
  | .misused e => e.text
  | .failed _ failure =>
      match failure.messages with
      | [] => ""
      | [message] => "Error: " ++ message ++ "\n"
      | message :: causes =>
          "Error: " ++ message ++ "\n\nCaused by:\n" ++
            String.join (causes.map fun cause => "    " ++ cause ++ "\n")

end MssClock

def main (arguments : List String) : IO UInt32 := do
  let source ← MssClock.sourceFor arguments
  let result := MssClock.Command.run source arguments
  IO.print result.printed
  IO.eprint result.complaint
  return result.exitCode
