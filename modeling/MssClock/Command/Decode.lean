import MssClock.Command.Report
import MssClock.Command.Settings

/-!
# One run of the decoder

The checks come in a fixed order and the first that fails decides: something
to decode, a readable file, a well-formed dump, the settings one by one, and
at last the console divisor, which is asked for only after the report has been
printed.
-/

namespace MssClock

/-- What a run has printed, and why it stopped if it failed. -/
structure Outcome where
  printed : String
  failure : Option Failure
  deriving DecidableEq, Repr

namespace Given

def report (given : Given) (dump : Dump) : Outcome :=
  match given.resolve dump with
  | .error failure => ⟨"", some failure⟩
  | .ok (sysref, snapshot) =>
      let lines := Report.lines sysref snapshot
      match given.baud with
      | none => ⟨Report.print lines, none⟩
      | some baud =>
          match (snapshot.derive sysref).consoleDivisor baud with
          | .ok divisor =>
              ⟨Report.print (lines ++ Report.divisorLines baud divisor), none⟩
          | .error cause => ⟨Report.print lines, some (.noDivisor baud cause)⟩

/-- The dump in the given file, read by `read`; an empty one without a file. -/
def load (given : Given) (read : String → Except ReadError String) :
    Except Failure Dump :=
  match given.file with
  | none => .ok .empty
  | some path =>
      match read path with
      | .error cause => .error (.unreadable path cause)
      | .ok text =>
          match Dump.ofText? text with
          | none => .error (.malformedDump path)
          | some dump => .ok dump

def decode (given : Given) (read : String → Except ReadError String) :
    Outcome :=
  if given.file.isNone ∧ given.facc1.isNone then
    ⟨"", some .nothingToDecode⟩
  else
    match given.load read with
    | .error failure => ⟨"", some failure⟩
    | .ok dump => given.report dump

end Given

end MssClock
