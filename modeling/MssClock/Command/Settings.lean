import MssClock.Config
import MssClock.Console
import MssClock.ReadError
import MssClock.Clock.Snapshot
import MssClock.Command.Given

/-!
# What a run decodes, and why it may fail

Each setting comes from the command line or else from the dump; the reference
has a standard value, the control words have none.  A failure is told by a
chain of messages, from the outermost context to the cause.
-/

namespace MssClock

inductive Failure where
  | nothingToDecode
  | unreadable (path : String) (cause : ReadError)
  | malformedDump (path : String)
  | badValue (name : String) (cause : ValueError)
  | missing (name : String)
  | noDivisor (baud : UInt32) (cause : ConsoleError)
  deriving DecidableEq, Repr

def Failure.messages : Failure → List String
  | .nothingToDecode =>
      ["nothing to decode, pass --file or the register values"]
  | .unreadable path cause => ["failed to read " ++ path, cause.message]
  | .malformedDump path => ["failed to parse " ++ path]
  | .badValue name cause => ["bad value for " ++ name, cause.message]
  | .missing name =>
      ["missing " ++ name ++ ", pass --" ++ name ++
        " or put it in the dump file"]
  | .noDivisor baud cause =>
      ["no console divisor for " ++ toString baud.toNat ++ " baud: " ++
        cause.debug]

/-- The value of a setting, the given one before the dumped one. -/
def pick (given : Option UInt32) (dumped : Option RegisterValue)
    (name : String) : Except Failure (Option UInt32) :=
  match given, dumped with
  | some word, _ => .ok (some word)
  | none, none => .ok none
  | none, some value =>
      match value.toWord with
      | .ok word => .ok (some word)
      | .error cause => .error (.badValue name cause)

def require (value : Option UInt32) (name : String) : Except Failure UInt32 :=
  match value with
  | some word => .ok word
  | none => .error (.missing name)

namespace Given

def pick (given : Given) (dump : Dump) (setting : Setting) :
    Except Failure (Option UInt32) :=
  MssClock.pick (given.setting setting) (dump.get setting) setting.name

def require (given : Given) (dump : Dump) (setting : Setting) :
    Except Failure UInt32 := do
  MssClock.require (← given.pick dump setting) setting.name

/-- The reference and the control words that a run decodes. -/
def resolve (given : Given) (dump : Dump) :
    Except Failure (Hertz × Snapshot) := do
  let sysref ← given.pick dump .sysref
  let facc1 ← given.require dump .facc1
  let pllLow ← given.require dump .pllLow
  let pllHigh ← given.require dump .pllHigh
  return ((sysref.map Hertz.mk).getD standardSysref, ⟨facc1, pllLow, pllHigh⟩)

end Given

end MssClock
