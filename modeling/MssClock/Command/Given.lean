import MssClock.Command.ArgumentError

/-!
# Values given on the command line

How a value is taken over.  An option is given at most once, so a second value
is refused before it is looked at.
-/

namespace MssClock

structure Given where
  file : Option String
  sysref : Option UInt32
  facc1 : Option UInt32
  pllLow : Option UInt32
  pllHigh : Option UInt32
  baud : Option UInt32
  deriving DecidableEq, Repr

namespace Given

def nothing : Given :=
  { file := none, sysref := none, facc1 := none, pllLow := none,
    pllHigh := none, baud := none }

def setting (given : Given) : Setting → Option UInt32
  | .sysref => given.sysref
  | .facc1 => given.facc1
  | .pllLow => given.pllLow
  | .pllHigh => given.pllHigh

def has (given : Given) : ValueOption → Bool
  | .file => given.file.isSome
  | .setting s => (given.setting s).isSome
  | .baud => given.baud.isSome

def setSetting (given : Given) (word : UInt32) : Setting → Given
  | .sysref => { given with sysref := some word }
  | .facc1 => { given with facc1 := some word }
  | .pllLow => { given with pllLow := some word }
  | .pllHigh => { given with pllHigh := some word }

/-- Takes over the value of an option that has none yet. -/
def put (given : Given) (o : ValueOption) (text : String) :
    Except ArgumentError Given :=
  match o with
  | .file =>
      if text = "" then .error (.valueRequired .file)
      else .ok { given with file := some text }
  | .setting s =>
      match readWord text with
      | .ok word => .ok (given.setSetting word s)
      | .error cause => .error (.invalidWord s text cause)
  | .baud =>
      match readBaud text with
      | .ok baud => .ok { given with baud := some baud }
      | .error cause => .error (.invalidBaud text cause)

def accept (given : Given) (o : ValueOption) (text : String) :
    Except ArgumentError Given :=
  if given.has o then .error (.repeated o) else given.put o text

end Given

end MssClock
