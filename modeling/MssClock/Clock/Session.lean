import MssClock.Register.Catalog
import MssClock.Log

/-!
# Sessions on the clock registers

Clock bring-up and learning reach four registers: they read and write the
divider word and the PLL control word, read the PLL factors and poll the PLL
status.  Where these registers live is left open; a `ClockBank` is any place
that has them.  A session is a bank together with the accesses made to it so
far and the log records emitted so far, both in order.
-/

namespace MssClock

class ClockBank (σ : Type) where
  facc1 : σ → Word
  setFacc1 : Word → σ → σ
  pllLow : σ → Word
  pllHigh : σ → Word
  setPllHigh : Word → σ → σ
  /-- One read of the PLL status, which may be different at the next one. -/
  pollStatus : σ → Word × σ

inductive Access where
  | readFacc1 (bits : Word)
  | writeFacc1 (bits : Word)
  | readLow (bits : Word)
  | readHigh (bits : Word)
  | writeHigh (bits : Word)
  | poll (status : Word)
  deriving DecidableEq, Repr

structure Session (σ : Type) where
  bank : σ
  accesses : Array Access
  records : Array Record

namespace Session

variable {σ : Type}

def start (bank : σ) : Session σ := ⟨bank, #[], #[]⟩

def noted (session : Session σ) (access : Access) : Session σ :=
  { session with accesses := session.accesses.push access }

def log (session : Session σ) (record : Record) : Session σ :=
  { session with records := session.records.push record }

variable [ClockBank σ]

def readFacc1 (session : Session σ) : Word × Session σ :=
  let bits := ClockBank.facc1 session.bank
  (bits, session.noted (.readFacc1 bits))

def writeFacc1 (bits : Word) (session : Session σ) : Session σ :=
  { session.noted (.writeFacc1 bits) with
    bank := ClockBank.setFacc1 bits session.bank }

def readLow (session : Session σ) : Word × Session σ :=
  let bits := ClockBank.pllLow session.bank
  (bits, session.noted (.readLow bits))

def readHigh (session : Session σ) : Word × Session σ :=
  let bits := ClockBank.pllHigh session.bank
  (bits, session.noted (.readHigh bits))

def writeHigh (bits : Word) (session : Session σ) : Session σ :=
  { session.noted (.writeHigh bits) with
    bank := ClockBank.setPllHigh bits session.bank }

/-- Polls the PLL status once and looks at one flag of it. -/
def poll (flag : Field) (session : Session σ) : Bool × Session σ :=
  match session with
  | ⟨bank, accesses, records⟩ =>
      let (status, bank) := ClockBank.pollStatus bank
      (flag.isSet status, ⟨bank, accesses.push (.poll status), records⟩)

/-- Clears one field of the divider word, which is read first. -/
def clearFacc1 (field : Field) (session : Session σ) : Session σ :=
  let (bits, session) := session.readFacc1
  session.writeFacc1 (field.clear bits)

/-- Clears one field of the PLL control word, which is read first. -/
def clearHigh (field : Field) (session : Session σ) : Session σ :=
  let (bits, session) := session.readHigh
  session.writeHigh (field.clear bits)

end Session

namespace Access

/-- The text of an access that stands for itself. -/
def text? : Access → Option String
  | .readFacc1 _ => some "read facc1"
  | .writeFacc1 bits => some s!"write facc1 {bits.toNat}"
  | .readLow _ => some "read low"
  | .readHigh _ => some "read high"
  | .writeHigh bits => some s!"write high {bits.toNat}"
  | .poll _ => none

def pollText (polls : Nat) : List String :=
  if polls = 0 then [] else [s!"poll {polls}"]

/-- The texts of a run of accesses, `polls` polls having come right before.
Consecutive polls are told by their number. -/
def textsFrom (polls : Nat) : List Access → List String
  | [] => pollText polls
  | access :: rest =>
      match access.text? with
      | none => textsFrom (polls + 1) rest
      | some text => pollText polls ++ text :: textsFrom 0 rest

def texts (accesses : List Access) : List String :=
  textsFrom 0 accesses

end Access

end MssClock
