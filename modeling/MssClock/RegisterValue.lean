import MssClock.Text.Numeral

/-!
# Register values of a dump

A dump gives a register either as a number or as a text.  The number may have
64 bits; it is a register value only if 32 suffice.
-/

namespace MssClock

inductive RegisterValue where
  | number (n : UInt64)
  | text (s : String)
  deriving DecidableEq, Repr

inductive ValueError where
  | tooWide (n : UInt64)
  | numeral (error : NumeralError)
  deriving DecidableEq, Repr

def ValueError.message : ValueError → String
  | .tooWide n => s!"{n.toNat} does not fit 32 bits"
  | .numeral error => error.message

def RegisterValue.toWord : RegisterValue → Except ValueError UInt32
  | .number n => if n.toNat < UInt32.size then .ok n.toUInt32 else .error (.tooWide n)
  | .text s =>
      match readWord s with
      | .ok word => .ok word
      | .error error => .error (.numeral error)

end MssClock
