import MssClock.Clock.Clocks

/-!
# The console divisor latch

The console samples each bit sixteen times, so its divisor is the clock over
sixteen times the baud rate, rounded to nearest with a half going up.  The
latch has 16 bits and does not take zero.
-/

namespace MssClock

inductive ConsoleError where
  | baudZero
  /-- The divisor is zero or does not fit the latch. -/
  | divisorOutOfRange (divisor : UInt32)
  deriving DecidableEq, Repr

def ConsoleError.debug : ConsoleError → String
  | .baudZero => "BaudZero"
  | .divisorOutOfRange divisor =>
      "DivisorOutOfRange \x7b divisor: " ++ toString divisor.toNat ++ " \x7d"

/-- The divisor before it is fitted into the latch. -/
def roundedDivisor (clock : Hertz) (baud : UInt32) : UInt64 :=
  let oversampled := baud.toUInt64 * 16
  (clock.value.toUInt64 + oversampled / 2) / oversampled

def baudDivisor (clock : Hertz) (baud : UInt32) : Except ConsoleError UInt16 :=
  if baud = 0 then .error .baudZero
  else
    let divisor := roundedDivisor clock baud
    if divisor = 0 ∨ 0xFFFF < divisor then
      .error (.divisorOutOfRange divisor.toUInt32)
    else .ok divisor.toUInt16

def Clocks.consoleDivisor (clocks : Clocks) (baud : UInt32) :
    Except ConsoleError UInt16 :=
  baudDivisor clocks.console baud

end MssClock
