import MssClock.Word

/-!
# Faults

A fault ends an operation at once.  It is not an answer of the operation:
what had been stored before it stays stored, and nothing is stored after it.
-/

namespace MssClock

inductive Fault where
  | divisionByZero
  /-- A number was larger than the largest value its field can hold. -/
  | outOfBounds (largest : Word)
  | initializedTwice
  /-- A wait was still unanswered when the registers stopped answering. -/
  | endlessWait
  deriving DecidableEq, Repr

def Fault.message : Fault → String
  | .divisionByZero => "attempt to divide by zero"
  | .outOfBounds largest => s!"value out of bounds [0, {largest.toNat}]"
  | .initializedTwice => "rcc: init() called twice"
  | .endlessWait => "endless wait"

end MssClock
