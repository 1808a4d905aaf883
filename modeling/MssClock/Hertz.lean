import MssClock.Fault

/-!
# Frequencies

A frequency is a 32-bit count of hertz.  Products wrap modulo `2 ^ 32`, as
they do in the registers they describe; quotients are truncated.  Division
comes in two forms: the operator, which is total and answers zero for a zero
divisor, and `divide`, which reports the zero divisor as a fault.
-/

namespace MssClock

structure Hertz where
  value : UInt32
  deriving DecidableEq, Repr, Inhabited

namespace Hertz

instance : HMul Hertz UInt32 Hertz where
  hMul freq factor := ⟨freq.value * factor⟩

instance : HDiv Hertz UInt32 Hertz where
  hDiv freq divisor := ⟨freq.value / divisor⟩

instance : LE Hertz where
  le a b := a.value ≤ b.value

instance : LT Hertz where
  lt a b := a.value < b.value

instance (a b : Hertz) : Decidable (a ≤ b) :=
  inferInstanceAs (Decidable (a.value ≤ b.value))

instance (a b : Hertz) : Decidable (a < b) :=
  inferInstanceAs (Decidable (a.value < b.value))

instance : Ord Hertz where
  compare a b := compare a.value b.value

def divide (freq : Hertz) (divisor : UInt32) : Except Fault Hertz :=
  if divisor = 0 then .error .divisionByZero else .ok (freq / divisor)

def text (freq : Hertz) : String :=
  s!"{freq.value.toNat} Hz"

def debug (freq : Hertz) : String :=
  s!"Hertz({freq.value.toNat})"

@[simp]
theorem value_mul (freq : Hertz) (factor : UInt32) :
    (freq * factor).value = freq.value * factor := rfl

@[simp]
theorem value_div (freq : Hertz) (divisor : UInt32) :
    (freq / divisor).value = freq.value / divisor := rfl

theorem divide_eq_ok
    {freq : Hertz} {divisor : UInt32}
    (hdivisor : divisor ≠ 0) :
    freq.divide divisor = .ok (freq / divisor) := by
  simp [divide, hdivisor]

end Hertz

end MssClock
