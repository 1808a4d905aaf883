/-!
# Register words

A register is one 32-bit word.  Its text, where a log record shows it, is
eight upper-case hexadecimal digits, leading zeros kept.
-/

namespace MssClock

abbrev Word := UInt32

namespace Word

def hexDigit (n : Nat) : Char :=
  if n < 10 then Char.ofNat ('0'.toNat + n) else Char.ofNat ('A'.toNat + (n - 10))

/-- The digit of weight `16 ^ i`. -/
def hexDigitAt (w : Word) (i : Nat) : Char :=
  hexDigit ((w.toNat >>> (4 * i)) % 16)

def hex (w : Word) : String :=
  String.ofList ([7, 6, 5, 4, 3, 2, 1, 0].map w.hexDigitAt)

end Word

end MssClock
