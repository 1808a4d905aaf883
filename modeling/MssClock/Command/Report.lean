import MssClock.Clock.Snapshot
import MssClock.Console

/-!
# The printed report

The reference, the factors of the PLL, and one line for each clock domain:
its name in eight columns, its frequency in hertz in twelve, and the same in
megahertz with three decimals, not rounded.
-/

namespace MssClock

def padRight (width : Nat) (text : String) : String :=
  text ++ String.ofList (List.replicate (width - text.length) ' ')

def padLeft (width : Nat) (text : String) : String :=
  String.ofList (List.replicate (width - text.length) ' ') ++ text

/-- The last three decimal digits of a number, leading zeros kept. -/
def thousandths (n : Nat) : String :=
  String.ofList
    [Nat.digitChar (n / 100 % 10), Nat.digitChar (n / 10 % 10),
      Nat.digitChar (n % 10)]

namespace Report

def megahertz (freq : Hertz) : String :=
  let hz := freq.value.toNat
  toString (hz / 1000000) ++ "." ++ thousandths (hz % 1000000 / 1000)

def clockLine (domain : Domain) (freq : Hertz) : String :=
  padRight 8 domain.name ++ " " ++ padLeft 12 (toString freq.value.toNat) ++
    " Hz  (" ++ megahertz freq ++ " MHz)"

def pllLine (snapshot : Snapshot) : String :=
  "MPLL:    DIVR=" ++ toString snapshot.divr.toNat ++
    " DIVF=" ++ toString snapshot.divf.toNat ++
    " DIVQ=" ++ toString snapshot.divq.toNat ++
    " FSE=" ++ (if snapshot.fse then "1" else "0")

def lines (sysref : Hertz) (snapshot : Snapshot) : List String :=
  ["SYSREF:  " ++ sysref.text, pllLine snapshot, ""] ++
    (snapshot.derive sysref).toList.map fun (domain, freq) =>
      clockLine domain freq

def divisorLines (baud : UInt32) (divisor : UInt16) : List String :=
  ["", "console divisor for " ++ toString baud.toNat ++ " baud: " ++
    toString divisor.toNat]

/-- Every line is closed by a line feed. -/
def print (lines : List String) : String :=
  String.join (lines.map fun line => line ++ "\n")

end Report

end MssClock
