import MssClock.Register.Catalog
import MssClock.Clock.Clocks
import MssClock.Clock.Divisor

/-!
# The clock tree of a register snapshot

A snapshot holds the three control words that the clock tree depends on.  The
tree is evaluated from the snapshot and the reference frequency alone, parents
before children, and without any check of plausibility: a malformed
configuration yields whatever the dividers say.
-/

namespace MssClock

structure Snapshot where
  facc1 : Word
  pllLow : Word
  pllHigh : Word
  deriving DecidableEq, Repr

namespace Snapshot

def debug (snapshot : Snapshot) : String :=
  let facc1 := Facc1.layout.debug snapshot.facc1
  let low := PllStatusLow.layout.debug snapshot.pllLow
  let high := PllStatusHigh.layout.debug snapshot.pllHigh
  "RegisterSnapshot \x7b facc1: " ++ facc1 ++ ", pll_low: " ++ low ++
    ", pll_high: " ++ high ++ " \x7d"

def divr (snapshot : Snapshot) : Word :=
  PllStatusLow.divr.get snapshot.pllLow

def divf (snapshot : Snapshot) : Word :=
  PllStatusLow.divf.get snapshot.pllLow

/-- The decoded output divider, applied only when the feedback is taken from
the PLL output. -/
def divq (snapshot : Snapshot) : Word :=
  Encoding.extended.divisor (PllStatusLow.divq.get snapshot.pllLow)

def fse (snapshot : Snapshot) : Bool :=
  PllStatusHigh.fse.isSet snapshot.pllHigh

/-- The PLL output for a reference.  The reference is divided before it is
multiplied, so that the product stays within 32 bits for sane factors; a
larger one wraps. -/
def mpllOutput (snapshot : Snapshot) (sysref : Hertz) : Hertz :=
  let vco := sysref / (snapshot.divr + 1) * (snapshot.divf + 1)
  if snapshot.fse then vco / snapshot.divq
  else
    -- The alternate feedback path divides by two outside the PLL.
    vco * (2 : UInt32)

/-- The divisor of a domain fed by the common second-stage source. -/
def secondStage (snapshot : Snapshot) (field : Field) : Word :=
  Encoding.normal.divisor (field.get snapshot.facc1)

/-- The frequency of a domain, given that of its parent. -/
def stage (snapshot : Snapshot) (domain : Domain) (parent : Hertz) : Hertz :=
  match domain with
  | .sysref => parent
  | .ddr => snapshot.mpllOutput parent
  | .clkA => parent / (Facc1.divisorA.get snapshot.facc1 + 1)
  | .systick => parent / snapshot.secondStage Facc1.m3ClkDivisor
  | .pclk0 => parent / snapshot.secondStage Facc1.apb0Divisor
  | .pclk1 => parent / snapshot.secondStage Facc1.apb1Divisor
  | .fic0 => parent / snapshot.secondStage Facc1.fic0Divisor
  | .fic1 => parent / snapshot.secondStage Facc1.fic1Divisor
  | .ddrFic => parent / snapshot.secondStage Facc1.ddrFicDivisor

/-- Evaluates one domain from the frequencies stored so far. -/
def visit (snapshot : Snapshot) (sysref : Hertz)
    (clocks : Clocks) (domain : Domain) : Clocks :=
  clocks.set domain <|
    match domain.parent with
    | none => sysref
    | some parent => snapshot.stage domain (clocks.get parent)

/-- One pass over `order`, starting from the frequencies in `start`. -/
def pass (snapshot : Snapshot) (sysref : Hertz)
    (order : List Domain) (start : Clocks) : Clocks :=
  order.foldl (snapshot.visit sysref) start

def derive (snapshot : Snapshot) (sysref : Hertz) : Clocks :=
  snapshot.pass sysref Domain.all .zero

end Snapshot

end MssClock
