import MssClock.Hertz
import MssClock.Clock.Domain

/-!
# The frequency store

One frequency for every clock domain.  A raw number that names no domain
reads as 0 Hz, like a domain that is not clocked.
-/

namespace MssClock

structure Clocks where
  freqs : Vector Hertz Domain.count
  deriving DecidableEq

namespace Clocks

def zero : Clocks := ⟨Vector.replicate Domain.count ⟨0⟩⟩

def get (clocks : Clocks) (domain : Domain) : Hertz :=
  clocks.freqs[domain.index]

def set (clocks : Clocks) (domain : Domain) (freq : Hertz) : Clocks :=
  ⟨clocks.freqs.set domain.index.val freq domain.index.isLt⟩

def getByIndex (clocks : Clocks) (index : Nat) : Hertz :=
  (clocks.freqs[index]?).getD ⟨0⟩

/-- The clock that feeds the console. -/
def console (clocks : Clocks) : Hertz :=
  clocks.get .pclk0

def toList (clocks : Clocks) : List (Domain × Hertz) :=
  Domain.all.map fun domain => (domain, clocks.get domain)

def debug (clocks : Clocks) : String :=
  let freqs := ", ".intercalate (clocks.freqs.toList.map Hertz.debug)
  s!"Clocks \x7b freqs: [{freqs}] \x7d"

@[simp]
theorem get_set_self
    (clocks : Clocks) (domain : Domain) (freq : Hertz) :
    (clocks.set domain freq).get domain = freq := by
  simp [get, set]

theorem get_set_of_ne
    (clocks : Clocks) {domain other : Domain} (freq : Hertz)
    (h : other ≠ domain) :
    (clocks.set domain freq).get other = clocks.get other := by
  have hindex : domain.index.val ≠ other.index.val := fun heq =>
    h (Domain.index_injective (Fin.ext heq.symm))
  simp [get, set, hindex]

end Clocks

end MssClock
