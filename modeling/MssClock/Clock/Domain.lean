/-!
# Clock domains

The nine nodes of the clock tree, numbered in evaluation order.  Every domain
but the reference is divided down from its parent, which has a smaller number.
-/

namespace MssClock

inductive Domain where
  /-- The system reference, delivered by the fabric. -/
  | sysref
  /-- The PLL output, which clocks the DDR controller. -/
  | ddr
  /-- The common source of the second-stage dividers. -/
  | clkA
  | systick
  | pclk0
  | pclk1
  | fic0
  | fic1
  | ddrFic
  deriving DecidableEq, Repr

namespace Domain

def all : List Domain :=
  [.sysref, .ddr, .clkA, .systick, .pclk0, .pclk1, .fic0, .fic1, .ddrFic]

abbrev count : Nat := 9

def index : Domain → Fin count
  | .sysref => 0
  | .ddr => 1
  | .clkA => 2
  | .systick => 3
  | .pclk0 => 4
  | .pclk1 => 5
  | .fic0 => 6
  | .fic1 => 7
  | .ddrFic => 8

def ofIndex? (index : Nat) : Option Domain :=
  all[index]?

instance : LT Domain where
  lt a b := a.index < b.index

instance (a b : Domain) : Decidable (a < b) :=
  inferInstanceAs (Decidable (a.index < b.index))

def parent : Domain → Option Domain
  | .sysref => none
  | .ddr => some .sysref
  | .clkA => some .ddr
  | .systick | .pclk0 | .pclk1 | .fic0 | .fic1 | .ddrFic => some .clkA

def name : Domain → String
  | .sysref => "sysref"
  | .ddr => "ddr"
  | .clkA => "clk_a"
  | .systick => "systick"
  | .pclk0 => "pclk0"
  | .pclk1 => "pclk1"
  | .fic0 => "fic0"
  | .fic1 => "fic1"
  | .ddrFic => "ddr_fic"

def debug : Domain → String
  | .sysref => "Sysref"
  | .ddr => "Ddr"
  | .clkA => "ClkA"
  | .systick => "Systick"
  | .pclk0 => "Pclk0"
  | .pclk1 => "Pclk1"
  | .fic0 => "Fic0"
  | .fic1 => "Fic1"
  | .ddrFic => "DdrFic"

/-- The domains ordered below `domain`. -/
def before (domain : Domain) : List Domain :=
  all.filter fun other => other < domain

theorem mem_all (domain : Domain) : domain ∈ all := by
  cases domain <;> decide

theorem all_getElem?_index (domain : Domain) :
    all[domain.index.val]? = some domain := by
  cases domain <;> rfl

theorem index_injective
    {a b : Domain} (h : a.index = b.index) : a = b := by
  have ha := all_getElem?_index a
  rw [h, all_getElem?_index b] at ha
  exact (Option.some.inj ha).symm

theorem index_parent_lt
    {domain parent : Domain} (h : domain.parent = some parent) :
    parent < domain := by
  cases domain <;> cases h <;> decide

end Domain

/-- A raw domain number outside the known set. -/
structure InvalidDomain where
  index : Nat
  deriving DecidableEq, Repr

def InvalidDomain.debug (e : InvalidDomain) : String :=
  s!"InvalidDomain({e.index})"

def Domain.ofIndex (index : Nat) : Except InvalidDomain Domain :=
  match Domain.ofIndex? index with
  | some domain => .ok domain
  | none => .error ⟨index⟩

end MssClock
