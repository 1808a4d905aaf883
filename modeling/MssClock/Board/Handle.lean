import MssClock.Board.Memory
import MssClock.Register.Catalog

/-!
# Register handles

A handle names one word of one block, what it holds, and which accesses it
allows.  Reading and storing through a handle touch that word alone.
-/

namespace MssClock

inductive Rights where
  | readOnly
  | writeOnly
  | readWrite
  deriving DecidableEq, Repr

def Rights.canRead : Rights → Bool
  | .readOnly | .readWrite => true
  | .writeOnly => false

def Rights.canWrite : Rights → Bool
  | .writeOnly | .readWrite => true
  | .readOnly => false

inductive Handle where
  | wdogCr
  | pllStatusLow
  | pllStatusHigh
  | facc1
  | pllStatus
  /-- The current counter value. -/
  | wdogValue
  /-- The value that a refresh reloads. -/
  | wdogLoad
  /-- The largest counter value at which a refresh is permitted. -/
  | wdogMvrp
  | wdogRefresh
  | wdogEnable
  | wdogControl
  | wdogStatus
  /-- The raw interrupt status. -/
  | wdogRis
  deriving DecidableEq, Repr

namespace Handle

def all : List Handle :=
  [.wdogCr, .pllStatusLow, .pllStatusHigh, .facc1, .pllStatus, .wdogValue,
    .wdogLoad, .wdogMvrp, .wdogRefresh, .wdogEnable, .wdogControl, .wdogStatus,
    .wdogRis]

def name : Handle → String
  | .wdogCr => "wdog_cr"
  | .pllStatusLow => "mssddr_pll_status_low_cr"
  | .pllStatusHigh => "mssddr_pll_status_high_cr"
  | .facc1 => "mssddr_facc1_cr"
  | .pllStatus => "mssddr_pll_status"
  | .wdogValue => "wdogvalue"
  | .wdogLoad => "wdogload"
  | .wdogMvrp => "wdogmvrp"
  | .wdogRefresh => "wdogrefresh"
  | .wdogEnable => "wdogenable"
  | .wdogControl => "wdogcontrol"
  | .wdogStatus => "wdogstatus"
  | .wdogRis => "wdogris"

def named? (name : String) : Option Handle :=
  all.find? fun handle => handle.name == name

def block : Handle → Block
  | .wdogCr | .pllStatusLow | .pllStatusHigh | .facc1 | .pllStatus => .sysreg
  | .wdogValue | .wdogLoad | .wdogMvrp | .wdogRefresh | .wdogEnable
  | .wdogControl | .wdogStatus | .wdogRis => .wdt

def offset : Handle → Nat
  | .wdogCr => 0x06c
  | .pllStatusLow => 0x090
  | .pllStatusHigh => 0x094
  | .facc1 => 0x098
  | .pllStatus => 0x150
  | .wdogValue => 0x00
  | .wdogLoad => 0x04
  | .wdogMvrp => 0x08
  | .wdogRefresh => 0x0c
  | .wdogEnable => 0x10
  | .wdogControl => 0x14
  | .wdogStatus => 0x18
  | .wdogRis => 0x1c

def address (handle : Handle) : Nat :=
  handle.block.address + handle.offset

theorem offset_lt (handle : Handle) : handle.offset / 4 < Block.wordCount := by
  cases handle <;> decide

def index (handle : Handle) : Fin Block.wordCount :=
  ⟨handle.offset / 4, handle.offset_lt⟩

def rights : Handle → Rights
  | .wdogCr | .pllStatusLow | .pllStatusHigh | .facc1 | .wdogControl
  | .wdogRis => .readWrite
  | .pllStatus | .wdogValue | .wdogLoad | .wdogMvrp | .wdogEnable
  | .wdogStatus => .readOnly
  | .wdogRefresh => .writeOnly

/-- The layout of the register, unless it is one plain number. -/
def layout? : Handle → Option Layout
  | .wdogCr => some WdogCr.layout
  | .pllStatusLow => some PllStatusLow.layout
  | .pllStatusHigh => some PllStatusHigh.layout
  | .facc1 => some Facc1.layout
  | .pllStatus => some PllStatus.layout
  | .wdogEnable => some WdogEnable.layout
  | .wdogControl => some WdogControl.layout
  | .wdogStatus => some WdogStatus.layout
  | .wdogRis => some WdogRis.layout
  | .wdogValue | .wdogLoad | .wdogMvrp | .wdogRefresh => none

end Handle

/-- One store into a field, as part of a write. -/
structure Assignment where
  field : Field
  n : Word
  deriving DecidableEq, Repr

/-- All 32 bits of a word as one number. -/
def Field.whole : Field := .bits "bits" 31 0

/-- The word after all assignments, in order; the first one that does not fit
decides. -/
def assignAll (word : Word) (assignments : List Assignment) :
    Except Fault Word :=
  assignments.foldlM (fun current a => a.field.put a.n current) word

namespace Board

def read (board : Board) (handle : Handle) : Word :=
  board.word handle.block handle.index

def store (board : Board) (handle : Handle) (bits : Word) : Board :=
  board.setWord handle.block handle.index bits

/-- Stores the result of the assignments to `word`.  Nothing is stored when
one of them is refused. -/
def storeAssigned (board : Board) (handle : Handle) (word : Word)
    (assignments : List Assignment) : Except Fault (Word × Board) :=
  (assignAll word assignments).map fun bits => (bits, board.store handle bits)

/-- Assigns to the all-zero word. -/
def write (board : Board) (handle : Handle) (assignments : List Assignment) :
    Except Fault (Word × Board) :=
  board.storeAssigned handle 0 assignments

/-- Assigns to the current word. -/
def modify (board : Board) (handle : Handle) (assignments : List Assignment) :
    Except Fault (Word × Board) :=
  board.storeAssigned handle (board.read handle) assignments

end Board

end MssClock
