import MssClock.Word

/-!
# The memory of a board

Two blocks of registers, 4 KB of plain words each.  A word is named by its
number within the block, a quarter of its byte offset.
-/

namespace MssClock

inductive Block where
  | sysreg
  | wdt
  deriving DecidableEq, Repr

namespace Block

def address : Block → Nat
  | .sysreg => 0x40038000
  | .wdt => 0x40005000

abbrev wordCount : Nat := 1024

end Block

abbrev BlockMemory := Vector Word Block.wordCount

namespace BlockMemory

def zero : BlockMemory := Vector.replicate Block.wordCount 0

/-- The words that are not zero, each with its number, in ascending order. -/
def nonzero (memory : BlockMemory) : List (Nat × Word) :=
  (memory.toList.zipIdx.filter fun (word, _) => word != 0).map
    fun (word, index) => (index, word)

end BlockMemory

structure Board where
  sysreg : BlockMemory
  wdt : BlockMemory
  /-- Set by the first initialization, whatever comes of it. -/
  initialized : Bool
  deriving DecidableEq

namespace Board

def boot : Board := ⟨.zero, .zero, false⟩

def memory (board : Board) : Block → BlockMemory
  | .sysreg => board.sysreg
  | .wdt => board.wdt

def word (board : Board) (block : Block) (index : Fin Block.wordCount) : Word :=
  (board.memory block)[index]

def setWord (board : Board) (block : Block) (index : Fin Block.wordCount)
    (bits : Word) : Board :=
  match block with
  | .sysreg => { board with sysreg := board.sysreg.set index bits }
  | .wdt => { board with wdt := board.wdt.set index bits }

@[simp]
theorem initialized_setWord
    (board : Board) (block : Block) (index : Fin Block.wordCount)
    (bits : Word) :
    (board.setWord block index bits).initialized = board.initialized := by
  cases block <;> rfl

@[simp]
theorem word_setWord_self
    (board : Board) (block : Block) (index : Fin Block.wordCount)
    (bits : Word) :
    (board.setWord block index bits).word block index = bits := by
  cases block <;> simp [word, memory, setWord]

theorem word_setWord_of_ne
    (board : Board) {block other : Block}
    {index otherIndex : Fin Block.wordCount} (bits : Word)
    (h : (other, otherIndex) ≠ (block, index)) :
    (board.setWord block index bits).word other otherIndex =
      board.word other otherIndex := by
  cases block <;> cases other <;>
    simp_all [word, memory, setWord, Fin.ext_iff, eq_comm]

end Board

end MssClock
