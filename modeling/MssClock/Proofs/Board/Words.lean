import MssClock.Board.Handle
import Mathlib.Data.List.Nodup

/-!
# The words of a board

A handle stands for one place, a word of one block, and no two handles for the
same.  So a store through a handle shows through that handle and through no
other one.
-/

namespace MssClock

/-- The number of the word at a byte offset of a block. -/
def Block.wordAt (offset : Nat) : Fin Block.wordCount :=
  Fin.ofNat Block.wordCount (offset / 4)

namespace Handle

def place (handle : Handle) : Block × Fin Block.wordCount :=
  (handle.block, handle.index)

theorem mem_all (handle : Handle) : handle ∈ all := by
  cases handle <;> decide

theorem place_injective : Function.Injective place := by
  intro handle other hplace
  have hnodup : (all.map place).Nodup := by decide
  exact List.inj_on_of_nodup_map hnodup handle.mem_all other.mem_all hplace

end Handle

namespace Board

variable (board : Board) (handle : Handle) (bits : Word)

@[simp]
theorem initialized_store :
    (board.store handle bits).initialized = board.initialized :=
  board.initialized_setWord _ _ _

@[simp]
theorem read_store_self : (board.store handle bits).read handle = bits :=
  board.word_setWord_self _ _ _

variable {handle} {block : Block} {index : Fin Block.wordCount}

theorem word_store_of_ne (hplace : (block, index) ≠ handle.place) :
    (board.store handle bits).word block index = board.word block index :=
  board.word_setWord_of_ne bits hplace

theorem read_store_of_ne {other : Handle} (hne : other ≠ handle) :
    (board.store handle bits).read other = board.read other :=
  board.word_store_of_ne bits (Handle.place_injective.ne hne)

theorem ext_word {board other : Board}
    (hword : ∀ block index, board.word block index = other.word block index)
    (hinitialized : board.initialized = other.initialized) :
    board = other := by
  have hsysreg : board.sysreg = other.sysreg :=
    Vector.ext fun i hi => hword .sysreg ⟨i, hi⟩
  have hwdt : board.wdt = other.wdt :=
    Vector.ext fun i hi => hword .wdt ⟨i, hi⟩
  cases board
  cases other
  simp only at hsysreg hwdt hinitialized
  subst hsysreg hwdt hinitialized
  rfl

theorem store_comm {other : Handle} (hne : other ≠ handle) (otherBits : Word) :
    (board.store handle bits).store other otherBits =
      (board.store other otherBits).store handle bits := by
  have hplace : other.place ≠ handle.place := Handle.place_injective.ne hne
  refine ext_word (fun block index => ?_) (by simp)
  by_cases hhandle : (block, index) = handle.place
  · rw [word_store_of_ne _ _ (hhandle ▸ hplace.symm)]
    obtain ⟨rfl, rfl⟩ := Prod.mk.inj hhandle
    exact (read_store_self board handle bits).trans
      (read_store_self _ handle bits).symm
  · rw [word_store_of_ne _ bits hhandle]
    by_cases hother : (block, index) = other.place
    · obtain ⟨rfl, rfl⟩ := Prod.mk.inj hother
      exact (read_store_self _ other otherBits).trans
        (read_store_self board other otherBits).symm
    · rw [word_store_of_ne _ otherBits hother,
        word_store_of_ne _ otherBits hother, word_store_of_ne _ bits hhandle]

end Board

end MssClock
