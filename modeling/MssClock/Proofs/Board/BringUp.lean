import MssClock.Board.Boot
import MssClock.Proofs.Board.Words
import MssClock.Proofs.BringUp.Course
import MssClock.Proofs.BringUp.Simulation

/-!
# Bring-up of a board

The PLL status of a board is a plain word, which no bring-up stores into.  So
a bring-up of a board goes like that of a register file whose status is this
word at every poll.  On the board it changes the two words that a register
file lets it store, and no other word of either block.
-/

namespace MssClock

namespace Board

/-- The clock registers of the board, with the status that all polls show. -/
def registerFile (board : Board) : RegisterFile where
  facc1 := board.read .facc1
  pllLow := board.read .pllStatusLow
  pllHigh := board.read .pllStatusHigh
  status := fun _ => board.read .pllStatus
  position := 0

/-- The board holds what the register file holds, and elsewhere what it held
at first. -/
structure Mirrors (initial board : Board) (file : RegisterFile) : Prop where
  facc1 : board.read .facc1 = file.facc1
  pllLow : board.read .pllStatusLow = file.pllLow
  pllHigh : board.read .pllStatusHigh = file.pllHigh
  status : ∀ k, board.read .pllStatus = file.status k
  rest : ∀ block index,
    (block, index) ≠ Handle.facc1.place →
    (block, index) ≠ Handle.pllStatusHigh.place →
      board.word block index = initial.word block index
  initialized : board.initialized = initial.initialized

variable {initial board : Board} {file : RegisterFile}

theorem mirrors_registerFile (board : Board) :
    board.Mirrors board board.registerFile :=
  ⟨rfl, rfl, rfl, fun _ => rfl, fun _ _ _ _ => rfl, rfl⟩

theorem Mirrors.setFacc1 (hmirrors : initial.Mirrors board file) (bits : Word) :
    initial.Mirrors (ClockBank.setFacc1 bits board)
      (ClockBank.setFacc1 bits file) where
  facc1 := board.read_store_self _ bits
  pllLow := (board.read_store_of_ne bits (by decide)).trans hmirrors.pllLow
  pllHigh := (board.read_store_of_ne bits (by decide)).trans hmirrors.pllHigh
  status := fun k =>
    (board.read_store_of_ne bits (by decide)).trans (hmirrors.status k)
  rest := fun block index hfacc1 hhigh =>
    (board.word_store_of_ne bits hfacc1).trans
      (hmirrors.rest block index hfacc1 hhigh)
  initialized := (board.initialized_store _ bits).trans hmirrors.initialized

theorem Mirrors.setPllHigh
    (hmirrors : initial.Mirrors board file) (bits : Word) :
    initial.Mirrors (ClockBank.setPllHigh bits board)
      (ClockBank.setPllHigh bits file) where
  facc1 := (board.read_store_of_ne bits (by decide)).trans hmirrors.facc1
  pllLow := (board.read_store_of_ne bits (by decide)).trans hmirrors.pllLow
  pllHigh := board.read_store_self _ bits
  status := fun k =>
    (board.read_store_of_ne bits (by decide)).trans (hmirrors.status k)
  rest := fun block index hfacc1 hhigh =>
    (board.word_store_of_ne bits hhigh).trans
      (hmirrors.rest block index hfacc1 hhigh)
  initialized := (board.initialized_store _ bits).trans hmirrors.initialized

theorem mirrors_simulation (initial : Board) :
    ClockBank.Simulation initial.Mirrors where
  facc1_eq := fun hmirrors => hmirrors.facc1
  pllHigh_eq := fun hmirrors => hmirrors.pllHigh
  setFacc1 := fun bits hmirrors => hmirrors.setFacc1 bits
  setPllHigh := fun bits hmirrors => hmirrors.setPllHigh bits
  status_eq := fun hmirrors => hmirrors.status _
  pollStatus := fun hmirrors => { hmirrors with }

theorem Mirrors.bringUp_of_course
    {limit : PollLimit} {result : BringUpResult} {final : RegisterFile}
    {accesses : List Access} {records : List Record}
    (hmirrors : initial.Mirrors board file)
    (hcourse : file.Course limit.bound (patience limit)
      result final accesses records) :
    let outcome := board.bringUp limit
    outcome.1 = result ∧ outcome.2.records.toList = records ∧
      initial.Mirrors outcome.2.bank final := by
  intro outcome
  have hstart : Session.Related initial.Mirrors (Session.start board)
      (Session.start file) :=
    ⟨hmirrors, rfl, rfl⟩
  obtain ⟨hresult, hend⟩ := hstart.bringUpWithin (mirrors_simulation initial)
    limit.bound (patience limit)
  rw [Session.bringUpWithin_of_course _ hcourse] at hresult hend
  refine ⟨hresult, ?_, hend.bank⟩
  calc
    outcome.2.records.toList = _ := congrArg Array.toList hend.records
    _ = records := by simp [Session.extend, Session.start]

theorem bringUp_of_course
    {limit : PollLimit} {result : BringUpResult} {final : RegisterFile}
    {accesses : List Access} {records : List Record}
    (hcourse : board.registerFile.Course limit.bound (patience limit)
      result final accesses records) :
    let outcome := board.bringUp limit
    outcome.1 = result ∧ outcome.2.records.toList = records ∧
      board.Mirrors outcome.2.bank final :=
  board.mirrors_registerFile.bringUp_of_course hcourse

end Board

end MssClock
