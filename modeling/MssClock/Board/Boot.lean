import MssClock.Board.Handle
import MssClock.Clock.BringUp
import MssClock.Config

/-!
# Bring-up and initialization of a board

The board's system registers are a clock bank whose status is a plain word, so
that every poll answers alike.  Initialization brings up the PLL, learns the
clocks and logs them.  It runs at most once per boot: a failed attempt cannot
be repeated either.
-/

namespace MssClock

namespace Board

instance : ClockBank Board where
  facc1 board := board.read .facc1
  setFacc1 bits board := board.store .facc1 bits
  pllLow board := board.read .pllStatusLow
  pllHigh board := board.read .pllStatusHigh
  setPllHigh bits board := board.store .pllStatusHigh bits
  pollStatus board := (board.read .pllStatus, board)

/-- The polls after which a bring-up on constant status has ended if it ever
does: one for each unlimited wait, all that are allowed for limited ones. -/
def patience : PollLimit → Nat
  | .forever => 2
  | .iterations count => 2 * count.toNat

def bringUp (board : Board) (limit : PollLimit) :
    BringUpResult × Session Board :=
  (Session.start board).bringUp limit (patience limit)

def learn (board : Board) (sysref : Hertz) : Clocks × Session Board :=
  (Session.start board).learn sysref

inductive InitResult where
  | clocks (clocks : Clocks)
  | timedOut (error : LockError)
  | pending
  | fault (fault : Fault)
  deriving DecidableEq

def init (board : Board) (config : Config) :
    InitResult × List Record × Board :=
  if board.initialized then (.fault .initializedTwice, [], board)
  else
    let guarded := { board with initialized := true }
    let (result, session) := guarded.bringUp config.lockWait
    match result with
    | .pending => (.pending, session.records.toList, session.bank)
    | .timedOut error =>
        (.timedOut error, session.records.toList, session.bank)
    | .running =>
        let (clocks, session) := session.learn config.sysref
        (.clocks clocks, session.records.toList ++ clocks.records,
          session.bank)

end Board

end MssClock
