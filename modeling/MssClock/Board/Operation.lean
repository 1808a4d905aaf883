import MssClock.Board.Boot
import MssClock.Board.Watchdog

/-!
# Operations on a board

Everything that can be done to a board, with its reply and the log records it
emits.  Besides the drivers there are raw stores into a block and accesses
through handles, as far as the handle allows them.
-/

namespace MssClock

inductive Operation where
  | poke (block : Block) (index : Fin Block.wordCount) (bits : Word)
  | address (handle : Handle)
  | read (handle : Handle) (allowed : handle.rights.canRead = true)
  | store (handle : Handle) (allowed : handle.rights.canWrite = true)
      (bits : Word)
  | write (handle : Handle) (allowed : handle.rights.canWrite = true)
      (assignments : List Assignment)
  | modify (handle : Handle) (allowed : handle.rights = .readWrite)
      (assignments : List Assignment)
  | newWatchdog
  | enable
  | disable
  /-- The watchdog's generic interface to enabling, with an empty period. -/
  | start
  | genericDisable
  | strobe
  /-- The watchdog's generic interface to refreshing. -/
  | feed
  | isEnabled
  | counter
  | bringUp (limit : PollLimit)
  | learn (sysref : Hertz)
  | init (config : Config)
  deriving DecidableEq

inductive Reply where
  | done
  | flag (on : Bool)
  | number (n : Nat)
  /-- The bits of a register, read or just stored. -/
  | contents (handle : Handle) (bits : Word)
  | running
  | clocks (clocks : Clocks)
  | timedOut (error : LockError)
  | fault (fault : Fault)
  deriving DecidableEq

structure Effect where
  reply : Reply
  records : List Record
  board : Board
  deriving DecidableEq

def BringUpResult.reply : BringUpResult → Reply
  | .running => .running
  | .timedOut error => .timedOut error
  | .pending => .fault .endlessWait

def Board.InitResult.reply : Board.InitResult → Reply
  | .clocks learned => .clocks learned
  | .timedOut error => .timedOut error
  | .pending => .fault .endlessWait
  | .fault cause => .fault cause

/-- The session in which the watchdog driver carries the operation out.  It ends
as it starts if the operation is none of the driver's. -/
def Operation.drive (board : Board) : Operation → WatchdogSession
  | .enable | .start => (WatchdogSession.start board).enable
  | .disable | .genericDisable => (WatchdogSession.start board).disable
  | .strobe | .feed => (WatchdogSession.start board).strobe.2
  | _ => WatchdogSession.start board

namespace Board

/-- The effect of an assigning write: a refused one leaves the board alone. -/
def assigned (board : Board) (handle : Handle) :
    Except Fault (Word × Board) → Effect
  | .ok (bits, next) => ⟨.contents handle bits, [], next⟩
  | .error fault => ⟨.fault fault, [], board⟩

def step (board : Board) (operation : Operation) : Effect :=
  match operation with
  | .poke block index bits => ⟨.done, [], board.setWord block index bits⟩
  | .address handle => ⟨.number handle.address, [], board⟩
  | .read handle _ => ⟨.contents handle (board.read handle), [], board⟩
  | .store handle _ bits => ⟨.done, [], board.store handle bits⟩
  | .write handle _ assignments =>
      board.assigned handle (board.write handle assignments)
  | .modify handle _ assignments =>
      board.assigned handle (board.modify handle assignments)
  | .newWatchdog => ⟨.done, [], board⟩
  | .enable | .start | .disable | .genericDisable | .feed =>
      let session := operation.drive board
      ⟨.done, session.records, session.board⟩
  | .strobe =>
      let (permitted, session) := (WatchdogSession.start board).strobe
      ⟨.flag permitted, session.records, session.board⟩
  | .isEnabled => ⟨.flag board.watchdogEnabled, [], board⟩
  | .counter => ⟨.number board.watchdogCounter.toNat, [], board⟩
  | .bringUp limit =>
      let (result, session) := board.bringUp limit
      ⟨result.reply, session.records.toList, session.bank⟩
  | .learn sysref =>
      let (clocks, session) := board.learn sysref
      ⟨.clocks clocks, session.records.toList, session.bank⟩
  | .init config =>
      let (result, records, next) := board.init config
      ⟨result.reply, records, next⟩

/-- The effects of a run of operations, in order. -/
def effects (board : Board) : List Operation → List Effect
  | [] => []
  | operation :: rest =>
      let effect := board.step operation
      effect :: effect.board.effects rest

/-- The board after a run of operations. -/
def run (board : Board) (operations : List Operation) : Board :=
  operations.foldl (fun current operation => (current.step operation).board)
    board

end Board

end MssClock
