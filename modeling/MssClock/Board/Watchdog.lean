import MssClock.Board.Handle
import MssClock.Log

/-!
# The watchdog

The timeout is fixed by the design flow, so all that is left is to enable,
disable and refresh.  A refresh is permitted only while the counter is inside
its window; outside it nothing is written and the counter is logged.

The refresh word cannot be read back, and storing the key a second time changes
nothing in memory.  So a session of the driver keeps the stores themselves.
-/

namespace MssClock

/-- The value that reloads the counter. -/
def refreshKey : Word := 0xAC15DE42

structure Store where
  handle : Handle
  bits : Word
  deriving DecidableEq, Repr

/-- The driver at work on a board, with the stores that it has made and the log
records that it has emitted so far, both in order. -/
structure WatchdogSession where
  board : Board
  stores : List Store
  records : List Record
  deriving DecidableEq

namespace WatchdogSession

def start (board : Board) : WatchdogSession := ⟨board, [], []⟩

def store (session : WatchdogSession) (handle : Handle) (bits : Word) :
    WatchdogSession :=
  { session with
    board := session.board.store handle bits
    stores := session.stores ++ [⟨handle, bits⟩] }

def log (session : WatchdogSession) (record : Record) : WatchdogSession :=
  { session with records := session.records ++ [record] }

/-- Refreshes if that is permitted, and tells whether it was. -/
def strobe (session : WatchdogSession) : Bool × WatchdogSession :=
  if WdogStatus.refreshStatus.isSet (session.board.read .wdogStatus) then
    (true, session.store .wdogRefresh refreshKey)
  else
    (false, session.log (.refreshNotPermitted (session.board.read .wdogValue)))

def setEnable (session : WatchdogSession) (on : Bool) : WatchdogSession :=
  session.store .wdogCr
    (WdogCr.enable.store (if on then 1 else 0) (session.board.read .wdogCr))

/-- Enables the watchdog and refreshes it straight away. -/
def enable (session : WatchdogSession) : WatchdogSession :=
  (session.setEnable true).strobe.2

def disable (session : WatchdogSession) : WatchdogSession :=
  session.setEnable false

end WatchdogSession

namespace Board

def watchdogEnabled (board : Board) : Bool :=
  WdogEnable.enabled.isSet (board.read .wdogEnable)

def watchdogCounter (board : Board) : Word :=
  board.read .wdogValue

end Board

end MssClock
