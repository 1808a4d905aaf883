import MssClock.Clock.Session
import MssClock.Clock.Snapshot
import MssClock.Poll

/-!
# Bring-up of the PLL and learning of the clocks

The PLL takes its reference from the fabric PLL, so the fabric PLL has to lock
first.  The steps are, in this order: select the right analog supply, wait for
the fabric PLL, end the bypass, wait for the PLL, and move the processor and
bus clocks behind the second-stage dividers.  A wait that runs out ends the
sequence, and nothing after it is touched.

Learning reads the three control words once and evaluates the clock tree from
them.  It means something only after a bring-up that succeeded.
-/

namespace MssClock

inductive LockError where
  | fabricPllLockTimeout
  | mpllLockTimeout
  deriving DecidableEq, Repr

def LockError.debug : LockError → String
  | .fabricPllLockTimeout => "FabricPllLockTimeout"
  | .mpllLockTimeout => "MpllLockTimeout"

/-- The two PLLs that are waited for. -/
inductive Pll where
  | fabric
  | mpll
  deriving DecidableEq, Repr

namespace Pll

def lockFlag : Pll → Field
  | .fabric => PllStatus.fabricLock
  | .mpll => PllStatus.mpllLock

def locked : Pll → Record
  | .fabric => .fabricPllLocked
  | .mpll => .mpllLocked

def notLocked : Pll → Record
  | .fabric => .fabricPllNotLocked
  | .mpll => .mpllNotLocked

def timeout : Pll → LockError
  | .fabric => .fabricPllLockTimeout
  | .mpll => .mpllLockTimeout

end Pll

inductive BringUpResult where
  | running
  | timedOut (error : LockError)
  | pending
  deriving DecidableEq, Repr

namespace Session

variable {σ : Type} [ClockBank σ]

def awaitLock (pll : Pll) (bound : Option Nat) (patience : Nat)
    (session : Session σ) : Wait (Session σ) :=
  let wait := waitUntil (Session.poll pll.lockFlag) bound patience session
  match wait.result with
  | .ready => { wait with state := wait.state.log pll.locked }
  | .expired => { wait with state := wait.state.log pll.notLocked }
  | .pending => wait

/-- The steps after the fabric PLL has locked. -/
def lockMpll (bound : Option Nat) (patience : Nat) (session : Session σ) :
    BringUpResult × Session σ :=
  let session := session.clearHigh PllStatusHigh.bypass
  let wait := session.awaitLock .mpll bound patience
  match wait.result with
  | .ready =>
      let session := wait.state.clearFacc1 Facc1.glmuxSel
      (.running, session.log .mpllRunning)
  | .expired => (.timedOut Pll.mpll.timeout, wait.state)
  | .pending => (.pending, wait.state)

/-- A bring-up whose two waits give up after `bound` polls each.  `patience`
bounds the polls of both waits together. -/
def bringUpWithin (bound : Option Nat) (patience : Nat)
    (session : Session σ) : BringUpResult × Session σ :=
  let session := session.clearHigh PllStatusHigh.mode3v3
  let wait := session.awaitLock .fabric bound patience
  match wait.result with
  | .ready => wait.state.lockMpll bound (patience - wait.evaluations)
  | .expired => (.timedOut Pll.fabric.timeout, wait.state)
  | .pending => (.pending, wait.state)

def bringUp (limit : PollLimit) (patience : Nat) (session : Session σ) :
    BringUpResult × Session σ :=
  session.bringUpWithin limit.bound patience

def snapshot (session : Session σ) : Snapshot × Session σ :=
  let (facc1, session) := session.readFacc1
  let (pllLow, session) := session.readLow
  let (pllHigh, session) := session.readHigh
  (⟨facc1, pllLow, pllHigh⟩, session)

def learn (sysref : Hertz) (session : Session σ) : Clocks × Session σ :=
  let (snapshot, session) := session.snapshot
  let session := session.log
    (.controlWords snapshot.facc1 snapshot.pllLow snapshot.pllHigh)
  (snapshot.derive sysref, session)

end Session

/-- One record for each domain, in evaluation order. -/
def Clocks.records (clocks : Clocks) : List Record :=
  clocks.toList.map fun (domain, freq) => .frequency domain freq

end MssClock
