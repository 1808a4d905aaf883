import MssClock.Hertz
import MssClock.Poll

/-!
# Clock configuration

The reference frequency cannot be measured at run time, so it is a fact of the
configuration.  The standard configuration is that of the reference board:
100 MHz, and lock waits without a limit.
-/

namespace MssClock

def standardSysref : Hertz := ⟨100000000⟩

structure Config where
  sysref : Hertz
  /-- The limit of each of the two lock waits. -/
  lockWait : PollLimit
  deriving DecidableEq, Repr

namespace Config

def standard : Config := ⟨standardSysref, .standard⟩

def withSysref (config : Config) (sysref : Hertz) : Config :=
  { config with sysref }

def withLockWait (config : Config) (lockWait : PollLimit) : Config :=
  { config with lockWait }

def debug (config : Config) : String :=
  "Config \x7b sysref: " ++ config.sysref.debug ++ ", lock_wait: " ++
    config.lockWait.debug ++ " \x7d"

end Config

end MssClock
