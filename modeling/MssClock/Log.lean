import MssClock.Hertz
import MssClock.Clock.Domain

/-!
# Log records

Everything that the firmware logs.  A record is what happened; its level and
its message are functions of it.
-/

namespace MssClock

inductive Level where
  | trace
  | debug
  | info
  | warn
  | error
  deriving DecidableEq, Repr

def Level.text : Level → String
  | .trace => "TRACE"
  | .debug => "DEBUG"
  | .info => "INFO"
  | .warn => "WARN"
  | .error => "ERROR"

inductive Record where
  | fabricPllLocked
  | fabricPllNotLocked
  | mpllLocked
  | mpllNotLocked
  | mpllRunning
  | controlWords (facc1 pllLow pllHigh : Word)
  | frequency (domain : Domain) (freq : Hertz)
  /-- A refresh came before the watchdog's window, at this counter value. -/
  | refreshNotPermitted (counter : Word)
  deriving DecidableEq, Repr

namespace Record

def level : Record → Level
  | .fabricPllLocked | .mpllLocked => .debug
  | .fabricPllNotLocked | .mpllNotLocked => .error
  | .mpllRunning | .frequency _ _ => .info
  | .controlWords _ _ _ | .refreshNotPermitted _ => .trace

def message : Record → String
  | .fabricPllLocked => "mpll: fabric PLL locked"
  | .fabricPllNotLocked => "mpll: fabric PLL did not lock"
  | .mpllLocked => "mpll: locked"
  | .mpllNotLocked => "mpll: MPLL did not lock"
  | .mpllRunning => "mpll: running"
  | .controlWords facc1 pllLow pllHigh =>
      s!"rcc: facc1=0x{facc1.hex} pll_low=0x{pllLow.hex} pll_high=0x{pllHigh.hex}"
  | .frequency domain freq => s!"rcc: {domain.name} = {freq.value.toNat} Hz"
  | .refreshNotPermitted counter =>
      s!"wdt: refresh not permitted at {counter.toNat}"

def text (record : Record) : String :=
  record.level.text ++ " " ++ record.message

end Record

end MssClock
