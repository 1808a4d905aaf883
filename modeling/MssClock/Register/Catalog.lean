import MssClock.Register.Layout

/-!
# The registers of the clock and watchdog blocks

The five system registers and the four structured watchdog registers, each
with its declaration.  The fields that something is done with are also named by
themselves, by the bits that the data sheet gives them.
-/

namespace MssClock

namespace WdogCr

def layout : Layout where
  name := "WdogCr"
  members := [.flag "enable", .flag "mode", .padding 30]

def enable : Field := .flag "enable" 0

end WdogCr

namespace PllStatusLow

/-- The factors of the PLL, programmed by the design flow. -/
def layout : Layout where
  name := "PllStatusLowCr"
  members :=
    [.number "divr" 6, .number "divf" 10, .number "divq" 3, .number "range" 4,
      .number "lockwin" 3, .number "lockcnt" 4, .padding 2]

/-- Reference divider minus one. -/
def divr : Field := .bits "divr" 5 0

/-- Feedback divider minus one. -/
def divf : Field := .bits "divf" 15 6

/-- Output divider, in the extended encoding. -/
def divq : Field := .bits "divq" 18 16

def lockcnt : Field := .bits "lockcnt" 29 26

end PllStatusLow

namespace PllStatusHigh

/-- Mode, bypass and feedback control of the PLL. -/
def layout : Layout where
  name := "PllStatusHighCr"
  members :=
    [.flag "bypass", .flag "mode_1v2", .flag "mode_3v3", .flag "fse",
      .flag "pd", .flag "sse", .number "ssmd" 2, .number "ssmf" 5, .padding 19]

def bypass : Field := .flag "bypass" 0

/-- Analog supply select. -/
def mode3v3 : Field := .flag "mode_3v3" 2

/-- Set when the feedback is taken from the PLL output. -/
def fse : Field := .flag "fse" 3

def ssmd : Field := .bits "ssmd" 7 6

def ssmf : Field := .bits "ssmf" 12 8

end PllStatusHigh

namespace Facc1

/-- The second-stage dividers of the fabric alignment clock controller. -/
def layout : Layout where
  name := "Facc1Cr"
  members :=
    [.number "divisor_a" 2, .number "apb0_divisor" 3, .number "apb1_divisor" 3,
      .flag "ddr_clk_en", .number "m3_clk_divisor" 3, .flag "facc_glmux_sel",
      .number "fic0_divisor" 3, .number "fic1_divisor" 3,
      .number "ddr_fic_divisor" 3, .padding 10]

/-- Divider of the common source minus one. -/
def divisorA : Field := .bits "divisor_a" 1 0

def apb0Divisor : Field := .bits "apb0_divisor" 4 2

def apb1Divisor : Field := .bits "apb1_divisor" 7 5

def m3ClkDivisor : Field := .bits "m3_clk_divisor" 11 9

/-- Set while the processor and bus clocks bypass the second stage. -/
def glmuxSel : Field := .flag "facc_glmux_sel" 12

def fic0Divisor : Field := .bits "fic0_divisor" 15 13

def fic1Divisor : Field := .bits "fic1_divisor" 18 16

def ddrFicDivisor : Field := .bits "ddr_fic_divisor" 21 19

end Facc1

namespace PllStatus

def layout : Layout where
  name := "PllStatus"
  members :=
    [.flag "fab_pll_lock", .flag "mpll_lock", .flag "rcosc_div2", .padding 29]

def fabricLock : Field := .flag "fab_pll_lock" 0

def mpllLock : Field := .flag "mpll_lock" 1

end PllStatus

namespace WdogEnable

def layout : Layout where
  name := "Wdogenable"
  members := [.flag "enabled", .padding 31]

def enabled : Field := .flag "enabled" 0

end WdogEnable

namespace WdogControl

def layout : Layout where
  name := "Wdogcontrol"
  members :=
    [.flag "timeoutinten", .flag "wakeupinten", .flag "mode", .padding 29]

end WdogControl

namespace WdogStatus

def layout : Layout where
  name := "Wdogstatus"
  members := [.flag "refreshstatus", .padding 31]

/-- Set while the counter is low enough for a refresh. -/
def refreshStatus : Field := .flag "refreshstatus" 0

end WdogStatus

namespace WdogRis

def layout : Layout where
  name := "Wdogris"
  members := [.flag "timeoutrs", .flag "wakeuprs", .padding 30]

end WdogRis

namespace Layout

def all : List Layout :=
  [WdogCr.layout, PllStatusLow.layout, PllStatusHigh.layout, Facc1.layout,
    PllStatus.layout, WdogEnable.layout, WdogControl.layout, WdogStatus.layout,
    WdogRis.layout]

def named? (name : String) : Option Layout :=
  all.find? fun layout => layout.name == name

end Layout

end MssClock
