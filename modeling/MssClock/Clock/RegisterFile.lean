import MssClock.Clock.BringUp

/-!
# A register file with a prescribed PLL status

The control words are plain storage.  The status follows an infinite sequence
of words, of which every poll takes the next one, across all calls.
-/

namespace MssClock

structure RegisterFile where
  facc1 : Word
  pllLow : Word
  pllHigh : Word
  status : Nat → Word
  /-- The number of polls made so far. -/
  position : Nat

namespace RegisterFile

/-- The status sequence that shows each word for its number of polls and the
last one forever after.  Without any word it shows zero. -/
def statusOfRuns : List (Word × Nat) → Nat → Word
  | [], _ => 0
  | [(word, _)], _ => word
  | (word, count) :: rest, n =>
      if n < count then word else statusOfRuns rest (n - count)

instance : ClockBank RegisterFile where
  facc1 file := file.facc1
  setFacc1 bits file := { file with facc1 := bits }
  pllLow file := file.pllLow
  pllHigh file := file.pllHigh
  setPllHigh bits file := { file with pllHigh := bits }
  pollStatus file :=
    (file.status file.position, { file with position := file.position + 1 })

/-- A bring-up that is looked at when `deadline` polls have been made in all,
those before it included. -/
def bringUpUntil (file : RegisterFile) (deadline : Nat) (limit : PollLimit) :
    BringUpResult × Session RegisterFile :=
  (Session.start file).bringUp limit (deadline - file.position)

def learn (file : RegisterFile) (sysref : Hertz) :
    Clocks × Session RegisterFile :=
  (Session.start file).learn sysref

end RegisterFile

end MssClock
