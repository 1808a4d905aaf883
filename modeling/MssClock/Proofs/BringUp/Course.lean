import MssClock.Clock.RegisterFile
import MssClock.Proofs.Polling
import MssClock.Proofs.Register.Bits

/-!
# The course of a bring-up

On a register file a bring-up is determined by the PLL status to come.  It
goes through at most three phases: the supply is selected and the fabric PLL
waited for, the bypass is ended and the PLL waited for, and the multiplexer is
switched.  `Course` lists the five ways in which the phases can follow each
other, each with its answer, contents, accesses and records; a bring-up takes
exactly one of them.
-/

namespace MssClock

namespace Session

variable {σ : Type}

/-- The session after further accesses and records, and the bank then. -/
def extend (session : Session σ) (bank : σ) (accesses : List Access)
    (records : List Record) : Session σ :=
  ⟨bank, session.accesses ++ accesses.toArray,
    session.records ++ records.toArray⟩

@[simp]
theorem bank_extend
    (session : Session σ) (bank : σ) (accesses : List Access)
    (records : List Record) :
    (session.extend bank accesses records).bank = bank := rfl

theorem extend_extend
    (session : Session σ) (bank next : σ) (accesses more : List Access)
    (records further : List Record) :
    (session.extend bank accesses records).extend next more further =
      session.extend next (accesses ++ more) (records ++ further) := by
  simp [extend]

theorem extend_nil (session : Session σ) :
    session.extend session.bank [] [] = session := by
  simp [extend]

theorem log_eq_extend (session : Session σ) (record : Record) :
    session.log record = session.extend session.bank [] [record] := by
  simp [log, extend]

end Session

namespace Pll

def lockBit : Pll → Nat
  | .fabric => 0
  | .mpll => 1

/-- The field that is cleared before the wait. -/
def opening : Pll → Field
  | .fabric => PllStatusHigh.mode3v3
  | .mpll => PllStatusHigh.bypass

def openingBit : Pll → Nat
  | .fabric => 2
  | .mpll => 0

def waitRecords (pll : Pll) : WaitResult → List Record
  | .ready => [pll.locked]
  | .expired => [pll.notLocked]
  | .pending => []

theorem isSet_lockFlag (pll : Pll) (word : Word) :
    pll.lockFlag.isSet word = word.bit pll.lockBit := by
  cases pll <;> exact Field.isSet_flag _ (by decide) word

theorem clear_opening (pll : Pll) (word : Word) :
    pll.opening.clear word = word.clearBit pll.openingBit := by
  cases pll <;> exact Field.clear_flag _ (by decide) word

end Pll

namespace RegisterFile

variable (file : RegisterFile)

/-- The numbers of the polls to come that show the lock, the next poll being
number zero. -/
def locking (pll : Pll) : Set Nat :=
  {k | (file.status (file.position + k)).bit pll.lockBit = true}

def polls (count : Nat) : List Access :=
  (List.range count).map fun k => .poll (file.status (file.position + k))

/-- The accesses of the phase that waits for a lock. -/
def lockPhase (pll : Pll) (count : Nat) : List Access :=
  .readHigh file.pllHigh ::
    .writeHigh (file.pllHigh.clearBit pll.openingBit) :: file.polls count

def afterLock (pll : Pll) (count : Nat) : RegisterFile :=
  { file with
    pllHigh := file.pllHigh.clearBit pll.openingBit
    position := file.position + count }

def muxPhase : List Access :=
  [.readFacc1 file.facc1, .writeFacc1 (file.facc1.clearBit 12)]

def afterMux : RegisterFile :=
  { file with facc1 := file.facc1.clearBit 12 }

theorem polls_succ (count : Nat) :
    file.polls (count + 1) =
      .poll (file.status file.position) ::
        { file with position := file.position + 1 }.polls count := by
  simp [polls, List.range_succ_eq_map, Function.comp_def, Nat.add_assoc,
    Nat.add_comm 1]

end RegisterFile

namespace Session

variable (session : Session RegisterFile)

theorem poll_eq_extend (flag : Field) :
    session.poll flag =
      (flag.isSet (session.bank.status session.bank.position),
        session.extend
          { session.bank with position := session.bank.position + 1 }
          (session.bank.polls 1) []) := by
  simp [poll, ClockBank.pollStatus, extend, RegisterFile.polls]

theorem stateAfter_poll (flag : Field) (k : Nat) :
    stateAfter (poll flag) k session =
      session.extend
        { session.bank with position := session.bank.position + k }
        (session.bank.polls k) [] := by
  induction k generalizing session with
  | zero => exact session.extend_nil.symm
  | succ k ih =>
      rw [stateAfter, ih, session.poll_eq_extend, extend_extend,
        session.bank.polls_succ k]
      simp [RegisterFile.polls, Nat.add_assoc, Nat.add_comm 1]

theorem holding_poll (pll : Pll) :
    holding (poll pll.lockFlag) session = session.bank.locking pll := by
  ext k
  simp [holding, stateAfter_poll, poll_eq_extend, pll.isSet_lockFlag,
    RegisterFile.locking]

theorem clearHigh_opening (pll : Pll) :
    session.clearHigh pll.opening =
      session.extend (session.bank.afterLock pll 0)
        (session.bank.lockPhase pll 0) [] := by
  simp [clearHigh, readHigh, writeHigh, noted, pll.clear_opening,
    ClockBank.pllHigh, ClockBank.setPllHigh, extend,
    RegisterFile.lockPhase, RegisterFile.afterLock, RegisterFile.polls,
    ← Array.toList_inj]

theorem clearFacc1_glmuxSel :
    session.clearFacc1 Facc1.glmuxSel =
      session.extend session.bank.afterMux session.bank.muxPhase [] := by
  have hclear : Facc1.glmuxSel.clear session.bank.facc1 =
      session.bank.facc1.clearBit 12 :=
    Field.clear_flag _ (by decide) _
  simp [clearFacc1, readFacc1, writeFacc1, noted, hclear, ClockBank.facc1,
    ClockBank.setFacc1, extend, RegisterFile.muxPhase,
    RegisterFile.afterMux, ← Array.toList_inj]

/-- One phase, from the access that opens it to the end of its wait. -/
theorem awaitLock_clearHigh
    {pll : Pll} {bound : Option Nat} {patience : Nat}
    {result : WaitResult} {count : Nat}
    (hend : WaitEnd (session.bank.locking pll) bound patience
      result count) :
    (session.clearHigh pll.opening).awaitLock pll bound patience =
      ⟨result, count,
        session.extend (session.bank.afterLock pll count)
          (session.bank.lockPhase pll count) (pll.waitRecords result)⟩ := by
  -- The opening makes no poll, so polls are numbered alike on both sides.
  have hholding : holding (poll pll.lockFlag)
      (session.clearHigh pll.opening) = session.bank.locking pll := by
    rw [holding_poll, session.clearHigh_opening]
    rfl
  have hwait := waitUntil_of_waitEnd (poll pll.lockFlag)
    (session.clearHigh pll.opening) (hholding ▸ hend)
  have hstate : stateAfter (poll pll.lockFlag) count
        (session.clearHigh pll.opening) =
      session.extend (session.bank.afterLock pll count)
        (session.bank.lockPhase pll count) [] := by
    rw [stateAfter_poll, session.clearHigh_opening, extend_extend]
    simp [RegisterFile.lockPhase, RegisterFile.afterLock, RegisterFile.polls]
  rw [hstate] at hwait
  cases result <;>
    simp [awaitLock, hwait, log_eq_extend, extend_extend, Pll.waitRecords]

end Session

/-- The courses of a bring-up on `file`: its answer, the file afterwards, and
the accesses and records it makes. -/
inductive RegisterFile.Course (file : RegisterFile) (bound : Option Nat)
    (patience : Nat) :
    BringUpResult → RegisterFile → List Access → List Record → Prop where
  | fabricTimeout {count : Nat}
      (hfabric : WaitEnd (file.locking .fabric) bound patience
        .expired count) :
      Course file bound patience (.timedOut .fabricPllLockTimeout)
        (file.afterLock .fabric count) (file.lockPhase .fabric count)
        [.fabricPllNotLocked]
  | fabricPending {count : Nat}
      (hfabric : WaitEnd (file.locking .fabric) bound patience
        .pending count) :
      Course file bound patience .pending
        (file.afterLock .fabric count) (file.lockPhase .fabric count) []
  | mpllTimeout {count more : Nat}
      (hfabric : WaitEnd (file.locking .fabric) bound patience .ready count)
      (hmpll : WaitEnd ((file.afterLock .fabric count).locking .mpll) bound
        (patience - count) .expired more) :
      Course file bound patience (.timedOut .mpllLockTimeout)
        ((file.afterLock .fabric count).afterLock .mpll more)
        (file.lockPhase .fabric count ++
          (file.afterLock .fabric count).lockPhase .mpll more)
        [.fabricPllLocked, .mpllNotLocked]
  | mpllPending {count more : Nat}
      (hfabric : WaitEnd (file.locking .fabric) bound patience .ready count)
      (hmpll : WaitEnd ((file.afterLock .fabric count).locking .mpll) bound
        (patience - count) .pending more) :
      Course file bound patience .pending
        ((file.afterLock .fabric count).afterLock .mpll more)
        (file.lockPhase .fabric count ++
          (file.afterLock .fabric count).lockPhase .mpll more)
        [.fabricPllLocked]
  | running {count more : Nat}
      (hfabric : WaitEnd (file.locking .fabric) bound patience .ready count)
      (hmpll : WaitEnd ((file.afterLock .fabric count).locking .mpll) bound
        (patience - count) .ready more) :
      Course file bound patience .running
        ((file.afterLock .fabric count).afterLock .mpll more).afterMux
        (file.lockPhase .fabric count ++
          (file.afterLock .fabric count).lockPhase .mpll more ++
          ((file.afterLock .fabric count).afterLock .mpll more).muxPhase)
        [.fabricPllLocked, .mpllLocked, .mpllRunning]

variable {bound : Option Nat} {patience : Nat}

theorem RegisterFile.exists_course
    (file : RegisterFile) (bound : Option Nat) (patience : Nat) :
    ∃ result final accesses records,
      file.Course bound patience result final accesses records := by
  obtain ⟨result, count, hfabric⟩ :=
    exists_waitEnd (file.locking .fabric) bound patience
  cases result with
  | expired => exact ⟨_, _, _, _, .fabricTimeout hfabric⟩
  | pending => exact ⟨_, _, _, _, .fabricPending hfabric⟩
  | ready =>
      obtain ⟨result, more, hmpll⟩ :=
        exists_waitEnd ((file.afterLock .fabric count).locking .mpll) bound
          (patience - count)
      cases result with
      | expired => exact ⟨_, _, _, _, .mpllTimeout hfabric hmpll⟩
      | pending => exact ⟨_, _, _, _, .mpllPending hfabric hmpll⟩
      | ready => exact ⟨_, _, _, _, .running hfabric hmpll⟩

theorem RegisterFile.Course.mono
    {file final : RegisterFile} {more : Nat} {result : BringUpResult}
    {accesses : List Access} {records : List Record}
    (hcourse : file.Course bound patience result final accesses records)
    (hanswered : result ≠ .pending) (hle : patience ≤ more) :
    file.Course bound more result final accesses records := by
  cases hcourse with
  | fabricTimeout hfabric =>
      exact .fabricTimeout (hfabric.mono (by decide) hle)
  | mpllTimeout hfabric hmpll =>
      exact .mpllTimeout (hfabric.mono (by decide) hle)
        (hmpll.mono (by decide) (Nat.sub_le_sub_right hle _))
  | running hfabric hmpll =>
      exact .running (hfabric.mono (by decide) hle)
        (hmpll.mono (by decide) (Nat.sub_le_sub_right hle _))
  | fabricPending | mpllPending => contradiction

namespace Session

variable {session : Session RegisterFile}

theorem bringUpWithin_of_waitEnd
    {result : WaitResult} {count : Nat}
    (hfabric : WaitEnd (session.bank.locking .fabric) bound patience
      result count) :
    session.bringUpWithin bound patience =
      let after := session.extend (session.bank.afterLock .fabric count)
        (session.bank.lockPhase .fabric count) (Pll.fabric.waitRecords result)
      match result with
      | .ready => after.lockMpll bound (patience - count)
      | .expired => (.timedOut .fabricPllLockTimeout, after)
      | .pending => (.pending, after) := by
  have hwait := awaitLock_clearHigh session hfabric
  unfold bringUpWithin
  rw [show PllStatusHigh.mode3v3 = Pll.fabric.opening from rfl]
  simp only [hwait]
  cases result <;> rfl

theorem lockMpll_of_waitEnd
    {file : RegisterFile} {result : WaitResult} {count : Nat}
    (hmpll : WaitEnd (file.locking .mpll) bound patience result count)
    (accesses : List Access) (records : List Record) :
    (session.extend file accesses records).lockMpll bound patience =
      let after := file.afterLock .mpll count
      let phases := accesses ++ file.lockPhase .mpll count
      match result with
      | .ready =>
          (.running, session.extend after.afterMux (phases ++ after.muxPhase)
            (records ++ [.mpllLocked, .mpllRunning]))
      | .expired =>
          (.timedOut .mpllLockTimeout,
            session.extend after phases (records ++ [.mpllNotLocked]))
      | .pending => (.pending, session.extend after phases records) := by
  have hwait := awaitLock_clearHigh (session.extend file accesses records) hmpll
  unfold lockMpll
  rw [show PllStatusHigh.bypass = Pll.mpll.opening from rfl]
  simp only [hwait, extend_extend, bank_extend]
  cases result with
  | ready =>
      simp only [clearFacc1_glmuxSel, log_eq_extend, extend_extend,
        bank_extend, List.append_nil, List.append_assoc]
      rfl
  | expired => rfl
  | pending => simp only [Pll.waitRecords, List.append_nil]

/-- A bring-up takes the course that the status to come prescribes. -/
theorem bringUpWithin_of_course
    (session : Session RegisterFile) {result : BringUpResult} {final : RegisterFile}
    {accesses : List Access} {records : List Record}
    (hcourse : session.bank.Course bound patience
      result final accesses records) :
    session.bringUpWithin bound patience =
      (result, session.extend final accesses records) := by
  cases hcourse with
  | fabricTimeout hfabric => exact bringUpWithin_of_waitEnd hfabric
  | fabricPending hfabric => exact bringUpWithin_of_waitEnd hfabric
  | mpllTimeout hfabric hmpll =>
      exact (bringUpWithin_of_waitEnd hfabric).trans
        (lockMpll_of_waitEnd hmpll _ _)
  | mpllPending hfabric hmpll =>
      exact (bringUpWithin_of_waitEnd hfabric).trans
        (lockMpll_of_waitEnd hmpll _ _)
  | running hfabric hmpll =>
      exact (bringUpWithin_of_waitEnd hfabric).trans
        (lockMpll_of_waitEnd hmpll _ _)

end Session

end MssClock
