import MssClock.Proofs.Board.BringUp
import MssClock.Proofs.BringUp.Outcome
import MssClock.Proofs.Clock.Learning

/-!
# Initialization of a board

The first initialization is a bring-up and, if that succeeds, a learning.  On
a board both are decided by two bits of the status word, which either never
change during a wait or are seen at its first poll.
-/

namespace MssClock

namespace Board

/-- `after` is `before` with bits of two words cleared, those numbered `high`
in the word at 0x094 and those numbered `facc1` in the word at 0x098. -/
structure Cleared (before after : Board) (high facc1 : List Nat) : Prop where
  high : ∀ i, (after.word .sysreg (Block.wordAt 0x094)).bit i =
    if i ∈ high then false
    else (before.word .sysreg (Block.wordAt 0x094)).bit i
  facc1 : ∀ i, (after.word .sysreg (Block.wordAt 0x098)).bit i =
    if i ∈ facc1 then false
    else (before.word .sysreg (Block.wordAt 0x098)).bit i
  rest : ∀ block index,
    (block, index) ≠ (.sysreg, Block.wordAt 0x094) →
    (block, index) ≠ (.sysreg, Block.wordAt 0x098) →
      after.word block index = before.word block index

/-- The board once its guard is set. -/
def guarded (board : Board) : Board :=
  { board with initialized := true }

variable {board : Board} {config : Config} {final : RegisterFile}
  {accesses : List Access} {records : List Record}

/-- What a fresh board makes of the course that its bring-up takes. -/
theorem init_of_course
    {result : BringUpResult} (hfresh : board.initialized = false)
    (hcourse : board.registerFile.Course config.lockWait.bound
      (patience config.lockWait) result final accesses records) :
    ∃ after, board.guarded.Mirrors after final ∧
      board.init config =
        match result with
        | .running =>
            let clocks := final.snapshot.derive config.sysref
            (.clocks clocks,
              records ++
                [.controlWords final.facc1 final.pllLow final.pllHigh] ++
                clocks.records,
              after)
        | .timedOut error => (.timedOut error, records, after)
        | .pending => (.pending, records, after) := by
  have hguarded : board.guarded.registerFile.Course config.lockWait.bound
      (patience config.lockWait) result final accesses records := hcourse
  obtain ⟨hresult, hrecords, hmirrors⟩ := bringUp_of_course hguarded
  cases hrun : board.guarded.bringUp config.lockWait with
  | mk answer session =>
      rw [hrun] at hresult hrecords hmirrors
      simp only at hresult hrecords hmirrors
      subst hresult hrecords
      refine ⟨session.bank, hmirrors, ?_⟩
      unfold guarded at hrun
      rw [init, if_neg (by simp [hfresh])]
      simp only [hrun]
      cases answer with
      | pending => rfl
      | timedOut error => rfl
      | running =>
          have hfacc1 : ClockBank.facc1 session.bank = final.facc1 :=
            hmirrors.facc1
          have hlow : ClockBank.pllLow session.bank = final.pllLow :=
            hmirrors.pllLow
          have hhigh : ClockBank.pllHigh session.bank = final.pllHigh :=
            hmirrors.pllHigh
          simp only [Session.learn_eq_extend, hfacc1, hlow, hhigh]
          simp [Session.extend, RegisterFile.snapshot]

theorem Mirrors.cleared
    {after : Board} {file : RegisterFile} {high facc1 : List Nat}
    (hmirrors : board.guarded.Mirrors after file)
    (hhigh : ∀ i, file.pllHigh.bit i =
      if i ∈ high then false else (board.read .pllStatusHigh).bit i)
    (hfacc1 : ∀ i, file.facc1.bit i =
      if i ∈ facc1 then false else (board.read .facc1).bit i) :
    board.Cleared after high facc1 where
  high := fun i =>
    (congrArg (·.bit i) hmirrors.pllHigh).trans (hhigh i)
  facc1 := fun i =>
    (congrArg (·.bit i) hmirrors.facc1).trans (hfacc1 i)
  rest := fun block index hhigh hfacc1 =>
    hmirrors.rest block index hfacc1 hhigh

/-! ## The status word decides -/

theorem isLeast_locking
    {file : RegisterFile} {pll : Pll}
    (hset : (file.status file.position).bit pll.lockBit = true) :
    IsLeast (file.locking pll) 0 :=
  ⟨hset, fun _ _ => Nat.zero_le _⟩

theorem init_of_fabricTimeout
    {n : UInt32} (hfresh : board.initialized = false)
    (hlimit : config.lockWait = .iterations n)
    (hclear : n = 0 ∨ (board.read .pllStatus).bit 0 = false) :
    let ended := board.init config
    ended.1 = .timedOut .fabricPllLockTimeout ∧
      ended.2.1 = [.fabricPllNotLocked] ∧
      board.Cleared ended.2.2 [2] [] := by
  let file := board.registerFile
  have hnone : ∀ k < n.toNat, k ∉ file.locking .fabric := by
    intro k hk hlocked
    rcases hclear with rfl | hclear
    · exact absurd hk (Nat.not_lt_zero k)
    · have hset : (board.read .pllStatus).bit 0 = true := hlocked
      rw [hclear] at hset
      cases hset
  have hcourse : file.Course config.lockWait.bound (patience config.lockWait)
      (.timedOut .fabricPllLockTimeout) (file.afterLock .fabric n.toNat)
      (file.lockPhase .fabric n.toNat) [.fabricPllNotLocked] := by
    rw [hlimit]
    apply RegisterFile.course_fabricTimeout hnone
    simp only [patience]
    omega
  have hhigh := file.pllHigh.bit_clearBits (by decide : ∀ i ∈ [2], i < 32)
  obtain ⟨after, hmirrors, hinit⟩ := init_of_course hfresh hcourse
  rw [hinit]
  exact ⟨rfl, rfl, hmirrors.cleared hhigh fun _ => rfl⟩

theorem init_of_mpllTimeout
    {n : UInt32} (hfresh : board.initialized = false)
    (hlimit : config.lockWait = .iterations n) (hn : n ≠ 0)
    (hfabric : (board.read .pllStatus).bit 0 = true)
    (hmpll : (board.read .pllStatus).bit 1 = false) :
    let ended := board.init config
    ended.1 = .timedOut .mpllLockTimeout ∧
      ended.2.1 = [.fabricPllLocked, .mpllNotLocked] ∧
      board.Cleared ended.2.2 [2, 0] [] := by
  let file := board.registerFile
  let unlocked := file.afterLock .fabric 1
  have hpos : 0 < n.toNat := by
    rw [Nat.pos_iff_ne_zero]
    exact fun hzero => hn (UInt32.toNat_inj.mp hzero)
  -- The status word has not changed since the first wait.
  have hnone : ∀ k < n.toNat, k ∉ unlocked.locking .mpll := by
    intro k _ hlocked
    have hset : (board.read .pllStatus).bit 1 = true := hlocked
    rw [hmpll] at hset
    cases hset
  have hpatience : 0 + 1 + n.toNat ≤ patience (.iterations n) := by
    simp only [patience]
    omega
  have hcourse : file.Course config.lockWait.bound (patience config.lockWait)
      (.timedOut .mpllLockTimeout) (unlocked.afterLock .mpll n.toNat)
      (file.lockPhase .fabric 1 ++ unlocked.lockPhase .mpll n.toNat)
      [.fabricPllLocked, .mpllNotLocked] := by
    rw [hlimit]
    exact RegisterFile.course_mpllTimeout (isLeast_locking hfabric) hpos hnone
      hpatience
  have hhigh := file.pllHigh.bit_clearBits (by decide : ∀ i ∈ [2, 0], i < 32)
  obtain ⟨after, hmirrors, hinit⟩ := init_of_course hfresh hcourse
  rw [hinit]
  exact ⟨rfl, rfl, hmirrors.cleared hhigh fun _ => rfl⟩

theorem init_of_locked
    (hfresh : board.initialized = false)
    (hlimit : config.lockWait ≠ .iterations 0)
    (hfabric : (board.read .pllStatus).bit 0 = true)
    (hmpll : (board.read .pllStatus).bit 1 = true) :
    let clocks := board.registerFile.snapshot.derive config.sysref
    let ended := board.init config
    ended.1 = .clocks clocks ∧
      ended.2.1 =
        [.fabricPllLocked, .mpllLocked, .mpllRunning,
          .controlWords (ended.2.2.read .facc1)
            (ended.2.2.read .pllStatusLow)
            (ended.2.2.read .pllStatusHigh)] ++ clocks.records ∧
      board.Cleared ended.2.2 [2, 0] [12] := by
  intro clocks ended
  let file := board.registerFile
  let final := ((file.afterLock .fabric 1).afterLock .mpll 1).afterMux
  have hbound : ∀ n ∈ config.lockWait.bound, 0 < n ∧ 0 < n := by
    intro n hn
    cases hcase : config.lockWait with
    | forever => simp [hcase, PollLimit.bound] at hn
    | iterations count =>
        have hcount : count.toNat = n := by
          simpa [hcase, PollLimit.bound] using hn
        have hne : count.toNat ≠ 0 := fun hzero =>
          hlimit (hcase.trans
            (congrArg PollLimit.iterations (UInt32.toNat_inj.mp hzero)))
        omega
  have hpatience : 0 + 0 + 2 ≤ patience config.lockWait := by
    cases hcase : config.lockWait with
    | forever => simp [patience]
    | iterations count =>
        have hpos := (hbound count.toNat (by simp [hcase, PollLimit.bound])).1
        simp only [patience]
        omega
  have hcourse : file.Course config.lockWait.bound (patience config.lockWait)
      .running final
      (file.lockPhase .fabric 1 ++ (file.afterLock .fabric 1).lockPhase .mpll 1
        ++ ((file.afterLock .fabric 1).afterLock .mpll 1).muxPhase)
      [.fabricPllLocked, .mpllLocked, .mpllRunning] :=
    RegisterFile.course_running (isLeast_locking hfabric)
      (isLeast_locking hmpll) hbound hpatience
  have hclocks : final.snapshot.derive config.sysref = clocks :=
    hcourse.sameTree.derive_eq config.sysref
  have hhigh := file.pllHigh.bit_clearBits (by decide : ∀ i ∈ [2, 0], i < 32)
  have hfacc1 := file.facc1.bit_clearBits (by decide : ∀ i ∈ [12], i < 32)
  obtain ⟨after, hmirrors, hinit⟩ := init_of_course hfresh hcourse
  simp only [hclocks] at hinit
  rw [show ended = _ from hinit]
  refine ⟨rfl, ?_, hmirrors.cleared hhigh hfacc1⟩
  rw [hmirrors.facc1, hmirrors.pllLow, hmirrors.pllHigh]
  rfl

/-- The first initialization, whatever the two blocks hold.  A limit of zero
and a fabric lock that is not shown end it in the first wait, a PLL lock that
is not shown ends it in the second one, and otherwise it answers with the
clocks that the control words told before it.  It clears bits of two words and
leaves every other word as it was. -/
theorem init_fresh (sysreg wdt : BlockMemory) (config : Config) :
    let board : Board := ⟨sysreg, wdt, false⟩
    let status := board.word .sysreg (Block.wordAt 0x150)
    let result := (board.init config).1
    let records := (board.init config).2.1
    let after := (board.init config).2.2
    (∀ n, config.lockWait = .iterations n → n = 0 ∨ status.bit 0 = false →
      result = .timedOut .fabricPllLockTimeout ∧
        records = [.fabricPllNotLocked] ∧
        records.map Record.level = [.error] ∧
        board.Cleared after [2] []) ∧
    (∀ n, config.lockWait = .iterations n → n ≠ 0 →
      status.bit 0 = true → status.bit 1 = false →
        result = .timedOut .mpllLockTimeout ∧
          records = [.fabricPllLocked, .mpllNotLocked] ∧
          records.map Record.level = [.debug, .error] ∧
          board.Cleared after [2, 0] []) ∧
    (config.lockWait ≠ .iterations 0 →
      status.bit 0 = true → status.bit 1 = true →
        let clocks := Snapshot.derive
          ⟨board.word .sysreg (Block.wordAt 0x098),
            board.word .sysreg (Block.wordAt 0x090),
            board.word .sysreg (Block.wordAt 0x094)⟩ config.sysref
        result = .clocks clocks ∧
          records =
            [.fabricPllLocked, .mpllLocked, .mpllRunning,
              .controlWords (after.word .sysreg (Block.wordAt 0x098))
                (after.word .sysreg (Block.wordAt 0x090))
                (after.word .sysreg (Block.wordAt 0x094))] ++
              Domain.all.map (fun domain =>
                .frequency domain (clocks.get domain)) ∧
          records.map Record.level =
            [.debug, .debug, .info, .trace] ++
              Domain.all.map (fun _ => .info) ∧
          board.Cleared after [2, 0] [12]) := by
  intro board status result records after
  have hfresh : board.initialized = false := rfl
  refine ⟨?_, ?_, ?_⟩
  · intro n hlimit hclear
    obtain ⟨hresult, hrecords, hcleared⟩ :=
      init_of_fabricTimeout hfresh hlimit hclear
    exact ⟨hresult, hrecords, congrArg (List.map Record.level) hrecords,
      hcleared⟩
  · intro n hlimit hn hfabric hmpll
    obtain ⟨hresult, hrecords, hcleared⟩ :=
      init_of_mpllTimeout hfresh hlimit hn hfabric hmpll
    exact ⟨hresult, hrecords, congrArg (List.map Record.level) hrecords,
      hcleared⟩
  · intro hlimit hfabric hmpll clocks
    obtain ⟨hresult, hrecords, hcleared⟩ :=
      init_of_locked hfresh hlimit hfabric hmpll
    exact ⟨hresult, hrecords, congrArg (List.map Record.level) hrecords,
      hcleared⟩

/-- System registers with this status and with all bits of the other words
that an initialization touches set. -/
def registersWithStatus (status : Word) : BlockMemory :=
  (((boot.setWord .sysreg (Block.wordAt 0x094) 0xFFFFFFFF).setWord
    .sysreg (Block.wordAt 0x098) 0xFFFFFFFF).setWord
      .sysreg (Block.wordAt 0x150) status).sysreg

theorem init_fresh_registersWithStatus :
    let board := fun status : Word =>
      (⟨registersWithStatus status, .zero, false⟩ : Board)
    let config := fun limit : PollLimit => (⟨⟨100000000⟩, limit⟩ : Config)
    ((board 2).init (config (.iterations 7))).1 =
        .timedOut .fabricPllLockTimeout ∧
      ((board 3).init (config (.iterations 0))).2.1 =
        [.fabricPllNotLocked] ∧
      ((board 1).init (config (.iterations 4))).1 =
        .timedOut .mpllLockTimeout ∧
      (board 3).Cleared ((board 3).init (config .forever)).2.2 [2, 0] [12] ∧
      (board 3).Cleared ((board 3).init (config (.iterations 1))).2.2
        [2, 0] [12] := by
  intro board config
  have hbit : ∀ {status : Word} {i : Nat} {value : Bool},
      status.bit i = value →
        ((board status).word .sysreg (Block.wordAt 0x150)).bit i = value := by
    intro status i value hvalue
    have hstatus : (board status).word .sysreg (Block.wordAt 0x150) =
        status := by
      simp [board, registersWithStatus, word, memory, setWord]
    rw [hstatus, hvalue]
  have hfresh := fun status =>
    init_fresh (registersWithStatus status) .zero
  have hlocked : ∀ limit, limit ≠ .iterations 0 →
      (board 3).Cleared ((board 3).init (config limit)).2.2 [2, 0] [12] := by
    intro limit hlimit
    have hlast := (hfresh 3 (config limit)).2.2 hlimit
      (hbit (by decide)) (hbit (by decide))
    exact hlast.2.2.2
  refine ⟨?_, ?_, ?_, hlocked _ (by simp), hlocked _ (by simp)⟩
  · exact ((hfresh 2 (config (.iterations 7))).1 7 rfl
      (.inr (hbit (by decide)))).1
  · exact ((hfresh 3 (config (.iterations 0))).1 0 rfl (.inl rfl)).2.1
  · exact ((hfresh 1 (config (.iterations 4))).2.1 4 rfl (by decide)
      (hbit (by decide)) (hbit (by decide))).1

end Board

end MssClock
