import MssClock.Proofs.Board.Watchdog

/-!
# What the drivers may change

All drivers share the two blocks, and none of them stores outside four words.
In the control word of the watchdog they touch the enable bit, in two clock
registers they clear three bits for good, and the refresh word takes nothing
but the key.  This holds of every operation, whether it succeeds, times out or
is refused, and a run is one operation after another.
-/

namespace MssClock

namespace Word

/-- Bits among `positions` may have been cleared; no other bit has changed. -/
def ClearedWithin (positions : List Nat) (before after : Word) : Prop :=
  ∀ i, after.bit i = before.bit i ∨
    (i ∈ positions ∧ before.bit i = true ∧ after.bit i = false)

variable {positions : List Nat} {before between after : Word}

theorem ClearedWithin.refl (positions : List Nat) (word : Word) :
    ClearedWithin positions word word :=
  fun _ => .inl rfl

theorem ClearedWithin.trans
    (hfirst : ClearedWithin positions before between)
    (hsecond : ClearedWithin positions between after) :
    ClearedWithin positions before after := by
  intro i
  rcases hsecond i with hkept | ⟨hmem, hset, hclear⟩
  · rw [hkept]
    exact hfirst i
  · rcases hfirst i with hkept | ⟨-, -, hgone⟩
    · exact .inr ⟨hmem, hkept ▸ hset, hclear⟩
    · rw [hgone] at hset
      contradiction

theorem clearedWithin_clearBit
    (word : Word) {i : Nat} (hi : i < 32) (hmem : i ∈ positions) :
    ClearedWithin positions word (word.clearBit i) := by
  intro j
  rw [word.bit_clearBit hi]
  by_cases hj : j = i
  · subst hj
    cases hbit : word.bit j with
    | false => exact .inl rfl
    | true => exact .inr ⟨hmem, rfl, by simp⟩
  · simp [hj]

end Word

namespace RegisterFile

theorem clearedWithin_afterLock
    (file : RegisterFile) (pll : Pll) (count : Nat) :
    Word.ClearedWithin [0, 2] file.pllHigh
      (file.afterLock pll count).pllHigh := by
  cases pll <;>
    exact Word.clearedWithin_clearBit _ (by decide) (by decide)

/-- However a bring-up ends, and also if it never does. -/
theorem Course.clearedWithin
    {file final : RegisterFile} {bound : Option Nat} {patience : Nat}
    {result : BringUpResult} {accesses : List Access} {records : List Record}
    (hcourse : file.Course bound patience result final accesses records) :
    Word.ClearedWithin [0, 2] file.pllHigh final.pllHigh ∧
      Word.ClearedWithin [12] file.facc1 final.facc1 := by
  have hlock := fun (phase : RegisterFile) => phase.clearedWithin_afterLock
  cases hcourse with
  | @fabricTimeout count | @fabricPending count =>
      exact ⟨hlock file .fabric count, .refl _ _⟩
  | @mpllTimeout count more | @mpllPending count more =>
      exact ⟨(hlock file .fabric count).trans (hlock _ .mpll more),
        .refl _ _⟩
  | @running count more =>
      exact ⟨(hlock file .fabric count).trans (hlock _ .mpll more),
        Word.clearedWithin_clearBit _ (by decide) (by decide)⟩

end RegisterFile

/-- Neither a raw store nor an access through a handle. -/
def Operation.isDriver : Operation → Bool
  | .poke _ _ _ | .address _ | .read _ _ | .store _ _ _ | .write _ _ _
  | .modify _ _ _ => false
  | .newWatchdog | .enable | .disable | .start | .genericDisable | .strobe
  | .feed | .isEnabled | .counter | .bringUp _ | .learn _ | .init _ => true

namespace Board

structure Footprint (before after : Board) : Prop where
  control : ∀ i, i ≠ 0 →
    (after.word .sysreg (Block.wordAt 0x06c)).bit i =
      (before.word .sysreg (Block.wordAt 0x06c)).bit i
  high : Word.ClearedWithin [0, 2]
    (before.word .sysreg (Block.wordAt 0x094))
    (after.word .sysreg (Block.wordAt 0x094))
  facc1 : Word.ClearedWithin [12]
    (before.word .sysreg (Block.wordAt 0x098))
    (after.word .sysreg (Block.wordAt 0x098))
  refresh :
    after.word .wdt (Block.wordAt 0x00c) =
        before.word .wdt (Block.wordAt 0x00c) ∨
      after.word .wdt (Block.wordAt 0x00c) = 0xAC15DE42
  rest : ∀ block index,
    (block, index) ∉
      [(.sysreg, Block.wordAt 0x06c), (.sysreg, Block.wordAt 0x094),
        (.sysreg, Block.wordAt 0x098), (.wdt, Block.wordAt 0x00c)] →
      after.word block index = before.word block index

theorem Footprint.refl (board : Board) : board.Footprint board :=
  ⟨fun _ _ => rfl, .refl _ _, .refl _ _, .inl rfl, fun _ _ _ => rfl⟩

theorem Footprint.trans
    {before between after : Board}
    (hfirst : before.Footprint between) (hsecond : between.Footprint after) :
    before.Footprint after where
  control := fun i hi => (hsecond.control i hi).trans (hfirst.control i hi)
  high := hfirst.high.trans hsecond.high
  facc1 := hfirst.facc1.trans hsecond.facc1
  refresh := by
    rcases hsecond.refresh with hkept | hkey
    · rw [hkept]
      exact hfirst.refresh
    · exact .inr hkey
  rest := fun block index hplace =>
    (hsecond.rest block index hplace).trans (hfirst.rest block index hplace)

variable {board : Board}

theorem footprint_switch (on : Bool) :
    board.Footprint (board.store .wdogCr (board.controlWord on)) := by
  have hkept : ∀ block index, (block, index) ≠ Handle.wdogCr.place →
      (board.store .wdogCr (board.controlWord on)).word block index =
        board.word block index :=
    fun _ _ => board.word_store_of_ne _
  constructor
  · intro i hi
    have hbit := board.bit_controlWord on i
    rw [if_neg hi, ← board.read_store_self .wdogCr (board.controlWord on)]
      at hbit
    exact hbit
  · rw [hkept _ _ (by decide)]
    exact .refl _ _
  · rw [hkept _ _ (by decide)]
    exact .refl _ _
  · exact .inl (hkept _ _ (by decide))
  · intro block index hplace
    apply hkept
    rintro ⟨rfl, rfl⟩
    exact hplace (by decide)

theorem footprint_refresh :
    board.Footprint (board.store .wdogRefresh refreshKey) := by
  have hkept : ∀ block index, (block, index) ≠ Handle.wdogRefresh.place →
      (board.store .wdogRefresh refreshKey).word block index =
        board.word block index :=
    fun _ _ => board.word_store_of_ne _
  constructor
  · intro i _
    rw [hkept _ _ (by decide)]
  · rw [hkept _ _ (by decide)]
    exact .refl _ _
  · rw [hkept _ _ (by decide)]
    exact .refl _ _
  · exact .inr (board.read_store_self .wdogRefresh refreshKey)
  · intro block index hplace
    apply hkept
    rintro ⟨rfl, rfl⟩
    exact hplace (by decide)

theorem footprint_strobe (session : WatchdogSession) :
    session.board.Footprint session.strobe.2.board := by
  unfold WatchdogSession.strobe
  split
  · exact footprint_refresh
  · exact .refl session.board

theorem Mirrors.footprint
    {after : Board} {final : RegisterFile} {bound : Option Nat}
    {patience : Nat} {result : BringUpResult} {accesses : List Access}
    {records : List Record}
    (hmirrors : board.Mirrors after final)
    (hcourse : board.registerFile.Course bound patience
      result final accesses records) :
    board.Footprint after := by
  obtain ⟨hhigh, hfacc1⟩ := hcourse.clearedWithin
  rw [← hmirrors.pllHigh] at hhigh
  rw [← hmirrors.facc1] at hfacc1
  constructor
  · intro i _
    rw [hmirrors.rest _ _ (by decide) (by decide)]
  · exact hhigh
  · exact hfacc1
  · exact .inl (hmirrors.rest _ _ (by decide) (by decide))
  · intro block index hplace
    apply hmirrors.rest
    · rintro ⟨rfl, rfl⟩
      exact hplace (by decide)
    · rintro ⟨rfl, rfl⟩
      exact hplace (by decide)

theorem footprint_bringUp (board : Board) (limit : PollLimit) :
    board.Footprint (board.bringUp limit).2.bank := by
  obtain ⟨result, final, accesses, records, hcourse⟩ :=
    board.registerFile.exists_course limit.bound (patience limit)
  exact (bringUp_of_course hcourse).2.2.footprint hcourse

theorem footprint_init (board : Board) (config : Config) :
    board.Footprint (board.init config).2.2 := by
  cases hguard : board.initialized with
  | true =>
      rw [init, if_pos hguard]
      exact .refl board
  | false =>
      obtain ⟨result, final, accesses, records, hcourse⟩ :=
        board.registerFile.exists_course config.lockWait.bound
          (patience config.lockWait)
      obtain ⟨after, hmirrors, hinit⟩ := init_of_course hguard hcourse
      -- The guard is no word of a block.
      have hguarded : board.guarded.Footprint after :=
        hmirrors.footprint hcourse
      have hfootprint : board.Footprint after := { hguarded with }
      rw [hinit]
      cases result <;> exact hfootprint

theorem footprint_step
    (board : Board) {operation : Operation}
    (hdriver : operation.isDriver = true) :
    board.Footprint (board.step operation).board := by
  cases operation with
  | poke | address | read | store | write | modify => cases hdriver
  | newWatchdog | isEnabled | counter => exact .refl board
  | enable | start =>
      exact (footprint_switch true).trans
        (footprint_strobe ((WatchdogSession.start board).setEnable true))
  | disable | genericDisable => exact footprint_switch false
  | strobe | feed => exact footprint_strobe (.start board)
  | bringUp limit => exact board.footprint_bringUp limit
  | learn sysref =>
      simp only [step, bank_learn]
      exact .refl board
  | init config => exact board.footprint_init config

/-- Whatever the blocks hold and whatever the drivers do. -/
theorem footprint_run
    (board : Board) (operations : List Operation)
    (hdrivers : ∀ operation ∈ operations, operation.isDriver = true) :
    board.Footprint (board.run operations) := by
  induction operations generalizing board with
  | nil => exact .refl board
  | cons operation rest ih =>
      have hfirst := board.footprint_step
        (hdrivers operation List.mem_cons_self)
      have hrest := ih (board.step operation).board
        fun later hlater => hdrivers later (List.mem_cons_of_mem _ hlater)
      exact hfirst.trans hrest

/-- Every bit that may change does so in some run. -/
theorem footprint_run_registersWithStatus :
    let board : Board := setWord ⟨registersWithStatus 3, .zero, false⟩
      .wdt (Block.wordAt 0x018) 1
    let operations : List Operation :=
      [.bringUp (.iterations 0), .enable, .init .standard, .init .standard,
        .learn ⟨48000000⟩, .feed, .counter]
    let after := board.run operations
    (∀ operation ∈ operations, operation.isDriver = true) ∧
      board.Footprint after ∧ after.Footprint (after.run [.disable]) ∧
      board.read .wdogCr = 0 ∧ after.read .wdogCr = 1 ∧
      (after.run [.disable]).read .wdogCr = 0 ∧
      after.read .pllStatusHigh = 0xFFFFFFFA ∧
      after.read .facc1 = 0xFFFFEFFF ∧
      after.read .wdogRefresh = 0xAC15DE42 := by
  intro board operations after
  have hdrivers : ∀ operation ∈ operations, operation.isDriver = true := by
    decide
  refine ⟨hdrivers, footprint_run board operations hdrivers,
    footprint_run after [.disable] (by decide), ?_⟩
  decide +kernel

end Board

end MssClock
