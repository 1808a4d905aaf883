import MssClock.Proofs.Board.Guard
import Mathlib.Data.List.Induction

/-!
# The watchdog over whole runs

Raw stores and the operations of the watchdog driver come in any order.  What
an operation of the driver does to the board is in the stores that it makes, one
for switching and one for refreshing at the most.  A refresh is carried out if
and only if the status word permits it at that very step; a refused one leaves a
record and nothing else.  The enable bit of the control word is what the last
switching operation made it since the word was last stored from outside, and no
other bit of the word is ever touched.
-/

namespace MssClock

namespace Operation

def isPoke : Operation → Bool
  | .poke _ _ _ => true
  | _ => false

def isWatchdog : Operation → Bool
  | .enable | .start | .disable | .genericDisable | .strobe | .feed => true
  | _ => false

def refreshes : Operation → Bool
  | .enable | .start | .strobe | .feed => true
  | _ => false

/-- What the operation makes the enable bit, if it switches it. -/
def switch? : Operation → Option Bool
  | .enable | .start => some true
  | .disable | .genericDisable => some false
  | _ => none

def lastSwitch? (operations : List Operation) : Option Bool :=
  (operations.filterMap switch?).getLast?

/-- The operation of the generic interface that does the same. -/
def generic : Operation → Operation
  | .enable => .start
  | .disable => .genericDisable
  | .strobe => .feed
  | operation => operation

/-- The operation is one of the driver, or a raw store into another word. -/
def SparesControl (operation : Operation) : Prop :=
  operation.isWatchdog = true ∨
    ∃ block index bits, operation = .poke block index bits ∧
      (block, index) ≠ Handle.wdogCr.place

theorem sparesControl_of_ne
    {operation : Operation}
    (hkind : operation.isPoke = true ∨ operation.isWatchdog = true)
    (hne : ∀ bits, operation ≠ .poke .sysreg (Block.wordAt 0x06c) bits) :
    operation.SparesControl := by
  rcases hkind with hpoke | hdriver
  · cases operation with
    | poke block index bits =>
        have hplace : (block, index) ≠ Handle.wdogCr.place := by
          intro heq
          obtain ⟨rfl, rfl⟩ := Prod.mk.inj heq
          exact hne bits rfl
        exact .inr ⟨block, index, bits, rfl, hplace⟩
    | _ => simp [isPoke] at hpoke
  · exact .inl hdriver

theorem lastSwitch?_cons
    (operation : Operation) (rest : List Operation) (before : Bool) :
    (lastSwitch? (operation :: rest)).getD before =
      (lastSwitch? rest).getD (operation.switch?.getD before) := by
  unfold lastSwitch?
  cases hswitch : operation.switch? with
  | none => simp [hswitch]
  | some on => simp [hswitch, List.getLast?_cons]

end Operation

namespace Board

/-- The operation stores `bits` through the handle: they are in its word
afterwards, whatever was in it before. -/
def Stores (board : Board) (operation : Operation) (handle : Handle)
    (bits : Word) : Prop :=
  ∀ old, ((board.store handle old).step operation).board.read handle = bits

variable (board : Board)

/-- The board after these stores. -/
def storeAll (stores : List Store) : Board :=
  stores.foldl (fun current made => current.store made.handle made.bits) board

/-- What the handle reads afterwards is what was stored through it last. -/
theorem read_storeAll (stores : List Store) (handle : Handle) :
    (board.storeAll stores).read handle =
      (((stores.filter fun made => made.handle = handle).getLast?).map
        Store.bits).getD (board.read handle) := by
  induction stores using List.reverseRecOn with
  | nil => rfl
  | append_singleton stores made ih =>
      have hlast : board.storeAll (stores ++ [made]) =
          (board.storeAll stores).store made.handle made.bits :=
        List.foldl_concat ..
      rw [hlast, List.filter_append]
      by_cases heq : made.handle = handle
      · subst heq
        simp
      · rw [read_store_of_ne _ _ (Ne.symm heq), ih]
        simp [heq]

/-! ## The stores of the driver -/

/-- The control word, switched. -/
def controlWord (on : Bool) : Word :=
  WdogCr.enable.store (if on then 1 else 0) (board.read .wdogCr)

/-- The store that switches, if the operation is one that does. -/
def switching (operation : Operation) : List Store :=
  operation.switch?.toList.map fun on => ⟨.wdogCr, board.controlWord on⟩

/-- The store that refreshes, if the operation asks for it and may. -/
def refreshing (operation : Operation) : List Store :=
  if operation.refreshes && (board.read .wdogStatus).bit 0 then
    [⟨.wdogRefresh, refreshKey⟩] else []

/-- The complaint about a refresh that the operation asks for and may not. -/
def complaint (operation : Operation) : List Record :=
  if operation.refreshes && !(board.read .wdogStatus).bit 0 then
    [.refreshNotPermitted (board.read .wdogValue)] else []

theorem isSet_refreshStatus :
    WdogStatus.refreshStatus.isSet (board.read .wdogStatus) =
      (board.read .wdogStatus).bit 0 :=
  Field.isSet_flag _ (by decide) _

end Board

theorem WatchdogSession.strobe_eq (session : WatchdogSession) :
    session.strobe =
      if (session.board.read .wdogStatus).bit 0 then
        (true, session.store .wdogRefresh refreshKey)
      else (false, session.log
        (.refreshNotPermitted (session.board.read .wdogValue))) := by
  rw [strobe, Board.isSet_refreshStatus]

/-- The driver switches first and refreshes then. -/
theorem Operation.drive_eq
    (board : Board) {operation : Operation}
    (hdriver : operation.isWatchdog = true) :
    let stores := board.switching operation ++ board.refreshing operation
    operation.drive board =
      ⟨board.storeAll stores, stores, board.complaint operation⟩ := by
  -- The control word is in the other block, so switching shows in neither word
  -- that a refresh looks at.
  have hstatus : ∀ bits, (board.store .wdogCr bits).read .wdogStatus =
      board.read .wdogStatus :=
    fun bits => board.read_store_of_ne bits (by decide)
  have hcounter : ∀ bits, (board.store .wdogCr bits).read .wdogValue =
      board.read .wdogValue :=
    fun bits => board.read_store_of_ne bits (by decide)
  cases operation with
  | disable | genericDisable => rfl
  | enable | start =>
      let switched := (WatchdogSession.start board).setEnable true
      have hboard : switched.board =
          board.store .wdogCr (board.controlWord true) := rfl
      have hstrobe := switched.strobe_eq
      rw [hboard, hstatus, hcounter] at hstrobe
      simp only [drive, WatchdogSession.enable, switched, hstrobe,
        Board.refreshing, Board.complaint, refreshes, Bool.true_and]
      cases (board.read .wdogStatus).bit 0 <;> rfl
  | strobe | feed =>
      simp only [drive, WatchdogSession.strobe_eq, WatchdogSession.start,
        Board.refreshing, Board.complaint, refreshes, Bool.true_and]
      cases (board.read .wdogStatus).bit 0 <;> rfl
  | _ => simp [isWatchdog] at hdriver

namespace Board

variable (board : Board) {operation : Operation}

theorem step_of_isWatchdog (hdriver : operation.isWatchdog = true) :
    let effect := board.step operation
    effect.records = (operation.drive board).records ∧
      effect.board = (operation.drive board).board ∧
      (operation = .strobe →
        effect.reply = .flag ((board.read .wdogStatus).bit 0)) := by
  cases operation with
  | enable | start | disable | genericDisable | feed =>
      exact ⟨rfl, rfl, by rintro ⟨⟩⟩
  | strobe =>
      refine ⟨rfl, rfl, fun _ => ?_⟩
      simp only [step, WatchdogSession.strobe_eq, WatchdogSession.start]
      cases (board.read .wdogStatus).bit 0 <;> rfl
  | _ => simp [Operation.isWatchdog] at hdriver

theorem read_step_of_isWatchdog
    (hdriver : operation.isWatchdog = true) (handle : Handle) :
    (board.step operation).board.read handle =
      (board.storeAll
        (board.switching operation ++ board.refreshing operation)).read
          handle := by
  rw [(board.step_of_isWatchdog hdriver).2.1, Operation.drive_eq board hdriver]

theorem refresh_of_isWatchdog (hdriver : operation.isWatchdog = true) :
    let effect := board.step operation
    let permitted := (board.read .wdogStatus).bit 0
    effect.board.read .wdogRefresh =
        (if operation.refreshes && permitted then refreshKey
          else board.read .wdogRefresh) ∧
      effect.records =
        (if operation.refreshes && !permitted then
          [.refreshNotPermitted (board.read .wdogValue)] else []) ∧
      (operation = .strobe → effect.reply = .flag permitted) := by
  intro effect permitted
  obtain ⟨hrecords, -, hreply⟩ := board.step_of_isWatchdog hdriver
  refine ⟨?_, ?_, hreply⟩
  · rw [show effect.board.read _ = _ from
      board.read_step_of_isWatchdog hdriver _, read_storeAll]
    unfold switching refreshing
    cases operation.switch? <;> split <;> simp
  · rw [show effect.records = _ from hrecords,
      Operation.drive_eq board hdriver]
    rfl

theorem stores_wdogRefresh_iff
    (hdriver : operation.isWatchdog = true) (bits : Word) :
    board.Stores operation .wdogRefresh bits ↔
      operation.refreshes = true ∧ (board.read .wdogStatus).bit 0 = true ∧
        bits = refreshKey := by
  have hafter : ∀ old,
      ((board.store .wdogRefresh old).step operation).board.read
          .wdogRefresh =
        if operation.refreshes && (board.read .wdogStatus).bit 0 then
          refreshKey else old := by
    intro old
    obtain ⟨hrefresh, -, -⟩ :=
      (board.store .wdogRefresh old).refresh_of_isWatchdog hdriver
    rw [hrefresh, read_store_self, board.read_store_of_ne old (by decide)]
  unfold Stores
  by_cases hstored : operation.refreshes = true ∧
      (board.read .wdogStatus).bit 0 = true
  · simp [hafter, hstored, eq_comm]
  · constructor
    · intro hbits
      have hkept : ∀ old, old = bits := by
        intro old
        have hold := hbits old
        rwa [hafter, if_neg (by simpa using hstored)] at hold
      exact absurd ((hkept 0).trans (hkept 1).symm) (by decide)
    · rintro ⟨hasks, hpermitted, -⟩
      exact absurd ⟨hasks, hpermitted⟩ hstored

/-! ## The enable bit -/

theorem bit_controlWord (on : Bool) (i : Nat) :
    (board.controlWord on).bit i =
      if i = 0 then on else (board.read .wdogCr).bit i := by
  have hfits : WdogCr.enable.Fits := Field.flag_fits _ (by decide)
  have hone : (if on then 1 else 0 : Word).bit 0 = on := by
    cases on <;> rfl
  unfold controlWord
  rw [hfits.bit_store]
  by_cases hi : i = 0
  · subst hi
    simpa [WdogCr.enable, Field.flag] using hone
  · simp [WdogCr.enable, Field.flag, hi]

theorem bit_wdogCr_step (hspares : operation.SparesControl) (i : Nat) :
    ((board.step operation).board.read .wdogCr).bit i =
      if i = 0 then operation.switch?.getD ((board.read .wdogCr).bit 0)
      else (board.read .wdogCr).bit i := by
  rcases hspares with hdriver | ⟨block, index, bits, rfl, hplace⟩
  · have hword : (board.step operation).board.read .wdogCr =
        (operation.switch?.map board.controlWord).getD
          (board.read .wdogCr) := by
      rw [board.read_step_of_isWatchdog hdriver, read_storeAll]
      unfold switching refreshing
      cases operation.switch? <;> split <;> simp
    rw [hword]
    cases operation.switch? with
    | none => by_cases hi : i = 0 <;> simp [hi]
    | some on => exact board.bit_controlWord on i
  · have hword : (board.step (.poke block index bits)).board.read .wdogCr =
        board.read .wdogCr :=
      board.word_setWord_of_ne bits (Ne.symm hplace)
    by_cases hi : i = 0 <;> simp [hword, hi, Operation.switch?]

theorem bit_wdogCr_run
    (board : Board) {operations : List Operation}
    (hspares : ∀ operation ∈ operations, operation.SparesControl) (i : Nat) :
    ((board.run operations).read .wdogCr).bit i =
      if i = 0 then
        (Operation.lastSwitch? operations).getD ((board.read .wdogCr).bit 0)
      else (board.read .wdogCr).bit i := by
  induction operations generalizing board with
  | nil => by_cases hi : i = 0 <;> simp [run, hi, Operation.lastSwitch?]
  | cons operation rest ih =>
      have hfirst := board.bit_wdogCr_step
        (hspares operation List.mem_cons_self)
      have hrest := ih (board.step operation).board
        fun later hlater => hspares later (List.mem_cons_of_mem _ hlater)
      rw [run_cons, hrest, Operation.lastSwitch?_cons, hfirst, hfirst]
      by_cases hi : i = 0 <;> simp [hi]

theorem bit_wdogCr_run_append_poke
    (start : Board) (before : List Operation) (poked : Word)
    {since : List Operation}
    (hspares : ∀ operation ∈ since, operation.SparesControl) (i : Nat) :
    ((start.run (before ++
        .poke .sysreg (Block.wordAt 0x06c) poked :: since)).read .wdogCr).bit i =
      if i = 0 then (Operation.lastSwitch? since).getD (poked.bit 0)
      else poked.bit i := by
  let stored : Board :=
    ((start.run before).step (.poke .sysreg (Block.wordAt 0x06c) poked)).board
  have hpoked : stored.read .wdogCr = poked :=
    (start.run before).word_setWord_self .sysreg (Block.wordAt 0x06c) poked
  have hsplit : start.run
      (before ++ .poke .sysreg (Block.wordAt 0x06c) poked :: since) =
        stored.run since :=
    List.foldl_append
  rw [hsplit, bit_wdogCr_run stored hspares, hpoked]

/-! ## The generic interface -/

theorem stores_drive_generic (board : Board) (operation : Operation) :
    (operation.generic.drive board).stores =
      (operation.drive board).stores := by
  cases operation <;> rfl

theorem step_generic (board : Board) (operation : Operation) :
    (board.step operation.generic).records = (board.step operation).records ∧
      (board.step operation.generic).board =
        (board.step operation).board := by
  cases operation <;> exact ⟨rfl, rfl⟩

theorem effects_of_generic
    (board : Board) {operations replaced : List Operation}
    (hreplaced : List.Forall₂
      (fun operation other => other = operation ∨ other = operation.generic)
      operations replaced) :
    (board.effects replaced).map (fun effect => (effect.records, effect.board)) =
      (board.effects operations).map
        fun effect => (effect.records, effect.board) := by
  induction hreplaced generalizing board with
  | nil => rfl
  | @cons operation other _ _ hother _ ih =>
      have hsame : (board.step other).records =
            (board.step operation).records ∧
          (board.step other).board = (board.step operation).board := by
        rcases hother with rfl | rfl
        · exact ⟨rfl, rfl⟩
        · exact board.step_generic operation
      obtain ⟨hrecords, hboard⟩ := hsame
      simp only [effects, List.map_cons, hrecords, hboard, ih]

/-- Runs of raw stores and operations of the driver.  An operation of the driver
makes one store for switching, if it switches, and then one of the key if and
only if a refresh is asked for and permitted; these stores are all that it does
to the board, and a refresh that is not permitted logs the counter instead.  The
control word is as it was last stored from outside, or at the start, but for
its enable bit, which is as it was last switched since then.  And no operation
differs from its generic form in what it stores and logs. -/
theorem watchdog_run
    (start : Board) (operations : List Operation)
    (hrun : ∀ operation ∈ operations,
      operation.isPoke = true ∨ operation.isWatchdog = true) :
    (∀ before operation after, operations = before ++ operation :: after →
      operation.isWatchdog = true →
        let board := start.run before
        let effect := board.step operation
        let permitted := (board.word .wdt (Block.wordAt 0x018)).bit 0
        let made := (operation.drive board).stores
        made = board.switching operation ++
          (if operation.refreshes && permitted then
            [⟨.wdogRefresh, 0xAC15DE42⟩] else []) ∧
        effect.board = board.storeAll made ∧
        (operation.generic.drive board).stores = made ∧
        (∀ bits, board.Stores operation .wdogRefresh bits ↔
          operation.refreshes = true ∧ permitted = true ∧
            bits = 0xAC15DE42) ∧
        effect.board.word .wdt (Block.wordAt 0x00c) =
          (if operation.refreshes && permitted then 0xAC15DE42
            else board.word .wdt (Block.wordAt 0x00c)) ∧
        effect.records =
          (if operation.refreshes && !permitted then
            [.refreshNotPermitted (board.word .wdt (Block.wordAt 0x000))]
            else []) ∧
        (∀ record ∈ effect.records, record.level = .trace) ∧
        (operation = .strobe → effect.reply = .flag permitted)) ∧
    (∀ before since poked,
      operations = before ++ .poke .sysreg (Block.wordAt 0x06c) poked :: since →
      (∀ bits, .poke .sysreg (Block.wordAt 0x06c) bits ∉ since) →
        ∀ i, ((start.run operations).word .sysreg (Block.wordAt 0x06c)).bit i =
          if i = 0 then (Operation.lastSwitch? since).getD (poked.bit 0)
          else poked.bit i) ∧
    ((∀ bits, .poke .sysreg (Block.wordAt 0x06c) bits ∉ operations) →
      let initial := start.word .sysreg (Block.wordAt 0x06c)
      ∀ i, ((start.run operations).word .sysreg (Block.wordAt 0x06c)).bit i =
        if i = 0 then
          (Operation.lastSwitch? operations).getD (initial.bit 0)
        else initial.bit i) ∧
    ∀ replaced,
      List.Forall₂ (fun operation other =>
        other = operation ∨ other = operation.generic) operations replaced →
      (start.effects replaced).map
          (fun effect => (effect.records, effect.board)) =
        (start.effects operations).map
          (fun effect => (effect.records, effect.board)) := by
  have hspares : ∀ since, since <:+ operations →
      (∀ bits, .poke .sysreg (Block.wordAt 0x06c) bits ∉ since) →
        ∀ operation ∈ since, operation.SparesControl := by
    intro since hsuffix hnone operation hmem
    apply Operation.sparesControl_of_ne (hrun operation (hsuffix.subset hmem))
    intro bits heq
    exact hnone bits (heq ▸ hmem)
  refine ⟨?_, ?_, ?_, fun replaced => start.effects_of_generic⟩
  · intro before operation after _ hdriver board effect permitted made
    obtain ⟨hrefresh, hrecords, hreply⟩ :=
      board.refresh_of_isWatchdog hdriver
    have hdrive := Operation.drive_eq board hdriver
    have hmade : made = board.switching operation ++
        board.refreshing operation :=
      congrArg WatchdogSession.stores hdrive
    have hboard : effect.board = board.storeAll made := by
      rw [hmade, show effect.board = _ from
        (board.step_of_isWatchdog hdriver).2.1, hdrive]
    refine ⟨hmade, hboard, board.stores_drive_generic operation,
      board.stores_wdogRefresh_iff hdriver, hrefresh, hrecords, ?_, hreply⟩
    intro record hmem
    rw [show effect.records = _ from hrecords] at hmem
    split at hmem
    · rw [List.mem_singleton.mp hmem]
      rfl
    · cases hmem
  · intro before since poked hsplit hnone
    have hsuffix : since <:+ operations := by
      rw [hsplit]
      exact (List.suffix_cons _ _).trans (List.suffix_append _ _)
    rw [hsplit]
    exact bit_wdogCr_run_append_poke start before poked
      (hspares since hsuffix hnone)
  · intro hnone initial
    exact bit_wdogCr_run start (hspares operations List.suffix_rfl hnone)

theorem watchdog_run_boot :
    let status := Block.wordAt 0x018
    let control := Block.wordAt 0x06c
    let since : List Operation := [.disable, .start, .poke .wdt status 1]
    let before : List Operation :=
      [.enable, .poke .sysreg control 0xFFFFFFF0] ++ since
    let operations := before ++ [.strobe]
    (∀ operation ∈ operations,
        operation.isPoke = true ∨ operation.isWatchdog = true) ∧
      (Operation.strobe.drive (boot.run before)).stores =
        [⟨.wdogRefresh, 0xAC15DE42⟩] ∧
      (∀ bits, (boot.run before).Stores .strobe .wdogRefresh bits ↔
        bits = 0xAC15DE42) ∧
      (∀ i, ((boot.run operations).word .sysreg control).bit i =
        if i = 0 then true else (0xFFFFFFF0 : Word).bit i) ∧
      (∀ i, ((boot.run since).word .sysreg control).bit i =
        if i = 0 then true else (0 : Word).bit i) ∧
      (boot.effects (before ++ [.feed])).map
          (fun effect => (effect.records, effect.board)) =
        (boot.effects operations).map
          (fun effect => (effect.records, effect.board)) := by
  intro status control since before operations
  have hrun : ∀ operation ∈ operations,
      operation.isPoke = true ∨ operation.isWatchdog = true := by
    decide
  obtain ⟨hsteps, hpoked, -, hreplaced⟩ := watchdog_run boot operations hrun
  obtain ⟨-, -, hkept, -⟩ := watchdog_run boot since (by decide)
  obtain ⟨hmade, -, -, hstores, -⟩ := hsteps before .strobe [] rfl rfl
  have hpermitted : ((boot.run before).word .wdt status).bit 0 = true := by
    decide +kernel
  refine ⟨hrun, ?_, ?_, ?_, hkept (by simp [since, status]), ?_⟩
  · rw [hmade, show ((boot.run before).word .wdt _).bit 0 = true from hpermitted]
    rfl
  · intro bits
    rw [hstores]
    simp [Operation.refreshes, hpermitted, status]
  · exact hpoked [.enable] (since ++ [.strobe]) 0xFFFFFFF0 rfl (by simp [since])
  · apply hreplaced
    simp [before, since, operations, Operation.generic]

end Board

end MssClock
