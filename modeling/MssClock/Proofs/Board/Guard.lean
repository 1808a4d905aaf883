import MssClock.Board.Operation
import MssClock.Proofs.Board.Init

/-!
# Initialization happens once

The guard of a board is set by an initialization, whatever comes of it, and by
nothing else, and nothing clears it.  An initialization that finds the guard
set is refused before it touches anything.  So the refused ones can be taken
out of a run, and every other operation goes as before.
-/

namespace MssClock

namespace Operation

def isInit : Operation → Bool
  | .init _ => true
  | _ => false

theorem isInit_iff {operation : Operation} :
    operation.isInit = true ↔ ∃ config, operation = .init config := by
  cases operation <;> simp [isInit]

theorem any_isInit_iff {operations : List Operation} :
    operations.any isInit = true ↔ ∃ config, .init config ∈ operations := by
  simp only [List.any_eq_true, isInit_iff]
  constructor
  · rintro ⟨operation, hmem, config, rfl⟩
    exact ⟨config, hmem⟩
  · rintro ⟨config, hmem⟩
    exact ⟨_, hmem, config, rfl⟩

/-- The operations without the initializations after the first one. -/
def firstInitOnly : List Operation → List Operation
  | [] => []
  | operation :: rest =>
      operation ::
        if operation.isInit then rest.filter (fun later => !later.isInit)
        else firstInitOnly rest

end Operation

theorem Field.put_error_outOfBounds
    {field : Field} {n word : Word} {fault : Fault}
    (hput : field.put n word = .error fault) :
    fault = .outOfBounds field.largest := by
  unfold put at hput
  split at hput
  next => cases hput
  next =>
    cases hput
    rfl

theorem assignAll_error_outOfBounds
    {word : Word} {assignments : List Assignment} {fault : Fault}
    (hassign : assignAll word assignments = .error fault) :
    ∃ largest, fault = .outOfBounds largest := by
  induction assignments generalizing word with
  | nil => cases hassign
  | cons first rest ih =>
      rw [assignAll, List.foldlM_cons] at hassign
      cases hput : first.field.put first.n word with
      | error cause =>
          rw [hput] at hassign
          cases hassign
          exact ⟨_, Field.put_error_outOfBounds hput⟩
      | ok next =>
          rw [hput] at hassign
          exact ih hassign

/-! ## What a step does to the guard -/

namespace WatchdogSession

variable (session : WatchdogSession)

theorem initialized_strobe :
    session.strobe.2.board.initialized = session.board.initialized := by
  unfold strobe
  split
  · exact session.board.initialized_store _ _
  · rfl

theorem initialized_setEnable (on : Bool) :
    (session.setEnable on).board.initialized = session.board.initialized :=
  session.board.initialized_store _ _

theorem initialized_enable :
    session.enable.board.initialized = session.board.initialized :=
  (initialized_strobe _).trans (session.initialized_setEnable true)

end WatchdogSession

theorem Operation.initialized_drive (operation : Operation) (board : Board) :
    (operation.drive board).board.initialized = board.initialized := by
  cases operation with
  | enable | start => exact WatchdogSession.initialized_enable _
  | disable | genericDisable => exact WatchdogSession.initialized_setEnable _ _
  | strobe | feed => exact WatchdogSession.initialized_strobe _
  | _ => rfl

namespace Board

variable (board : Board)

theorem initialized_bringUp (limit : PollLimit) :
    (board.bringUp limit).2.bank.initialized = board.initialized := by
  obtain ⟨result, final, accesses, records, hcourse⟩ :=
    board.registerFile.exists_course limit.bound (patience limit)
  exact (bringUp_of_course hcourse).2.2.initialized

theorem bank_learn (sysref : Hertz) : (board.learn sysref).2.bank = board := by
  rw [learn, Session.learn_eq_extend]
  rfl

theorem initialized_assigned
    (handle : Handle) (word : Word) (assignments : List Assignment) :
    (board.assigned handle
      (board.storeAssigned handle word assignments)).board.initialized =
        board.initialized := by
  unfold storeAssigned
  cases assignAll word assignments with
  | error fault => rfl
  | ok bits => exact board.initialized_store handle bits

variable {board}

theorem step_init_of_initialized
    (hset : board.initialized = true) (config : Config) :
    board.step (.init config) = ⟨.fault .initializedTwice, [], board⟩ := by
  simp [step, init, hset, InitResult.reply]

/-- The first initialization is accepted.  It succeeds, times out or waits
forever, and has set the guard in each case. -/
theorem step_init_of_fresh
    (hfresh : board.initialized = false) (config : Config) :
    let effect := board.step (.init config)
    effect.board.initialized = true ∧
      ((∃ clocks, effect.reply = .clocks clocks) ∨
        (∃ error, effect.reply = .timedOut error) ∨
        effect.reply = .fault .endlessWait) := by
  obtain ⟨result, final, accesses, records, hcourse⟩ :=
    board.registerFile.exists_course config.lockWait.bound
      (patience config.lockWait)
  obtain ⟨after, hmirrors, hinit⟩ := init_of_course hfresh hcourse
  have hset : after.initialized = true := hmirrors.initialized
  simp only [step, hinit]
  cases result with
  | running => exact ⟨hset, .inl ⟨_, rfl⟩⟩
  | timedOut error => exact ⟨hset, .inr (.inl ⟨error, rfl⟩)⟩
  | pending => exact ⟨hset, .inr (.inr rfl)⟩

variable (board)

theorem initialized_step (operation : Operation) :
    (board.step operation).board.initialized =
      (board.initialized || operation.isInit) := by
  cases operation with
  | init config =>
      rw [Operation.isInit, Bool.or_true]
      cases hguard : board.initialized with
      | false => exact (step_init_of_fresh hguard config).1
      | true =>
          rw [step_init_of_initialized hguard]
          exact hguard
  | poke block index bits => simp [step, Operation.isInit]
  | store handle allowed bits => simp [step, Operation.isInit]
  | write handle allowed assignments =>
      simp [step, write, initialized_assigned, Operation.isInit]
  | modify handle allowed assignments =>
      simp [step, modify, initialized_assigned, Operation.isInit]
  | enable | start | disable | genericDisable | feed =>
      simp [step, Operation.initialized_drive, Operation.isInit]
  | strobe =>
      simp [step, WatchdogSession.initialized_strobe, WatchdogSession.start,
        Operation.isInit]
  | bringUp limit => simp [step, initialized_bringUp, Operation.isInit]
  | learn sysref => simp [step, bank_learn, Operation.isInit]
  | address | read | newWatchdog | isEnabled | counter =>
      simp [step, Operation.isInit]

theorem reply_assigned_ne
    (handle : Handle) (word : Word) (assignments : List Assignment) :
    (board.assigned handle
      (board.storeAssigned handle word assignments)).reply ≠
        .fault .initializedTwice := by
  unfold storeAssigned
  cases hassign : assignAll word assignments with
  | error fault =>
      obtain ⟨largest, rfl⟩ := assignAll_error_outOfBounds hassign
      simp [assigned, Except.map]
  | ok bits => simp [assigned, Except.map]

/-- Nothing but an initialization is refused for the guard. -/
theorem reply_step_ne
    {operation : Operation} (hother : operation.isInit = false) :
    (board.step operation).reply ≠ .fault .initializedTwice := by
  cases operation with
  | init config => cases hother
  | write handle allowed assignments => exact board.reply_assigned_ne _ _ _
  | modify handle allowed assignments => exact board.reply_assigned_ne _ _ _
  | bringUp limit =>
      simp only [step]
      cases (board.bringUp limit).1 <;> simp [BringUpResult.reply]
  | _ => simp [step]

/-! ## Runs -/

theorem run_cons (operation : Operation) (rest : List Operation) :
    board.run (operation :: rest) =
      (board.step operation).board.run rest := rfl

theorem effects_append (before after : List Operation) :
    board.effects (before ++ after) =
      board.effects before ++ (board.run before).effects after := by
  induction before generalizing board with
  | nil => rfl
  | cons operation rest ih =>
      simp only [List.cons_append, effects, run_cons, ih]

theorem initialized_run (operations : List Operation) :
    (board.run operations).initialized =
      (board.initialized || operations.any Operation.isInit) := by
  induction operations generalizing board with
  | nil => simp [run]
  | cons operation rest ih =>
      rw [run_cons, ih, initialized_step, List.any_cons, Bool.or_assoc]

variable {board}

/-- Once the guard is set, initializations can be left out of a run. -/
theorem run_filter_of_initialized
    (hset : board.initialized = true) (operations : List Operation) :
    let kept := operations.filter fun operation => !operation.isInit
    board.run kept = board.run operations ∧
      board.effects kept = (board.effects operations).filter
        fun effect => effect.reply ≠ .fault .initializedTwice := by
  induction operations generalizing board with
  | nil => exact ⟨rfl, rfl⟩
  | cons operation rest ih =>
      cases hinit : operation.isInit with
      | true =>
          obtain ⟨hrun, heffects⟩ := ih hset
          have hrefused : board.step operation =
              ⟨.fault .initializedTwice, [], board⟩ := by
            obtain ⟨config, rfl⟩ := Operation.isInit_iff.mp hinit
            exact step_init_of_initialized hset config
          simp [run_cons, effects, hinit, hrefused, hrun, heffects]
      | false =>
          have hreply := board.reply_step_ne hinit
          have hnext : (board.step operation).board.initialized = true := by
            simp [initialized_step, hset]
          obtain ⟨hrun, heffects⟩ := ih hnext
          simp [run_cons, effects, hinit, hreply, hrun, heffects]

theorem run_firstInitOnly
    (hfresh : board.initialized = false) (operations : List Operation) :
    let kept := Operation.firstInitOnly operations
    board.run kept = board.run operations ∧
      board.effects kept = (board.effects operations).filter
        fun effect => effect.reply ≠ .fault .initializedTwice := by
  induction operations generalizing board with
  | nil => exact ⟨rfl, rfl⟩
  | cons operation rest ih =>
      cases hinit : operation.isInit with
      | true =>
          -- The first initialization, from which on the guard is set.
          obtain ⟨config, rfl⟩ := Operation.isInit_iff.mp hinit
          obtain ⟨hset, hanswer⟩ := step_init_of_fresh hfresh config
          obtain ⟨hrun, heffects⟩ := run_filter_of_initialized hset rest
          have hreply : (board.step (.init config)).reply ≠
              .fault .initializedTwice := by
            rcases hanswer with ⟨clocks, h⟩ | ⟨error, h⟩ | h <;> simp [h]
          simp [Operation.firstInitOnly, run_cons, effects, hinit, hreply,
            hrun, heffects]
      | false =>
          have hreply := board.reply_step_ne hinit
          have hnext : (board.step operation).board.initialized = false := by
            simp [initialized_step, hfresh, hinit]
          obtain ⟨hrun, heffects⟩ := ih hnext
          simp [Operation.firstInitOnly, run_cons, effects, hinit, hreply,
            hrun, heffects]

/-- In a run from a fresh board, an initialization is refused if and only if
there was one before it.  A refused one logs nothing and leaves the board as
it was; the first one sets the guard, which nothing else does.  The effects of
the other operations are those of the run without the refused ones. -/
theorem init_refused_after_first
    (sysreg wdt : BlockMemory) (operations : List Operation) :
    let start : Board := ⟨sysreg, wdt, false⟩
    (∀ before operation after, operations = before ++ operation :: after →
      let board := start.run before
      let effect := board.step operation
      start.effects operations =
          start.effects before ++ effect :: effect.board.effects after ∧
        (∀ config, operation = .init config →
          ((∃ earlier, .init earlier ∈ before) →
            effect = ⟨.fault .initializedTwice, [], board⟩) ∧
          ((∀ earlier, .init earlier ∉ before) →
            (∃ clocks, effect.reply = .clocks clocks) ∨
              (∃ error, effect.reply = .timedOut error) ∨
              effect.reply = .fault .endlessWait) ∧
          effect.board.initialized = true) ∧
        ((∀ config, operation ≠ .init config) →
          effect.board.initialized = board.initialized)) ∧
    Fault.initializedTwice.message = "rcc: init() called twice" ∧
    start.run (Operation.firstInitOnly operations) = start.run operations ∧
    start.effects (Operation.firstInitOnly operations) =
      (start.effects operations).filter
        fun effect => effect.reply ≠ .fault .initializedTwice := by
  intro start
  have hfresh : start.initialized = false := rfl
  obtain ⟨hrun, heffects⟩ := run_firstInitOnly hfresh operations
  refine ⟨?_, rfl, hrun, heffects⟩
  rintro before operation after rfl board effect
  have hguard : board.initialized = before.any Operation.isInit := by
    rw [initialized_run, hfresh, Bool.false_or]
  refine ⟨start.effects_append before (operation :: after), ?_, ?_⟩
  · rintro config rfl
    refine ⟨?_, ?_, ?_⟩
    · intro hearlier
      have hset : board.initialized = true :=
        hguard.trans (Operation.any_isInit_iff.mpr hearlier)
      exact step_init_of_initialized hset config
    · intro hnone
      have hclear : board.initialized = false := by
        rw [hguard, ← Bool.not_eq_true, Operation.any_isInit_iff]
        rintro ⟨earlier, hmem⟩
        exact hnone earlier hmem
      exact (step_init_of_fresh hclear config).2
    · exact (board.initialized_step _).trans (Bool.or_true _)
  · intro hother
    have hnot : operation.isInit = false := by
      rw [← Bool.not_eq_true, Operation.isInit_iff]
      rintro ⟨config, hconfig⟩
      exact hother config hconfig
    rw [show effect = board.step operation from rfl, initialized_step, hnot,
      Bool.or_false]

theorem init_refused_after_first_boot :
    let first : Config := ⟨⟨100000000⟩, .iterations 1⟩
    let locks : Operation := .poke .sysreg (Block.wordAt 0x150) 3
    let retried := boot.run [.enable, .init first, locks]
    let tried := (boot.run [.enable]).step (.init first)
    ((∃ clocks, tried.reply = .clocks clocks) ∨
        (∃ error, tried.reply = .timedOut error) ∨
        tried.reply = .fault .endlessWait) ∧
      retried.initialized = true ∧
      retried.step (.init .standard) =
        ⟨.fault .initializedTwice, [], retried⟩ := by
  intro first locks retried tried
  obtain ⟨hposition, -⟩ := init_refused_after_first .zero .zero
    [.enable, .init first, locks, .init .standard]
  obtain ⟨-, hfirst, -⟩ :=
    hposition [.enable] (.init first) [locks, .init .standard] rfl
  obtain ⟨-, -, hkept⟩ :=
    hposition [.enable, .init first] locks [.init .standard] rfl
  obtain ⟨-, hlast, -⟩ :=
    hposition [.enable, .init first, locks] (.init .standard) [] rfl
  obtain ⟨-, hanswer, hset⟩ := hfirst first rfl
  obtain ⟨hrefused, -, -⟩ := hlast .standard rfl
  refine ⟨hanswer (by simp), ?_, hrefused ⟨first, by simp⟩⟩
  exact (hkept (by simp [locks])).trans hset

end Board

end MssClock
