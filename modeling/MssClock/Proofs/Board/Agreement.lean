import MssClock.Proofs.Board.BringUp
import MssClock.Proofs.Clock.Learning
import MssClock.Board.Operation

/-!
# A board and a register file

A board and a register file with the same control words, of which the file
shows the board's status word at every poll, cannot be told apart by bring-up
and learning.  Calls of both may follow one another in any number and order.
The board answers an unlimited bring-up after two polls at the latest, since
its status does not change; the file is only asked to have that much patience.
-/

namespace MssClock

inductive ClockCall where
  | bringUp (limit : PollLimit)
  | learn (sysref : Hertz)
  deriving DecidableEq, Repr

namespace ClockCall

def operation : ClockCall → Operation
  | .bringUp limit => .bringUp limit
  | .learn sysref => .learn sysref

def patience : ClockCall → Nat
  | .bringUp limit => Board.patience limit
  | .learn _ => 0

section Serving

variable {σ : Type} [ClockBank σ]

/-- The reply to the call and the session it was served in. -/
def serve (patience : Nat) (bank : σ) : ClockCall → Reply × Session σ
  | .bringUp limit =>
      let (result, session) := (Session.start bank).bringUp limit patience
      (result.reply, session)
  | .learn sysref =>
      let (clocks, session) := (Session.start bank).learn sysref
      (.clocks clocks, session)

def serveAll (patience : Nat) : σ → List ClockCall → List (Reply × Session σ)
  | _, [] => []
  | bank, call :: rest =>
      let served := call.serve patience bank
      served :: serveAll patience served.2.bank rest

end Serving

end ClockCall

namespace RegisterFile

variable {file final : RegisterFile}

theorem locking_of_constant
    (file : RegisterFile) (hconstant : ∀ j k, file.status j = file.status k)
    {pll : Pll} {j : Nat} (hj : j ∈ file.locking pll) (k : Nat) :
    k ∈ file.locking pll := by
  have hbit : (file.status (file.position + j)).bit pll.lockBit = true := hj
  rwa [hconstant _ (file.position + k)] at hbit

/-- With enough patience for a limited bring-up no wait of it is pending. -/
theorem Course.ne_pending_of_iterations
    {n : UInt32} {patience : Nat} {result : BringUpResult}
    {accesses : List Access} {records : List Record}
    (hcourse : file.Course (some n.toNat) patience
      result final accesses records)
    (hle : 2 * n.toNat ≤ patience) :
    result ≠ .pending := by
  rintro rfl
  cases hcourse with
  | fabricPending hfabric =>
      cases hfabric with
      | pending hbound _ =>
          have hlt := hbound _ rfl
          omega
  | mpllPending hfabric hmpll =>
      cases hfabric with
      | ready _ hfabricBound _ =>
          cases hmpll with
          | pending hbound _ =>
              have hk := hfabricBound _ rfl
              have hlt := hbound _ rfl
              omega

/-- A status that does not change makes an unlimited bring-up wait on, or has
been seen at the first poll of each wait. -/
theorem Course.exists_pending_of_constant
    (hconstant : ∀ j k, file.status j = file.status k)
    {patience more : Nat} {accesses : List Access} {records : List Record}
    (hcourse : file.Course none patience .pending final accesses records)
    (henough : 2 ≤ patience) (hle : patience ≤ more) :
    ∃ position later,
      file.Course none more .pending { final with position } later
        records := by
  cases hcourse with
  | fabricPending hfabric =>
      cases hfabric with
      | pending _ hnone =>
          have hnever : ∀ k < more, k ∉ file.locking .fabric := by
            intro k _ hk
            exact hnone 0 (by omega) (file.locking_of_constant hconstant hk 0)
          exact ⟨file.position + more, _,
            .fabricPending (.pending (by simp) hnever)⟩
  | mpllPending hfabric hmpll =>
      cases hfabric with
      | @ready k hleast _ hpatience =>
          have hfirst : 0 ∈ file.locking .fabric :=
            file.locking_of_constant hconstant hleast.1 0
          obtain rfl : k = 0 := Nat.le_zero.mp (hleast.2 hfirst)
          let unlocked := file.afterLock .fabric 1
          cases hmpll with
          | pending _ hnone =>
              have hnever : ∀ k < more - 1, k ∉ unlocked.locking .mpll := by
                intro k _ hk
                exact hnone 0 (by omega)
                  (unlocked.locking_of_constant hconstant hk 0)
              have hlater : file.Course none more .pending
                  (unlocked.afterLock .mpll (more - 1))
                  (file.lockPhase .fabric 1 ++
                    unlocked.lockPhase .mpll (more - 1))
                  [.fabricPllLocked] :=
                .mpllPending (.ready hleast (by simp) (by omega))
                  (.pending (by simp) hnever)
              exact ⟨file.position + 1 + (more - 1), _, hlater⟩

theorem Course.exists_of_constant
    {limit : PollLimit} {more : Nat} {result : BringUpResult}
    {accesses : List Access} {records : List Record}
    (hconstant : ∀ j k, file.status j = file.status k)
    (hcourse : file.Course limit.bound (Board.patience limit)
      result final accesses records)
    (hle : Board.patience limit ≤ more) :
    ∃ position later,
      file.Course limit.bound more result { final with position } later
        records := by
  by_cases hanswered : result = .pending
  · subst hanswered
    cases limit with
    | iterations n =>
        exact absurd rfl (hcourse.ne_pending_of_iterations le_rfl)
    | forever =>
        exact hcourse.exists_pending_of_constant hconstant le_rfl hle
  · exact ⟨final.position, accesses, hcourse.mono hanswered hle⟩

end RegisterFile

namespace Board

/-- One call on either side.  The replies and records are the same, and
afterwards the board holds what the file holds; the words that no call stores
into are still those of `initial`. -/
structure Agrees (initial : Board) (effect : Effect)
    (served : Reply × Session RegisterFile) : Prop where
  reply : effect.reply = served.1
  records : effect.records = served.2.records.toList
  facc1 : effect.board.word .sysreg (Block.wordAt 0x098) =
    served.2.bank.facc1
  pllLow : effect.board.word .sysreg (Block.wordAt 0x090) =
    served.2.bank.pllLow
  pllHigh : effect.board.word .sysreg (Block.wordAt 0x094) =
    served.2.bank.pllHigh
  rest : ∀ block index,
    (block, index) ≠ (.sysreg, Block.wordAt 0x098) →
    (block, index) ≠ (.sysreg, Block.wordAt 0x094) →
      effect.board.word block index = initial.word block index

variable {initial board : Board} {file : RegisterFile} {patience : Nat}

theorem Mirrors.agrees
    {reply : Reply} {records : List Record} {served : Session RegisterFile}
    (hmirrors : initial.Mirrors board served.bank)
    (hrecords : records = served.records.toList) :
    initial.Agrees ⟨reply, records, board⟩ (reply, served) :=
  ⟨rfl, hrecords, hmirrors.facc1, hmirrors.pllLow, hmirrors.pllHigh,
    hmirrors.rest⟩

theorem Mirrors.bringUp
    {limit : PollLimit} (hmirrors : initial.Mirrors board file)
    (hle : Board.patience limit ≤ patience) :
    let outcome := board.bringUp limit
    let served := (Session.start file).bringUp limit patience
    outcome.1 = served.1 ∧
      outcome.2.records.toList = served.2.records.toList ∧
      initial.Mirrors outcome.2.bank served.2.bank := by
  intro outcome served
  have hconstant : ∀ j k, file.status j = file.status k :=
    fun j k => (hmirrors.status j).symm.trans (hmirrors.status k)
  obtain ⟨result, final, accesses, records, hcourse⟩ :=
    file.exists_course limit.bound (Board.patience limit)
  obtain ⟨hresult, hrecords, hend⟩ := hmirrors.bringUp_of_course hcourse
  obtain ⟨position, later, hlater⟩ := hcourse.exists_of_constant hconstant hle
  have hserved : served = (result, (Session.start file).extend
      { final with position } later records) :=
    Session.bringUpWithin_of_course (Session.start file) hlater
  rw [hserved]
  refine ⟨hresult, ?_, { hend with }⟩
  rw [hrecords]
  simp [Session.extend, Session.start]

theorem Mirrors.learn
    (hmirrors : initial.Mirrors board file) (sysref : Hertz) :
    let outcome := board.learn sysref
    let served := (Session.start file).learn sysref
    outcome.1 = served.1 ∧ outcome.2.records = served.2.records ∧
      initial.Mirrors outcome.2.bank served.2.bank := by
  have hfacc1 : ClockBank.facc1 board = ClockBank.facc1 file := hmirrors.facc1
  have hlow : ClockBank.pllLow board = ClockBank.pllLow file := hmirrors.pllLow
  have hhigh : ClockBank.pllHigh board = ClockBank.pllHigh file :=
    hmirrors.pllHigh
  unfold Board.learn
  simp only [Session.learn_eq_extend, Session.start, Session.extend, hfacc1,
    hlow, hhigh]
  exact ⟨trivial, trivial, hmirrors⟩

theorem Mirrors.step
    (hmirrors : initial.Mirrors board file) {call : ClockCall}
    (hle : call.patience ≤ patience) :
    let effect := board.step call.operation
    let served := call.serve patience file
    initial.Agrees effect served ∧
      initial.Mirrors effect.board served.2.bank := by
  cases call with
  | bringUp limit =>
      obtain ⟨hresult, hrecords, hend⟩ := hmirrors.bringUp hle
      simp only [ClockCall.operation, Board.step, ClockCall.serve, ← hresult]
      exact ⟨hend.agrees hrecords, hend⟩
  | learn sysref =>
      obtain ⟨hclocks, hrecords, hend⟩ := hmirrors.learn sysref
      simp only [ClockCall.operation, Board.step, ClockCall.serve, ← hclocks]
      exact ⟨hend.agrees (congrArg Array.toList hrecords), hend⟩

theorem Mirrors.effects
    (hmirrors : initial.Mirrors board file) {calls : List ClockCall}
    (hle : ∀ call ∈ calls, call.patience ≤ patience) :
    List.Forall₂ initial.Agrees
      (board.effects (calls.map ClockCall.operation))
      (ClockCall.serveAll patience file calls) := by
  induction calls generalizing board file with
  | nil => exact .nil
  | cons call rest ih =>
      obtain ⟨hagrees, hnext⟩ := hmirrors.step (hle call List.mem_cons_self)
      exact .cons hagrees
        (ih hnext fun later hlater => hle later (List.mem_cons_of_mem _ hlater))

/-- Whatever the board holds, and whatever is called, returning or not: with
enough patience the register file with the same words serves every call as
the board does, and both hold the same words after each of them. -/
theorem calls_agree (board : Board) (position : Nat) (calls : List ClockCall) :
    let file : RegisterFile :=
      { facc1 := board.word .sysreg (Block.wordAt 0x098)
        pllLow := board.word .sysreg (Block.wordAt 0x090)
        pllHigh := board.word .sysreg (Block.wordAt 0x094)
        status := fun _ => board.word .sysreg (Block.wordAt 0x150)
        position }
    ∃ enough, ∀ patience, enough ≤ patience →
      List.Forall₂ board.Agrees
        (board.effects (calls.map ClockCall.operation))
        (ClockCall.serveAll patience file calls) := by
  intro file
  have hmirrors : board.Mirrors board file :=
    { board.mirrors_registerFile with }
  have hpatience : ∃ enough, ∀ call ∈ calls, call.patience ≤ enough := by
    induction calls with
    | nil => exact ⟨0, by simp⟩
    | cons call rest ih =>
        obtain ⟨enough, hrest⟩ := ih
        refine ⟨max call.patience enough, ?_⟩
        intro other hmem
        rcases List.mem_cons.mp hmem with rfl | hlater
        · exact le_max_left _ _
        · exact (hrest other hlater).trans (le_max_right _ _)
  obtain ⟨enough, henough⟩ := hpatience
  refine ⟨enough, fun patience hle => hmirrors.effects ?_⟩
  intro call hmem
  exact (henough call hmem).trans hle

end Board

end MssClock
