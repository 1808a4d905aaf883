import MssClock.Proofs.BringUp.Outcome
import MssClock.Proofs.BringUp.Trace
import Mathlib.Order.Bounds.Basic

/-!
# Limited and unlimited bring-up

Without a limit a bring-up can only end by success, and it does so exactly
when some limit would have been large enough.  The polls that it makes in its
two waits are the threshold: each wait has the whole limit for itself, so the
larger of the two numbers decides.  Limits are natural numbers here; those of
`PollLimit` are the ones that fit a word.
-/

namespace MssClock

namespace Session

/-- The bring-up returns, however much patience there is beyond that. -/
def Returns (session : Session RegisterFile) (bound : Option Nat)
    (result : BringUpResult) (final : Session RegisterFile) : Prop :=
  result ≠ .pending ∧
    ∃ enough, ∀ patience, enough ≤ patience →
      session.bringUpWithin bound patience = (result, final)

variable {session final : Session RegisterFile} {bound : Option Nat}
  {result : BringUpResult}

theorem Returns.of_course
    {patience : Nat} {file : RegisterFile}
    {accesses : List Access} {records : List Record}
    (hcourse : session.bank.Course bound patience
      result file accesses records)
    (hanswered : result ≠ .pending) :
    session.Returns bound result (session.extend file accesses records) :=
  ⟨hanswered, patience, fun _ hle =>
    bringUpWithin_of_course session (hcourse.mono hanswered hle)⟩

theorem Returns.exists_course
    (hreturns : session.Returns bound result final) :
    ∃ patience file accesses records,
      session.bank.Course bound patience result file accesses records ∧
        final = session.extend file accesses records := by
  obtain ⟨-, enough, heq⟩ := hreturns
  obtain ⟨other, file, accesses, records, hcourse⟩ :=
    session.bank.exists_course bound enough
  have hpair := (heq enough le_rfl).symm.trans
    (bringUpWithin_of_course session hcourse)
  obtain ⟨rfl, hfinal⟩ := Prod.mk.inj hpair
  exact ⟨enough, file, accesses, records, hcourse, hfinal⟩

/-- Poll `k₁` is the first to show the fabric PLL locked, and poll `k₂` after
it the first to show the PLL locked. -/
structure LocksAt (session : Session RegisterFile) (k₁ k₂ : Nat) :
    Prop where
  fabric : IsLeast (session.bank.locking .fabric) k₁
  mpll : IsLeast
    ((session.bank.afterLock .fabric (k₁ + 1)).locking .mpll) k₂

def afterRunning (session : Session RegisterFile) (k₁ k₂ : Nat) :
    Session RegisterFile :=
  let fabricDone := session.bank.afterLock .fabric (k₁ + 1)
  let mpllDone := fabricDone.afterLock .mpll (k₂ + 1)
  session.extend mpllDone.afterMux
    (session.bank.lockPhase .fabric (k₁ + 1) ++
      fabricDone.lockPhase .mpll (k₂ + 1) ++ mpllDone.muxPhase)
    [.fabricPllLocked, .mpllLocked, .mpllRunning]

variable {k₁ k₂ m₁ m₂ : Nat}

theorem LocksAt.unique
    (hlocks : session.LocksAt k₁ k₂) (hother : session.LocksAt m₁ m₂) :
    k₁ = m₁ ∧ k₂ = m₂ := by
  have hfabric : k₁ = m₁ := hlocks.fabric.unique hother.fabric
  subst hfabric
  exact ⟨rfl, hlocks.mpll.unique hother.mpll⟩

theorem returns_running_iff :
    session.Returns bound .running final ↔
      ∃ k₁ k₂, session.LocksAt k₁ k₂ ∧
        (∀ n ∈ bound, k₁ < n ∧ k₂ < n) ∧
        final = session.afterRunning k₁ k₂ := by
  constructor
  · intro hreturns
    obtain ⟨patience, file, accesses, records, hcourse, rfl⟩ :=
      hreturns.exists_course
    cases hcourse with
    | running hfabric hmpll =>
        cases hfabric with
        | @ready k₁ hfabric hfabricBound _ =>
            cases hmpll with
            | @ready k₂ hmpll hmpllBound _ =>
                exact ⟨k₁, k₂, ⟨hfabric, hmpll⟩,
                  fun n hn => ⟨hfabricBound n hn, hmpllBound n hn⟩, rfl⟩
  · rintro ⟨k₁, k₂, hlocks, hbound, rfl⟩
    exact .of_course
      (RegisterFile.course_running hlocks.fabric hlocks.mpll hbound le_rfl)
      (by decide)

/-- Without a limit no wait expires, so that success is the only answer. -/
theorem Returns.running_of_forever
    (hreturns : session.Returns none result final) :
    result = .running := by
  obtain ⟨patience, file, accesses, records, hcourse, -⟩ :=
    hreturns.exists_course
  cases hcourse with
  | fabricTimeout hfabric => cases hfabric with | expired hbound => cases hbound
  | mpllTimeout _ hmpll => cases hmpll with | expired hbound => cases hbound
  | fabricPending | mpllPending => exact absurd rfl hreturns.1
  | running => rfl

theorem waits_afterRunning (file : RegisterFile) (k₁ k₂ : Nat) :
    Access.waits ((start file).afterRunning k₁ k₂).accesses.toList =
      [file.statuses (k₁ + 1),
        (file.afterLock .fabric (k₁ + 1)).statuses (k₂ + 1)] := by
  simp only [afterRunning, start, extend, Array.toList_append,
    List.nil_append]
  rw [Access.waits_append _ rfl, RegisterFile.waits_lockPhases]
  rfl

theorem LocksAt.returns_fabricTimeout
    {n : Nat} (hlocks : session.LocksAt k₁ k₂) (hn : n < k₁ + 1) :
    session.Returns (some n) (.timedOut .fabricPllLockTimeout)
      (session.extend (session.bank.afterLock .fabric n)
        (session.bank.lockPhase .fabric n) [.fabricPllNotLocked]) := by
  refine .of_course
    (RegisterFile.course_fabricTimeout ?_ le_rfl) (by decide)
  intro k hk hlocked
  have hle : k₁ ≤ k := hlocks.fabric.2 hlocked
  omega

theorem LocksAt.returns_mpllTimeout
    {n : Nat} (hlocks : session.LocksAt k₁ k₂)
    (hfabric : k₁ + 1 ≤ n) (hn : n < k₂ + 1) :
    session.Returns (some n) (.timedOut .mpllLockTimeout)
      (session.extend
        ((session.bank.afterLock .fabric (k₁ + 1)).afterLock .mpll n)
        (session.bank.lockPhase .fabric (k₁ + 1) ++
          (session.bank.afterLock .fabric (k₁ + 1)).lockPhase .mpll n)
        [.fabricPllLocked, .mpllNotLocked]) := by
  refine .of_course
    (RegisterFile.course_mpllTimeout hlocks.fabric hfabric ?_ le_rfl)
    (by decide)
  intro k hk hlocked
  have hle : k₂ ≤ k := hlocks.mpll.2 hlocked
  omega

/-- A limited bring-up refines the unlimited one.  The unlimited one returns
if and only if some limit is large enough for success.  If it makes the polls
`fabric` and `mpll` in its waits, the limits that suffice are those not below
either number, and they all lead to the same session; smaller limits stop
within the accesses of the unlimited bring-up. -/
theorem bounded_refines_forever (file : RegisterFile) :
    let session := Session.start file
    ((∃ result final, session.Returns none result final) ↔
      ∃ n final, session.Returns (some n) .running final) ∧
    (∀ result final, session.Returns none result final →
      result = .running ∧
        ∃ fabric mpll,
          Access.waits final.accesses.toList = [fabric, mpll]) ∧
    ∀ result final fabric mpll,
      session.Returns none result final →
      Access.waits final.accesses.toList = [fabric, mpll] →
      ∀ n,
        ((∃ other, session.Returns (some n) .running other) ↔
          max fabric.length mpll.length ≤ n) ∧
        (max fabric.length mpll.length ≤ n →
          session.Returns (some n) .running final) ∧
        (n < fabric.length →
          ∃ early, session.Returns (some n)
              (.timedOut .fabricPllLockTimeout) early ∧
            early.accesses.toList <+: final.accesses.toList) ∧
        (fabric.length ≤ n → n < mpll.length →
          ∃ early, session.Returns (some n)
              (.timedOut .mpllLockTimeout) early ∧
            early.accesses.toList <+: final.accesses.toList) := by
  intro session
  refine ⟨⟨?_, ?_⟩, ?_, ?_⟩
  · rintro ⟨result, final, hreturns⟩
    obtain rfl := hreturns.running_of_forever
    obtain ⟨k₁, k₂, hlocks, -, rfl⟩ := returns_running_iff.mp hreturns
    refine ⟨k₁ + k₂ + 1, _, returns_running_iff.mpr
      ⟨k₁, k₂, hlocks, ?_, rfl⟩⟩
    simp only [Option.mem_some_iff, forall_eq']
    omega
  · rintro ⟨n, final, hreturns⟩
    obtain ⟨k₁, k₂, hlocks, -, rfl⟩ := returns_running_iff.mp hreturns
    exact ⟨_, _, returns_running_iff.mpr ⟨k₁, k₂, hlocks, by simp, rfl⟩⟩
  · intro result final hreturns
    obtain rfl := hreturns.running_of_forever
    obtain ⟨k₁, k₂, hlocks, -, rfl⟩ := returns_running_iff.mp hreturns
    exact ⟨rfl, _, _, waits_afterRunning file k₁ k₂⟩
  · intro result final fabric mpll hreturns hwaits n
    obtain rfl := hreturns.running_of_forever
    obtain ⟨k₁, k₂, hlocks, -, rfl⟩ := returns_running_iff.mp hreturns
    rw [waits_afterRunning] at hwaits
    obtain ⟨rfl, rfl⟩ : file.statuses (k₁ + 1) = fabric ∧
        (file.afterLock .fabric (k₁ + 1)).statuses (k₂ + 1) = mpll := by
      simpa using hwaits
    simp only [RegisterFile.length_statuses, Nat.max_le]
    have henough : k₁ + 1 ≤ n ∧ k₂ + 1 ≤ n →
        session.Returns (some n) .running (session.afterRunning k₁ k₂) := by
      intro hn
      refine returns_running_iff.mpr ⟨k₁, k₂, hlocks, ?_, rfl⟩
      simp only [Option.mem_some_iff, forall_eq']
      exact hn
    refine ⟨⟨?_, fun hn => ⟨_, henough hn⟩⟩, henough, ?_, ?_⟩
    · rintro ⟨other, hother⟩
      obtain ⟨m₁, m₂, hother, hbound, -⟩ := returns_running_iff.mp hother
      obtain ⟨rfl, rfl⟩ := hlocks.unique hother
      exact hbound n rfl
    · intro hn
      refine ⟨_, hlocks.returns_fabricTimeout hn, ?_⟩
      have hphase := file.lockPhase_isPrefix_of_le .fabric hn.le
      simpa [session, afterRunning, extend, start] using
        hphase.trans (List.prefix_append _ _)
    · intro hfabric hn
      refine ⟨_, hlocks.returns_mpllTimeout hfabric hn, ?_⟩
      have hphase := (file.afterLock .fabric (k₁ + 1)).lockPhase_isPrefix_of_le
        .mpll hn.le
      simpa [session, afterRunning, extend, start] using
        hphase.trans (List.prefix_append _ _)

theorem bounded_refines_forever_lateLocks :
    let session := Session.start RegisterFile.lateLocks
    let final := session.afterRunning 2 4
    let fabric := RegisterFile.lateLocks.statuses 3
    let mpll := (RegisterFile.lateLocks.afterLock .fabric 3).statuses 5
    session.Returns none .running final ∧
      Access.waits final.accesses.toList = [fabric, mpll] ∧
      session.Returns (some 5) .running final ∧
      ¬(∃ other, session.Returns (some 4) .running other) ∧
      ∃ early, session.Returns (some 2)
          (.timedOut .fabricPllLockTimeout) early ∧
        early.accesses.toList <+: final.accesses.toList := by
  intro session final fabric mpll
  have hlocks : session.LocksAt 2 4 :=
    ⟨RegisterFile.isLeast_lateLocks_fabric,
      RegisterFile.isLeast_lateLocks_mpll⟩
  have hreturns : session.Returns none .running final :=
    returns_running_iff.mpr ⟨2, 4, hlocks, by simp, rfl⟩
  have hwaits : Access.waits final.accesses.toList = [fabric, mpll] :=
    waits_afterRunning _ 2 4
  have hbounded := (bounded_refines_forever RegisterFile.lateLocks).2.2
    .running final fabric mpll hreturns hwaits
  refine ⟨hreturns, hwaits, (hbounded 5).2.1 (by decide), ?_,
    (hbounded 2).2.2.1 (by decide)⟩
  rw [(hbounded 4).1]
  decide

end Session

end MssClock
