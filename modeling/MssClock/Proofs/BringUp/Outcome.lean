import MssClock.Proofs.BringUp.Course

/-!
# Answer and poll count of a bring-up

The answer of a bring-up depends on two numbers only: how many polls the
fabric PLL takes to lock, and how many polls the PLL takes after that.  The
poll that shows the first lock is spent on it, so the second count starts at
the next poll.  Every answer below holds for all patience that reaches the
last poll made; the polls are counted by the position they leave the status
sequence at.
-/

namespace MssClock

namespace RegisterFile

variable {file : RegisterFile} {n k₁ k₂ : Nat} {bound : Option Nat}
  {patience : Nat}

theorem course_fabricTimeout
    (hnone : ∀ k < n, k ∉ file.locking .fabric) (hpatience : n ≤ patience) :
    file.Course (some n) patience (.timedOut .fabricPllLockTimeout)
      (file.afterLock .fabric n) (file.lockPhase .fabric n)
      [.fabricPllNotLocked] :=
  .fabricTimeout (.expired rfl hnone hpatience)

theorem course_mpllTimeout
    (hfabric : IsLeast (file.locking .fabric) k₁) (hk₁ : k₁ < n)
    (hnone : ∀ k < n,
      k ∉ (file.afterLock .fabric (k₁ + 1)).locking .mpll)
    (hpatience : k₁ + 1 + n ≤ patience) :
    file.Course (some n) patience (.timedOut .mpllLockTimeout)
      ((file.afterLock .fabric (k₁ + 1)).afterLock .mpll n)
      (file.lockPhase .fabric (k₁ + 1) ++
        (file.afterLock .fabric (k₁ + 1)).lockPhase .mpll n)
      [.fabricPllLocked, .mpllNotLocked] := by
  refine .mpllTimeout (.ready hfabric ?_ (by omega))
    (.expired rfl hnone (by omega))
  simpa using hk₁

theorem course_running
    (hfabric : IsLeast (file.locking .fabric) k₁)
    (hmpll : IsLeast ((file.afterLock .fabric (k₁ + 1)).locking .mpll) k₂)
    (hbound : ∀ n ∈ bound, k₁ < n ∧ k₂ < n)
    (hpatience : k₁ + k₂ + 2 ≤ patience) :
    file.Course bound patience .running
      ((file.afterLock .fabric (k₁ + 1)).afterLock .mpll (k₂ + 1)).afterMux
      (file.lockPhase .fabric (k₁ + 1) ++
        (file.afterLock .fabric (k₁ + 1)).lockPhase .mpll (k₂ + 1) ++
        ((file.afterLock .fabric (k₁ + 1)).afterLock .mpll
          (k₂ + 1)).muxPhase)
      [.fabricPllLocked, .mpllLocked, .mpllRunning] :=
  .running
    (.ready hfabric (fun n hn => (hbound n hn).1) (by omega))
    (.ready hmpll (fun n hn => (hbound n hn).2) (by omega))

/-- The fabric PLL locks at the third poll from here, the PLL at the fifth
one after that. -/
def lateLocks : RegisterFile :=
  ⟨0x1fff, 0, 5, fun n => if n < 3 then 0 else if n < 8 then 1 else 3, 1⟩

theorem isLeast_lateLocks_fabric :
    IsLeast (lateLocks.locking .fabric) 2 := by
  have hnone : ∀ k < 2, ¬(lateLocks.status (1 + k)).bit 0 = true := by
    decide
  refine ⟨rfl, fun k hlocked => ?_⟩
  by_contra hlt
  exact hnone k (by omega) hlocked

theorem isLeast_lateLocks_mpll :
    IsLeast ((lateLocks.afterLock .fabric 3).locking .mpll) 4 := by
  have hnone : ∀ k < 4, ¬(lateLocks.status (1 + 3 + k)).bit 1 = true := by
    decide
  refine ⟨rfl, fun k hlocked => ?_⟩
  by_contra hlt
  exact hnone k (by omega) hlocked

end RegisterFile

namespace Session

/-- With `k₁` the least poll that shows the fabric PLL locked and `k₂` the
least poll after it that shows the PLL locked, a limited bring-up ends in the
first wait that its limit does not reach the lock of, and an unlimited one
ends when both have locked. -/
theorem bringUp_outcome (session : Session RegisterFile) :
    let file := session.bank
    let fabric := {k | (file.status (file.position + k)).bit 0 = true}
    let mpll := fun k₁ =>
      {k | (file.status (file.position + k₁ + 1 + k)).bit 1 = true}
    let fabricDone := fun count => file.afterLock .fabric count
    (∀ (limit : UInt32) (patience : Nat),
      (∀ k < limit.toNat, k ∉ fabric) →
      limit.toNat ≤ patience →
        session.bringUp (.iterations limit) patience =
          (.timedOut .fabricPllLockTimeout,
            session.extend (fabricDone limit.toNat)
              (file.lockPhase .fabric limit.toNat)
              [.fabricPllNotLocked])) ∧
    (∀ (limit : UInt32) (k₁ patience : Nat),
      IsLeast fabric k₁ → k₁ < limit.toNat →
      (∀ k < limit.toNat, k ∉ mpll k₁) →
      k₁ + 1 + limit.toNat ≤ patience →
        session.bringUp (.iterations limit) patience =
          (.timedOut .mpllLockTimeout,
            session.extend
              ((fabricDone (k₁ + 1)).afterLock .mpll limit.toNat)
              (file.lockPhase .fabric (k₁ + 1) ++
                (fabricDone (k₁ + 1)).lockPhase .mpll limit.toNat)
              [.fabricPllLocked, .mpllNotLocked])) ∧
    (∀ (limit : PollLimit) (k₁ k₂ patience : Nat),
      IsLeast fabric k₁ → IsLeast (mpll k₁) k₂ →
      (∀ n, limit = .iterations n → k₁ < n.toNat ∧ k₂ < n.toNat) →
      k₁ + k₂ + 2 ≤ patience →
        let mpllDone := (fabricDone (k₁ + 1)).afterLock .mpll (k₂ + 1)
        session.bringUp limit patience =
          (.running,
            session.extend mpllDone.afterMux
              (file.lockPhase .fabric (k₁ + 1) ++
                (fabricDone (k₁ + 1)).lockPhase .mpll (k₂ + 1) ++
                mpllDone.muxPhase)
              [.fabricPllLocked, .mpllLocked, .mpllRunning])) ∧
    (∀ patience : Nat, (∀ k, k ∉ fabric) →
      session.bringUp .forever patience =
        (.pending,
          session.extend (fabricDone patience)
            (file.lockPhase .fabric patience) [])) ∧
    (∀ k₁ more : Nat, IsLeast fabric k₁ → (∀ k, k ∉ mpll k₁) →
      session.bringUp .forever (k₁ + 1 + more) =
        (.pending,
          session.extend ((fabricDone (k₁ + 1)).afterLock .mpll more)
            (file.lockPhase .fabric (k₁ + 1) ++
              (fabricDone (k₁ + 1)).lockPhase .mpll more)
            [.fabricPllLocked])) := by
  intro file fabric mpll fabricDone
  refine ⟨?_, ?_, ?_, ?_, ?_⟩
  · intro limit patience hnone hpatience
    apply bringUpWithin_of_course
    exact RegisterFile.course_fabricTimeout hnone hpatience
  · intro limit k₁ patience hfabric hk₁ hnone hpatience
    apply bringUpWithin_of_course
    exact RegisterFile.course_mpllTimeout hfabric hk₁ hnone hpatience
  · intro limit k₁ k₂ patience hfabric hmpll hlimit hpatience
    apply bringUpWithin_of_course
    apply RegisterFile.course_running hfabric hmpll ?_ hpatience
    cases limit with
    | forever => simp [PollLimit.bound]
    | iterations n => simpa [PollLimit.bound] using hlimit n rfl
  · intro patience hnone
    apply bringUpWithin_of_course
    exact .fabricPending (.pending (by simp [PollLimit.bound])
      fun k _ => hnone k)
  · intro k₁ more hfabric hnone
    apply bringUpWithin_of_course
    refine .mpllPending
      (.ready hfabric (by simp [PollLimit.bound]) (by omega)) ?_
    rw [Nat.add_sub_cancel_left]
    exact .pending (by simp [PollLimit.bound]) fun k _ => hnone k

theorem bringUp_outcome_lateLocks :
    let session := Session.start RegisterFile.lateLocks
    let status := RegisterFile.lateLocks.status
    let fabric := {k | (status (1 + k)).bit 0 = true}
    let mpll := {k | (status (1 + 2 + 1 + k)).bit 1 = true}
    IsLeast fabric 2 ∧ IsLeast mpll 4 ∧
      (session.bringUp (.iterations 2) 2).1 =
        .timedOut .fabricPllLockTimeout ∧
      (session.bringUp (.iterations 3) 6).1 =
        .timedOut .mpllLockTimeout ∧
      (session.bringUp (.iterations 5) 8).1 = .running ∧
      (session.bringUp .forever 8).2.bank.position = 9 := by
  intro session status fabric mpll
  have hfabric : IsLeast fabric 2 := RegisterFile.isLeast_lateLocks_fabric
  have hmpll : IsLeast mpll 4 := RegisterFile.isLeast_lateLocks_mpll
  have hearly : ∀ k < 2, k ∉ fabric :=
    fun k hk hlocked => Nat.not_le_of_lt hk (hfabric.2 hlocked)
  have hlate : ∀ k < 3, k ∉ mpll := by
    intro k hk hlocked
    have hle : 4 ≤ k := hmpll.2 hlocked
    omega
  have hlimit : ∀ n, PollLimit.iterations 5 = .iterations n →
      2 < n.toNat ∧ 4 < n.toNat := by
    rintro n ⟨⟩
    decide
  obtain ⟨hfabricTimeout, hmpllTimeout, hrunning, -, -⟩ :=
    bringUp_outcome session
  refine ⟨hfabric, hmpll, ?_, ?_, ?_, ?_⟩
  · rw [hfabricTimeout 2 2 hearly (by decide)]
  · rw [hmpllTimeout 3 2 6 hfabric (by decide) hlate (by decide)]
  · rw [hrunning (.iterations 5) 2 4 8 hfabric hmpll hlimit (by decide)]
  · rw [hrunning .forever 2 4 8 hfabric hmpll (by simp) (by decide)]
    rfl

end Session

end MssClock
