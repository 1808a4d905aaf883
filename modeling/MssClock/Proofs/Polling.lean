import MssClock.Poll
import Mathlib.Data.Nat.Find
import Mathlib.Order.Bounds.Defs

/-!
# Waits as searches for a least evaluation

The evaluations of a stateful condition are numbered from zero, each one made
on the state that the one before it left.  A wait looks for the least
evaluation that holds, and three things can end it: that evaluation, its
bound, or the patience of the run.  `WaitEnd` says which of them it is without
running the search; exactly one of them always applies.

Patience aside, a limited wait always ends, and an unlimited one if and only if
some evaluation holds.  How many evaluations were made can be told from the
state alone if the condition counts them.
-/

namespace MssClock

section Evaluations

variable {σ : Type} (condition : σ → Bool × σ)

/-- The state after `k` evaluations. -/
def stateAfter : Nat → σ → σ
  | 0, state => state
  | k + 1, state => stateAfter k (condition state).2

/-- The numbers of the evaluations that hold. -/
def holding (state : σ) : Set Nat :=
  {k | (condition (stateAfter condition k state)).1 = true}

variable {condition} {state : σ} {k tries : Nat}

theorem holding_succ :
    k + 1 ∈ holding condition state ↔
      k ∈ holding condition (condition state).2 :=
  Iff.rfl

/-- A condition that holds only later fails now, and the search goes on from
the next state. -/
theorem isLeast_holding_next
    (hleast : IsLeast (holding condition state) (k + 1)) :
    (condition state).1 = false ∧
      IsLeast (holding condition (condition state).2) k := by
  refine ⟨?_, holding_succ.mp hleast.1, ?_⟩
  · by_contra hholds
    rw [Bool.not_eq_false] at hholds
    have hle : k + 1 ≤ 0 := hleast.2 hholds
    omega
  · intro j hj
    have hle : k + 1 ≤ j + 1 := hleast.2 (holding_succ.mpr hj)
    omega

theorem search_of_isLeast
    (hleast : IsLeast (holding condition state) k) (htries : k < tries)
    (count : Nat) :
    search condition tries count state =
      (true, count + (k + 1), stateAfter condition (k + 1) state) := by
  induction k generalizing tries count state with
  | zero =>
      obtain ⟨tries, rfl⟩ : ∃ t, tries = t + 1 := ⟨tries - 1, by omega⟩
      have hholds : (condition state).1 = true := hleast.1
      cases hstep : condition state with
      | mk answer next =>
          rw [hstep] at hholds
          subst hholds
          simp [search, stateAfter, hstep]
  | succ k ih =>
      obtain ⟨tries, rfl⟩ : ∃ t, tries = t + 1 := ⟨tries - 1, by omega⟩
      obtain ⟨hfails, hnext⟩ := isLeast_holding_next hleast
      have hrest := ih hnext (by omega : k < tries) (count + 1)
      rw [stateAfter]
      cases hstep : condition state with
      | mk answer next =>
          rw [hstep] at hfails hrest
          subst hfails
          simp only [search, hstep]
          rw [hrest, Nat.add_right_comm count 1, Nat.add_assoc count]

theorem search_of_forall_notMem
    (hnone : ∀ k < tries, k ∉ holding condition state) (count : Nat) :
    search condition tries count state =
      (false, count + tries, stateAfter condition tries state) := by
  induction tries generalizing count state with
  | zero => rfl
  | succ tries ih =>
      have hfails : (condition state).1 = false := by
        rw [← Bool.not_eq_true]
        exact hnone 0 (by omega)
      have hrest := ih
        (fun k hk => hnone (k + 1) (by omega)) (count + 1)
      rw [stateAfter]
      cases hstep : condition state with
      | mk answer next =>
          rw [hstep] at hfails hrest
          subst hfails
          simp only [search, hstep]
          rw [hrest, Nat.add_right_comm count 1, Nat.add_assoc count]

end Evaluations

/-- The result of a wait, and the number of evaluations it makes, when
`holding` are the evaluations that would hold. -/
inductive WaitEnd (holding : Set Nat) (bound : Option Nat) (patience : Nat) :
    WaitResult → Nat → Prop where
  | ready {k : Nat} (hleast : IsLeast holding k)
      (hbound : ∀ n ∈ bound, k < n) (hpatience : k < patience) :
      WaitEnd holding bound patience .ready (k + 1)
  | expired {n : Nat} (hbound : bound = some n)
      (hnone : ∀ k < n, k ∉ holding) (hpatience : n ≤ patience) :
      WaitEnd holding bound patience .expired n
  | pending (hbound : ∀ n ∈ bound, patience < n)
      (hnone : ∀ k < patience, k ∉ holding) :
      WaitEnd holding bound patience .pending patience

/-- Of the evaluations that hold, one is the first. -/
theorem exists_isLeast_le {holding : Set Nat} {k : Nat} (hk : k ∈ holding) :
    ∃ first ≤ k, IsLeast holding first := by
  classical
  have hmem : ∃ k, k ∈ holding := ⟨k, hk⟩
  exact ⟨Nat.find hmem, Nat.find_min' hmem hk, Nat.find_spec hmem,
    fun _ hj => Nat.find_min' hmem hj⟩

theorem exists_waitEnd
    (holding : Set Nat) (bound : Option Nat) (patience : Nat) :
    ∃ result evaluations,
      WaitEnd holding bound patience result evaluations := by
  by_cases hex : ∃ k, k ∈ holding ∧ k < triesWithin bound patience
  · obtain ⟨k, hk, hlt⟩ := hex
    obtain ⟨first, hfirst, hleast⟩ := exists_isLeast_le hk
    refine ⟨_, _, .ready hleast ?_ ?_⟩
    · rintro n rfl
      simp only [triesWithin] at hlt
      omega
    · cases bound <;> simp only [triesWithin] at hlt <;> omega
  · have hnone : ∀ k < triesWithin bound patience, k ∉ holding :=
      fun k hk hmem => hex ⟨k, hmem, hk⟩
    cases bound with
    | none => exact ⟨_, _, .pending (by simp) hnone⟩
    | some n =>
        simp only [triesWithin] at hnone
        by_cases hn : n ≤ patience
        · exact ⟨_, _, .expired rfl (fun k hk => hnone k (by omega)) hn⟩
        · refine ⟨_, _, .pending ?_ fun k hk => hnone k (by omega)⟩
          simp only [Option.mem_some_iff, forall_eq']
          omega

theorem WaitEnd.mono
    {holding : Set Nat} {bound : Option Nat} {patience more : Nat}
    {result : WaitResult} {evaluations : Nat}
    (hend : WaitEnd holding bound patience result evaluations)
    (hanswered : result ≠ .pending) (hle : patience ≤ more) :
    WaitEnd holding bound more result evaluations := by
  cases hend with
  | ready hleast hbound hpatience =>
      exact .ready hleast hbound (Nat.lt_of_lt_of_le hpatience hle)
  | expired hbound hnone hpatience =>
      exact .expired hbound hnone (Nat.le_trans hpatience hle)
  | pending => contradiction

theorem waitUntil_of_waitEnd
    {σ : Type} (condition : σ → Bool × σ) (state : σ)
    {bound : Option Nat} {patience : Nat}
    {result : WaitResult} {evaluations : Nat}
    (hend : WaitEnd (holding condition state) bound patience
      result evaluations) :
    waitUntil condition bound patience state =
      ⟨result, evaluations, stateAfter condition evaluations state⟩ := by
  cases hend with
  | @ready k hleast hbound hpatience =>
      have htries : k < triesWithin bound patience := by
        cases bound with
        | none => exact hpatience
        | some n =>
            have hk := hbound n rfl
            simp only [triesWithin]
            omega
      simp [waitUntil, search_of_isLeast hleast htries]
  | expired hbound hnone hpatience =>
      subst hbound
      have htries : triesWithin (some evaluations) patience = evaluations :=
        Nat.min_eq_left hpatience
      simp [waitUntil, htries, search_of_forall_notMem hnone, expiresWithin,
        hpatience]
  | pending hbound hnone =>
      have htries : triesWithin bound patience = patience := by
        cases bound with
        | none => rfl
        | some n => exact Nat.min_eq_right (Nat.le_of_lt (hbound n rfl))
      have hexpires : expiresWithin bound patience = false := by
        cases bound with
        | none => rfl
        | some n => simpa [expiresWithin] using hbound n rfl
      simp [waitUntil, htries, search_of_forall_notMem hnone, hexpires]

/-! ## Waits that end by themselves -/

/-- The condition with a count of its evaluations beside its state. -/
def counting {σ : Type} (condition : σ → Bool × σ) (state : σ × Nat) :
    Bool × (σ × Nat) :=
  ((condition state.1).1, ((condition state.1).2, state.2 + 1))

section Counting

variable {σ : Type} (condition : σ → Bool × σ) (state : σ) (count : Nat)

theorem stateAfter_counting (k : Nat) :
    stateAfter (counting condition) k (state, count) =
      (stateAfter condition k state, count + k) := by
  induction k generalizing state count with
  | zero => rfl
  | succ k ih =>
      calc
        stateAfter (counting condition) (k + 1) (state, count) =
            stateAfter (counting condition) k
              ((condition state).2, count + 1) := rfl
        _ = (stateAfter condition k (condition state).2, count + 1 + k) :=
          ih _ _
        _ = (stateAfter condition (k + 1) state, count + (k + 1)) := by
          rw [stateAfter, Nat.add_assoc, Nat.add_comm 1 k]

theorem holding_counting :
    holding (counting condition) (state, count) = holding condition state := by
  ext k
  change (counting condition
      (stateAfter (counting condition) k (state, count))).1 = true ↔
    (condition (stateAfter condition k state)).1 = true
  rw [stateAfter_counting, counting]

end Counting

namespace PollLimit

section Ends

variable {σ : Type}

/-- A wait under the limit ends like this, however much patience there is
beyond that. -/
def Ends (limit : PollLimit) (condition : σ → Bool × σ) (state : σ)
    (wait : Wait σ) : Prop :=
  wait.result ≠ .pending ∧
    ∃ enough, ∀ patience, enough ≤ patience →
      waitUntil condition limit.bound patience state = wait

variable {condition : σ → Bool × σ} {state : σ} {wait : Wait σ}

theorem ends_iff_waitEnd {limit : PollLimit} :
    limit.Ends condition state wait ↔
      ∃ result patience evaluations, result ≠ .pending ∧
        WaitEnd (holding condition state) limit.bound patience result
          evaluations ∧
        wait = ⟨result, evaluations, stateAfter condition evaluations state⟩ := by
  constructor
  · rintro ⟨hanswered, enough, hwait⟩
    obtain ⟨result, evaluations, hend⟩ :=
      exists_waitEnd (holding condition state) limit.bound enough
    have hsame := hwait enough le_rfl
    rw [waitUntil_of_waitEnd condition state hend] at hsame
    subst hsame
    exact ⟨result, enough, evaluations, hanswered, hend, rfl⟩
  · rintro ⟨result, patience, evaluations, hanswered, hend, rfl⟩
    exact ⟨hanswered, patience, fun more hmore =>
      waitUntil_of_waitEnd condition state (hend.mono hanswered hmore)⟩

theorem ends_iterations_iff {n : UInt32} :
    (iterations n).Ends condition state wait ↔
      (∃ k < n.toNat, IsLeast (holding condition state) k ∧
        wait = ⟨.ready, k + 1, stateAfter condition (k + 1) state⟩) ∨
      ((∀ k < n.toNat, k ∉ holding condition state) ∧
        wait = ⟨.expired, n.toNat, stateAfter condition n.toNat state⟩) := by
  rw [ends_iff_waitEnd]
  constructor
  · rintro ⟨result, patience, evaluations, hanswered, hend, hwait⟩
    cases hend with
    | ready hleast hbound => exact .inl ⟨_, hbound _ rfl, hleast, hwait⟩
    | expired hbound hnone =>
        cases hbound
        exact .inr ⟨hnone, hwait⟩
    | pending => exact absurd rfl hanswered
  · rintro (⟨k, hk, hleast, hwait⟩ | ⟨hnone, hwait⟩)
    · refine ⟨.ready, k + 1, k + 1, by decide, ?_, hwait⟩
      refine .ready hleast ?_ (Nat.lt_succ_self k)
      rintro m ⟨⟩
      exact hk
    · exact ⟨.expired, n.toNat, n.toNat, by decide,
        .expired rfl hnone le_rfl, hwait⟩

theorem ends_forever_iff :
    forever.Ends condition state wait ↔
      ∃ k, IsLeast (holding condition state) k ∧
        wait = ⟨.ready, k + 1, stateAfter condition (k + 1) state⟩ := by
  rw [ends_iff_waitEnd]
  constructor
  · rintro ⟨result, patience, evaluations, hanswered, hend, hwait⟩
    cases hend with
    | ready hleast => exact ⟨_, hleast, hwait⟩
    | expired hbound => cases hbound
    | pending => exact absurd rfl hanswered
  · rintro ⟨k, hleast, hwait⟩
    refine ⟨.ready, k + 1, k + 1, by decide, ?_, hwait⟩
    exact .ready hleast (by rintro n ⟨⟩) (Nat.lt_succ_self k)

theorem Ends.unique {limit : PollLimit} {other : Wait σ}
    (hends : limit.Ends condition state wait)
    (hother : limit.Ends condition state other) : wait = other := by
  obtain ⟨-, enough, hwait⟩ := hends
  obtain ⟨-, more, hother⟩ := hother
  rw [← hwait (max enough more) (le_max_left _ _),
    ← hother (max enough more) (le_max_right _ _)]

/-- A condition that counts its evaluations finds as many as the wait says. -/
theorem Ends.counting {limit : PollLimit}
    (hends : limit.Ends condition state wait) (count : Nat) :
    limit.Ends (MssClock.counting condition) (state, count)
      ⟨wait.result, wait.evaluations,
        (wait.state, count + wait.evaluations)⟩ := by
  rw [ends_iff_waitEnd] at hends ⊢
  obtain ⟨result, patience, evaluations, hanswered, hend, rfl⟩ := hends
  rw [← holding_counting condition state count] at hend
  refine ⟨result, patience, evaluations, hanswered, hend, ?_⟩
  rw [stateAfter_counting]

/-- A wait stops at the first evaluation that holds.  A limited one is ready
if and only if the limit reaches that evaluation, and else has made as many as
the limit allows; an unlimited one ends if and only if there is such an
evaluation, and then it is ready. -/
theorem ends_firstHolding (condition : σ → Bool × σ) (state : σ) :
    (∀ n : UInt32,
      ((∃ wait, (iterations n).Ends condition state wait ∧
          wait.result = .ready) ↔
        ∃ k < n.toNat, k ∈ holding condition state) ∧
      (∀ k < n.toNat, IsLeast (holding condition state) k →
        (iterations n).Ends condition state
          ⟨.ready, k + 1, stateAfter condition (k + 1) state⟩) ∧
      ((∀ k < n.toNat, k ∉ holding condition state) →
        (iterations n).Ends condition state
          ⟨.expired, n.toNat, stateAfter condition n.toNat state⟩)) ∧
    (iterations 0).Ends condition state ⟨.expired, 0, state⟩ ∧
    ((∃ wait, forever.Ends condition state wait) ↔
      ∃ k, k ∈ holding condition state) ∧
    (∀ wait, forever.Ends condition state wait ↔
      ∃ k, IsLeast (holding condition state) k ∧
        wait = ⟨.ready, k + 1, stateAfter condition (k + 1) state⟩) ∧
    (∀ (limit : PollLimit) (wait other : Wait σ),
      limit.Ends condition state wait →
      limit.Ends condition state other → wait = other) ∧
    ∀ (limit : PollLimit) (wait : Wait σ),
      limit.Ends condition state wait → ∀ count,
      limit.Ends (MssClock.counting condition) (state, count)
        ⟨wait.result, wait.evaluations,
          (wait.state, count + wait.evaluations)⟩ := by
  refine ⟨fun n => ⟨⟨?_, ?_⟩, ?_, ?_⟩, ?_, ⟨?_, ?_⟩, ?_, ?_, ?_⟩
  · rintro ⟨wait, hends, hready⟩
    obtain ⟨k, hk, hleast, -⟩ | ⟨-, rfl⟩ := ends_iterations_iff.mp hends
    · exact ⟨k, hk, hleast.1⟩
    · cases hready
  · rintro ⟨k, hk, hholds⟩
    obtain ⟨first, hle, hleast⟩ := exists_isLeast_le hholds
    exact ⟨_, ends_iterations_iff.mpr
      (.inl ⟨first, Nat.lt_of_le_of_lt hle hk, hleast, rfl⟩), rfl⟩
  · intro k hk hleast
    exact ends_iterations_iff.mpr (.inl ⟨k, hk, hleast, rfl⟩)
  · intro hnone
    exact ends_iterations_iff.mpr (.inr ⟨hnone, rfl⟩)
  · exact ends_iterations_iff.mpr
      (.inr ⟨fun k hk => absurd hk (Nat.not_lt_zero k), rfl⟩)
  · rintro ⟨wait, hends⟩
    obtain ⟨k, hleast, -⟩ := ends_forever_iff.mp hends
    exact ⟨k, hleast.1⟩
  · rintro ⟨k, hholds⟩
    obtain ⟨first, -, hleast⟩ := exists_isLeast_le hholds
    exact ⟨_, ends_forever_iff.mpr ⟨first, hleast, rfl⟩⟩
  · intro wait
    exact ends_forever_iff
  · intro limit wait other hends hother
    exact hends.unique hother
  · intro limit wait hends count
    exact hends.counting count

/-- The condition holds at every fourth state, and first at the third
evaluation after state 1. -/
theorem ends_firstHolding_everyFourth :
    let condition := fun state : Nat => (decide (state % 4 = 3), state + 1)
    (iterations 2).Ends condition 1 ⟨.expired, 2, 3⟩ ∧
      (iterations 3).Ends condition 1 ⟨.ready, 3, 4⟩ ∧
      forever.Ends condition 1 ⟨.ready, 3, 4⟩ ∧
      forever.Ends (MssClock.counting condition) (1, 0)
        ⟨.ready, 3, (4, 3)⟩ := by
  intro condition
  have hstate : ∀ k state, stateAfter condition k state = state + k := by
    intro k
    induction k with
    | zero => exact fun state => rfl
    | succ k ih =>
        intro state
        rw [stateAfter, ih]
        exact Nat.succ_add_eq_add_succ state k
  have hholds : ∀ k, k ∈ holding condition 1 ↔ (1 + k) % 4 = 3 := by
    intro k
    change (condition (stateAfter condition k 1)).1 = true ↔ _
    rw [hstate]
    exact decide_eq_true_iff
  have hearly : ∀ k < 2, k ∉ holding condition 1 := by
    intro k hk
    rw [hholds]
    omega
  have hfirst : IsLeast (holding condition 1) 2 := by
    refine ⟨(hholds 2).mpr rfl, fun k hk => ?_⟩
    by_contra hlt
    exact hearly k (by omega) hk
  obtain ⟨hlimited, -, -, hforever, -, hcounted⟩ :=
    ends_firstHolding condition 1
  have hwait : forever.Ends condition 1 ⟨.ready, 3, 4⟩ :=
    (hforever _).mpr ⟨2, hfirst, rfl⟩
  exact ⟨(hlimited 2).2.2 hearly, (hlimited 3).2.1 2 (by decide) hfirst,
    hwait, hcounted forever _ hwait 0⟩

end Ends

end PollLimit

end MssClock
