import MssClock.Proofs.BringUp.Outcome

/-!
# Contents after a history of bring-ups

Any number of bring-ups may be made one after another on the same register
file, each with a limit of its own.  Every one of them clears bits that it or
another one may have cleared before, and stores nothing else.  So the contents
in the end are told by which answers there have been, and neither by their
order nor by their number.
-/

namespace MssClock

/-- One bring-up of a history, in a session of its own. -/
structure Call where
  limit : PollLimit
  result : BringUpResult
  session : Session RegisterFile

namespace BringUpResult

def pastFabric : BringUpResult → Bool
  | .running | .timedOut .mpllLockTimeout => true
  | .timedOut .fabricPllLockTimeout | .pending => false

/-- Whether a bring-up that ends so clears bit `i` of the control word. -/
def clearsHigh (result : BringUpResult) (i : Nat) : Bool :=
  decide (i = 2) || (decide (i = 0) && result.pastFabric)

def clearsFacc1 (result : BringUpResult) (i : Nat) : Bool :=
  decide (i = 12) && result == .running

theorem pastFabric_iff {result : BringUpResult} :
    result.pastFabric = true ↔
      result = .running ∨ result = .timedOut .mpllLockTimeout := by
  rcases result with _ | ⟨_ | _⟩ | _ <;> simp [pastFabric]

theorem any_clearsHigh_iff {results : List BringUpResult} {i : Nat} :
    results.any (·.clearsHigh i) = true ↔
      (i = 2 ∧ results ≠ []) ∨
        (i = 0 ∧ (.running ∈ results ∨
          .timedOut .mpllLockTimeout ∈ results)) := by
  simp only [List.any_eq_true, clearsHigh, Bool.or_eq_true,
    Bool.and_eq_true, decide_eq_true_eq, pastFabric_iff]
  constructor
  · rintro ⟨result, hmem, hsupply | ⟨hbypass, rfl | rfl⟩⟩
    · exact .inl ⟨hsupply, List.ne_nil_of_mem hmem⟩
    · exact .inr ⟨hbypass, .inl hmem⟩
    · exact .inr ⟨hbypass, .inr hmem⟩
  · rintro (⟨hsupply, hne⟩ | ⟨hbypass, hmem | hmem⟩)
    · obtain ⟨result, hmem⟩ := List.exists_mem_of_ne_nil _ hne
      exact ⟨result, hmem, .inl hsupply⟩
    · exact ⟨_, hmem, .inr ⟨hbypass, .inl rfl⟩⟩
    · exact ⟨_, hmem, .inr ⟨hbypass, .inr rfl⟩⟩

theorem any_clearsFacc1_iff {results : List BringUpResult} {i : Nat} :
    results.any (·.clearsFacc1 i) = true ↔
      i = 12 ∧ .running ∈ results := by
  simp only [List.any_eq_true, clearsFacc1, Bool.and_eq_true,
    decide_eq_true_eq, beq_iff_eq]
  constructor
  · rintro ⟨result, hmem, hmux, rfl⟩
    exact ⟨hmux, hmem⟩
  · rintro ⟨hmux, hmem⟩
    exact ⟨_, hmem, hmux, rfl⟩

end BringUpResult

namespace RegisterFile

def call (file : RegisterFile) (deadline : Nat) (limit : PollLimit) : Call :=
  let (result, session) := file.bringUpUntil deadline limit
  ⟨limit, result, session⟩

/-- Bring-ups with these limits, until one has not returned when `deadline`
polls have been made in all. -/
def calls (deadline : Nat) : RegisterFile → List PollLimit → List Call
  | _, [] => []
  | file, limit :: rest =>
      let call := file.call deadline limit
      call :: if call.result = .pending then []
        else calls deadline call.session.bank rest

def afterCalls : RegisterFile → List Call → RegisterFile
  | file, [] => file
  | _, call :: rest => afterCalls call.session.bank rest

theorem exists_call_eq
    (file : RegisterFile) (deadline : Nat) (limit : PollLimit) :
    ∃ result final accesses records,
      file.Course limit.bound (deadline - file.position)
          result final accesses records ∧
        file.call deadline limit =
          ⟨limit, result, (Session.start file).extend final accesses
            records⟩ := by
  obtain ⟨result, final, accesses, records, hcourse⟩ :=
    file.exists_course limit.bound (deadline - file.position)
  refine ⟨result, final, accesses, records, hcourse, ?_⟩
  have hrun := (Session.start file).bringUpWithin_of_course hcourse
  simp only [call, bringUpUntil, Session.bringUp, hrun]

variable {file final : RegisterFile} {bound : Option Nat} {patience : Nat}
  {result : BringUpResult} {accesses : List Access} {records : List Record}

theorem Course.pllLow_eq
    (hcourse : file.Course bound patience result final accesses records) :
    final.pllLow = file.pllLow := by
  cases hcourse <;> rfl

theorem Course.bit_pllHigh
    (hcourse : file.Course bound patience result final accesses records)
    (hanswered : result ≠ .pending) (i : Nat) :
    final.pllHigh.bit i =
      (file.pllHigh.bit i && !result.clearsHigh i) := by
  cases hcourse with
  | fabricTimeout =>
      simp [afterLock, Pll.openingBit, Word.bit_clearBit,
        BringUpResult.clearsHigh, BringUpResult.pastFabric]
  | mpllTimeout | running =>
      simp [afterMux, afterLock, Pll.openingBit, Word.bit_clearBit,
        BringUpResult.clearsHigh, BringUpResult.pastFabric, Bool.and_assoc]
  | fabricPending | mpllPending => contradiction

theorem Course.bit_facc1
    (hcourse : file.Course bound patience result final accesses records)
    (i : Nat) :
    final.facc1.bit i = (file.facc1.bit i && !result.clearsFacc1 i) := by
  cases hcourse with
  | running =>
      simp [afterMux, afterLock, Word.bit_clearBit,
        BringUpResult.clearsFacc1]
  | _ => simp [afterLock, BringUpResult.clearsFacc1]

theorem Course.contents_eq_of_clear
    (hcourse : file.Course bound patience result final accesses records)
    (hsupply : file.pllHigh.bit 2 = false)
    (hbypass : file.pllHigh.bit 0 = false)
    (hmux : file.facc1.bit 12 = false) :
    final.facc1 = file.facc1 ∧ final.pllLow = file.pllLow ∧
      final.pllHigh = file.pllHigh := by
  have hsame : ∀ {word : Word} {i : Nat}, i < 32 → word.bit i = false →
      word.clearBit i = word := by
    intro word i hi hclear
    apply Word.ext_bit
    intro j
    rw [word.bit_clearBit hi]
    by_cases hj : j = i <;> simp [hj, hclear]
  cases hcourse <;>
    simp [afterMux, afterLock, Pll.openingBit, hsame, hsupply, hbypass, hmux]

theorem bit_afterCalls
    (file : RegisterFile) (deadline : Nat) (limits : List PollLimit)
    (hanswered : .pending ∉ (file.calls deadline limits).map Call.result)
    (i : Nat) :
    let results := (file.calls deadline limits).map Call.result
    let final := file.afterCalls (file.calls deadline limits)
    results.length = limits.length ∧
      final.pllLow = file.pllLow ∧
      final.pllHigh.bit i =
        (file.pllHigh.bit i && !results.any (·.clearsHigh i)) ∧
      final.facc1.bit i =
        (file.facc1.bit i && !results.any (·.clearsFacc1 i)) := by
  induction limits generalizing file with
  | nil => simp [calls, afterCalls]
  | cons limit rest ih =>
      obtain ⟨result, next, accesses, records, hcourse, hcall⟩ :=
        file.exists_call_eq deadline limit
      simp only [calls, hcall, List.map_cons, List.mem_cons, not_or]
        at hanswered ⊢
      obtain ⟨hne, hrest⟩ := hanswered
      rw [if_neg (Ne.symm hne)] at hrest ⊢
      obtain ⟨hlength, hlow, hhigh, hfacc1⟩ := ih next hrest
      refine ⟨by simpa using hlength, ?_, ?_, ?_⟩
      · exact hlow.trans hcourse.pllLow_eq
      · calc
          _ = (next.pllHigh.bit i && _) := hhigh
          _ = _ := by
            rw [hcourse.bit_pllHigh (Ne.symm hne)]
            simp [Bool.and_assoc]
      · calc
          _ = (next.facc1.bit i && _) := hfacc1
          _ = _ := by
            rw [hcourse.bit_facc1]
            simp [Bool.and_assoc]

private theorem and_not_eq_ite
    {kept cleared : Bool} {p : Prop} [Decidable p] (h : cleared = true ↔ p) :
    (kept && !cleared) = if p then false else kept := by
  by_cases hp : p
  · simp [hp, h.mpr hp]
  · have hcleared : cleared = false := by simpa [hp] using h
    simp [hp, hcleared]

/-- The contents after bring-ups that have all returned.  The supply bit is
clear if there was any, the bypass bit if one saw the fabric PLL locked, and
the multiplexer bit if one succeeded; every other bit is as it was.  After a
success, a further bring-up changes nothing, and it need not even return. -/
theorem contents_afterCalls
    (file : RegisterFile) (deadline : Nat) (limits : List PollLimit)
    (hanswered : .pending ∉ (file.calls deadline limits).map Call.result) :
    let results := (file.calls deadline limits).map Call.result
    let final := file.afterCalls (file.calls deadline limits)
    results.length = limits.length ∧
      final.pllLow = file.pllLow ∧
      (∀ i, final.pllHigh.bit i =
        if (i = 2 ∧ results ≠ []) ∨
            (i = 0 ∧ (.running ∈ results ∨
              .timedOut .mpllLockTimeout ∈ results))
        then false else file.pllHigh.bit i) ∧
      (∀ i, final.facc1.bit i =
        if i = 12 ∧ .running ∈ results
        then false else file.facc1.bit i) ∧
      (.running ∈ results → ∀ later limit,
        let next := (final.call later limit).session.bank
        next.facc1 = final.facc1 ∧ next.pllLow = final.pllLow ∧
          next.pllHigh = final.pllHigh) := by
  intro results final
  have hbits := bit_afterCalls file deadline limits hanswered
  have hhigh : ∀ i, final.pllHigh.bit i =
      if (i = 2 ∧ results ≠ []) ∨
          (i = 0 ∧ (.running ∈ results ∨
            .timedOut .mpllLockTimeout ∈ results))
      then false else file.pllHigh.bit i := by
    intro i
    exact (hbits i).2.2.1.trans
      (and_not_eq_ite BringUpResult.any_clearsHigh_iff)
  have hfacc1 : ∀ i, final.facc1.bit i =
      if i = 12 ∧ .running ∈ results
      then false else file.facc1.bit i := by
    intro i
    exact (hbits i).2.2.2.trans
      (and_not_eq_ite BringUpResult.any_clearsFacc1_iff)
  refine ⟨(hbits 0).1, (hbits 0).2.1, hhigh, hfacc1, ?_⟩
  intro hsuccess later limit
  obtain ⟨result, next, accesses, records, hcourse, hcall⟩ :=
    final.exists_call_eq later limit
  rw [hcall]
  apply hcourse.contents_eq_of_clear
  · simp [hhigh 2, List.ne_nil_of_mem hsuccess]
  · simp [hhigh 0, hsuccess]
  · simp [hfacc1 12, hsuccess]

theorem contents_afterCalls_lateLocks :
    let calls :=
      calls 100 lateLocks [.iterations 2, .iterations 3, .forever]
    let results := calls.map Call.result
    let final := lateLocks.afterCalls calls
    results = [.timedOut .fabricPllLockTimeout,
        .timedOut .mpllLockTimeout, .running] ∧
      .pending ∉ results ∧
      final.pllLow = 0 ∧ final.pllHigh.bit 0 = false ∧
      final.facc1.bit 11 = true ∧ final.facc1.bit 12 = false := by
  intro calls results final
  have hresults : results = [.timedOut .fabricPllLockTimeout,
      .timedOut .mpllLockTimeout, .running] := by
    decide +kernel
  have hanswered : .pending ∉ results := by
    simp [hresults]
  obtain ⟨-, hlow, hhigh, hfacc1, -⟩ := contents_afterCalls lateLocks 100
    [.iterations 2, .iterations 3, .forever] hanswered
  have hsuccess : .running ∈ results := by
    simp [hresults]
  refine ⟨hresults, hanswered, hlow, ?_, ?_, ?_⟩
  · rw [hhigh 0, if_pos (.inr ⟨rfl, .inl hsuccess⟩)]
  · rw [hfacc1 11, if_neg (by simp)]
    rfl
  · rw [hfacc1 12, if_pos ⟨rfl, hsuccess⟩]

end RegisterFile

end MssClock
