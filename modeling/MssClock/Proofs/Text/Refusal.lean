import MssClock.Proofs.Text.Language

/-!
# Why a text is no word

A text that is refused is shown as it counts, and one reason is given.  Two
things can be wrong with its digits at once, a number that is too large and a
character that is no digit.  The reason is the one that shows in the shorter
front part, so zeros in front never make a number too large, and what comes after
the first fault is never looked at.
-/

namespace MssClock

section Unsigned

variable (radix : Radix) (bound : Nat) (text : List Char)

/-- The fault of a text that is no number below the bound. -/
inductive HasFault : NumeralFault → Prop
  | empty (hnil : text = []) : HasFault .empty
  | tooLarge (hne : text ≠ [])
      (h : radix.Overflows bound (dropSign text)) : HasFault .tooLarge
  | invalidDigit (hne : text ≠ [])
      (h : radix.Breaks bound (dropSign text)) : HasFault .invalidDigit

variable {radix bound text}

theorem hasFault_of_readUnsigned {fault : NumeralFault} (hbound : 0 < bound)
    (h : readUnsigned radix bound text = .error fault) :
    HasFault radix bound text fault := by
  by_cases hne : text = []
  · subst hne
    cases h
    exact .empty rfl
  · have hreads := readsAs_readDigits radix hbound (dropSign text)
    rw [← readUnsigned_eq_readDigits hne, h] at hreads
    cases hreads with
    | tooLarge hlarge => exact .tooLarge hne hlarge
    | invalidDigit hbreaks => exact .invalidDigit hne hbreaks

/-- A sign that is not in front of a number is a character like any other. -/
theorem breaks_of_sign (radix : Radix) (hbound : 0 < bound)
    (hsign : text = ['+'] ∨ text.head? = some '-') :
    radix.Breaks bound (dropSign text) := by
  have hdenotes : ∀ c ∈ ['+', '-'], ∀ n, ¬ radix.Denotes c n := by
    intro c hc n hn
    rw [← Radix.digit?_eq_some_iff] at hn
    simp only [List.mem_cons, List.not_mem_nil, or_false] at hc
    rcases hc with rfl | rfl <;> cases radix <;> cases hn
  rcases hsign with rfl | hhead
  · exact ⟨[], '+', [], 0, rfl, Radix.isNumeral_nil, hbound,
      hdenotes '+' (by simp)⟩
  · obtain ⟨rest, rfl⟩ := List.head?_eq_some_iff.mp hhead
    exact ⟨[], '-', rest, 0, rfl, Radix.isNumeral_nil, hbound,
      hdenotes '-' (by simp)⟩

end Unsigned

theorem exists_hasFault_of_readWord {s : String} {e : NumeralError}
    {counted rest : List Char} {radix : Radix}
    (hcounts : Counts s.toList counted) (hmarks : Marks counted radix rest)
    (h : readWord s = .error e) :
    ∃ fault, e = ⟨String.ofList counted, fault⟩ ∧
      HasFault radix UInt32.size rest fault := by
  rw [readWord_of_marks hcounts hmarks] at h
  cases hresult : readUnsigned radix UInt32.size rest with
  | ok n =>
      rw [hresult] at h
      cases h
  | error fault =>
      rw [hresult] at h
      cases h
      exact ⟨fault, rfl, hasFault_of_readUnsigned (by decide) hresult⟩

/-- A refused text is reported as it counts, with the first thing that is wrong
with it, and what does not count makes no difference to the report. -/
theorem readWord_fault {s : String} {e : NumeralError}
    (h : readWord s = .error e) :
    let reason := e.fault.message
    ∃ counted radix rest, Counts s.toList counted ∧ Marks counted radix rest ∧
      e.message =
        "invalid value '" ++ String.ofList counted ++ "': " ++ reason ∧
      (reason = "cannot parse integer from empty string" ↔ rest = []) ∧
      (rest ≠ [] →
        (reason = "number too large to fit in target type" ↔
          radix.Overflows UInt32.size (dropSign rest)) ∧
        (reason = "invalid digit found in string" ↔
          radix.Breaks UInt32.size (dropSign rest)) ∧
        (¬ radix.Overflows UInt32.size (dropSign rest) →
          reason = "invalid digit found in string")) ∧
      (rest = ['+'] ∨ rest.head? = some '-' →
        reason = "invalid digit found in string") ∧
      ∀ s' : String, Counts s'.toList counted → readWord s' = .error e := by
  intro reason
  obtain ⟨counted, radix, rest, hcounts, hmarks⟩ := exists_counts_marks s.toList
  have hsame : ∀ s' : String, Counts s'.toList counted →
      readWord s' = .error e := by
    intro s' hcounts'
    rw [← h, readWord_of_marks hcounts' hmarks, readWord_of_marks hcounts hmarks]
  have hsign : rest = ['+'] ∨ rest.head? = some '-' →
      radix.Breaks UInt32.size (dropSign rest) :=
    breaks_of_sign radix (by decide)
  obtain ⟨fault, rfl, hfault⟩ := exists_hasFault_of_readWord hcounts hmarks h
  have hreason : reason = fault.message := rfl
  clear_value reason
  subst hreason
  refine ⟨counted, radix, rest, hcounts, hmarks, rfl, ?_⟩
  cases hfault with
  | empty hnil =>
      exact ⟨iff_of_true rfl hnil, fun hne => absurd hnil hne,
        fun htext => by simp [hnil] at htext, hsame⟩
  | tooLarge hne hlarge =>
      have hnot : ¬ radix.Breaks UInt32.size (dropSign rest) := fun hbreaks =>
        hbreaks.not_overflows hlarge
      exact ⟨iff_of_false (by decide) hne,
        fun _ => ⟨iff_of_true rfl hlarge, iff_of_false (by decide) hnot,
          fun hsmall => absurd hlarge hsmall⟩,
        fun htext => absurd (hsign htext) hnot, hsame⟩
  | invalidDigit hne hbreaks =>
      exact ⟨iff_of_false (by decide) hne,
        fun _ => ⟨iff_of_false (by decide) hbreaks.not_overflows,
          iff_of_true rfl hbreaks, fun _ => rfl⟩,
        fun _ => rfl, hsame⟩

theorem readWord_fault_overflowFirst :
    let s := " 0x1_0000_0000g\n"
    let e : NumeralError := ⟨"0x100000000g", .tooLarge⟩
    readWord s = .error e ∧
      e.message = "invalid value '0x100000000g': " ++
        "number too large to fit in target type" ∧
      Radix.hexadecimal.Overflows UInt32.size "100000000g".toList ∧
      readWord "0x1000_0000_0g" = .error e := by
  intro s e
  have hread : readWord s = .error e := by decide +kernel
  obtain ⟨counted, radix, rest, hcounts, hmarks, hmessage, -, hfaults, -, hsame⟩ :=
    readWord_fault hread
  have hcounted : counted = "0x100000000g".toList := by
    rw [← hcounts.significant_eq]
    decide +kernel
  have hrest : (.hexadecimal, "100000000g".toList) = (radix, rest) := by
    rw [← marks_iff.mp hmarks, hcounted]
    decide +kernel
  cases hrest
  refine ⟨hread, rfl, (hfaults (by decide)).1.mp rfl, hsame _ ?_⟩
  rw [hcounted, counts_iff]
  decide +kernel

end MssClock
