import MssClock.Proofs.Command.Precedence
import MssClock.Proofs.Command.Spelling
import MssClock.Proofs.Console

/-!
# A run with a baud rate

A baud rate on the command line changes nothing of what else is given, so the
run meets the same failures before its report, and it prints the same report.
Only then is the divisor asked for, and what a run adds is either the lines of
the divisor or the failure that there is none.
-/

namespace MssClock

/-! ## A baud rate in front -/

namespace Given

def withBaud (given : Given) (baud : UInt32) : Given :=
  { given with baud := some baud }

theorem accept_withBaud {given taken : Given} {o : ValueOption} {text : String}
    (h : given.accept o text = .ok taken) (hnone : taken.baud = none)
    (baud : UInt32) :
    given.baud = none ∧
      (given.withBaud baud).accept o text = .ok (taken.withBaud baud) := by
  have hfree : given.has o = false := by
    rw [← Bool.not_eq_true]
    intro hgiven
    rw [accept, if_pos hgiven] at h
    cases h
  rw [accept, hfree] at h
  simp only [Bool.false_eq_true, if_false] at h
  cases o with
  | file =>
      have hfile : (given.withBaud baud).has .file = false := hfree
      simp only [accept, hfile, put, Bool.false_eq_true, if_false] at h ⊢
      split at h
      · cases h
      · rename_i htext
        cases h
        exact ⟨hnone, if_neg htext⟩
  | setting s =>
      have hsetting : (given.withBaud baud).has (.setting s) = false := by
        cases s <;> exact hfree
      simp only [accept, hsetting, put, Bool.false_eq_true, if_false] at h ⊢
      cases hword : readWord text with
      | error cause =>
          rw [hword] at h
          cases h
      | ok word =>
          rw [hword] at h
          cases h
          cases s <;> exact ⟨hnone, rfl⟩
  | baud =>
      -- A baud rate that is taken over stays.
      simp only [put] at h
      split at h
      · cases h
        cases hnone
      · cases h

end Given

namespace Progress

variable {progress next : Progress} {given : Given}

def withBaud (progress : Progress) (baud : UInt32) : Progress :=
  { progress with given := progress.given.withBaud baud }

theorem settle_withBaud (h : progress.settle = .ok given)
    (hnone : given.baud = none) (baud : UInt32) :
    progress.given.baud = none ∧
      (progress.withBaud baud).settle = .ok (given.withBaud baud) := by
  obtain ⟨before, pending⟩ := progress
  rcases pending with _ | ⟨o, _ | text⟩
  · cases h
    exact ⟨hnone, rfl⟩
  · cases h
  · simp only [settle] at h
    cases haccept : before.accept o text with
    | error e =>
        rw [haccept] at h
        cases h
    | ok taken =>
        rw [haccept] at h
        cases h
        obtain ⟨hbefore, htaken⟩ := Given.accept_withBaud haccept hnone baud
        refine ⟨hbefore, ?_⟩
        simp only [withBaud, settle, htaken]
        rfl

theorem meet_withBaud {o : ValueOption} {attached : Option String}
    (h : progress.meet o attached = .ok next) (hnone : next.given.baud = none)
    (baud : UInt32) :
    progress.given.baud = none ∧
      (progress.withBaud baud).meet o attached = .ok (next.withBaud baud) := by
  cases hsettle : progress.settle with
  | error stop =>
      rw [meet, hsettle] at h
      cases h
  | ok given =>
      cases attached with
      | none =>
          rw [meet_none hsettle] at h
          cases h
          obtain ⟨hbefore, hsettled⟩ := settle_withBaud hsettle hnone baud
          exact ⟨hbefore, meet_none hsettled o⟩
      | some text =>
          rw [meet_some hsettle] at h
          cases haccept : given.accept o text with
          | error e =>
              rw [haccept] at h
              cases h
          | ok taken =>
              rw [haccept] at h
              cases h
              obtain ⟨hgiven, htaken⟩ := Given.accept_withBaud haccept hnone baud
              obtain ⟨hbefore, hsettled⟩ := settle_withBaud hsettle hgiven baud
              refine ⟨hbefore, ?_⟩
              rw [meet_some hsettled, htaken]
              rfl

theorem meetFlag_ne_ok (f : Flag) : progress.meetFlag f ≠ .ok next := by
  rw [meetFlag]
  cases progress.settle <;> nofun

theorem step_withBaud {argument : Argument}
    (h : progress.step argument = .ok next) (hnone : next.given.baud = none)
    (baud : UInt32) :
    progress.given.baud = none ∧
      (progress.withBaud baud).step argument = .ok (next.withBaud baud) := by
  cases argument with
  | long name attached =>
      simp only [step] at h ⊢
      split at h
      · exact meet_withBaud h hnone baud
      · exact absurd h (meetFlag_ne_ok _)
      · cases h
      · cases h
  | short letter following =>
      simp only [step] at h ⊢
      split at h
      · exact meet_withBaud h hnone baud
      · exact absurd h (meetFlag_ne_ok _)
      · cases h
  | plain text =>
      simp only [step] at h ⊢
      split at h
      · rename_i hpending
        cases h
        exact ⟨hnone, by simp only [withBaud, hpending]⟩
      · cases h

theorem finish_withBaud {arguments : List String}
    (h : progress.finish arguments = .ok given) (hnone : given.baud = none)
    (baud : UInt32) :
    progress.given.baud = none ∧
      (progress.withBaud baud).finish arguments = .ok (given.withBaud baud) := by
  induction arguments generalizing progress with
  | nil => exact settle_withBaud h hnone baud
  | cons argument rest ih =>
      rw [finish.eq_def] at h ⊢
      simp only at h ⊢
      by_cases hmark : argument = "--"
      · rw [if_pos hmark] at h ⊢
        cases rest with
        | nil => exact settle_withBaud h hnone baud
        | cons refused rest => cases h
      · rw [if_neg hmark] at h ⊢
        cases hstep : progress.step (.ofString argument) with
        | error stop =>
            rw [hstep] at h
            cases h
        | ok next =>
            rw [hstep] at h
            obtain ⟨hnext, hfinish⟩ := ih h
            obtain ⟨hbefore, hstepped⟩ := step_withBaud hstep hnext baud
            rw [hstepped]
            exact ⟨hbefore, hfinish⟩

end Progress

theorem Given.ofArguments_cons_baud {arguments : List String} {given : Given}
    (h : Given.ofArguments arguments = .ok given) (hnone : given.baud = none)
    (baud : UInt32) :
    Given.ofArguments (("--baud=" ++ toString baud.toNat) :: arguments) =
      .ok (given.withBaud baud) := by
  have haccept : Given.nothing.accept .baud (toString baud.toNat) =
      .ok (Given.nothing.withBaud baud) := by
    have hfree : Given.nothing.has .baud = false := rfl
    rw [accept, hfree]
    simp only [Bool.false_eq_true, if_false, put, readBaud_toString]
    rfl
  have hargument : "--baud=" = "--" ++ ValueOption.baud.long ++ "=" := rfl
  rw [ofArguments, hargument,
    (Argument.meets_attached .baud _).finish_some rfl haccept]
  exact (Progress.finish_withBaud h hnone baud).2

/-! ## What a baud rate leaves as it is -/

namespace Given

section Congruence

variable {given given' : Given} {read : String → Except ReadError String}
  {dump : Dump} {s : Setting} {check : Check} {failure : Failure}

theorem Loads.congr (h : given.Loads read dump)
    (hfile : given'.file = given.file) : given'.Loads read dump := by
  cases h with
  | absent hnone => exact .absent (hfile.trans hnone)
  | file hsome hread hdump => exact .file (hfile.trans hsome) hread hdump

theorem Supplies.congr {word : UInt32} (h : given.Supplies dump s word)
    (hsetting : ∀ s, given'.setting s = given.setting s) :
    given'.Supplies dump s word := by
  cases h with
  | flag hgiven => exact .flag ((hsetting s).trans hgiven)
  | number hfree hdump hword => exact .number ((hsetting s).trans hfree) hdump hword
  | text hfree hdump hword => exact .text ((hsetting s).trans hfree) hdump hword
  | standard hfree hdump => exact .standard ((hsetting _).trans hfree) hdump

theorem Objects.congr (h : given.Objects dump s failure)
    (hsetting : ∀ s, given'.setting s = given.setting s) :
    given'.Objects dump s failure := by
  cases h with
  | badValue hfree hdump hbad => exact .badValue ((hsetting s).trans hfree) hdump hbad
  | missing hne hfree hdump => exact .missing hne ((hsetting s).trans hfree) hdump

/-- The checks before the last one do not look at the baud rate. -/
theorem Fails.congr (h : given.Fails read check failure)
    (hne : check ≠ .divisor) (hfile : given'.file = given.file)
    (hsetting : ∀ s, given'.setting s = given.setting s) :
    given'.Fails read check failure := by
  cases h with
  | nothingToDecode hnone hfacc1 =>
      exact .nothingToDecode (hfile.trans hnone) ((hsetting .facc1).trans hfacc1)
  | unreadable hsome hread => exact .unreadable (hfile.trans hsome) hread
  | malformedDump hsome hread hdump =>
      exact .malformedDump (hfile.trans hsome) hread hdump
  | setting hloads hobjects =>
      exact .setting (hloads.congr hfile) (hobjects.congr hsetting)
  | noDivisor => exact absurd rfl hne

theorem FirstFails.congr (h : given.FirstFails read check failure)
    (hne : check ≠ .divisor) (hfile : given'.file = given.file)
    (hsetting : ∀ s, given'.setting s = given.setting s) :
    given'.FirstFails read check failure := by
  refine ⟨h.1.congr hne hfile hsetting, fun earlier hearlier other hother => ?_⟩
  -- The last check comes before no other one.
  have hlast : earlier ≠ .divisor := by
    rintro rfl
    cases check with
    | setting s => cases s <;> exact absurd hearlier (by decide)
    | _ => exact absurd hearlier (by decide)
  exact h.2 earlier hearlier other
    (hother.congr hlast hfile.symm fun s => (hsetting s).symm)

end Congruence

theorem setting_withBaud (given : Given) (baud : UInt32) (s : Setting) :
    (given.withBaud baud).setting s = given.setting s := by
  cases s <;> rfl

end Given

namespace Report

theorem print_append_divisorLines (lines : List String) (baud : UInt32)
    (divisor : UInt16) :
    print (lines ++ divisorLines baud divisor) =
      print lines ++ "\n" ++ ("console divisor for " ++ toString baud.toNat ++
        " baud: " ++ toString divisor.toNat ++ "\n") := by
  simp [print, divisorLines, String.append_assoc]

end Report

namespace Command

section Runs

variable {read : String → Except ReadError String}
  {arguments arguments' : List String} {given : Given} {baud : UInt32}
  (hgiven : Given.ofArguments arguments = .ok given)
  (hnone : given.baud = none)
  (hgiven' : Given.ofArguments arguments' = .ok (given.withBaud baud))

include hgiven hnone hgiven'

/-- What goes wrong before the report goes wrong in either run. -/
theorem run_withBaud_of_fails {check : Check} {failure : Failure}
    (h : given.Fails read check failure) :
    ∃ failure, run read arguments = .failed "" failure ∧
      run read arguments' = .failed "" failure := by
  obtain ⟨first, reported, hfirst⟩ := Given.exists_firstFails h
  have hne : first ≠ .divisor := by
    rintro rfl
    cases hfirst.1 with
    | noDivisor _ _ hbaud => simp [hnone] at hbaud
  have hfirst' : (given.withBaud baud).FirstFails read first reported :=
    hfirst.congr hne rfl (given.setting_withBaud baud)
  obtain ⟨printed, hdecode, hprinted⟩ := Given.decode_of_firstFails hfirst
  obtain ⟨printed', hdecode', hprinted'⟩ := Given.decode_of_firstFails hfirst'
  refine ⟨reported, ?_, ?_⟩
  · simp only [run, hgiven, hdecode, hprinted hne]
    rfl
  · simp only [run, hgiven', hdecode', hprinted' hne]
    rfl

theorem exists_supplied_withBaud (h : ∀ check, given.Passes read check) :
    ∃ word, Supplied read arguments word none ∧
      Supplied read arguments' word (some baud) := by
  have hsource := Given.exists_source_of_passes (h .something)
  obtain ⟨dump, hloads⟩ :=
    Given.exists_loads_of_passes (h .readable) (h .wellFormed)
  have hsupplies : ∀ s, ∃ word, given.Supplies dump s word := fun s =>
    Given.exists_supplies_of_passes hloads (h (.setting s))
  choose word hword using hsupplies
  refine ⟨word, ⟨given, dump, hgiven, hsource, hloads, hword, hnone⟩,
    ⟨_, dump, hgiven', hsource, hloads.congr rfl, fun s => ?_, rfl⟩⟩
  exact (hword s).congr (given.setting_withBaud baud)

end Runs

/-- The message of a run that finds no divisor. -/
def noDivisorText (clock rate : Nat) : String :=
  "no console divisor for " ++ toString rate ++ " baud: " ++
    if rate = 0 then "BaudZero"
    else "DivisorOutOfRange \x7b divisor: " ++
      toString (nearestDivisor clock rate) ++ " \x7d"

section Divisor

variable {word : Setting → UInt32} {baud : UInt32}

theorem outcome_of_fitsLatch
    (h : FitsLatch (Clocks.ofWords word).console.value.toNat baud.toNat) :
    Result.ofOutcome (Report.outcome word (some baud)) =
      .finished (Report.print (Report.ofWords word) ++ "\n" ++
        ("console divisor for " ++ toString baud.toNat ++ " baud: " ++
          toString (nearestDivisor
            (Clocks.ofWords word).console.value.toNat baud.toNat) ++ "\n")) := by
  obtain ⟨divisor, hdivisor, hvalue⟩ := baudDivisor_of_fitsLatch h
  rw [Report.outcome_of_divisor hdivisor, Report.print_append_divisorLines,
    hvalue]
  rfl

theorem exists_consoleError {clock : Hertz}
    (h : ¬ FitsLatch clock.value.toNat baud.toNat) :
    ∃ cause, baudDivisor clock baud = .error cause ∧
      (Failure.noDivisor baud cause).messages =
        [noDivisorText clock.value.toNat baud.toNat] := by
  unfold noDivisorText
  by_cases hbaud : baud = 0
  · subst hbaud
    refine ⟨.baudZero, baudDivisor_zero clock, ?_⟩
    rw [if_pos UInt32.toNat_zero]
    rfl
  · obtain ⟨divisor, hdivisor, hvalue⟩ := baudDivisor_of_not_fitsLatch hbaud h
    refine ⟨.divisorOutOfRange divisor, hdivisor, ?_⟩
    rw [if_neg (toNat_pos_iff.mpr hbaud).ne', ← hvalue]
    rfl

theorem outcome_of_not_fitsLatch
    (h : ¬ FitsLatch (Clocks.ofWords word).console.value.toNat baud.toNat) :
    ∃ failure, Result.ofOutcome (Report.outcome word (some baud)) =
        .failed (Report.print (Report.ofWords word)) failure ∧
      failure.messages = [noDivisorText
        (Clocks.ofWords word).console.value.toNat baud.toNat] := by
  obtain ⟨cause, hcause, hmessages⟩ := exists_consoleError h
  refine ⟨.noDivisor baud cause, ?_, hmessages⟩
  rw [Report.outcome_of_consoleError hcause]
  rfl

end Divisor

/-- A baud rate in front of the other arguments takes nothing from them.  A run
that fails without one fails with it in the same way; a run that succeeds goes
on to the divisor, and either adds it or fails with the report printed. -/
theorem run_baud (read : String → Except ReadError String)
    {arguments : List String} {given : Given}
    (hgiven : Given.ofArguments arguments = .ok given)
    (hnone : given.baud = none) (baud : UInt32) :
    let extended : Given := { given with baud := some baud }
    Given.ofArguments (("--baud=" ++ toString baud.toNat) :: arguments) =
      .ok extended ∧
    ∀ arguments', Given.ofArguments arguments' = .ok extended →
      let plain := run read arguments
      let result := run read arguments'
      (∃ failure, plain = .failed "" failure ∧ result = .failed "" failure) ∨
      ∃ printed word, plain = .finished printed ∧
        Supplied read arguments word none ∧
        printed = Report.print (Report.ofWords word) ∧
        let clock := ((Clocks.ofWords word).get .pclk0).value.toNat
        let rate := baud.toNat
        (result.exitCode = 0 ↔
          0 < rate ∧ 8 * rate ≤ clock ∧
            clock < 16 * rate * 65535 + 8 * rate) ∧
        (result.exitCode = 0 → result = .finished (printed ++ "\n" ++
          ("console divisor for " ++ toString rate ++ " baud: " ++
            toString ((clock + 8 * rate) / (16 * rate)) ++ "\n"))) ∧
        (result.exitCode ≠ 0 → result.exitCode = 1 ∧ ∃ failure,
          result = .failed printed failure ∧
          failure.messages = [noDivisorText clock rate]) := by
  refine ⟨Given.ofArguments_cons_baud hgiven hnone baud, ?_⟩
  intro arguments' hgiven' plain result
  by_cases hall : ∀ check, given.Passes read check
  · right
    obtain ⟨word, hsupplied, hsupplied'⟩ :=
      exists_supplied_withBaud hgiven hnone hgiven' hall
    have hplain : plain = .finished (Report.print (Report.ofWords word)) :=
      run_of_supplied hsupplied
    have hresult : result = .ofOutcome (Report.outcome word (some baud)) :=
      run_of_supplied hsupplied'
    refine ⟨_, word, hplain, hsupplied, rfl, ?_⟩
    intro clock rate
    by_cases hfits : FitsLatch clock rate
    · have hfinished := hresult.trans (outcome_of_fitsLatch hfits)
      have hcode : result.exitCode = 0 := congrArg Result.exitCode hfinished
      exact ⟨iff_of_true hcode hfits, fun _ => hfinished,
        fun hne => absurd hcode hne⟩
    · obtain ⟨failure, houtcome, hmessages⟩ := outcome_of_not_fitsLatch hfits
      have hfailed := hresult.trans houtcome
      have hcode : result.exitCode = 1 := congrArg Result.exitCode hfailed
      have hne : result.exitCode ≠ 0 := by
        rw [hcode]
        decide
      exact ⟨iff_of_false hne hfits, fun hzero => absurd hzero hne,
        fun _ => ⟨hcode, failure, hfailed, hmessages⟩⟩
  · left
    simp only [Given.Passes, not_forall, not_not] at hall
    obtain ⟨check, failure, hfails⟩ := hall
    exact run_withBaud_of_fails hgiven hnone hgiven' hfails

theorem run_baud_zeroRate :
    let read : String → Except ReadError String := fun _ => .error .notFound
    let arguments := ["--facc1=0x208", "--pll-low=0", "--pll-high=0"]
    ∃ printed failure, run read arguments = .finished printed ∧
      run read ("--baud=0" :: arguments) = .failed printed failure ∧
      failure.messages = ["no console divisor for 0 baud: BaudZero"] := by
  intro read arguments
  let given : Given := ⟨none, none, some 0x208, some 0, some 0, none⟩
  have hgiven : Given.ofArguments arguments = .ok given := by decide +kernel
  obtain ⟨hextended, hruns⟩ := run_baud read hgiven rfl 0
  rcases hruns _ hextended with ⟨failure, hplain, -⟩ |
    ⟨printed, word, hplain, -, -, hsucceeds, -, hfails⟩
  · have hcode : (run read arguments).exitCode = 0 := by decide +kernel
    rw [hplain] at hcode
    cases hcode
  · have hne : (run read ("--baud=0" :: arguments)).exitCode ≠ 0 := fun hzero =>
      absurd (hsucceeds.mp hzero).1 (by decide)
    obtain ⟨-, failure, hresult, hmessages⟩ := hfails hne
    exact ⟨printed, failure, hplain, hresult, hmessages⟩

end Command

end MssClock
