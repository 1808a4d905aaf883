import MssClock.Proofs.Command.Supply
import Mathlib.Order.WellFounded

/-!
# Which failure is reported

Many things can be wrong with a run at once.  Each check is stated here for
itself, without regard to what the others find, and the checks are put in an
order.  A run reports what the first failing check has to say, and nothing that
comes after it matters; only the last check comes after the report.  A dumped
value that is overridden on the command line takes part in no check.
-/

namespace MssClock

inductive Check where
  /-- There is something to decode. -/
  | something
  | readable
  | wellFormed
  | setting (s : Setting)
  | divisor
  deriving DecidableEq

namespace Check

def order : List Check :=
  [something, readable, wellFormed] ++ Setting.all.map setting ++ [divisor]

/-- The checks that come earlier. -/
def before (check : Check) : List Check :=
  order.takeWhile (· ≠ check)

theorem mem_order (check : Check) : check ∈ order := by
  cases check with
  | setting s => cases s <;> decide
  | _ => decide

theorem length_before_lt {earlier check : Check} (h : earlier ∈ check.before) :
    earlier.before.length < check.before.length := by
  have hall : ∀ check ∈ order, ∀ earlier ∈ check.before,
      earlier.before.length < check.before.length := by
    decide
  exact hall check check.mem_order earlier h

end Check

namespace Given

section Fails

variable (given : Given) (read : String → Except ReadError String)

/-- What a check has to say against a run. -/
inductive Fails : Check → Failure → Prop
  | nothingToDecode (hfile : given.file = none) (hfacc1 : given.facc1 = none) :
      Fails .something .nothingToDecode
  | unreadable {path : String} {cause : ReadError}
      (hfile : given.file = some path) (hread : read path = .error cause) :
      Fails .readable (.unreadable path cause)
  | malformedDump {path text : String}
      (hfile : given.file = some path) (hread : read path = .ok text)
      (hdump : Dump.ofText? text = none) :
      Fails .wellFormed (.malformedDump path)
  | setting {dump : Dump} {s : Setting} {failure : Failure}
      (hloads : given.Loads read dump)
      (hobjects : given.Objects dump s failure) : Fails (.setting s) failure
  | noDivisor {dump : Dump} {word : Setting → UInt32} {baud : UInt32}
      {cause : ConsoleError}
      (hloads : given.Loads read dump)
      (hword : ∀ s, given.Supplies dump s (word s))
      (hbaud : given.baud = some baud)
      (hdivisor : (Clocks.ofWords word).consoleDivisor baud = .error cause) :
      Fails .divisor (.noDivisor baud cause)

def Passes (check : Check) : Prop :=
  ∀ failure, ¬ given.Fails read check failure

def FirstFails (check : Check) (failure : Failure) : Prop :=
  given.Fails read check failure ∧
    ∀ earlier ∈ check.before, given.Passes read earlier

end Fails

variable {given : Given} {read : String → Except ReadError String}
  {check : Check} {failure : Failure} {dump : Dump}

theorem exists_firstFails (h : given.Fails read check failure) :
    ∃ first failure, given.FirstFails read first failure := by
  -- The failing check with the fewest checks before it is the first one.
  let failing : Set Check := { check | ∃ failure, given.Fails read check failure }
  obtain ⟨first, ⟨failure, hfirst⟩, hleast⟩ :=
    (measure fun check : Check => check.before.length).wf.has_min failing
      ⟨check, failure, h⟩
  refine ⟨first, failure, hfirst, fun earlier hearlier other hother => ?_⟩
  exact hleast earlier ⟨other, hother⟩ (Check.length_before_lt hearlier)

/-! ## What a passed check gives -/

theorem exists_source_of_passes (h : given.Passes read .something) :
    given.file ≠ none ∨ given.facc1 ≠ none := by
  by_contra hnone
  push Not at hnone
  exact h _ (.nothingToDecode hnone.1 hnone.2)

theorem exists_loads_of_passes
    (hread : given.Passes read .readable)
    (hform : given.Passes read .wellFormed) :
    ∃ dump, given.Loads read dump := by
  cases hfile : given.file with
  | none => exact ⟨_, .absent hfile⟩
  | some path =>
      cases htext : read path with
      | error cause => exact absurd (.unreadable hfile htext) (hread _)
      | ok text =>
          cases hdump : Dump.ofText? text with
          | none => exact absurd (.malformedDump hfile htext hdump) (hform _)
          | some dump => exact ⟨dump, .file hfile htext hdump⟩

theorem exists_supplies_of_passes
    (hloads : given.Loads read dump) {s : Setting}
    (h : given.Passes read (.setting s)) :
    ∃ word, given.Supplies dump s word := by
  obtain hword | ⟨failure, hobjects⟩ := exists_supplies_or_objects given dump s
  · exact hword
  · exact absurd (.setting hloads hobjects) (h failure)

/-! ## What the first failed check decides -/

theorem resolve_of_objects {s : Setting}
    (hearlier : ∀ t, .setting t ∈ (Check.setting s).before →
      ∃ word, given.Supplies dump t word)
    (hobjects : given.Objects dump s failure) :
    given.resolve dump = .error failure := by
  have hfetch : ∀ t, .setting t ∈ (Check.setting s).before →
      ∃ word, given.fetch dump t = .ok word := by
    intro t ht
    obtain ⟨word, hword⟩ := hearlier t ht
    exact ⟨word, fetch_of_supplies hword⟩
  have hlast := fetch_of_objects hobjects
  rw [resolve_eq_fetch]
  cases s with
  | sysref =>
      rw [hlast]
      rfl
  | facc1 =>
      obtain ⟨sysref, hsysref⟩ := hfetch .sysref (by decide)
      rw [hsysref, hlast]
      rfl
  | pllLow =>
      obtain ⟨sysref, hsysref⟩ := hfetch .sysref (by decide)
      obtain ⟨facc1, hfacc1⟩ := hfetch .facc1 (by decide)
      rw [hsysref, hfacc1, hlast]
      rfl
  | pllHigh =>
      obtain ⟨sysref, hsysref⟩ := hfetch .sysref (by decide)
      obtain ⟨facc1, hfacc1⟩ := hfetch .facc1 (by decide)
      obtain ⟨pllLow, hpllLow⟩ := hfetch .pllLow (by decide)
      rw [hsysref, hfacc1, hpllLow, hlast]
      rfl

theorem decode_of_load_eq_error
    (hsource : given.file ≠ none ∨ given.facc1 ≠ none)
    (hload : given.load read = .error failure) :
    given.decode read = ⟨"", some failure⟩ := by
  rw [decode, if_neg (not_isNone_of_source hsource), hload]

/-- The first failing check decides how the run ends.  Nothing has been
printed before it, unless it is the last one. -/
theorem decode_of_firstFails (h : given.FirstFails read check failure) :
    ∃ printed, given.decode read = ⟨printed, some failure⟩ ∧
      (check ≠ .divisor → printed = "") := by
  obtain ⟨hfails, hpasses⟩ := h
  cases hfails with
  | nothingToDecode hfile hfacc1 =>
      refine ⟨"", ?_, fun _ => rfl⟩
      simp [decode, hfile, hfacc1]
  | unreadable hfile hread =>
      have hsource := exists_source_of_passes (hpasses .something (by decide))
      refine ⟨"", decode_of_load_eq_error hsource ?_, fun _ => rfl⟩
      simp only [load, hfile, hread]
  | malformedDump hfile hread hdump =>
      have hsource := exists_source_of_passes (hpasses .something (by decide))
      refine ⟨"", decode_of_load_eq_error hsource ?_, fun _ => rfl⟩
      simp only [load, hfile, hread, hdump]
  | @setting dump s failure hloads hobjects =>
      have hsource := exists_source_of_passes
        (hpasses .something (by cases s <;> decide))
      have hearlier : ∀ t, .setting t ∈ (Check.setting s).before →
          ∃ word, given.Supplies dump t word := fun t ht =>
        exists_supplies_of_passes hloads (hpasses (.setting t) ht)
      refine ⟨"", ?_, fun _ => rfl⟩
      rw [decode_of_loads hsource hloads, report,
        resolve_of_objects hearlier hobjects]
  | @noDivisor dump word baud cause hloads hword hbaud hdivisor =>
      have hsource := exists_source_of_passes (hpasses .something (by decide))
      refine ⟨Report.print (Report.ofWords word), ?_,
        fun hne => absurd rfl hne⟩
      rw [decode_of_loads hsource hloads, report_of_supplies hword, hbaud]
      exact Report.outcome_of_consoleError hdivisor

theorem failure_decode_of_passes (h : ∀ check, given.Passes read check) :
    (given.decode read).failure = none := by
  obtain ⟨dump, hloads⟩ :=
    exists_loads_of_passes (h .readable) (h .wellFormed)
  have hsupplies : ∀ s, ∃ word, given.Supplies dump s word := fun s =>
    exists_supplies_of_passes hloads (h (.setting s))
  choose word hword using hsupplies
  rw [decode_of_loads (exists_source_of_passes (h .something)) hloads,
    report_of_supplies hword]
  cases hbaud : given.baud with
  | none => rfl
  | some baud =>
      cases hdivisor : (Clocks.ofWords word).consoleDivisor baud with
      | ok divisor => rw [Report.outcome_of_divisor hdivisor]
      | error cause =>
          exact absurd (.noDivisor hloads hword hbaud hdivisor) (h .divisor _)

/-- What the dump says of a setting that is given is of no account. -/
theorem report_congr {dump' : Dump}
    (h : ∀ s, given.setting s = none → dump'.get s = dump.get s) :
    given.report dump' = given.report dump := by
  have hpick : ∀ s, given.pick dump' s = given.pick dump s := by
    intro s
    unfold Given.pick MssClock.pick
    cases hgiven : given.setting s with
    | some word => rfl
    | none => rw [h s hgiven]
  have hresolve : given.resolve dump' = given.resolve dump := by
    simp only [resolve, require, hpick]
  rw [report, hresolve, report]

end Given

namespace Command

/-- The first failing check decides what a run reports, a run without a failing
check succeeds, and what is overridden is never looked at. -/
theorem run_precedence
    (read : String → Except ReadError String) {arguments : List String}
    {given : Given} (hgiven : Given.ofArguments arguments = .ok given) :
    let result := run read arguments
    (∀ check failure, given.FirstFails read check failure →
      ∃ printed, result = .failed printed failure ∧
        (check ≠ .divisor → printed = "")) ∧
    (∀ printed failure, result = .failed printed failure →
      ∃ check, given.FirstFails read check failure) ∧
    ((∀ check, given.Passes read check) → result.exitCode = 0) ∧
    (∀ s failure, given.Fails read (.setting s) failure →
      (∃ cause, failure.messages = ["bad value for " ++ s.name, cause]) ∨
      (s ≠ .sysref ∧ failure.messages = ["missing " ++ s.name ++
        ", pass --" ++ s.name ++ " or put it in the dump file"])) ∧
    ∀ {path text text' : String} {dump dump' : Dump}
      {read' : String → Except ReadError String},
      given.file = some path → read path = .ok text → read' path = .ok text' →
      Dump.ofText? text = some dump → Dump.ofText? text' = some dump' →
      (∀ s, given.setting s = none → dump'.get s = dump.get s) →
        run read' arguments = result := by
  have hrun : ∀ read, run read arguments = .ofOutcome (given.decode read) := by
    intro read
    rw [run, hgiven]
  intro result
  have hresult : result = .ofOutcome (given.decode read) := hrun read
  have hfirst : ∀ check failure, given.FirstFails read check failure →
      ∃ printed, result = .failed printed failure ∧
        (check ≠ .divisor → printed = "") := by
    intro check failure h
    obtain ⟨printed, hdecode, hprinted⟩ := Given.decode_of_firstFails h
    refine ⟨printed, ?_, hprinted⟩
    rw [hresult, hdecode]
    rfl
  have hpass : (∀ check, given.Passes read check) →
      result = .finished (given.decode read).printed := by
    intro h
    rw [hresult, Result.ofOutcome, Given.failure_decode_of_passes h]
  refine ⟨hfirst, fun printed failure hfailed => ?_,
    fun h => congrArg Result.exitCode (hpass h), fun s failure h => ?_, ?_⟩
  · -- The run has failed, so not every check has passed.
    by_cases hall : ∀ check, given.Passes read check
    · rw [hpass hall] at hfailed
      cases hfailed
    · simp only [Given.Passes, not_forall, not_not] at hall
      obtain ⟨check, other, hfails⟩ := hall
      obtain ⟨first, reported, h⟩ := Given.exists_firstFails hfails
      obtain ⟨_, hreported, -⟩ := hfirst first reported h
      rw [hfailed, Result.failed.injEq] at hreported
      exact ⟨first, hreported.2 ▸ h⟩
  · cases h with
    | setting hloads hobjects =>
        cases hobjects with
        | badValue hfree hdump hbad => exact .inl ⟨_, rfl⟩
        | missing hne hfree hdump => exact .inr ⟨hne, rfl⟩
  · intro path text text' dump dump' read' hfile hread hread' hdump hdump' hsame
    have hsource : given.file ≠ none ∨ given.facc1 ≠ none := by
      simp [hfile]
    rw [hrun read', hresult,
      Given.decode_of_loads hsource (.file hfile hread' hdump'),
      Given.decode_of_loads hsource (.file hfile hread hdump),
      Given.report_congr hsame]

theorem run_precedence_manyFaults :
    let content := "sysref: fast\nfacc1_cr: unknown"
    let content' := "facc1_cr: 5, sysref: fast"
    let read : String → Except ReadError String := fun _ => .ok content
    let read' : String → Except ReadError String := fun _ => .ok content'
    let arguments := ["-fdump.hjson", "--facc1=1", "--baud", "0"]
    let failure : Failure :=
      .badValue "sysref" (.numeral ⟨"fast", .invalidDigit⟩)
    (∃ printed, run read arguments = .failed printed failure ∧
      printed = "") ∧
    (∃ cause, failure.messages = ["bad value for sysref", cause]) ∧
    run read' arguments = run read arguments := by
  intro content content' read read' arguments failure
  let given : Given :=
    ⟨some "dump.hjson", none, some 1, none, none, some 0⟩
  let dump : Dump := ⟨some (.text "fast"), some (.text "unknown"), none, none⟩
  have hgiven : Given.ofArguments arguments = .ok given := by decide +kernel
  have hread' : read' "dump.hjson" = .ok content' := rfl
  have hdump : Dump.ofText? content = some dump := by decide +kernel
  have hdump' : Dump.ofText? content' =
      some { dump with facc1 := some (.number 5) } := by
    decide +kernel
  have hfails : given.Fails read (.setting .sysref) failure :=
    .setting (.file rfl rfl hdump) (.badValue rfl rfl (by decide +kernel))
  have hfirst : given.FirstFails read (.setting .sysref) failure := by
    refine ⟨hfails, fun earlier hearlier other hother => ?_⟩
    cases hother with
    | nothingToDecode hfile => cases hfile
    | unreadable _ hread => cases hread
    | malformedDump _ hread hnone =>
        cases hread
        rw [hdump] at hnone
        cases hnone
    | @setting _ s => cases s <;> exact absurd hearlier (by decide)
    | noDivisor => exact absurd hearlier (by decide)
  have hlaws := run_precedence read hgiven
  obtain ⟨printed, hrun, hprinted⟩ := hlaws.1 _ _ hfirst
  refine ⟨⟨printed, hrun, hprinted (by decide)⟩, ⟨_, rfl⟩,
    hlaws.2.2.2.2 rfl rfl hread' hdump hdump' fun s hfree => ?_⟩
  cases s with
  | facc1 => cases hfree
  | sysref | pllLow | pllHigh => rfl

end Command

end MssClock
