import MssClock.Command.Program
import MssClock.Proofs.Text.Numeral

/-!
# Where the values of a run come from

A run decodes four values.  Each is the given one if there is one, else the
dumped one, as a number or as a text in any spelling; a reference that nobody
supplies is the standard one.  What is printed and how the run ends depends on
the four values and the baud rate, and no longer on where they came from.

A number and its decimal digits are the same value, up to the width of a
control word and beyond it.
-/

namespace MssClock

theorem RegisterValue.toWord_number_eq_ok_iff {n : UInt64} {word : UInt32} :
    (RegisterValue.number n).toWord = .ok word ↔ n.toNat = word.toNat := by
  have hword : word.toNat < UInt32.size := word.toNat_lt
  rw [toWord]
  split
  · rename_i hn
    rw [Except.ok.injEq, ← UInt32.toNat_inj, UInt64.toNat_toUInt32,
      Nat.mod_eq_of_lt hn]
  · rename_i hn
    constructor
    · intro h
      cases h
    · intro h
      exact absurd (h ▸ hword) hn

theorem RegisterValue.toWord_text_eq_ok_iff {t : String} {word : UInt32} :
    (RegisterValue.text t).toWord = .ok word ↔ readWord t = .ok word := by
  rw [toWord]
  cases readWord t <;> simp

namespace Given

variable (given : Given) (read : String → Except ReadError String)

/-- The dump that a run decodes. -/
inductive Loads : Dump → Prop
  | absent (hfile : given.file = none) : Loads .empty
  | file {path text : String} {dump : Dump}
      (hfile : given.file = some path) (hread : read path = .ok text)
      (hdump : Dump.ofText? text = some dump) : Loads dump

variable (dump : Dump)

/-- The value of a setting that counts. -/
inductive Supplies : Setting → UInt32 → Prop
  | flag {s : Setting} {word : UInt32}
      (hgiven : given.setting s = some word) : Supplies s word
  | number {s : Setting} {n : UInt64} {word : UInt32}
      (hfree : given.setting s = none) (hdump : dump.get s = some (.number n))
      (hword : n.toNat = word.toNat) : Supplies s word
  | text {s : Setting} {t : String} {word : UInt32}
      (hfree : given.setting s = none) (hdump : dump.get s = some (.text t))
      (hword : readWord t = .ok word) : Supplies s word
  | standard
      (hfree : given.setting .sysref = none) (hdump : dump.get .sysref = none) :
      Supplies .sysref 100000000

/-- Why a setting has no value that counts. -/
inductive Objects : Setting → Failure → Prop
  | badValue {s : Setting} {value : RegisterValue} {cause : ValueError}
      (hfree : given.setting s = none) (hdump : dump.get s = some value)
      (hbad : value.toWord = .error cause) : Objects s (.badValue s.name cause)
  | missing {s : Setting} (hne : s ≠ .sysref)
      (hfree : given.setting s = none) (hdump : dump.get s = none) :
      Objects s (.missing s.name)

/-- The value of a setting that counts, or the objection to it. -/
def fetch (s : Setting) : Except Failure UInt32 :=
  match given.pick dump s with
  | .error failure => .error failure
  | .ok (some word) => .ok word
  | .ok none =>
      if s = .sysref then .ok standardSysref.value
      else .error (.missing s.name)

theorem resolve_eq_fetch :
    given.resolve dump = do
      let sysref ← given.fetch dump .sysref
      let facc1 ← given.fetch dump .facc1
      let pllLow ← given.fetch dump .pllLow
      let pllHigh ← given.fetch dump .pllHigh
      return (⟨sysref⟩, ⟨facc1, pllLow, pllHigh⟩) := by
  have hsysref : given.fetch dump .sysref =
      (given.pick dump .sysref).map
        fun word? => word?.getD standardSysref.value := by
    unfold fetch
    rcases given.pick dump .sysref with failure | _ | word <;> rfl
  -- Only the reference may be missing.
  have hrequire : ∀ s ≠ .sysref, given.require dump s = given.fetch dump s := by
    intro s hs
    unfold require fetch
    rcases given.pick dump s with failure | _ | word
    · rfl
    · simp [hs, MssClock.require, bind, Except.bind]
    · rfl
  unfold resolve
  rw [hrequire .facc1 (by decide), hrequire .pllLow (by decide),
    hrequire .pllHigh (by decide), hsysref]
  rcases given.pick dump .sysref with failure | _ | word <;> rfl

theorem exists_supplies_of_toWord {value : RegisterValue} {s : Setting}
    {word : UInt32} (hfree : given.setting s = none)
    (hdump : dump.get s = some value) (hword : value.toWord = .ok word) :
    given.Supplies dump s word := by
  cases value with
  | number n =>
      exact .number hfree hdump (RegisterValue.toWord_number_eq_ok_iff.mp hword)
  | text t =>
      exact .text hfree hdump (RegisterValue.toWord_text_eq_ok_iff.mp hword)

variable {given dump} {s : Setting}

theorem fetch_of_supplies {word : UInt32} (h : given.Supplies dump s word) :
    given.fetch dump s = .ok word := by
  unfold fetch Given.pick MssClock.pick
  cases h with
  | flag hgiven => simp only [hgiven]
  | number hfree hdump hword =>
      simp only [hfree, hdump,
        RegisterValue.toWord_number_eq_ok_iff.mpr hword]
  | text hfree hdump hword =>
      simp only [hfree, hdump, RegisterValue.toWord_text_eq_ok_iff.mpr hword]
  | standard hfree hdump =>
      simp only [hfree, hdump]
      rfl

theorem fetch_of_objects {failure : Failure}
    (h : given.Objects dump s failure) :
    given.fetch dump s = .error failure := by
  unfold fetch Given.pick MssClock.pick
  cases h with
  | badValue hfree hdump hbad => simp only [hfree, hdump, hbad]
  | missing hne hfree hdump => simp only [hfree, hdump, if_neg hne]

/-- A setting has a value that counts, or there is an objection to it. -/
theorem exists_supplies_or_objects (given : Given) (dump : Dump)
    (s : Setting) :
    (∃ word, given.Supplies dump s word) ∨
      ∃ failure, given.Objects dump s failure := by
  cases hgiven : given.setting s with
  | some word => exact .inl ⟨word, .flag hgiven⟩
  | none =>
      cases hdump : dump.get s with
      | some value =>
          cases hword : value.toWord with
          | ok word =>
              exact .inl ⟨word,
                exists_supplies_of_toWord given dump hgiven hdump hword⟩
          | error cause => exact .inr ⟨_, .badValue hgiven hdump hword⟩
      | none =>
          by_cases hs : s = .sysref
          · subst hs
            exact .inl ⟨_, .standard hgiven hdump⟩
          · exact .inr ⟨_, .missing hs hgiven hdump⟩

theorem resolve_of_supplies {word : Setting → UInt32}
    (h : ∀ s, given.Supplies dump s (word s)) :
    given.resolve dump =
      .ok (⟨word .sysref⟩, ⟨word .facc1, word .pllLow, word .pllHigh⟩) := by
  rw [resolve_eq_fetch, fetch_of_supplies (h .sysref),
    fetch_of_supplies (h .facc1), fetch_of_supplies (h .pllLow),
    fetch_of_supplies (h .pllHigh)]
  rfl

variable {read : String → Except ReadError String}

theorem load_of_loads (h : given.Loads read dump) :
    given.load read = .ok dump := by
  unfold load
  cases h with
  | absent hfile => simp only [hfile]
  | file hfile hread hdump => simp only [hfile, hread, hdump]

theorem not_isNone_of_source
    (hsource : given.file ≠ none ∨ given.facc1 ≠ none) :
    ¬ (given.file.isNone ∧ given.facc1.isNone) := by
  rw [Option.isNone_iff_eq_none, Option.isNone_iff_eq_none]
  exact not_and_or.mpr hsource

theorem decode_of_loads
    (hsource : given.file ≠ none ∨ given.facc1 ≠ none)
    (hloads : given.Loads read dump) :
    given.decode read = given.report dump := by
  rw [decode, if_neg (not_isNone_of_source hsource), load_of_loads hloads]

end Given

/-! ## What is decoded -/

/-- The clocks that follow from the four values. -/
def Clocks.ofWords (word : Setting → UInt32) : Clocks :=
  Snapshot.derive ⟨word .facc1, word .pllLow, word .pllHigh⟩ ⟨word .sysref⟩

namespace Report

/-- The report on the four values. -/
def ofWords (word : Setting → UInt32) : List String :=
  lines ⟨word .sysref⟩ ⟨word .facc1, word .pllLow, word .pllHigh⟩

/-- What is printed of these values, and the failure if there is one. -/
def outcome (word : Setting → UInt32) (baud : Option UInt32) : Outcome :=
  match baud with
  | none => ⟨print (ofWords word), none⟩
  | some baud =>
      match (Clocks.ofWords word).consoleDivisor baud with
      | .ok divisor =>
          ⟨print (ofWords word ++ divisorLines baud divisor), none⟩
      | .error cause => ⟨print (ofWords word), some (.noDivisor baud cause)⟩

variable {word : Setting → UInt32} {baud : UInt32}

theorem outcome_of_divisor {divisor : UInt16}
    (h : (Clocks.ofWords word).consoleDivisor baud = .ok divisor) :
    outcome word (some baud) =
      ⟨print (ofWords word ++ divisorLines baud divisor), none⟩ := by
  simp only [outcome, h]

theorem outcome_of_consoleError {cause : ConsoleError}
    (h : (Clocks.ofWords word).consoleDivisor baud = .error cause) :
    outcome word (some baud) =
      ⟨print (ofWords word), some (.noDivisor baud cause)⟩ := by
  simp only [outcome, h]

end Report

theorem Given.report_of_supplies {given : Given} {dump : Dump}
    {word : Setting → UInt32} (h : ∀ s, given.Supplies dump s (word s)) :
    given.report dump = Report.outcome word given.baud := by
  unfold report
  rw [resolve_of_supplies h]
  rfl

namespace Command

/-- The run with these arguments decodes these values. -/
def Supplied (read : String → Except ReadError String)
    (arguments : List String) (word : Setting → UInt32)
    (baud : Option UInt32) : Prop :=
  ∃ given dump, Given.ofArguments arguments = .ok given ∧
    (given.file ≠ none ∨ given.facc1 ≠ none) ∧ given.Loads read dump ∧
    (∀ s, given.Supplies dump s (word s)) ∧ given.baud = baud

theorem run_of_supplied
    {read : String → Except ReadError String} {arguments : List String}
    {word : Setting → UInt32} {baud : Option UInt32}
    (h : Supplied read arguments word baud) :
    run read arguments = .ofOutcome (Report.outcome word baud) := by
  obtain ⟨given, dump, hgiven, hsource, hloads, hword, rfl⟩ := h
  unfold run
  rw [hgiven]
  simp only
  rw [Given.decode_of_loads hsource hloads, Given.report_of_supplies hword]

end Command

/-! ## Numbers and their digits -/

namespace RegisterValue

theorem toWord_number (n : UInt64) :
    (RegisterValue.number n).toWord =
      if n.toNat < UInt32.size then .ok (UInt32.ofNat n.toNat)
      else .error (.tooWide n) := rfl

theorem toWord_text_toString (n : Nat) :
    (RegisterValue.text (toString n)).toWord =
      if n < UInt32.size then .ok (UInt32.ofNat n)
      else .error (.numeral ⟨toString n, .tooLarge⟩) := by
  rw [toWord, readWord_toString_nat]
  by_cases hn : n < UInt32.size
  · simp only [if_pos hn]
  · simp only [if_neg hn]

end RegisterValue

theorem pick_of_toWord_eq_ok {value : RegisterValue} {word : UInt32}
    (hword : value.toWord = .ok word) (name : String) :
    pick none (some value) name = .ok (some word) := by
  simp only [pick, hword]

theorem pick_of_toWord_eq_error {value : RegisterValue} {cause : ValueError}
    (hword : value.toWord = .error cause) (name : String) :
    pick none (some value) name = .error (.badValue name cause) := by
  simp only [pick, hword]

namespace Command

/-- Two runs that decode the same values print the same and end the same,
wherever each of the values comes from.  In a dump a number and the text of its
digits are the same value, and are accepted or refused together. -/
theorem run_eq_of_supplied :
    (∀ {read read' : String → Except ReadError String}
        {arguments arguments' : List String} {word : Setting → UInt32}
        {baud : Option UInt32},
      Supplied read arguments word baud →
      Supplied read' arguments' word baud →
        run read arguments = run read' arguments') ∧
    ∀ (n : UInt64) (name : String),
      let number := RegisterValue.number n
      let text := RegisterValue.text (toString n.toNat)
      (n.toNat < UInt32.size → ∃ word : UInt32, word.toNat = n.toNat ∧
        pick none (some number) name = .ok (some word) ∧
        pick none (some text) name = .ok (some word)) ∧
      (UInt32.size ≤ n.toNat → ∀ value ∈ [number, text], ∃ failure : Failure,
        pick none (some value) name = .error failure ∧
        failure.messages.head? = some ("bad value for " ++ name)) := by
  refine ⟨fun h h' => ?_, fun n name => ⟨fun hn => ?_, fun hn => ?_⟩⟩
  · rw [run_of_supplied h, run_of_supplied h']
  · have hnumber := RegisterValue.toWord_number n
    have htext := RegisterValue.toWord_text_toString n.toNat
    rw [if_pos hn] at hnumber htext
    exact ⟨_, UInt32.toNat_ofNat_of_lt' hn, pick_of_toWord_eq_ok hnumber name,
      pick_of_toWord_eq_ok htext name⟩
  · have hnumber := RegisterValue.toWord_number n
    have htext := RegisterValue.toWord_text_toString n.toNat
    rw [if_neg (not_lt.mpr hn)] at hnumber htext
    simp only [List.forall_mem_cons, List.not_mem_nil, false_implies,
      implies_true, and_true]
    exact ⟨⟨_, pick_of_toWord_eq_error hnumber name, rfl⟩,
      ⟨_, pick_of_toWord_eq_error htext name, rfl⟩⟩

theorem run_eq_of_supplied_flagsOrDump :
    let content := "facc1_cr: \"0x2_49\"\npll_status_low_cr: 384 # low\n" ++
      "pll_status_high_cr: unknown"
    let word : Setting → UInt32
      | .sysref => 100000000
      | .facc1 => 0x249
      | .pllLow => 0x180
      | .pllHigh => 8
    let flags := ["--facc1", "0x249", "--pll-low=0x180", "--pll-high", "8",
      "-s100_000_000", "--baud", "9600"]
    let dumped := ["-fdump.hjson", "--pll-high=0x8", "-b", "9600"]
    Supplied (fun _ => .error .notFound) flags word (some 9600) ∧
      Supplied (fun _ => .ok content) dumped word (some 9600) ∧
      run (fun _ => .error .notFound) flags =
        run (fun _ => .ok content) dumped ∧
      (∃ failure : Failure,
        pick none (some (.text "4294967296")) "facc1" = .error failure ∧
        failure.messages.head? = some "bad value for facc1") := by
  intro content word flags dumped
  let given : Given :=
    ⟨none, some 100000000, some 0x249, some 0x180, some 8, some 9600⟩
  let partly : Given :=
    ⟨some "dump.hjson", none, none, none, some 8, some 9600⟩
  have hflags :
      Supplied (fun _ => .error .notFound) flags word (some 9600) := by
    refine ⟨given, .empty, by decide +kernel, by decide, .absent rfl,
      fun s => .flag ?_, rfl⟩
    cases s <;> rfl
  have hdump : Dump.ofText? content =
      some ⟨none, some (.text "0x2_49"), some (.number 384),
        some (.text "unknown")⟩ := by
    decide +kernel
  have hdumped :
      Supplied (fun _ => .ok content) dumped word (some 9600) := by
    refine ⟨partly, _, by decide +kernel, by decide, .file rfl rfl hdump,
      fun s => ?_, rfl⟩
    cases s with
    | sysref => exact .standard rfl rfl
    | facc1 => exact .text rfl rfl (by decide +kernel)
    | pllLow => exact .number rfl rfl rfl
    | pllHigh => exact .flag rfl
  exact ⟨hflags, hdumped, run_eq_of_supplied.1 hflags hdumped,
    (run_eq_of_supplied.2 4294967296 "facc1").2 (by decide) _ (by decide)⟩

end Command

end MssClock
