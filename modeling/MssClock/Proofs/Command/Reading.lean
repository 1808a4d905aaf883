import MssClock.Proofs.Clock.Tree
import MssClock.Proofs.Command.Report
import MssClock.Proofs.Command.Supply

/-!
# What a report tells its reader

A reader takes the reference from the first line of a report, the factors of the
PLL from the second and one frequency from each line below.  All of it is found
again, so a report shows these values and hides the rest: two reports are the
same text exactly if they agree on them.

The columns of a clock line do not depend on the frequency, because twelve
places are enough for the digits of every word.
-/

namespace MssClock

structure ClockReading where
  name : String
  hertz : Nat
  /-- Whole megahertz. -/
  whole : Nat
  thousandths : Nat
  deriving DecidableEq, Repr

structure Reading where
  sysref : Nat
  divr : Nat
  divf : Nat
  divq : Nat
  fse : Bool
  clocks : List ClockReading
  deriving DecidableEq, Repr

/-! ## The reader -/

namespace Reading

/-- The number in a word of the form `name=number`. -/
def assigned? (name word : String) : Option Nat :=
  match (word.toList.splitOn '=').map String.ofList with
  | [left, right] => if left = name then decimal? right else none
  | _ => none

def flag? (name word : String) : Option Bool :=
  match assigned? name word with
  | some 0 => some false
  | some 1 => some true
  | _ => none

/-- The two numbers in a word of the form `(whole.fraction`, the second one
with three digits. -/
def megahertz? (word : String) : Option (Nat × Nat) :=
  match word.toList.splitOn '.' with
  | ['(' :: whole, fraction] =>
      if fraction.length = 3 then do
        let whole ← decimal? (String.ofList whole)
        let thousandths ← decimal? (String.ofList fraction)
        return (whole, thousandths)
      else none
  | _ => none

def sysref? : List String → Option Nat
  | ["SYSREF:", hz, "Hz"] => decimal? hz
  | _ => none

/-- The two factors, the output divider and the feedback flag. -/
def factors? : List String → Option (Nat × Nat × Nat × Bool)
  | ["MPLL:", divr, divf, divq, fse] => do
      let divr ← assigned? "DIVR" divr
      let divf ← assigned? "DIVF" divf
      let divq ← assigned? "DIVQ" divq
      let fse ← flag? "FSE" fse
      return (divr, divf, divq, fse)
  | _ => none

def clock? : List String → Option ClockReading
  | [name, hz, "Hz", mhz, "MHz)"] => do
      let hertz ← decimal? hz
      let (whole, thousandths) ← megahertz? mhz
      return { name, hertz, whole, thousandths }
  | _ => none

/-- Reads lines that are closed by line feeds, so that nothing follows the
last one. -/
def ofText? (printed : String) : Option Reading :=
  match (lineTexts printed).map words with
  | first :: second :: [] :: rest => do
      let sysref ← sysref? first
      let (divr, divf, divq, fse) ← factors? second
      let clocks ← rest.dropLast.mapM clock?
      return { sysref, divr, divf, divq, fse, clocks }
  | _ => none

/-! ## What there is to read -/

def ofClock (domain : Domain) (freq : Hertz) : ClockReading :=
  { name := domain.name
    hertz := freq.value.toNat
    whole := freq.value.toNat / 1000000
    thousandths := freq.value.toNat % 1000000 / 1000 }

/-- The reading of the four values, as arithmetic on them. -/
def ofWords (word : Setting → UInt32) : Reading :=
  { sysref := (word .sysref).toNat
    divr := (word .pllLow).toNat % 64
    divf := (word .pllLow).toNat / 64 % 1024
    divq := (Encoding.extended.divisorAt (word .pllLow) 16).toNat
    fse := (word .pllHigh).toNat / 8 % 2 = 1
    clocks := Domain.all.map fun domain =>
      ofClock domain ((Clocks.ofWords word).get domain) }

end Reading

/-! ## Reading the parts of a line -/

theorem decimal?_thousandths {n : Nat} (hn : n < 1000) :
    decimal? (thousandths n) = some n := by
  have hdigit : ∀ n, (Nat.digitChar (n % 10)).isDigit = true := by
    intro n
    rw [Nat.isDigit_digitChar, decide_eq_true_eq]
    exact Nat.mod_lt n (by decide)
  have hmod : ∀ n, n % 10 < 10 := fun n => Nat.mod_lt n (by decide)
  have hall : (thousandths n).toList.all Char.isDigit = true := by
    simp [thousandths, hdigit]
  have hne : thousandths n ≠ "" := by
    simp [thousandths]
  unfold decimal?
  rw [if_pos ⟨hne, hall⟩, thousandths, String.toList_ofList]
  simp only [Nat.ofDigitChars_cons_digitChar_of_lt_ten (hmod _),
    Nat.ofDigitChars_nil, Option.some.injEq]
  omega

namespace Reading

theorem assigned?_toString {name mark : String} (hmark : mark = name ++ "=")
    (hname : '=' ∉ name.toList) (n : Nat) :
    assigned? name (mark ++ toString n) = some n := by
  have hchars : (mark ++ toString n).toList =
      name.toList ++ '=' :: (toString n).toList := by
    simp [hmark]
  have hdigits : '=' ∉ (toString n).toList := by
    rw [Nat.toString_eq_ofList_toDigits, String.toList_ofList]
    exact notMem_toDigits (by decide) n
  unfold assigned?
  rw [hchars, List.splitOn_append_cons_self_of_not_mem hname,
    List.splitOn_eq_singleton hdigits]
  simp only [List.map_cons, List.map_nil, String.ofList_toList, if_true,
    decimal?_toString]

theorem flag?_fse (on : Bool) :
    flag? "FSE" ("FSE=" ++ (if on then "1" else "0")) = some on := by
  cases on <;> decide +kernel

theorem megahertz?_megahertz (freq : Hertz) :
    megahertz? ("(" ++ Report.megahertz freq) =
      some (freq.value.toNat / 1000000,
        freq.value.toNat % 1000000 / 1000) := by
  let whole := freq.value.toNat / 1000000
  let fraction := freq.value.toNat % 1000000 / 1000
  have hchars : ("(" ++ Report.megahertz freq).toList =
      ('(' :: (toString whole).toList) ++ '.' :: (thousandths fraction).toList := by
    simp [Report.megahertz, whole, fraction]
  have hwhole : '.' ∉ '(' :: (toString whole).toList := by
    rw [Nat.toString_eq_ofList_toDigits, String.toList_ofList]
    simp [notMem_toDigits]
  have hfraction : '.' ∉ (thousandths fraction).toList :=
    notMem_thousandths (by decide) _
  have hlength : (thousandths fraction).toList.length = 3 := by
    simp [thousandths]
  have hlt : fraction < 1000 := by
    omega
  unfold megahertz?
  rw [hchars, List.splitOn_append_cons_self_of_not_mem hwhole,
    List.splitOn_eq_singleton hfraction]
  simp only [hlength, if_true, String.ofList_toList, decimal?_toString,
    decimal?_thousandths hlt]
  rfl

theorem clock?_clockLine (domain : Domain) (freq : Hertz) :
    clock? (words (Report.clockLine domain freq)) =
      some (ofClock domain freq) := by
  rw [Report.words_clockLine]
  simp only [clock?, decimal?_toString, megahertz?_megahertz]
  rfl

theorem sysref?_sysrefLine (sysref : Hertz) :
    sysref? (words ("SYSREF:  " ++ sysref.text)) =
      some sysref.value.toNat := by
  rw [Report.words_sysrefLine]
  exact decimal?_toString _

theorem factors?_pllLine (snapshot : Snapshot) :
    factors? (words (Report.pllLine snapshot)) =
      some (snapshot.divr.toNat, snapshot.divf.toNat, snapshot.divq.toNat,
        snapshot.fse) := by
  have hdivr : "DIVR=" = "DIVR" ++ "=" := rfl
  have hdivf : "DIVF=" = "DIVF" ++ "=" := rfl
  have hdivq : "DIVQ=" = "DIVQ" ++ "=" := rfl
  rw [Report.words_pllLine, factors?,
    assigned?_toString hdivr (by decide), assigned?_toString hdivf (by decide),
    assigned?_toString hdivq (by decide), flag?_fse]
  rfl

theorem mapM_clock?_clockLine (clocks : Clocks) :
    (Domain.all.map fun domain =>
        words (Report.clockLine domain (clocks.get domain))).mapM clock? =
      some (Domain.all.map fun domain =>
        ofClock domain (clocks.get domain)) := by
  have hline :
      clock? ∘ (fun domain =>
        words (Report.clockLine domain (clocks.get domain))) =
      fun domain => some (ofClock domain (clocks.get domain)) := by
    funext domain
    exact clock?_clockLine domain _
  rw [List.mapM_map, hline]
  exact List.mapM_pure

/-- The reader finds what the report was made of. -/
theorem ofText?_print_ofWords (word : Setting → UInt32) :
    ofText? (Report.print (Report.ofWords word)) = some (ofWords word) := by
  let sysref : Hertz := ⟨word .sysref⟩
  let snapshot : Snapshot := ⟨word .facc1, word .pllLow, word .pllHigh⟩
  have hlines : (lineTexts (Report.print (Report.ofWords word))).map words =
      words ("SYSREF:  " ++ sysref.text) ::
        words (Report.pllLine snapshot) :: [] ::
          ((Domain.all.map fun domain =>
            words (Report.clockLine domain
              ((Clocks.ofWords word).get domain))) ++ [[]]) := by
    have hclosed : lineTexts (Report.print (Report.ofWords word)) =
        Report.lines sysref snapshot ++ [""] :=
      Report.lineTexts_print_lines sysref snapshot
    have hempty : words "" = [] := by decide
    rw [hclosed]
    simp only [Report.lines, Clocks.toList, List.map_append, List.map_map,
      List.map_cons, List.map_nil, hempty, List.cons_append, List.nil_append]
    rfl
  unfold ofText?
  rw [hlines]
  simp only [sysref?_sysrefLine, factors?_pllLine, List.dropLast_concat,
    mapM_clock?_clockLine]
  unfold ofWords
  rw [← snapshot.fse_eq_decide, ← snapshot.toNat_divr, ← snapshot.toNat_divf,
    ← snapshot.divq_eq_divisorAt]
  rfl

theorem clocks_eq_of_ofWords_eq {word word' : Setting → UInt32}
    (h : (ofWords word).clocks = (ofWords word').clocks) (domain : Domain) :
    (Clocks.ofWords word).get domain = (Clocks.ofWords word').get domain := by
  simp only [ofWords] at h
  have hclock := List.map_inj_left.mp h domain domain.mem_all
  have hvalue : ((Clocks.ofWords word).get domain).value =
      ((Clocks.ofWords word').get domain).value :=
    UInt32.toNat_inj.mp (congrArg ClockReading.hertz hclock)
  exact congrArg Hertz.mk hvalue

/-- A report is made of nothing but what its reader finds. -/
theorem report_eq_of_ofWords_eq {word word' : Setting → UInt32}
    (h : ofWords word = ofWords word') :
    Report.ofWords word = Report.ofWords word' := by
  let snapshot : Snapshot := ⟨word .facc1, word .pllLow, word .pllHigh⟩
  let snapshot' : Snapshot := ⟨word' .facc1, word' .pllLow, word' .pllHigh⟩
  -- The lines are equal one by one, though the words need not be.
  have hclock := clocks_eq_of_ofWords_eq (congrArg Reading.clocks h)
  have hsysref : word .sysref = word' .sysref :=
    UInt32.toNat_inj.mp (congrArg Reading.sysref h)
  have hdivr : snapshot.divr.toNat = snapshot'.divr.toNat := by
    rw [snapshot.toNat_divr, snapshot'.toNat_divr]
    exact congrArg Reading.divr h
  have hdivf : snapshot.divf.toNat = snapshot'.divf.toNat := by
    rw [snapshot.toNat_divf, snapshot'.toNat_divf]
    exact congrArg Reading.divf h
  have hdivq : snapshot.divq.toNat = snapshot'.divq.toNat := by
    rw [snapshot.divq_eq_divisorAt, snapshot'.divq_eq_divisorAt]
    exact congrArg Reading.divq h
  have hfse : snapshot.fse = snapshot'.fse := by
    rw [snapshot.fse_eq_decide, snapshot'.fse_eq_decide]
    exact congrArg Reading.fse h
  have hpll : Report.pllLine snapshot = Report.pllLine snapshot' := by
    unfold Report.pllLine
    rw [hdivr, hdivf, hdivq, hfse]
  have hlist : (snapshot.derive ⟨word .sysref⟩).toList =
      (snapshot'.derive ⟨word' .sysref⟩).toList := by
    change (Clocks.ofWords word).toList = (Clocks.ofWords word').toList
    unfold Clocks.toList
    simp only [hclock]
  have htext : (Hertz.mk (word .sysref)).text = (Hertz.mk (word' .sysref)).text := by
    rw [hsysref]
  unfold Report.ofWords Report.lines
  rw [hlist, hpll, htext]

end Reading

/-! ## Columns -/

namespace Report

def spaces (n : Nat) : String :=
  String.ofList (List.replicate n ' ')

/-- A clock line in its columns: the name up to column 8, the figure up to
column 21, and three digits after the point.  What they say is the frequency
up to less than a thousandth of a megahertz. -/
def Tabulated (name : String) (hertz : Nat) (line : String) : Prop :=
  ∃ (after before : Nat) (whole fraction : String) (mega milli : Nat),
    let left := name ++ spaces after
    let front := left ++ " " ++ spaces before ++ toString hertz
    line = front ++ " Hz  (" ++ whole ++ "." ++ fraction ++ " MHz)" ∧
    left.length = 8 ∧ front.length = 21 ∧ fraction.length = 3 ∧
    decimal? whole = some mega ∧ decimal? fraction = some milli ∧
    1000000 * mega + 1000 * milli ≤ hertz ∧
    hertz < 1000000 * mega + 1000 * milli + 1000

theorem length_toString_le (word : UInt32) :
    (toString word.toNat).length ≤ 12 := by
  have hlt : word.toNat < 10 ^ 12 :=
    lt_trans word.toNat_lt (by decide)
  rw [Nat.toString_eq_ofList_toDigits, String.length_ofList]
  exact (Nat.length_toDigits_le_iff (by decide) (by decide)).mpr hlt

theorem tabulated_clockLine (domain : Domain) (freq : Hertz) :
    Tabulated domain.name freq.value.toNat (clockLine domain freq) := by
  have hname : domain.name.length ≤ 8 := by
    cases domain <;> decide
  have hfigure := length_toString_le freq.value
  refine ⟨8 - domain.name.length, 12 - (toString freq.value.toNat).length,
    toString (freq.value.toNat / 1000000),
    thousandths (freq.value.toNat % 1000000 / 1000), _, _, ?_, ?_, ?_, ?_,
    decimal?_toString _, decimal?_thousandths (by omega), by omega, by omega⟩
  · simp [clockLine, padRight, padLeft, spaces, megahertz, String.append_assoc]
  · simp only [String.length_append, spaces, String.length_ofList,
      List.length_replicate]
    omega
  · simp only [String.length_append, spaces, String.length_ofList,
      List.length_replicate]
    have hspace : " ".length = 1 := rfl
    omega
  · simp [thousandths]

end Report

namespace Command

variable {read : String → Except ReadError String} {arguments : List String}
  {word : Setting → UInt32}

theorem run_of_supplied_withoutBaud
    (h : Supplied read arguments word none) :
    run read arguments = .finished (Report.print (Report.ofWords word)) := by
  rw [run_of_supplied h]
  rfl

/-- A run without a baud rate prints twelve lines.  They tell the reader the
reference, the factors and the frequencies, set out in columns, and nothing
else about the words they were made of. -/
theorem run_report (h : Supplied read arguments word none) :
    ∃ (printed : String) (lines : List String),
      run read arguments = .finished printed ∧
      printed = Report.print lines ∧ lines.length = 12 ∧
      (∀ line ∈ lines, '\n' ∉ line.toList) ∧
      lines.drop 3 = (Domain.all.map fun domain =>
        Report.clockLine domain ((Clocks.ofWords word).get domain)) ∧
      (∀ (domain : Domain) (freq : Hertz),
        Report.Tabulated domain.name freq.value.toNat
          (Report.clockLine domain freq)) ∧
      Reading.ofText? printed = some (Reading.ofWords word) ∧
      ∀ {read' : String → Except ReadError String} {arguments' : List String}
        {word' : Setting → UInt32} {printed' : String},
        Supplied read' arguments' word' none →
        run read' arguments' = .finished printed' →
          (printed = printed' ↔ Reading.ofWords word = Reading.ofWords word') := by
  refine ⟨Report.print (Report.ofWords word), Report.ofWords word,
    run_of_supplied_withoutBaud h, rfl, rfl,
    fun _ => Report.newline_notMem_of_mem_lines, ?_,
    Report.tabulated_clockLine, Reading.ofText?_print_ofWords word, ?_⟩
  · simp only [Report.ofWords, Report.lines, Clocks.toList, List.map_map]
    rfl
  · intro read' arguments' word' printed' h' hrun'
    have hprinted' : printed' = Report.print (Report.ofWords word') := by
      rw [run_of_supplied_withoutBaud h', Result.finished.injEq] at hrun'
      exact hrun'.symm
    rw [hprinted']
    constructor
    · intro hsame
      apply Option.some.inj
      rw [← Reading.ofText?_print_ofWords, ← Reading.ofText?_print_ofWords,
        hsame]
    · intro hsame
      rw [Reading.report_eq_of_ofWords_eq hsame]

theorem run_report_bypassAndMux :
    let read : String → Except ReadError String := fun _ => .error .notFound
    let arguments := ["--facc1", "0x249", "--pll-low", "0x180", "--pll-high",
      "0x8", "--sysref", "999999"]
    let arguments' := ["--facc1", "0x1249", "--pll-low", "0x180", "--pll-high",
      "0xD", "--sysref", "999999"]
    ∃ printed, run read arguments = .finished printed ∧
      run read arguments' = .finished printed ∧
      (Reading.ofText? printed).map
          (fun reading => (reading.divq, reading.fse, reading.clocks.take 3)) =
        some (1, true, [⟨"sysref", 999999, 0, 999⟩,
          ⟨"ddr", 6999993, 6, 999⟩, ⟨"clk_a", 3499996, 3, 499⟩]) := by
  intro read arguments arguments'
  let given : Given :=
    ⟨none, some 999999, some 0x249, some 0x180, some 8, none⟩
  let given' : Given :=
    ⟨none, some 999999, some 0x1249, some 0x180, some 0xD, none⟩
  let word : Setting → UInt32 := fun s => (given.setting s).getD 0
  let word' : Setting → UInt32 := fun s => (given'.setting s).getD 0
  have hword : Supplied read arguments word none := by
    refine ⟨given, .empty, by decide +kernel, by decide, .absent rfl,
      fun s => .flag ?_, rfl⟩
    cases s <;> rfl
  have hword' : Supplied read arguments' word' none := by
    refine ⟨given', .empty, by decide +kernel, by decide, .absent rfl,
      fun s => .flag ?_, rfl⟩
    cases s <;> rfl
  have hsame : Reading.ofWords word = Reading.ofWords word' := by
    decide +kernel
  obtain ⟨printed, -, hrun, -, -, -, -, -, hreading, hsameText⟩ :=
    run_report hword
  have hrun' := run_of_supplied_withoutBaud hword'
  have hprinted := (hsameText hword' hrun').mpr hsame
  refine ⟨printed, hrun, hprinted ▸ hrun', ?_⟩
  rw [hreading]
  decide +kernel

end Command

end MssClock
