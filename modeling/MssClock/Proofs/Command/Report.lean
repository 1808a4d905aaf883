import MssClock.Command.Report
import MssClock.Proofs.Text.Words

/-!
# Reading the printed report

A report is read back by the words of its lines.  A clock line consists of a
name, a number of hertz and the same in megahertz, with the units in between;
no other line of a report has this form.  So the names and numbers that a
reader finds are those of the clock tree, one for every domain and in
evaluation order.
-/

namespace MssClock

/-- The names of the domains, each with its frequency as a plain number. -/
def Clocks.named (clocks : Clocks) : List (String × Nat) :=
  clocks.toList.map fun (domain, freq) => (domain.name, freq.value.toNat)

/-! ## The parts of a line -/

section Number

variable {c : Char}

theorem notMem_thousandths (hc : c.isDigit = false) (n : Nat) :
    c ∉ (thousandths n).toList := by
  have hne : ∀ n, c ≠ Nat.digitChar (n % 10) := by
    intro n heq
    have hdigit : (Nat.digitChar (n % 10)).isDigit = true := by
      rw [Nat.isDigit_digitChar, decide_eq_true_eq]
      exact Nat.mod_lt n (by decide)
    rw [heq, hdigit] at hc
    cases hc
  simp [thousandths, hne]

theorem notMem_megahertz
    (hc : c.isDigit = false) (hpoint : c ≠ '.') (freq : Hertz) :
    c ∉ (Report.megahertz freq).toList := by
  simp [Report.megahertz, notMem_toDigits hc, notMem_thousandths hc, hpoint]

end Number

theorem words_padRight (width : Nat) (text : String) :
    words (padRight width text) = words text := by
  unfold padRight
  cases width - text.length with
  | zero => simp
  | succ n =>
      have hsplit : text ++ String.ofList (List.replicate (n + 1) ' ') =
          text ++ " " ++ String.ofList (List.replicate n ' ') := by
        simp [← String.toList_inj, List.replicate_succ]
      rw [hsplit, words_append_space, words_spaces, List.append_nil]

theorem words_padLeft (width : Nat) (text : String) :
    words (padLeft width text) = words text := by
  unfold padLeft
  cases width - text.length with
  | zero => simp
  | succ n =>
      have hsplit : String.ofList (List.replicate (n + 1) ' ') ++ text =
          String.ofList (List.replicate n ' ') ++ " " ++ text := by
        simp [List.replicate_succ']
      rw [hsplit, words_append_space, words_spaces, List.nil_append]

theorem Hertz.text_eq (freq : Hertz) :
    freq.text = toString freq.value.toNat ++ " Hz" := rfl

theorem Domain.words_name (domain : Domain) :
    words domain.name = [domain.name] := by
  cases domain <;> decide

/-! ## The lines of a report -/

namespace Report

/-- The name and the number of hertz on a clock line. -/
def frequency? : List String → Option (String × Nat)
  | [name, hz, "Hz", _, "MHz)"] => (decimal? hz).map fun n => (name, n)
  | _ => none

/-- The names and the numbers of hertz on all clock lines of a text. -/
def frequencies (printed : String) : List (String × Nat) :=
  (lineTexts printed).filterMap fun line => frequency? (words line)

theorem words_clockLine (domain : Domain) (freq : Hertz) :
    words (clockLine domain freq) =
      [domain.name, toString freq.value.toNat, "Hz", "(" ++ megahertz freq,
        "MHz)"] := by
  have hline : clockLine domain freq =
      " ".intercalate [padRight 8 domain.name,
        padLeft 12 (toString freq.value.toNat), "Hz", "",
        "(" ++ megahertz freq, "MHz)"] := by
    simp [clockLine, ← String.toList_inj]
  have hmegahertz : words ("(" ++ megahertz freq) = ["(" ++ megahertz freq] := by
    apply words_eq_singleton
    · simp
    · simp [notMem_megahertz]
  rw [hline, words_intercalate]
  simp only [List.flatMap_cons, List.flatMap_nil, words_padRight,
    words_padLeft, domain.words_name, words_toString, hmegahertz]
  rfl

theorem frequency?_clockLine (domain : Domain) (freq : Hertz) :
    frequency? (words (clockLine domain freq)) =
      some (domain.name, freq.value.toNat) := by
  rw [words_clockLine]
  simp only [frequency?, decimal?_toString, Option.map_some]

theorem words_sysrefLine (sysref : Hertz) :
    words ("SYSREF:  " ++ sysref.text) =
      ["SYSREF:", toString sysref.value.toNat, "Hz"] := by
  have hline : "SYSREF:  " ++ sysref.text =
      " ".intercalate ["SYSREF:", "", toString sysref.value.toNat, "Hz"] := by
    simp [Hertz.text_eq, ← String.toList_inj]
  rw [hline, words_intercalate]
  simp only [List.flatMap_cons, List.flatMap_nil, words_toString]
  rfl

theorem frequency?_sysrefLine (sysref : Hertz) :
    frequency? (words ("SYSREF:  " ++ sysref.text)) = none := by
  rw [words_sysrefLine]
  rfl

theorem words_assigned
    {name : String} (hne : name ≠ "") (hspace : ' ' ∉ name.toList) (n : Nat) :
    words (name ++ toString n) = [name ++ toString n] := by
  apply words_eq_singleton
  · simp [hne]
  · simp [hspace, notMem_toDigits]

theorem words_flag (on : Bool) :
    let text := "FSE=" ++ (if on then "1" else "0")
    words text = [text] ∧ text ≠ "MHz)" := by
  cases on <;> decide

theorem words_pllLine (snapshot : Snapshot) :
    words (pllLine snapshot) =
      ["MPLL:", "DIVR=" ++ toString snapshot.divr.toNat,
        "DIVF=" ++ toString snapshot.divf.toNat,
        "DIVQ=" ++ toString snapshot.divq.toNat,
        "FSE=" ++ (if snapshot.fse then "1" else "0")] := by
  have hline : pllLine snapshot =
      " ".intercalate ["MPLL:", "", "", "",
        "DIVR=" ++ toString snapshot.divr.toNat,
        "DIVF=" ++ toString snapshot.divf.toNat,
        "DIVQ=" ++ toString snapshot.divq.toNat,
        "FSE=" ++ (if snapshot.fse then "1" else "0")] := by
    -- What the fields hold is of no account, and is not to be evaluated.
    unfold pllLine
    generalize snapshot.divr.toNat = divr, snapshot.divf.toNat = divf,
      snapshot.divq.toNat = divq, snapshot.fse = fse
    simp [← String.toList_inj]
  have hwords := (words_flag snapshot.fse).1
  rw [hline, words_intercalate]
  generalize "FSE=" ++ (if snapshot.fse then "1" else "0") = fse at *
  simp only [List.flatMap_cons, List.flatMap_nil, hwords,
    words_assigned (show "DIVR=" ≠ "" by decide) (by decide),
    words_assigned (show "DIVF=" ≠ "" by decide) (by decide),
    words_assigned (show "DIVQ=" ≠ "" by decide) (by decide)]
  rfl

theorem frequency?_pllLine (snapshot : Snapshot) :
    frequency? (words (pllLine snapshot)) = none := by
  have hne := (words_flag snapshot.fse).2
  rw [words_pllLine]
  generalize "FSE=" ++ (if snapshot.fse then "1" else "0") = fse at *
  simp [frequency?, hne]

theorem newline_notMem_of_mem_lines
    {sysref : Hertz} {snapshot : Snapshot} {line : String}
    (hline : line ∈ lines sysref snapshot) : '\n' ∉ line.toList := by
  unfold lines at hline
  simp only [List.cons_append, List.nil_append, List.mem_cons,
    List.mem_map] at hline
  rcases hline with rfl | rfl | rfl | ⟨⟨domain, freq⟩, -, rfl⟩
  · simp [Hertz.text_eq, notMem_toDigits]
  · unfold pllLine
    generalize snapshot.divr.toNat = divr, snapshot.divf.toNat = divf,
      snapshot.divq.toNat = divq, snapshot.fse = fse
    have hflag : '\n' ∉ (if fse then "1" else "0").toList := by
      cases fse <;> decide
    simp [hflag, notMem_toDigits]
  · simp
  · have hname : '\n' ∉ domain.name.toList := by
      cases domain <;> decide
    simp [clockLine, padRight, padLeft, hname, notMem_toDigits,
      notMem_megahertz]

theorem filterMap_clockLine (clocks : Clocks) :
    (clocks.toList.map fun (domain, freq) => clockLine domain freq).filterMap
        (fun line => frequency? (words line)) = clocks.named := by
  unfold Clocks.named
  rw [List.filterMap_map, ← List.filterMap_eq_map]
  congr 1
  funext ⟨domain, freq⟩
  exact frequency?_clockLine domain freq

/-- The last line feed closes the last line; what follows is empty. -/
theorem lineTexts_print_lines (sysref : Hertz) (snapshot : Snapshot) :
    lineTexts (print (lines sysref snapshot)) = lines sysref snapshot ++ [""] :=
  lineTexts_print fun _ => newline_notMem_of_mem_lines

/-- A reader of the printed report finds the frequencies of the clock tree. -/
theorem frequencies_print_lines (sysref : Hertz) (snapshot : Snapshot) :
    frequencies (print (lines sysref snapshot)) =
      (snapshot.derive sysref).named := by
  have hlines := lineTexts_print_lines sysref snapshot
  have hempty : frequency? (words "") = none := by decide
  have hclocks := filterMap_clockLine (snapshot.derive sysref)
  unfold frequencies
  rw [hlines, lines, List.filterMap_append, List.filterMap_append, hclocks]
  simp only [List.filterMap_cons, List.filterMap_nil, frequency?_sysrefLine,
    frequency?_pllLine, hempty, List.nil_append, List.append_nil]

end Report

end MssClock
