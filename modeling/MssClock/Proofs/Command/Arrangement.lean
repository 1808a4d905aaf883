import MssClock.Proofs.Command.Spelling
import MssClock.Proofs.Text.Language

/-!
# The order and the spelling of the options

An option has a long name, some have a letter as well, and a value can be
attached to either, with an equals sign or, to a letter, without.  None of that
reaches what is given, provided that a value cannot be taken for an option or for
the equals sign in front of it.  Together with what is known about uses in any
order, the options can be arranged on the command line at will; and an option
that is there twice is refused wherever the second one stands.
-/

namespace MssClock

/-! ## Values for every spelling -/

/-- The texts that an option has a value for and that stand for themselves in
every spelling. -/
inductive Use.Valid : Use → Prop
  | file {name : String} (hne : name ≠ "") (hvalue : IsValue name)
      (hequals : name.toList.head? ≠ some '=') : Valid ⟨.file, name⟩
  | setting {s : Setting} {text : String} {word : UInt32}
      (hread : readWord text = .ok word) : Valid ⟨.setting s, text⟩
  | baud {text : String} {digits : List Char} {rate : Nat}
      (hsign : text.toList = digits ∨ text.toList = '+' :: digits)
      (hne : digits ≠ []) (hdigits : Radix.decimal.IsNumeral digits rate)
      (hlt : rate < UInt32.size) : Valid ⟨.baud, text⟩

section Numbers

variable {text : String} {digits : List Char} {rate : Nat} {c : Char}
  (hc : c = '-' ∨ c = '=')

include hc

theorem not_denotes_of_mark {radix : Radix} {n : Nat} :
    ¬ radix.Denotes c n := by
  rw [← Radix.digit?_eq_some_iff]
  intro hdigit
  rcases hc with rfl | rfl <;> cases radix <;> cases hdigit

theorem notMem_of_readWord {word : UInt32} (hread : readWord text = .ok word) :
    c ∉ text.toList := by
  intro hmem
  rcases (isNumber_of_readWord hread).of_mem hmem with hwhite | hmark |
    ⟨radix, n, hdenotes⟩
  · rcases hc with rfl | rfl <;> exact absurd hwhite (by decide)
  · rcases hc with rfl | rfl <;> exact absurd hmark (by decide)
  · exact not_denotes_of_mark hc hdenotes

theorem notMem_of_isNumeral
    (hsign : text.toList = digits ∨ text.toList = '+' :: digits)
    (hdigits : Radix.decimal.IsNumeral digits rate) : c ∉ text.toList := by
  have hnot : c ∉ digits := by
    intro hmem
    obtain ⟨n, hdenotes⟩ := hdigits.exists_denotes hmem
    exact not_denotes_of_mark hc hdenotes
  have hplus : c ≠ '+' := by
    rcases hc with rfl | rfl <;> decide
  rcases hsign with heq | heq <;> rw [heq]
  · exact hnot
  · exact List.not_mem_cons_of_ne_of_not_mem hplus hnot

end Numbers

theorem readBaud_of_isNumeral {text : String} {digits : List Char} {rate : Nat}
    (hsign : text.toList = digits ∨ text.toList = '+' :: digits)
    (hne : digits ≠ []) (hdigits : Radix.decimal.IsNumeral digits rate)
    (hlt : rate < UInt32.size) : readBaud text = .ok (UInt32.ofNat rate) := by
  have hunsigned : readUnsigned .decimal signedBound text.toList = .ok rate :=
    (readUnsigned_eq_ok_iff (by decide)).mpr
      ⟨digits, hsign, hne, hdigits, hlt.trans (by decide)⟩
  have hsigned : readSigned text.toList = .ok (rate : Int) := by
    unfold readSigned
    split
    · rename_i heq
      have hminus : '-' ∈ text.toList := by simp [heq]
      exact absurd hminus (notMem_of_isNumeral (.inl rfl) hsign hdigits)
    · rw [hunsigned]
      rfl
  have hrange : (0 : Int) ≤ rate ∧ (rate : Int) < UInt32.size := by omega
  rw [readBaud, hsigned]
  simp only [if_pos hrange, Int.toNat_natCast]

theorem attachedValue?_toList {text : String} (hne : text ≠ "")
    (hequals : text.toList.head? ≠ some '=') :
    attachedValue? text.toList = some text := by
  unfold attachedValue?
  split
  · rename_i heq
    exact absurd (String.toList_eq_nil_iff.mp heq) hne
  · rename_i heq
    exact absurd (by rw [heq]; rfl) hequals
  · rw [String.ofList_toList]

namespace Use.Valid

variable {use : Use}

theorem exists_means (h : use.Valid) : ∃ value, use.Means value := by
  cases h with
  | file hne => exact ⟨_, .file hne⟩
  | setting hread => exact ⟨_, .setting hread⟩
  | baud hsign hne hdigits hlt =>
      exact ⟨_, .baud (readBaud_of_isNumeral hsign hne hdigits hlt)⟩

theorem ne_empty (h : use.Valid) : use.text ≠ "" := by
  cases h with
  | file hne => exact hne
  | @setting s text word hread =>
      rintro (rfl : text = "")
      have hempty : readWord "" = .error ⟨"", .empty⟩ := by decide +kernel
      rw [hempty] at hread
      cases hread
  | @baud text digits rate hsign hne =>
      rintro (rfl : text = "")
      rcases hsign with heq | heq
      · exact hne heq.symm
      · cases heq

/-- A value starts neither like an option nor like one that is attached. -/
theorem head?_ne (h : use.Valid) {c : Char} (hc : c = '-' ∨ c = '=') :
    use.text.toList.head? ≠ some c := by
  cases h with
  | file hne hvalue hequals =>
      rcases hc with rfl | rfl
      · exact hvalue
      · exact hequals
  | setting hread =>
      exact fun hhead => notMem_of_readWord hc hread (List.mem_of_head? hhead)
  | baud hsign hne hdigits =>
      exact fun hhead =>
        notMem_of_isNumeral hc hsign hdigits (List.mem_of_head? hhead)

end Use.Valid

/-! ## Spellings -/

/-- The ways to write an option with its value. -/
inductive Use.Spells (use : Use) : List String → Prop
  | long : Spells use ["--" ++ use.option.long, use.text]
  | longEquals : Spells use ["--" ++ use.option.long ++ "=" ++ use.text]
  | short {letter : Char} (hletter : use.option.short? = some letter) :
      Spells use ["-" ++ String.singleton letter, use.text]
  | shortAttached {letter : Char} (hletter : use.option.short? = some letter) :
      Spells use ["-" ++ String.singleton letter ++ use.text]
  | shortEquals {letter : Char} (hletter : use.option.short? = some letter) :
      Spells use ["-" ++ String.singleton letter ++ "=" ++ use.text]

namespace ValueOption

variable {o : ValueOption} {letter : Char}

theorem ofShort?_short (hletter : o.short? = some letter) :
    Name.ofShort? letter = some (.option o) := by
  cases o with
  | setting s =>
      cases s with
      | sysref => cases hletter; rfl
      | _ => cases hletter
  | _ => cases hletter; rfl

theorem short_ne_hyphen (hletter : o.short? = some letter) : letter ≠ '-' := by
  rintro rfl
  cases o with
  | setting s => cases s <;> cases hletter
  | _ => cases hletter

end ValueOption

namespace Argument

variable {o : ValueOption} {letter : Char}

theorem toList_short (letter : Char) (following : String) :
    ("-" ++ String.singleton letter ++ following).toList =
      '-' :: letter :: following.toList := by
  simp

theorem ofString_short (hne : letter ≠ '-') (following : String) :
    Argument.ofString ("-" ++ String.singleton letter ++ following) =
      .short letter following.toList := by
  unfold Argument.ofString
  rw [toList_short, ofChars]
  exact hne

theorem meets_short (hletter : o.short? = some letter) (following : String) :
    Meets ("-" ++ String.singleton letter ++ following) o
      (attachedValue? following.toList) := by
  have hne := ValueOption.short_ne_hyphen hletter
  refine ⟨fun heq => ?_, fun progress => ?_⟩
  · have hchars := congrArg String.toList heq
    rw [toList_short] at hchars
    simp [hne] at hchars
  · rw [ofString_short hne, Progress.step]
    simp only [ValueOption.ofShort?_short hletter]

end Argument

theorem Use.Spells.reads {use : Use} {piece : List String}
    (h : use.Spells piece) (hvalid : use.Valid) : use.Reads piece := by
  have hvalue : IsValue use.text := hvalid.head?_ne (.inl rfl)
  cases h with
  | long => exact .separate (Argument.meets_long _) hvalue
  | longEquals => exact .attached (Argument.meets_attached _ _)
  | short hletter =>
      -- A letter on its own is one with nothing after it.
      have hmeets := Argument.meets_short hletter ""
      rw [String.append_empty] at hmeets
      exact .separate hmeets hvalue
  | shortAttached hletter =>
      have hmeets := Argument.meets_short hletter use.text
      rw [attachedValue?_toList hvalid.ne_empty
        (hvalid.head?_ne (.inr rfl))] at hmeets
      exact .attached hmeets
  | shortEquals hletter =>
      have hmeets := Argument.meets_short hletter ("=" ++ use.text)
      have hequals : attachedValue? ("=" ++ use.text).toList = some use.text := by
        simp [attachedValue?]
      rw [hequals, ← String.append_assoc] at hmeets
      exact .attached hmeets

/-! ## Arrangements -/

/-- The arguments are these uses, in some order and each in one of its
spellings. -/
inductive Arranges (uses : List Use) : List String → Prop
  | intro {order : List Use} {pieces : List (List String)}
      (hperm : order.Perm uses)
      (hspells : List.Forall₂ Use.Spells order pieces) :
      Arranges uses pieces.flatten

namespace Arranges

variable {uses : List Use} {arguments : List String}

theorem exists_foldlM (h : Arranges uses arguments)
    (hvalid : ∀ use ∈ uses, use.Valid) :
    ∃ order : List Use, order.Perm uses ∧ Given.ofArguments arguments =
      (order.foldlM Given.acceptUse Given.nothing).mapError Stop.error := by
  cases h with
  | @intro order pieces hperm hspells =>
      have hordered : ∀ use ∈ order, use.Valid := fun use hmem =>
        hvalid use (hperm.mem_iff.mp hmem)
      have hreads : List.Forall₂ Use.Reads order pieces :=
        ((List.forall₂_and_left order pieces).mpr ⟨hordered, hspells⟩).imp
          fun use piece h => h.2.reads h.1
      exact ⟨order, hperm, Progress.finish_flatten hreads rfl⟩

theorem ofArguments_eq_ok {given : Given} (h : Arranges uses arguments)
    (hvalid : ∀ use ∈ uses, use.Valid) (hnodup : (uses.map Use.option).Nodup)
    (hgiven : given.IsOf uses) : Given.ofArguments arguments = .ok given := by
  obtain ⟨order, hperm, hfold⟩ := h.exists_foldlM hvalid
  obtain ⟨final, hfinal, hof⟩ := Given.isOf_nothing.exists_foldlM
    (fun use hmem => (hvalid use (hperm.mem_iff.mp hmem)).exists_means)
    ((hperm.map Use.option).nodup_iff.mpr hnodup)
  have hsame : final = given := (hof.perm hperm).unique hgiven
  rw [hfold, hfinal, hsame]
  rfl

theorem ofArguments_eq_repeated {again : Use}
    (h : Arranges (again :: uses) arguments)
    (hvalid : ∀ use ∈ again :: uses, use.Valid)
    (hnodup : (uses.map Use.option).Nodup)
    (hmem : again.option ∈ uses.map Use.option) :
    Given.ofArguments arguments =
      .error (.error (.repeated again.option)) := by
  obtain ⟨order, hperm, hfold⟩ := h.exists_foldlM hvalid
  have hrepeated : order.foldlM Given.acceptUse Given.nothing =
      .error (.repeated again.option) :=
    Given.isOf_nothing.foldlM_eq_repeated
      (fun use huse => (hvalid use (hperm.mem_iff.mp huse)).exists_means)
      List.nodup_nil (hperm.map Use.option) hnodup hmem
  rw [hfold, hrepeated]
  rfl

end Arranges

namespace Command

/-- The options can be arranged at will: what is given is what their values say,
and the run is the one with that.  With one of them there twice, the run ends with
the complaint about that option. -/
theorem run_arranged {chosen : List Use} (hvalid : ∀ use ∈ chosen, use.Valid)
    (hnodup : (chosen.map Use.option).Nodup) :
    (∃ given : Given, given.IsOf chosen ∧
      ∀ arguments, Arranges chosen arguments →
        Given.ofArguments arguments = .ok given ∧
        ∀ read, run read arguments = .ofOutcome (given.decode read)) ∧
    ∀ again : Use, again.Valid → again.option ∈ chosen.map Use.option →
      ∀ arguments, Arranges (again :: chosen) arguments →
        Given.ofArguments arguments =
          .error (.error (.repeated again.option)) ∧
        ∀ read, run read arguments = .misused (.repeated again.option) := by
  constructor
  · obtain ⟨given, -, hgiven⟩ := Given.isOf_nothing.exists_foldlM
      (fun use hmem => (hvalid use hmem).exists_means) hnodup
    refine ⟨given, hgiven, fun arguments harguments => ?_⟩
    have hparsed := harguments.ofArguments_eq_ok hvalid hnodup hgiven
    refine ⟨hparsed, fun read => ?_⟩
    simp only [run, hparsed]
  · intro again hagain hmem arguments harguments
    have hparsed := harguments.ofArguments_eq_repeated
      (List.forall_mem_cons.mpr ⟨hagain, hvalid⟩) hnodup hmem
    refine ⟨hparsed, fun read => ?_⟩
    simp only [run, hparsed]
    rfl

theorem run_arranged_mixedSpellings :
    let dump : Use := ⟨.file, "a=-b"⟩
    let reference : Use := ⟨.setting .sysref, " 48_000_000"⟩
    let rate : Use := ⟨.baud, "+09600"⟩
    ((∀ use ∈ [dump, reference, rate], use.Valid) ∧
      ([dump, reference, rate].map Use.option).Nodup) ∧
    ∀ read : String → Except ReadError String,
      run read ["-fa=-b", "--sysref", " 48_000_000", "-b=+09600"] =
        run read ["--baud=+09600", "--file=a=-b", "-s 48_000_000"] ∧
      run read ["-s=0x1", "-b", "+09600", "--file", "a=-b",
        "--sysref= 48_000_000"] = .misused (.repeated (.setting .sysref)) := by
  intro dump reference rate
  have hdump : dump.Valid :=
    .file (by decide) (by unfold IsValue; decide) (by decide)
  have hreference : reference.Valid :=
    .setting (show readWord " 48_000_000" = .ok 48000000 by decide +kernel)
  have hrate : rate.Valid :=
    .baud (.inr (by decide)) (by decide)
      ((Radix.decimal.isNumeral_toDigits 9600).replicate_append 1) (by decide)
  have hvalid : ∀ use ∈ [dump, reference, rate], use.Valid := by
    simp [hdump, hreference, hrate]
  have hnodup : ([dump, reference, rate].map Use.option).Nodup := by decide
  refine ⟨⟨hvalid, hnodup⟩, fun read => ?_⟩
  obtain ⟨⟨given, -, hgiven⟩, hrepeated⟩ := run_arranged hvalid hnodup
  have hfirst : Arranges [dump, reference, rate]
      [["-fa=-b"], ["--sysref", " 48_000_000"], ["-b=+09600"]].flatten := by
    refine .intro (.refl _) (.cons ?_ (.cons ?_ (.cons ?_ .nil)))
    · exact @Use.Spells.shortAttached dump 'f' rfl
    · exact @Use.Spells.long reference
    · exact @Use.Spells.shortEquals rate 'b' rfl
  have hsecond : Arranges [dump, reference, rate]
      [["--baud=+09600"], ["--file=a=-b"], ["-s 48_000_000"]].flatten := by
    refine @Arranges.intro _ [rate, dump, reference] _ (by decide)
      (.cons ?_ (.cons ?_ (.cons ?_ .nil)))
    · exact @Use.Spells.longEquals rate
    · exact @Use.Spells.longEquals dump
    · exact @Use.Spells.shortAttached reference 's' rfl
  let again : Use := ⟨.setting .sysref, "0x1"⟩
  have hagain : again.Valid :=
    .setting (show readWord "0x1" = .ok 1 by decide +kernel)
  have htwice : Arranges (again :: [dump, reference, rate])
      [["-s=0x1"], ["-b", "+09600"], ["--file", "a=-b"],
        ["--sysref= 48_000_000"]].flatten := by
    refine @Arranges.intro _ [again, rate, dump, reference] _ (by decide)
      (.cons ?_ (.cons ?_ (.cons ?_ (.cons ?_ .nil))))
    · exact @Use.Spells.shortEquals again 's' rfl
    · exact @Use.Spells.short rate 'b' rfl
    · exact @Use.Spells.long dump
    · exact @Use.Spells.longEquals reference
  exact ⟨((hgiven _ hfirst).2 read).trans ((hgiven _ hsecond).2 read).symm,
    (hrepeated again hagain (by decide) _ htwice).2 read⟩

end Command

end MssClock
