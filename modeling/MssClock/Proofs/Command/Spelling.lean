import MssClock.Command.Program
import MssClock.Proofs.Command.Uses
import Mathlib.Data.List.Forall2
import Mathlib.Data.List.TakeWhile

/-!
# Spelled options

An option and its value are spelled as two arguments or, with an equals sign,
as one.  Reading such arguments takes the options over one by one, and the
first that is not taken over decides: a value that waits is the same as one
taken over at once, because nothing but another option or the end can come
next.  For the four settings, each given once, neither the spelling nor the
order shows in what is given.
-/

namespace MssClock

/-- An option with its value, as it stands on the command line. -/
structure Spelled where
  option : ValueOption
  attached : Bool
  text : String

namespace Spelled

def arguments (spelled : Spelled) : List String :=
  if spelled.attached then
    ["--" ++ spelled.option.long ++ "=" ++ spelled.text]
  else ["--" ++ spelled.option.long, spelled.text]

end Spelled

/-- A text that does not look like an option. -/
def IsValue (text : String) : Prop :=
  text.toList.head? ≠ some '-'

namespace ValueOption

theorem ofLong?_long (o : ValueOption) :
    Name.ofLong? o.long = some (.option o) := by
  cases o with
  | file => rfl
  | setting s => cases s <;> rfl
  | baud => rfl

theorem isName_long (o : ValueOption) :
    o.long.toList ≠ [] ∧ ∀ c ∈ o.long.toList, (c != '=') = true := by
  have hname : o.long.toList ≠ [] ∧
      o.long.toList.all (fun c => c != '=') = true := by
    cases o with
    | file => decide
    | setting s => cases s <;> decide
    | baud => decide
  exact ⟨hname.1, List.all_eq_true.mp hname.2⟩

end ValueOption

namespace Argument

theorem toList_long (o : ValueOption) :
    ("--" ++ o.long).toList = '-' :: '-' :: o.long.toList := by
  rw [String.toList_append]
  rfl

theorem toList_attached (o : ValueOption) (text : String) :
    ("--" ++ o.long ++ "=" ++ text).toList =
      '-' :: '-' :: (o.long.toList ++ '=' :: text.toList) := by
  simp

theorem ofString_long (o : ValueOption) :
    Argument.ofString ("--" ++ o.long) = .long o.long none := by
  have hname := o.isName_long.2
  unfold Argument.ofString
  rw [toList_long, ofChars]
  simp only [List.takeWhile_eq_self_iff.mpr hname,
    List.dropWhile_eq_nil_iff.mpr hname, String.ofList_toList]

theorem ofString_attached (o : ValueOption) (text : String) :
    Argument.ofString ("--" ++ o.long ++ "=" ++ text) =
      .long o.long (some text) := by
  have hname := o.isName_long.2
  have htake : (o.long.toList ++ '=' :: text.toList).takeWhile
      (fun c => c != '=') = o.long.toList := by
    rw [List.takeWhile_append_of_pos hname]
    simp
  have hdrop : (o.long.toList ++ '=' :: text.toList).dropWhile
      (fun c => c != '=') = '=' :: text.toList := by
    rw [List.dropWhile_append_of_pos hname]
    simp
  unfold Argument.ofString
  rw [toList_attached, ofChars]
  simp only [htake, hdrop, String.ofList_toList]

theorem ofString_value {text : String} (hvalue : IsValue text) :
    Argument.ofString text = .plain text := by
  unfold IsValue at hvalue
  unfold Argument.ofString ofChars
  split
  · rename_i heq
    rw [heq] at hvalue
    exact absurd rfl hvalue
  · rename_i heq
    rw [heq] at hvalue
    exact absurd rfl hvalue
  · rw [String.ofList_toList]

end Argument

namespace Progress

theorem finish_cons
    {progress next : Progress} {argument : String} (rest : List String)
    (hmark : argument ≠ "--")
    (hstep : progress.step (.ofString argument) = .ok next) :
    progress.finish (argument :: rest) = next.finish rest := by
  rw [finish.eq_def]
  simp only [if_neg hmark, hstep]

theorem settle_waiting (given : Given) (o : ValueOption) (text : String) :
    (Progress.mk given (some ⟨o, some text⟩)).settle =
      (given.accept o text).mapError Stop.error := rfl

theorem meet_none
    {progress : Progress} {given : Given} (hsettle : progress.settle = .ok given)
    (o : ValueOption) :
    progress.meet o none = .ok ⟨given, some ⟨o, none⟩⟩ := by
  rw [meet, hsettle]
  rfl

theorem meet_some
    {progress : Progress} {given : Given} (hsettle : progress.settle = .ok given)
    (o : ValueOption) (text : String) :
    progress.meet o (some text) =
      ((given.accept o text).mapError Stop.error).map (⟨·, none⟩) := by
  rw [meet, hsettle]
  change ((given.accept o text).mapError Stop.error >>= fun taken =>
    (.ok ⟨taken, none⟩ : Except Stop Progress)) = _
  cases given.accept o text <;> rfl

end Progress

/-! ## One use of an option -/

/-- The argument names the option and has this value attached. -/
structure Argument.Meets (argument : String) (o : ValueOption)
    (attached : Option String) : Prop where
  ne_mark : argument ≠ "--"
  step_eq : ∀ progress : Progress,
    progress.step (.ofString argument) = progress.meet o attached

/-- The arguments are read as one use of an option. -/
inductive Use.Reads (use : Use) : List String → Prop
  | attached {argument : String}
      (hmeets : Argument.Meets argument use.option (some use.text)) :
      Reads use [argument]
  | separate {argument : String}
      (hmeets : Argument.Meets argument use.option none)
      (hvalue : IsValue use.text) : Reads use [argument, use.text]

namespace Argument

theorem meets_long (o : ValueOption) : Meets ("--" ++ o.long) o none := by
  refine ⟨fun heq => ?_, fun progress => ?_⟩
  · have hchars := congrArg String.toList heq
    rw [toList_long] at hchars
    simp [o.isName_long.1] at hchars
  · rw [ofString_long, Progress.step]
    simp only [o.ofLong?_long]

theorem meets_attached (o : ValueOption) (text : String) :
    Meets ("--" ++ o.long ++ "=" ++ text) o (some text) := by
  refine ⟨fun heq => ?_, fun progress => ?_⟩
  · have hchars := congrArg String.toList heq
    rw [toList_attached] at hchars
    simp at hchars
  · rw [ofString_attached, Progress.step]
    simp only [o.ofLong?_long]

section Meets

variable {argument text : String} {o : ValueOption} {attached : Option String}
  {progress : Progress} {given taken : Given} {stop : Stop}

theorem Meets.finish_some (hmeets : Meets argument o (some text))
    (hsettle : progress.settle = .ok given)
    (haccept : given.accept o text = .ok taken) (rest : List String) :
    progress.finish (argument :: rest) =
      (Progress.mk taken none).finish rest := by
  apply Progress.finish_cons rest hmeets.ne_mark
  rw [hmeets.step_eq, Progress.meet_some hsettle, haccept]
  rfl

theorem Meets.finish_none (hmeets : Meets argument o none)
    (hsettle : progress.settle = .ok given) (hvalue : IsValue text)
    (rest : List String) :
    progress.finish (argument :: text :: rest) =
      (Progress.mk given (some ⟨o, some text⟩)).finish rest := by
  have hmark : text ≠ "--" := by
    intro heq
    unfold IsValue at hvalue
    simp [heq] at hvalue
  calc
    progress.finish (argument :: text :: rest) =
        (Progress.mk given (some ⟨o, none⟩)).finish (text :: rest) := by
      apply Progress.finish_cons _ hmeets.ne_mark
      rw [hmeets.step_eq, Progress.meet_none hsettle]
    _ = (Progress.mk given (some ⟨o, some text⟩)).finish rest := by
      apply Progress.finish_cons _ hmark
      rw [ofString_value hvalue]
      rfl

theorem Meets.finish_of_step_eq_error (hmeets : Meets argument o attached)
    (hmeet : progress.meet o attached = .error stop) (rest : List String) :
    progress.finish (argument :: rest) = .error stop := by
  rw [Progress.finish.eq_def]
  simp only [if_neg hmeets.ne_mark, hmeets.step_eq, hmeet]

/-- A value that waits and is not taken over is noticed at the next option. -/
theorem Meets.finish_of_settle_eq_error (hmeets : Meets argument o attached)
    (hsettle : progress.settle = .error stop) (rest : List String) :
    progress.finish (argument :: rest) = .error stop := by
  apply hmeets.finish_of_step_eq_error
  rw [Progress.meet, hsettle]
  rfl

end Meets

end Argument

/-! ## Many uses -/

namespace Progress

variable {progress : Progress} {uses : List Use} {pieces : List (List String)}

theorem finish_of_settle_eq_error {stop : Stop}
    (hpieces : List.Forall₂ Use.Reads uses pieces)
    (hsettle : progress.settle = .error stop) :
    progress.finish pieces.flatten = .error stop := by
  cases hpieces with
  | nil => exact hsettle
  | cons hpiece hrest =>
      cases hpiece with
      | attached hmeets => exact hmeets.finish_of_settle_eq_error hsettle _
      | separate hmeets hvalue =>
          exact hmeets.finish_of_settle_eq_error hsettle _

/-- The uses are taken over from left to right, up to the first error. -/
theorem finish_flatten {given : Given}
    (hpieces : List.Forall₂ Use.Reads uses pieces)
    (hsettle : progress.settle = .ok given) :
    progress.finish pieces.flatten =
      (uses.foldlM Given.acceptUse given).mapError Stop.error := by
  induction hpieces generalizing progress given with
  | nil => exact hsettle
  | @cons use piece uses pieces hpiece hrest ih =>
      rw [List.foldlM_cons, List.flatten_cons]
      cases haccept : given.accept use.option use.text with
      | ok taken =>
          rw [Given.acceptUse, haccept]
          cases hpiece with
          | attached hmeets =>
              rw [List.singleton_append, hmeets.finish_some hsettle haccept]
              exact ih rfl
          | separate hmeets hvalue =>
              rw [List.cons_append, List.singleton_append,
                hmeets.finish_none hsettle hvalue]
              apply ih
              rw [settle_waiting, haccept]
              rfl
      | error e =>
          rw [Given.acceptUse, haccept]
          cases hpiece with
          | attached hmeets =>
              apply hmeets.finish_of_step_eq_error
              rw [meet_some hsettle, haccept]
              rfl
          | separate hmeets hvalue =>
              rw [List.cons_append, List.singleton_append,
                hmeets.finish_none hsettle hvalue]
              apply finish_of_settle_eq_error hrest
              rw [settle_waiting, haccept]
              rfl

end Progress

namespace Spelled

def use (spelled : Spelled) : Use :=
  ⟨spelled.option, spelled.text⟩

theorem reads_arguments {spelled : Spelled} (hvalue : IsValue spelled.text) :
    spelled.use.Reads spelled.arguments := by
  obtain ⟨o, attached, text⟩ := spelled
  cases attached with
  | true => exact .attached (Argument.meets_attached o text)
  | false => exact .separate (Argument.meets_long o) hvalue

end Spelled

theorem Progress.finish_arguments
    {progress : Progress} {given : Given} {options : List Spelled}
    (hsettle : progress.settle = .ok given)
    (hvalues : ∀ spelled ∈ options, IsValue spelled.text) :
    progress.finish (options.flatMap Spelled.arguments) =
      ((options.map Spelled.use).foldlM Given.acceptUse given).mapError
        Stop.error := by
  have hpieces : List.Forall₂ Use.Reads (options.map Spelled.use)
      (options.map Spelled.arguments) := by
    rw [List.forall₂_map_left_iff, List.forall₂_map_right_iff,
      List.forall₂_same]
    exact fun spelled hmem => Spelled.reads_arguments (hvalues spelled hmem)
  rw [List.flatMap_def, Progress.finish_flatten hpieces hsettle]

/-! ## The four settings -/

/-- Arguments that give these settings, in this order. -/
def Setting.arguments (order : List Setting) (attached : Setting → Bool)
    (text : Setting → String) : List String :=
  order.flatMap fun s => Spelled.arguments ⟨.setting s, attached s, text s⟩

namespace Given

/-- What is given when only settings are. -/
def ofSettings (word? : Setting → Option UInt32) : Given :=
  { nothing with
    sysref := word? .sysref, facc1 := word? .facc1, pllLow := word? .pllLow,
    pllHigh := word? .pllHigh }

variable {order : List Setting} {text : Setting → String}
  {word : Setting → UInt32}

theorem isOf_ofSettings (horder : order.Perm Setting.all)
    (hword : ∀ s, readWord (text s) = .ok (word s)) :
    (ofSettings fun s => some (word s)).IsOf
      (order.map fun s => ⟨.setting s, text s⟩) where
  value_of_mem use hmem := by
    obtain ⟨s, -, rfl⟩ := List.mem_map.mp hmem
    refine ⟨_, .setting (hword s), ?_⟩
    cases s <;> rfl
  value_of_notMem o hnot := by
    cases o with
    | setting s =>
        have hmem : s ∈ order := by
          rw [horder.mem_iff]
          cases s <;> decide
        exact absurd (by simpa using hmem) hnot
    | _ => rfl

/-- Each of the four settings once, in any order and spelling. -/
theorem ofArguments_settings
    (horder : order.Perm Setting.all) (attached : Setting → Bool)
    (hvalue : ∀ s, IsValue (text s))
    (hword : ∀ s, readWord (text s) = .ok (word s)) :
    Given.ofArguments (Setting.arguments order attached text) =
      .ok (ofSettings fun s => some (word s)) := by
  let spell : Setting → Spelled := fun s => ⟨.setting s, attached s, text s⟩
  let uses : List Use := order.map fun s => ⟨.setting s, text s⟩
  have harguments : Setting.arguments order attached text =
      (order.map spell).flatMap Spelled.arguments := by
    rw [List.flatMap_map]
    rfl
  have huses : (order.map spell).map Spelled.use = uses := List.map_map
  have hmeans : ∀ use ∈ uses, ∃ value, use.Means value := by
    intro use hmem
    obtain ⟨s, -, rfl⟩ := List.mem_map.mp hmem
    exact ⟨_, .setting (hword s)⟩
  have hnodup : (uses.map Use.option).Nodup := by
    have horderNodup : order.Nodup := horder.nodup_iff.mpr (by decide)
    rw [List.map_map]
    exact horderNodup.map fun _ _ => ValueOption.setting.inj
  have hstart : Progress.start.settle = .ok nothing := rfl
  obtain ⟨final, hfold, hfinal⟩ := isOf_nothing.exists_foldlM hmeans hnodup
  rw [ofArguments, harguments, Progress.finish_arguments hstart, huses, hfold]
  · rw [hfinal.unique (isOf_ofSettings horder hword)]
    rfl
  · intro spelled hspelled
    rcases List.mem_map.mp hspelled with ⟨s, -, rfl⟩
    exact hvalue s

theorem decode_ofSettings
    (word : Setting → UInt32) (read : String → Except ReadError String) :
    (ofSettings fun s => some (word s)).decode read =
      ⟨Report.print (Report.lines ⟨word .sysref⟩
        ⟨word .facc1, word .pllLow, word .pllHigh⟩), none⟩ := rfl

end Given

end MssClock
