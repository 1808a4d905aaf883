import MssClock.Command.Arguments
import Mathlib.Data.List.Nodup
import Mathlib.Logic.Function.Basic

/-!
# Uses of options

Values are taken over one after the other.  What has been given so far says
which options have been used and with which values, and nothing else.  An option
that has not been used takes any value it can read; one that has been used takes
none.  Whether a whole list of uses is taken over, and what is given then, is
therefore the same for every order of the list.
-/

namespace MssClock

/-- An option that is used, with the text of its value. -/
structure Use where
  option : ValueOption
  text : String
  deriving DecidableEq

/-- What an option is given. -/
inductive Value where
  | name (name : String)
  | word (word : UInt32)

/-- The text of the use can be read, as this value. -/
inductive Use.Means : Use → Value → Prop
  | file {name : String} (hne : name ≠ "") : Means ⟨.file, name⟩ (.name name)
  | setting {s : Setting} {text : String} {word : UInt32}
      (hread : readWord text = .ok word) : Means ⟨.setting s, text⟩ (.word word)
  | baud {text : String} {rate : UInt32} (hread : readBaud text = .ok rate) :
      Means ⟨.baud, text⟩ (.word rate)

theorem Use.Means.unique {use : Use} {value value' : Value}
    (h : use.Means value) (h' : use.Means value') : value = value' := by
  cases h with
  | file => cases h' with | file => rfl
  | setting hread =>
      cases h' with
      | setting hread' => rw [Except.ok.inj (hread.symm.trans hread')]
  | baud hread =>
      cases h' with
      | baud hread' => rw [Except.ok.inj (hread.symm.trans hread')]

namespace Given

/-- The value an option has been given. -/
def value? (given : Given) : ValueOption → Option Value
  | .file => given.file.map .name
  | .setting s => (given.setting s).map .word
  | .baud => given.baud.map .word

variable {given given' : Given} {use : Use} {uses : List Use}

theorem has_eq (given : Given) (o : ValueOption) :
    given.has o = (given.value? o).isSome := by
  cases o <;> simp [has, value?]

theorem ext_value? (h : ∀ o, given.value? o = given'.value? o) :
    given = given' := by
  have hname : Function.Injective Value.name := fun _ _ => Value.name.inj
  have hword : Function.Injective Value.word := fun _ _ => Value.word.inj
  have hfile : given.file = given'.file :=
    Option.map_injective hname (h .file)
  have hsetting : ∀ s, given.setting s = given'.setting s := fun s =>
    Option.map_injective hword (h (.setting s))
  have hbaud : given.baud = given'.baud :=
    Option.map_injective hword (h .baud)
  cases given
  cases given'
  rw [mk.injEq]
  exact ⟨hfile, hsetting .sysref, hsetting .facc1, hsetting .pllLow,
    hsetting .pllHigh, hbaud⟩

/-- Putting a value leaves those of the other options. -/
theorem exists_put {value : Value} (given : Given) (hmeans : use.Means value) :
    ∃ taken, given.put use.option use.text = .ok taken ∧
      taken.value? = Function.update given.value? use.option (some value) := by
  cases hmeans with
  | @file name hne =>
      refine ⟨{ given with file := some name }, if_neg hne, funext fun o => ?_⟩
      cases o <;> rfl
  | @setting s text word hread =>
      refine ⟨given.setSetting word s, by simp only [put, hread],
        funext fun o => ?_⟩
      cases o with
      | setting other =>
          cases s <;> cases other <;> rfl
      | _ => cases s <;> rfl
  | @baud text rate hread =>
      refine ⟨{ given with baud := some rate }, by simp only [put, hread],
        funext fun o => ?_⟩
      cases o <;> rfl

/-- Takes over the value of a use. -/
def acceptUse (given : Given) (use : Use) : Except ArgumentError Given :=
  given.accept use.option use.text

/-- What is given is what these uses give. -/
structure IsOf (given : Given) (uses : List Use) : Prop where
  value_of_mem : ∀ use ∈ uses, ∃ value, use.Means value ∧
    given.value? use.option = some value
  value_of_notMem : ∀ o, o ∉ uses.map Use.option → given.value? o = none

theorem isOf_nothing : nothing.IsOf [] where
  value_of_mem := by simp
  value_of_notMem o _ := by cases o with
    | setting s => cases s <;> rfl
    | _ => rfl

theorem IsOf.perm {uses' : List Use} (h : given.IsOf uses)
    (hperm : uses.Perm uses') : given.IsOf uses' where
  value_of_mem use hmem := h.value_of_mem use (hperm.mem_iff.mpr hmem)
  value_of_notMem o hnot :=
    h.value_of_notMem o fun hmem => hnot ((hperm.map _).mem_iff.mp hmem)

theorem IsOf.unique (h : given.IsOf uses) (h' : given'.IsOf uses) :
    given = given' := by
  apply ext_value?
  intro o
  by_cases hmem : o ∈ uses.map Use.option
  · obtain ⟨use, huse, rfl⟩ := List.mem_map.mp hmem
    obtain ⟨value, hmeans, hvalue⟩ := h.value_of_mem use huse
    obtain ⟨value', hmeans', hvalue'⟩ := h'.value_of_mem use huse
    rw [hvalue, hvalue', hmeans.unique hmeans']
  · rw [h.value_of_notMem o hmem, h'.value_of_notMem o hmem]

theorem IsOf.acceptUse_of_mem (h : given.IsOf uses)
    (hmem : use.option ∈ uses.map Use.option) :
    given.acceptUse use = .error (.repeated use.option) := by
  obtain ⟨earlier, hearlier, hoption⟩ := List.mem_map.mp hmem
  obtain ⟨value, -, hvalue⟩ := h.value_of_mem earlier hearlier
  rw [hoption] at hvalue
  rw [acceptUse, accept, has_eq, hvalue]
  rfl

theorem IsOf.exists_acceptUse {value : Value} (h : given.IsOf uses)
    (hmeans : use.Means value) (hnew : use.option ∉ uses.map Use.option) :
    ∃ taken, given.acceptUse use = .ok taken ∧ taken.IsOf (uses ++ [use]) := by
  obtain ⟨taken, hput, hvalues⟩ := given.exists_put hmeans
  have hfree : given.has use.option = false := by
    rw [has_eq, h.value_of_notMem _ hnew]
    rfl
  refine ⟨taken, by rw [acceptUse, accept, hfree]; exact hput, ?_, ?_⟩
  · intro other hother
    rcases List.mem_append.mp hother with hmem | hmem
    · have hne : other.option ≠ use.option := fun heq =>
        hnew (heq ▸ List.mem_map_of_mem hmem)
      rw [hvalues, Function.update_of_ne hne]
      exact h.value_of_mem other hmem
    · rw [List.mem_singleton.mp hmem, hvalues, Function.update_self]
      exact ⟨value, hmeans, rfl⟩
  · intro o hnot
    simp only [List.map_append, List.mem_append, List.map_singleton,
      List.mem_singleton, not_or] at hnot
    rw [hvalues, Function.update_of_ne hnot.2]
    exact h.value_of_notMem o hnot.1

/-! ## Many uses

The induction is on the uses that are still to come; those taken over grow
with what is given. -/

theorem IsOf.exists_foldlM {before : List Use} (h : given.IsOf before)
    (hmeans : ∀ use ∈ uses, ∃ value, use.Means value)
    (hnodup : ((before ++ uses).map Use.option).Nodup) :
    ∃ final, uses.foldlM acceptUse given = .ok final ∧
      final.IsOf (before ++ uses) := by
  induction uses generalizing before given with
  | nil => exact ⟨given, rfl, by simpa using h⟩
  | cons use rest ih =>
      obtain ⟨value, hvalue⟩ := hmeans use List.mem_cons_self
      have hnew : use.option ∉ before.map Use.option := by
        intro hmem
        rw [List.map_append] at hnodup
        exact List.disjoint_of_nodup_append hnodup hmem (by simp)
      obtain ⟨taken, haccept, htaken⟩ := h.exists_acceptUse hvalue hnew
      rw [List.append_cons] at hnodup ⊢
      rw [List.foldlM_cons, haccept]
      exact ih htaken (fun other hmem => hmeans other (List.mem_cons_of_mem _ hmem))
        hnodup

theorem IsOf.foldlM_eq_repeated {before : List Use} {o : ValueOption}
    {options : List ValueOption} (h : given.IsOf before)
    (hmeans : ∀ use ∈ uses, ∃ value, use.Means value)
    (hbefore : (before.map Use.option).Nodup)
    (hperm : ((before ++ uses).map Use.option).Perm (o :: options))
    (hnodup : options.Nodup) (hmem : o ∈ options) :
    uses.foldlM acceptUse given = .error (.repeated o) := by
  induction uses generalizing before given with
  | nil =>
      rw [List.append_nil] at hperm
      exact absurd hmem (List.nodup_cons.mp (hperm.nodup_iff.mp hbefore)).1
  | cons use rest ih =>
      rw [List.foldlM_cons]
      by_cases hused : use.option ∈ before.map Use.option
      · -- Only one option occurs twice.
        have htwice : 1 < ((before ++ use :: rest).map Use.option).count
            use.option := by
          have hpos := List.count_pos_iff.mpr hused
          simp only [List.map_append, List.map_cons, List.count_append,
            List.count_cons_self]
          omega
        have heq : use.option = o := by
          by_contra hne
          have honce := List.nodup_iff_count_le_one.mp hnodup use.option
          rw [hperm.count_eq, List.count_cons_of_ne (Ne.symm hne)] at htwice
          omega
        rw [h.acceptUse_of_mem hused, heq]
        rfl
      · obtain ⟨value, hvalue⟩ := hmeans use List.mem_cons_self
        obtain ⟨taken, haccept, htaken⟩ := h.exists_acceptUse hvalue hused
        rw [List.append_cons] at hperm
        rw [haccept]
        refine ih htaken
          (fun other hother => hmeans other (List.mem_cons_of_mem _ hother))
          ?_ hperm
        rw [List.map_append, List.map_singleton,
          (List.perm_append_singleton _ _).nodup_iff]
        exact List.nodup_cons.mpr ⟨hused, hbefore⟩

end Given

end MssClock
