import MssClock.Register.Edit
import MssClock.Proofs.Register.Layout
import Mathlib.Data.List.DropRight

/-!
# Runs of edits

The fields of a register are independent of one another.  After any run of
edits a field reads the last number that fitted it and was stored into it since
the whole word was last loaded, and otherwise what that load brought; the
padding knows loads only.  An edit that is refused, loudly or by a report,
leaves the word as it was.
-/

namespace MssClock

namespace Edit

/-- The word that takes the place of the whole, if the edit loads one. -/
def loaded? : Edit → Option Word
  | .load bits => some bits
  | .reset => some 0
  | .write _ _ _ | .compare _ => none

/-- The number that fits the field and that the edit stores into it. -/
def stored? (field : Field) : Edit → Option Word
  | .write _ target n =>
      if target = field ∧ n.toNat < 2 ^ field.width then some n else none
  | .load _ | .reset | .compare _ => none

def lastLoaded (start : Word) (edits : List Edit) : Word :=
  (edits.filterMap loaded?).getLast?.getD start

def sinceLoad (edits : List Edit) : List Edit :=
  edits.rtakeWhile fun edit => edit.loaded?.isNone

/-- The number stored last into the field since the last load. -/
def lastStored? (field : Field) (edits : List Edit) : Option Word :=
  ((sinceLoad edits).filterMap (stored? field)).getLast?

/-- The edit writes to no field but those of the layout. -/
def IsOf (layout : Layout) : Edit → Prop
  | .write _ field _ => field ∈ layout.fields
  | .load _ | .reset | .compare _ => True

instance (layout : Layout) (edit : Edit) : Decidable (edit.IsOf layout) :=
  match edit with
  | .write _ _ _ => inferInstanceAs (Decidable (_ ∈ _))
  | .load _ | .reset | .compare _ => .isTrue trivial

section Last

variable (start : Word) (field : Field) (edits : List Edit) {edit : Edit}
  {bits : Word}

theorem lastLoaded_concat (edit : Edit) :
    lastLoaded start (edits ++ [edit]) =
      edit.loaded?.getD (lastLoaded start edits) := by
  cases hloaded : edit.loaded? with
  | none => simp [lastLoaded, hloaded]
  | some bits => simp [lastLoaded, hloaded]

theorem stored?_of_load (hloaded : edit.loaded? = some bits) :
    edit.stored? field = none := by
  cases edit with
  | write mode target n => cases hloaded
  | load bits => rfl
  | reset => rfl
  | compare bits => rfl

theorem lastStored?_concat_of_load (hloaded : edit.loaded? = some bits) :
    lastStored? field (edits ++ [edit]) = none := by
  simp [lastStored?, sinceLoad, hloaded]

theorem lastStored?_concat (hloaded : edit.loaded? = none) :
    lastStored? field (edits ++ [edit]) =
      (edit.stored? field).or (lastStored? field edits) := by
  have hsince : sinceLoad (edits ++ [edit]) = sinceLoad edits ++ [edit] :=
    List.rtakeWhile_concat_pos _ _ _ (by simp [hloaded])
  unfold lastStored?
  rw [hsince, List.filterMap_append]
  cases hstored : edit.stored? field with
  | none => simp [hstored]
  | some n => simp [hstored]

end Last

/-! ## One edit -/

section Apply

variable {field : Field} {n : Word}

theorem apply_write_of_lt
    (hfits : field.Fits) (hn : n.toNat < 2 ^ field.width)
    (mode : WriteMode) (word : Word) :
    (write mode field n).apply word = (.done, field.store n word) := by
  rw [apply, hfits.put_of_lt hn]

theorem apply_write_of_le
    (hfits : field.Fits) (hn : 2 ^ field.width ≤ n.toNat)
    (mode : WriteMode) (word : Word) :
    (write mode field n).apply word =
      (if mode.reports then .refused
        else .fault (.outOfBounds field.largest), word) := by
  rw [apply, hfits.put_of_le hn]

variable {layout : Layout} {span : Field} {edit : Edit}

/-- What one edit does to the bits of one member. -/
theorem get_apply
    (hpacked : layout.Packed) (hedit : edit.IsOf layout)
    (hspan : span ∈ layout.fields ++ layout.gaps) (word : Word) :
    span.get (edit.apply word).2 =
      (edit.stored? span).getD (span.get (edit.loaded?.getD word)) := by
  cases edit with
  | load bits => rfl
  | reset => rfl
  | compare bits => rfl
  | write mode target n =>
      have hfits := hpacked.fits_field hedit
      simp only [stored?, loaded?, Option.getD_none]
      by_cases hn : n.toNat < 2 ^ target.width
      · rw [apply_write_of_lt hfits hn, hpacked.get_store hedit hspan hn]
        by_cases heq : target = span
        · subst heq
          rw [if_pos rfl, if_pos ⟨rfl, hn⟩]
          rfl
        · rw [if_neg heq, if_neg fun h => heq h.1]
          rfl
      · rw [apply_write_of_le hfits (Nat.not_lt.mp hn)]
        have hmiss : ¬ (target = span ∧ n.toNat < 2 ^ span.width) := by
          rintro ⟨rfl, hlt⟩
          exact hn hlt
        rw [if_neg hmiss]
        rfl

end Apply

section Write

variable {field other : Field} {n k : Word}

theorem apply_write_reply (mode : WriteMode) (field : Field) (n word next : Word) :
    ((write mode field n).apply word).1 =
      ((write mode field n).apply next).1 := by
  by_cases hle : n ≤ field.largest
  · simp only [apply, Field.put_eq_ok _ hle]
  · simp only [apply, Field.put_eq_error _ hle]

theorem apply_write_comm
    (hfits : field.Fits) (hother : other.Fits) (hapart : field.Apart other)
    (mode otherMode : WriteMode) (word : Word) :
    ((write mode field n).apply ((write otherMode other k).apply word).2).2 =
      ((write otherMode other k).apply
        ((write mode field n).apply word).2).2 := by
  by_cases hn : n.toNat < 2 ^ field.width
  · by_cases hk : k.toNat < 2 ^ other.width
    · simp only [apply_write_of_lt hfits hn, apply_write_of_lt hother hk]
      exact hfits.store_comm hother hapart n k word
    · simp only [apply_write_of_le hother (Nat.not_lt.mp hk)]
  · simp only [apply_write_of_le hfits (Nat.not_lt.mp hn)]

theorem apply_write_reply_iff
    (hfits : field.Fits) (n : Word) (mode : WriteMode) (word : Word) :
    let reply := ((write mode field n).apply word).1
    (reply = .done ↔ n.toNat < 2 ^ field.width) ∧
      (mode ∈ [.set, .replace] →
        (reply = .fault (.outOfBounds field.largest) ↔
          2 ^ field.width ≤ n.toNat)) ∧
      (mode ∈ [.trySet, .tryReplace] →
        (reply = .refused ↔ 2 ^ field.width ≤ n.toNat)) := by
  intro reply
  by_cases hn : n.toNat < 2 ^ field.width
  · have hreply : reply = .done := by
      simp only [reply, apply_write_of_lt hfits hn]
    simp [hreply, hn]
  · have hle := Nat.not_lt.mp hn
    have hreply : reply =
        if mode.reports then .refused
        else .fault (.outOfBounds field.largest) := by
      simp only [reply, apply_write_of_le hfits hle]
    cases mode <;> simp [hreply, WriteMode.reports, hle]

end Write

/-! ## Runs -/

section Run

variable {layout : Layout} {span gap : Field} {edits : List Edit}

theorem run_concat (start : Word) (edits : List Edit) (edit : Edit) :
    run start (edits ++ [edit]) = (edit.apply (run start edits)).2 := by
  simp [run]

theorem replies_getElem? (start : Word) (before after : List Edit)
    (edit : Edit) :
    (replies start (before ++ edit :: after))[before.length]? =
      some (edit.apply (run start before)) := by
  induction before generalizing start with
  | nil => rfl
  | cons first rest ih => exact ih (first.apply start).2

theorem get_run
    (hpacked : layout.Packed) (start : Word)
    (hedits : ∀ edit ∈ edits, edit.IsOf layout)
    (hspan : span ∈ layout.fields ++ layout.gaps) :
    span.get (run start edits) =
      (lastStored? span edits).getD (span.get (lastLoaded start edits)) := by
  -- The last edit decides, unless it leaves the bits to those before it.
  induction edits using List.reverseRecOn with
  | nil => rfl
  | append_singleton edits edit ih =>
      have hbefore := ih fun earlier hmem =>
        hedits earlier (List.mem_append_left _ hmem)
      have hlast := hedits edit (by simp)
      rw [run_concat, get_apply hpacked hlast hspan, lastLoaded_concat]
      cases hloaded : edit.loaded? with
      | some bits =>
          rw [lastStored?_concat_of_load span edits hloaded,
            stored?_of_load span hloaded]
          rfl
      | none =>
          rw [lastStored?_concat span edits hloaded]
          cases edit.stored? span with
          | some n => rfl
          | none => exact hbefore

theorem lastStored?_gap
    (hpacked : layout.Packed) (hedits : ∀ edit ∈ edits, edit.IsOf layout)
    (hgap : gap ∈ layout.gaps) : lastStored? gap edits = none := by
  have hnone : ∀ edit ∈ sinceLoad edits, edit.stored? gap = none := by
    intro edit hmem
    have hedit := hedits edit ((List.rtakeWhile_suffix _ _).subset hmem)
    cases edit with
    | load bits => rfl
    | reset => rfl
    | compare bits => rfl
    | write mode field n =>
        exact if_neg fun h => hpacked.ne_of_mem_gaps hedit hgap h.1
  rw [lastStored?, List.filterMap_eq_nil_iff.mpr hnone, List.getLast?_nil]

end Run

/-- In any run of edits of a register the fields behave as variables of their
own, bounded by their widths, and the padding as one that only loads change. -/
theorem run_fields_independent
    {layout : Layout} (hlayout : layout ∈ Layout.all) (start : Word)
    {edits : List Edit} (hedits : ∀ edit ∈ edits, edit.IsOf layout) :
    let final := run start edits
    let loaded := lastLoaded start edits
    (∀ field ∈ layout.fields,
        (∀ n, lastStored? field edits = some n →
          (field.value final).toNat = n.toNat) ∧
        (lastStored? field edits = none →
          field.value final = field.value loaded)) ∧
      (∀ gap ∈ layout.gaps, gap.get final = gap.get loaded) ∧
      (∀ before after mode field n,
        edits = before ++ write mode field n :: after →
        ∃ reply next,
          (replies start edits)[before.length]? = some (reply, next) ∧
            (reply = .done ↔ n.toNat < 2 ^ field.width) ∧
            (mode ∈ [.set, .replace] →
              (reply = .fault (.outOfBounds field.largest) ↔
                2 ^ field.width ≤ n.toNat)) ∧
            (mode ∈ [.trySet, .tryReplace] →
              (reply = .refused ↔ 2 ^ field.width ≤ n.toNat)) ∧
            (2 ^ field.width ≤ n.toNat → next = run start before)) ∧
      (∀ field ∈ layout.fields, ∀ other ∈ layout.fields, field ≠ other →
        ∀ mode otherMode n k word,
          let first := write mode field n
          let second := write otherMode other k
          run word [first, second] = run word [second, first] ∧
            (first.apply (second.apply word).2).1 = (first.apply word).1 ∧
            (second.apply (first.apply word).2).1 =
              (second.apply word).1) ∧
      ∀ field ∈ layout.fields, ∀ n : Word, n.toNat < 2 ^ field.width →
        ∀ word, ∃ next, ∀ mode,
          (write mode field n).apply word = (.done, next) := by
  intro final loaded
  have hpacked := Layout.packed_of_mem_all layout hlayout
  refine ⟨?_, ?_, ?_, ?_, ?_⟩
  · intro field hfield
    have hget := get_run hpacked start hedits (List.mem_append_left _ hfield)
    constructor
    · intro n hlast
      rw [hlast, Option.getD_some] at hget
      rw [hpacked.toNat_value hfield, hget]
    · intro hnone
      rw [hnone, Option.getD_none] at hget
      exact Field.value_congr hget
  · intro gap hgap
    have hget := get_run hpacked start hedits (List.mem_append_right _ hgap)
    rwa [lastStored?_gap hpacked hedits hgap, Option.getD_none] at hget
  · intro before after mode field n hsplit
    subst hsplit
    have hfield : field ∈ layout.fields := hedits (write mode field n) (by simp)
    have hfits := hpacked.fits_field hfield
    obtain ⟨hdone, hfault, hrefused⟩ :=
      apply_write_reply_iff hfits n mode (run start before)
    let outcome := (write mode field n).apply (run start before)
    refine ⟨outcome.1, outcome.2, replies_getElem? start before after _,
      hdone, hfault, hrefused, fun hle => ?_⟩
    simp only [outcome, apply_write_of_le hfits hle]
  · intro field hfield other hother hne mode otherMode n k word first second
    have hapart := layout.apart_of_ne (List.mem_append_left _ hfield)
      (List.mem_append_left _ hother) hne
    refine ⟨?_, apply_write_reply .., apply_write_reply ..⟩
    exact (apply_write_comm (hpacked.fits_field hfield)
      (hpacked.fits_field hother) hapart mode otherMode word).symm
  · intro field hfield n hn word
    exact ⟨field.store n word, fun mode =>
      apply_write_of_lt (hpacked.fits_field hfield) hn mode word⟩

theorem run_fields_independent_refusedWrites :
    let edits : List Edit :=
      [.write .set PllStatusLow.divr 64, .load 0xDEADBEEF,
        .write .trySet PllStatusLow.divf 1023,
        .write .replace PllStatusLow.divf 1024,
        .write .tryReplace PllStatusLow.lockcnt 9]
    let final := run 0 edits
    (∀ edit ∈ edits, edit.IsOf PllStatusLow.layout) ∧
      (PllStatusLow.divf.value final).toNat = 1023 ∧
      PllStatusLow.divr.value final = PllStatusLow.divr.value 0xDEADBEEF ∧
      ∀ gap ∈ PllStatusLow.layout.gaps, gap.get final = gap.get 0xDEADBEEF := by
  intro edits final
  have hedits : ∀ edit ∈ edits, edit.IsOf PllStatusLow.layout := by decide
  obtain ⟨hfields, hgaps, -⟩ :=
    run_fields_independent (by decide : PllStatusLow.layout ∈ Layout.all)
      0 hedits
  exact ⟨hedits, (hfields PllStatusLow.divf (by decide)).1 1023 rfl,
    (hfields PllStatusLow.divr (by decide)).2 rfl, hgaps⟩

end Edit

end MssClock
