import MssClock.Register.Catalog
import MssClock.Proofs.Register.Field
import Mathlib.Data.List.Pairwise
import Mathlib.Data.List.Perm.Basic

/-!
# Packed layouts

The members of a register are laid out one behind the other, so the named
fields and the padding never share a bit, and if the widths add up to the word,
every bit is in one of them.  A word is therefore known as soon as its fields
and its padding are.
-/

namespace MssClock

/-! ## The bits of a member -/

/-- The bits of a member whose lowest bit is `offset`, named or not. -/
def Member.span (offset : Nat) : Member → Field
  | .flag name => .flag name offset
  | .number name width => ⟨name, offset, width, .number⟩
  | .padding width => ⟨"", offset, width, .number⟩

/-- The bits of a padding member. -/
def Member.gap? (offset : Nat) : Member → Option Field
  | .padding width => some ((padding width).span offset)
  | .flag _ | .number _ _ => none

theorem Member.offset_span (offset : Nat) (member : Member) :
    (member.span offset).offset = offset := by
  cases member <;> rfl

theorem Member.width_span (offset : Nat) (member : Member) :
    (member.span offset).width = member.width := by
  cases member <;> rfl

namespace Layout

/-- The bits of all members, in the order of their declaration. -/
def spansFrom (offset : Nat) : List Member → List Field
  | [] => []
  | member :: rest =>
      member.span offset :: spansFrom (offset + member.width) rest

def gapsFrom (offset : Nat) : List Member → List Field
  | [] => []
  | member :: rest =>
      (member.gap? offset).toList ++ gapsFrom (offset + member.width) rest

/-- The first bit behind the last member. -/
def endFrom (offset : Nat) : List Member → Nat
  | [] => offset
  | member :: rest => endFrom (offset + member.width) rest

section Members

variable {offset : Nat} {members : List Member} {field span : Field}

theorem le_endFrom (offset : Nat) (members : List Member) :
    offset ≤ endFrom offset members := by
  induction members generalizing offset with
  | nil => exact Nat.le_refl _
  | cons member rest ih => exact (Nat.le_add_right _ _).trans (ih _)

theorem bounds_of_mem_spansFrom (hspan : span ∈ spansFrom offset members) :
    offset ≤ span.offset ∧
      span.offset + span.width ≤ endFrom offset members := by
  induction members generalizing offset with
  | nil => cases hspan
  | cons member rest ih =>
      cases hspan with
      | head =>
          rw [Member.offset_span, Member.width_span]
          exact ⟨Nat.le_refl _, le_endFrom _ rest⟩
      | tail _ hrest =>
          obtain ⟨hlow, hhigh⟩ := ih hrest
          exact ⟨(Nat.le_add_right _ _).trans hlow, hhigh⟩

theorem exists_member_of_mem_spansFrom
    (hspan : span ∈ spansFrom offset members) :
    ∃ member ∈ members, span.width = member.width := by
  induction members generalizing offset with
  | nil => cases hspan
  | cons member rest ih =>
      cases hspan with
      | head => exact ⟨member, List.mem_cons_self, member.width_span offset⟩
      | tail _ hrest =>
          obtain ⟨source, hmem, hwidth⟩ := ih hrest
          exact ⟨source, List.mem_cons_of_mem _ hmem, hwidth⟩

theorem pairwise_spansFrom (offset : Nat) (members : List Member) :
    (spansFrom offset members).Pairwise Field.Apart := by
  induction members generalizing offset with
  | nil => exact List.Pairwise.nil
  | cons member rest ih =>
      refine List.pairwise_cons.mpr ⟨?_, ih _⟩
      -- What follows starts where the first member ends.
      rintro later hlater i ⟨-, hhigh⟩ ⟨hlow, -⟩
      have hstart := (bounds_of_mem_spansFrom hlater).1
      rw [Member.offset_span, Member.width_span] at hhigh
      omega

theorem exists_covers_of_lt_endFrom
    {i : Nat} (hlow : offset ≤ i) (hhigh : i < endFrom offset members) :
    ∃ span ∈ spansFrom offset members, span.Covers i := by
  induction members generalizing offset with
  | nil => exact absurd hlow (Nat.not_le.mpr hhigh)
  | cons member rest ih =>
      by_cases hfirst : i < offset + member.width
      · refine ⟨member.span offset, List.mem_cons_self, ?_⟩
        rw [Field.Covers, Member.offset_span, Member.width_span]
        exact ⟨hlow, hfirst⟩
      · obtain ⟨span, hmem, hcovers⟩ := ih (Nat.not_lt.mp hfirst) hhigh
        exact ⟨span, List.mem_cons_of_mem _ hmem, hcovers⟩

theorem perm_spansFrom (offset : Nat) (members : List Member) :
    (fieldsFrom offset members ++ gapsFrom offset members).Perm
      (spansFrom offset members) := by
  induction members generalizing offset with
  | nil => exact List.Perm.nil
  | cons member rest ih =>
      cases member with
      | flag name => exact (ih (offset + 1)).cons _
      | number name width => exact (ih (offset + width)).cons _
      | padding width =>
          exact List.perm_middle.trans ((ih (offset + width)).cons _)

theorem width_of_mem_fieldsFrom
    (hfield : field ∈ fieldsFrom offset members)
    (hkind : field.kind = .flag) : field.width = 1 := by
  induction members generalizing offset with
  | nil => cases hfield
  | cons member rest ih =>
      obtain hfirst | hrest := List.mem_append.mp hfield
      · cases member with
        | flag name =>
            cases List.mem_singleton.mp hfirst
            rfl
        | number name width =>
            cases List.mem_singleton.mp hfirst
            cases hkind
        | padding width => cases hfirst
      · exact ih hrest

end Members

/-! ## Layouts that fill the word -/

def gaps (layout : Layout) : List Field :=
  gapsFrom 0 layout.members

/-- No member is empty, and together they fill the word. -/
structure Packed (layout : Layout) : Prop where
  positive : ∀ member ∈ layout.members, 0 < member.width
  total : endFrom 0 layout.members = 32

instance (layout : Layout) : Decidable layout.Packed :=
  decidable_of_iff
    ((∀ member ∈ layout.members, 0 < member.width) ∧
      endFrom 0 layout.members = 32)
    ⟨fun h => ⟨h.1, h.2⟩, fun h => ⟨h.positive, h.total⟩⟩

section Packed

variable {layout : Layout} {field other span : Field}

theorem perm_spans (layout : Layout) :
    (layout.fields ++ layout.gaps).Perm (spansFrom 0 layout.members) :=
  perm_spansFrom 0 layout.members

theorem pairwise_apart (layout : Layout) :
    (layout.fields ++ layout.gaps).Pairwise Field.Apart :=
  (layout.perm_spans.pairwise_iff Field.Apart.symm).mpr
    (pairwise_spansFrom 0 layout.members)

theorem apart_of_ne
    (hspan : span ∈ layout.fields ++ layout.gaps)
    (hother : other ∈ layout.fields ++ layout.gaps)
    (hne : span ≠ other) : span.Apart other :=
  layout.pairwise_apart.forall hspan hother hne

theorem Packed.width_pos (hpacked : layout.Packed)
    (hspan : span ∈ layout.fields ++ layout.gaps) : 0 < span.width := by
  obtain ⟨member, hmember, hwidth⟩ :=
    exists_member_of_mem_spansFrom (layout.perm_spans.mem_iff.mp hspan)
  rw [hwidth]
  exact hpacked.positive member hmember

theorem Packed.fits (hpacked : layout.Packed)
    (hspan : span ∈ layout.fields ++ layout.gaps) : span.Fits := by
  have hpos := hpacked.width_pos hspan
  obtain ⟨-, hend⟩ :=
    bounds_of_mem_spansFrom (layout.perm_spans.mem_iff.mp hspan)
  rw [hpacked.total] at hend
  exact ⟨by omega, hend⟩

theorem Packed.fits_field (hpacked : layout.Packed)
    (hfield : field ∈ layout.fields) : field.Fits :=
  hpacked.fits (List.mem_append_left _ hfield)

theorem Packed.toNat_value (hpacked : layout.Packed)
    (hfield : field ∈ layout.fields) (word : Word) :
    (field.value word).toNat = (field.get word).toNat :=
  (hpacked.fits_field hfield).toNat_value
    (width_of_mem_fieldsFrom hfield) word

theorem Packed.ne_of_mem_gaps (hpacked : layout.Packed)
    (hfield : field ∈ layout.fields) (hgap : span ∈ layout.gaps) :
    field ≠ span := by
  obtain ⟨-, -, hapart⟩ := List.pairwise_append.mp layout.pairwise_apart
  rintro rfl
  have hpos := hpacked.width_pos (List.mem_append_left _ hfield)
  have hcovers : field.Covers field.offset := ⟨Nat.le_refl _, by omega⟩
  exact hapart field hfield field hgap field.offset hcovers hcovers

/-- What a store into one field does to the bits of one member. -/
theorem Packed.get_store (hpacked : layout.Packed)
    (hfield : field ∈ layout.fields)
    (hspan : span ∈ layout.fields ++ layout.gaps) {n : Word}
    (hn : n.toNat < 2 ^ field.width) (word : Word) :
    span.get (field.store n word) =
      if field = span then n else span.get word := by
  have hfits := hpacked.fits_field hfield
  by_cases heq : field = span
  · subst heq
    rw [if_pos rfl, hfits.get_store_self hn]
  · have hapart := layout.apart_of_ne hspan (List.mem_append_left _ hfield)
      (Ne.symm heq)
    rw [if_neg heq, hfits.get_store_of_apart (hpacked.fits hspan) hapart]

theorem Packed.exists_covers_iff (hpacked : layout.Packed) (i : Nat) :
    (∃ span ∈ layout.fields ++ layout.gaps, span.Covers i) ↔ i < 32 := by
  constructor
  · rintro ⟨span, hspan, -, hhigh⟩
    exact hhigh.trans_le (hpacked.fits hspan).end_le
  · intro hi
    have hlt : i < endFrom 0 layout.members := by
      rw [hpacked.total]
      exact hi
    obtain ⟨span, hspan, hcovers⟩ :=
      exists_covers_of_lt_endFrom (Nat.zero_le i) hlt
    exact ⟨span, layout.perm_spans.mem_iff.mpr hspan, hcovers⟩

/-- A word is determined by its fields and its padding. -/
theorem Packed.ext_get (hpacked : layout.Packed) {word other : Word}
    (hget : ∀ span ∈ layout.fields ++ layout.gaps,
      span.get word = span.get other) : word = other := by
  apply Word.ext_bit
  intro i
  by_cases hi : i < 32
  · obtain ⟨span, hspan, hcovers⟩ := (hpacked.exists_covers_iff i).mpr hi
    have hfits := hpacked.fits hspan
    rw [hfits.bit_eq_bit_get hcovers word, hget span hspan,
      ← hfits.bit_eq_bit_get hcovers other]
  · have hle : 32 ≤ i := Nat.not_lt.mp hi
    rw [word.bit_eq_false_of_le hle, other.bit_eq_false_of_le hle]

theorem packed_of_mem_all : ∀ layout ∈ all, layout.Packed := by
  decide

end Packed

end Layout

end MssClock
