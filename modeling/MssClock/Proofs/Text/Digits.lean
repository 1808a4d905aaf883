import MssClock.Proofs.Text.Numeral
import Mathlib.Data.List.Forall2
import Mathlib.Data.Nat.Digits.Defs

/-!
# Digits and their value

The digits of a radix are given by two rows of characters, and the value of a
sequence of digits is the positional one of `Nat.ofDigits`.  Nothing of that
follows the reader, which adds digits up from the left and stops at the first
one that it cannot take: what it comes to is one of three things, and the
shortest front part that is not a number below the bound decides which.
-/

namespace MssClock

namespace Radix

/-- The digits in the order of their values, once in either case. -/
def digitRows : List String := ["0123456789abcdef", "0123456789ABCDEF"]

def Denotes (radix : Radix) (c : Char) (n : Nat) : Prop :=
  n < radix.base ∧ ∃ row ∈ digitRows, row.toList[n]? = some c

/-- The characters are digits, the highest first, and this is their value. -/
def IsNumeral (radix : Radix) (digits : List Char) (value : Nat) : Prop :=
  ∃ places, List.Forall₂ radix.Denotes digits.reverse places ∧
    value = Nat.ofDigits radix.base places

variable {radix : Radix} {c : Char} {digits : List Char} {n value : Nat}

theorem base_le (radix : Radix) : radix.base ≤ 16 := by
  cases radix <;> decide

theorem base_pos (radix : Radix) : 0 < radix.base := by
  cases radix <;> decide

theorem digit?_eq_some_iff :
    radix.digit? c = some n ↔ radix.Denotes c n := by
  constructor
  · intro h
    have hall : ∀ k : Fin 128, ∀ n ∈ radix.digit? (Char.ofNat k),
        n < radix.base ∧ ∃ row ∈ digitRows,
          row.toList[n]? = some (Char.ofNat k) := by
      cases radix <;> decide +kernel
    have hascii : c.toNat < 128 := by
      by_contra hlarge
      have hle : ∀ d : Char, d.toNat < 128 → ¬ c ≤ d := by
        intro d hd hcd
        have hval : c.toNat ≤ d.toNat := UInt32.le_iff_toNat_le.mp hcd
        omega
      simp [digit?, hle '9' (by decide), hle 'f' (by decide),
        hle 'F' (by decide)] at h
    have hc := hall ⟨c.toNat, hascii⟩ n
    rw [Char.ofNat_toNat] at hc
    exact hc h
  · rintro ⟨hn, row, hrow, hc⟩
    have hall : ∀ n : Fin 16, n < radix.base → ∀ row ∈ digitRows,
        row.toList[n.val]?.bind radix.digit? = some n.val := by
      cases radix <;> decide +kernel
    have hread := hall ⟨n, hn.trans_le radix.base_le⟩ hn row hrow
    rwa [hc] at hread

theorem isNumeral_nil : radix.IsNumeral [] 0 :=
  ⟨[], .nil, rfl⟩

theorem isNumeral_concat_iff :
    radix.IsNumeral (digits ++ [c]) value ↔
      ∃ front n, radix.IsNumeral digits front ∧ radix.Denotes c n ∧
        value = front * radix.base + n := by
  have hvalue : ∀ n places, Nat.ofDigits radix.base (n :: places) =
      Nat.ofDigits radix.base places * radix.base + n := by
    intro n places
    rw [Nat.ofDigits_cons, mul_comm, add_comm]
  unfold IsNumeral
  rw [List.reverse_append, List.reverse_singleton, List.singleton_append]
  constructor
  · rintro ⟨places, hplaces, rfl⟩
    obtain ⟨n, rest, hc, hrest, rfl⟩ := List.forall₂_cons_left_iff.mp hplaces
    exact ⟨_, n, ⟨rest, hrest, rfl⟩, hc, hvalue n rest⟩
  · rintro ⟨_, n, ⟨places, hplaces, rfl⟩, hc, rfl⟩
    exact ⟨n :: places, .cons hc hplaces, (hvalue n places).symm⟩

theorem Denotes.isBlank (h : radix.Denotes c n) : isBlank c = false := by
  obtain ⟨-, row, hrow, hc⟩ := h
  have hall : ∀ row ∈ digitRows,
      row.toList.all (fun c => !MssClock.isBlank c) = true := by
    decide +kernel
  simpa using List.all_eq_true.mp (hall row hrow) c (List.mem_of_getElem? hc)

theorem Denotes.unique {m : Nat} (hn : radix.Denotes c n)
    (hm : radix.Denotes c m) : n = m := by
  rw [← digit?_eq_some_iff] at hn hm
  exact Option.some.inj (hn.symm.trans hm)

theorem IsNumeral.unique {other : Nat} (h : radix.IsNumeral digits value)
    (hother : radix.IsNumeral digits other) : value = other := by
  obtain ⟨places, hplaces, rfl⟩ := h
  obtain ⟨places', hplaces', rfl⟩ := hother
  have hunique : Relator.RightUnique radix.Denotes := fun _ _ _ => Denotes.unique
  rw [hunique.forall₂ hplaces hplaces']

/-- More digits make no smaller number. -/
theorem IsNumeral.exists_le {front rest : List Char}
    (h : radix.IsNumeral (front ++ rest) value) :
    ∃ first, radix.IsNumeral front first ∧ first ≤ value := by
  induction rest using List.reverseRecOn generalizing value with
  | nil => exact ⟨value, by simpa using h, le_rfl⟩
  | append_singleton rest c ih =>
      rw [← List.append_assoc] at h
      obtain ⟨most, n, hmost, -, rfl⟩ := isNumeral_concat_iff.mp h
      obtain ⟨first, hfirst, hle⟩ := ih hmost
      refine ⟨first, hfirst, ?_⟩
      calc
        first ≤ most := hle
        _ ≤ most * radix.base := Nat.le_mul_of_pos_right most radix.base_pos
        _ ≤ most * radix.base + n := Nat.le_add_right _ n

theorem IsNumeral.le {front rest : List Char} {first : Nat}
    (h : radix.IsNumeral (front ++ rest) value)
    (hfirst : radix.IsNumeral front first) : first ≤ value := by
  obtain ⟨first', hfirst', hle⟩ := h.exists_le
  exact hfirst.unique hfirst' ▸ hle

theorem IsNumeral.exists_denotes (h : radix.IsNumeral digits value)
    (hc : c ∈ digits) : ∃ n, radix.Denotes c n := by
  obtain ⟨front, rest, rfl⟩ := List.append_of_mem hc
  rw [List.append_cons] at h
  obtain ⟨first, hfirst, -⟩ := h.exists_le
  obtain ⟨-, n, -, hn, -⟩ := isNumeral_concat_iff.mp hfirst
  exact ⟨n, hn⟩

theorem IsNumeral.isBlank_of_mem (h : radix.IsNumeral digits value)
    (hc : c ∈ digits) : isBlank c = false := by
  obtain ⟨n, hn⟩ := h.exists_denotes hc
  exact hn.isBlank

end Radix

/-! ## Reading digits -/

section Reading

variable (radix : Radix) (bound : Nat) (digits : List Char)

/-- A front part is a number that is too large. -/
def Radix.Overflows : Prop :=
  ∃ front value, front <+: digits ∧ radix.IsNumeral front value ∧ bound ≤ value

/-- What comes before the first character that is no digit is not too large. -/
def Radix.Breaks : Prop :=
  ∃ front c rest value, digits = front ++ c :: rest ∧
    radix.IsNumeral front value ∧ value < bound ∧ ∀ n, ¬ radix.Denotes c n

/-- What reading digits comes to.  Of a number that is too large and a character
that is no digit, the one that shows first decides. -/
inductive ReadsAs : Except NumeralFault Nat → Prop
  | whole {value : Nat} (hdigits : radix.IsNumeral digits value)
      (hvalue : value < bound) : ReadsAs (.ok value)
  | tooLarge (h : radix.Overflows bound digits) : ReadsAs (.error .tooLarge)
  | invalidDigit (h : radix.Breaks bound digits) :
      ReadsAs (.error .invalidDigit)

variable {radix bound digits} {value : Nat}

theorem Radix.IsNumeral.not_overflows (h : radix.IsNumeral digits value)
    (hvalue : value < bound) : ¬ radix.Overflows bound digits := by
  rintro ⟨front, first, ⟨rest, rfl⟩, hfront, hlarge⟩
  exact absurd (h.le hfront) (by omega)

theorem Radix.IsNumeral.not_breaks (h : radix.IsNumeral digits value) :
    ¬ radix.Breaks bound digits := by
  rintro ⟨front, c, rest, -, rfl, -, -, hc⟩
  obtain ⟨n, hn⟩ := h.exists_denotes
    (List.mem_append_right front List.mem_cons_self)
  exact hc n hn

theorem Radix.Breaks.not_overflows (h : radix.Breaks bound digits) :
    ¬ radix.Overflows bound digits := by
  rintro ⟨most, value, hmost, hvalue, hlarge⟩
  obtain ⟨front, c, rest, first, rfl, hfront, hlt, hc⟩ := h
  rw [List.append_cons] at hmost
  obtain hlong | hshort :=
    List.prefix_or_prefix_of_prefix hmost (List.prefix_append _ rest)
  · rcases List.prefix_concat_iff.mp hlong with rfl | ⟨rest, rfl⟩
    · obtain ⟨n, hn⟩ := hvalue.exists_denotes List.mem_concat_self
      exact hc n hn
    · exact absurd (hfront.le hvalue) (by omega)
  · obtain ⟨n, hn⟩ := hvalue.exists_denotes
      (hshort.subset List.mem_concat_self)
    exact hc n hn

theorem readsAs_readDigits (radix : Radix) (hbound : 0 < bound)
    (digits : List Char) :
    ReadsAs radix bound digits (readDigits radix bound 0 digits) := by
  induction digits using List.reverseRecOn with
  | nil => exact .whole Radix.isNumeral_nil hbound
  | append_singleton digits c ih =>
      rw [readDigits_append]
      generalize readDigits radix bound 0 digits = result at ih ⊢
      cases ih with
      | @whole value hdigits hvalue =>
          simp only [readDigits]
          cases hc : radix.digit? c with
          | none =>
              refine .invalidDigit
                ⟨digits, c, [], value, rfl, hdigits, hvalue, fun n hn => ?_⟩
              rw [← Radix.digit?_eq_some_iff, hc] at hn
              cases hn
          | some n =>
              have hnext : radix.IsNumeral (digits ++ [c])
                  (value * radix.base + n) :=
                Radix.isNumeral_concat_iff.mpr ⟨value, n, hdigits,
                  Radix.digit?_eq_some_iff.mp hc, rfl⟩
              by_cases hlt : value * radix.base + n < bound
              · simp only [if_pos hlt]
                exact .whole hnext hlt
              · simp only [if_neg hlt]
                exact .tooLarge
                  ⟨_, _, List.prefix_rfl, hnext, not_lt.mp hlt⟩
      | tooLarge h =>
          obtain ⟨front, value, hfront, hvalue, hlarge⟩ := h
          exact .tooLarge
            ⟨front, value, hfront.trans (List.prefix_append _ _), hvalue, hlarge⟩
      | invalidDigit h =>
          obtain ⟨front, d, rest, value, rfl, hfront, hvalue, hd⟩ := h
          exact .invalidDigit
            ⟨front, d, rest ++ [c], value, by simp, hfront, hvalue, hd⟩

theorem readDigits_eq_ok_iff (hbound : 0 < bound) :
    readDigits radix bound 0 digits = .ok value ↔
      radix.IsNumeral digits value ∧ value < bound := by
  have hreads := readsAs_readDigits radix hbound digits
  constructor
  · intro h
    rw [h] at hreads
    cases hreads with
    | whole hdigits hvalue => exact ⟨hdigits, hvalue⟩
  · rintro ⟨hdigits, hvalue⟩
    generalize readDigits radix bound 0 digits = result at hreads ⊢
    cases hreads with
    | whole hdigits' _ => rw [hdigits.unique hdigits']
    | tooLarge h => exact absurd h (hdigits.not_overflows hvalue)
    | invalidDigit h => exact absurd h hdigits.not_breaks

end Reading

/-! ## Printed digits -/

namespace Radix

variable {radix : Radix} {digits : List Char} {value : Nat}

theorem denotes_digitChar {n : Nat} (hn : n < radix.base) :
    radix.Denotes n.digitChar n := by
  have hall : ∀ n : Fin 16,
      "0123456789abcdef".toList[n.val]? = some (Nat.digitChar n) := by
    decide +kernel
  exact ⟨hn, _, List.mem_cons_self, hall ⟨n, hn.trans_le radix.base_le⟩⟩

theorem isNumeral_toDigits (radix : Radix) (n : Nat) :
    radix.IsNumeral (Nat.toDigits radix.base n) n := by
  have hbase : 1 < radix.base := by
    cases radix <;> decide
  induction n using Nat.strongRecOn with
  | ind n ih =>
      by_cases hsmall : n < radix.base
      · rw [Nat.toDigits_of_lt_base hsmall, ← List.nil_append [n.digitChar],
          isNumeral_concat_iff]
        exact ⟨0, n, isNumeral_nil, denotes_digitChar hsmall, by omega⟩
      · have hlast : n % radix.base < radix.base := Nat.mod_lt _ radix.base_pos
        rw [Nat.toDigits_of_base_le hbase (not_lt.mp hsmall),
          isNumeral_concat_iff]
        refine ⟨n / radix.base, n % radix.base, ih _ ?_, denotes_digitChar hlast,
          (Nat.div_add_mod' n radix.base).symm⟩
        exact Nat.div_lt_self (by omega) hbase

theorem IsNumeral.replicate_append (h : radix.IsNumeral digits value)
    (zeros : Nat) :
    radix.IsNumeral (List.replicate zeros '0' ++ digits) value := by
  obtain ⟨places, hplaces, rfl⟩ := h
  have hzero : radix.Denotes '0' 0 := denotes_digitChar radix.base_pos
  refine ⟨places ++ List.replicate zeros 0, ?_,
    (Nat.ofDigits_append_replicate_zero places).symm⟩
  have hzeros : List.Forall₂ radix.Denotes (List.replicate zeros '0')
      (List.replicate zeros 0) := by
    induction zeros with
    | zero => exact .nil
    | succ zeros ih => exact .cons hzero ih
  rw [List.reverse_append, List.reverse_replicate]
  exact List.rel_append hplaces hzeros

theorem denotes_of_toLower {c : Char} {n : Nat}
    (h : Radix.hexadecimal.Denotes c.toLower n) :
    Radix.hexadecimal.Denotes c n := by
  by_cases hupper : 65 ≤ c.toNat ∧ c.toNat ≤ 90
  · have hall : ∀ k : Fin 128, ∀ n ∈ hexadecimal.digit? (Char.ofNat k).toLower,
        hexadecimal.digit? (Char.ofNat k) = some n := by
      decide +kernel
    have hc := hall ⟨c.toNat, by omega⟩ n
    rw [Char.ofNat_toNat, Option.mem_def, digit?_eq_some_iff,
      digit?_eq_some_iff] at hc
    exact hc h
  · have hnot : ¬ (c.val ≥ 65 ∧ c.val ≤ 90) := by
      simpa [UInt32.le_iff_toNat_le] using hupper
    have hsame : c.toLower = c := dif_neg hnot
    rwa [hsame] at h

theorem IsNumeral.of_toLower
    (h : Radix.hexadecimal.IsNumeral (digits.map Char.toLower) value) :
    Radix.hexadecimal.IsNumeral digits value := by
  obtain ⟨places, hplaces, rfl⟩ := h
  refine ⟨places, ?_, rfl⟩
  rw [← List.map_reverse, List.forall₂_map_left_iff] at hplaces
  exact hplaces.imp fun _ _ => denotes_of_toLower

end Radix

end MssClock
