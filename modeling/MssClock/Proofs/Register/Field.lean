import MssClock.Proofs.Register.Bits

/-!
# Reading a field after a store

A field reads what was last stored into it, and a store into another field that
shares no bit with it does not show, so that such stores commute.  Exactly the
numbers below `2 ^ width` fit a field.
-/

namespace MssClock

/-- The number a field value stands for, a flag being one or zero. -/
def FieldValue.toNat : FieldValue → Nat
  | .flag on => on.toNat
  | .number n => n.toNat

namespace Field

def Covers (field : Field) (i : Nat) : Prop :=
  field.offset ≤ i ∧ i < field.offset + field.width

instance (field : Field) (i : Nat) : Decidable (field.Covers i) :=
  inferInstanceAs (Decidable (_ ∧ _))

def Apart (field other : Field) : Prop :=
  ∀ i, field.Covers i → ¬ other.Covers i

theorem Apart.symm {field other : Field} (h : field.Apart other) :
    other.Apart field :=
  fun i hother hfield => h i hfield hother

instance : Std.Symm Apart where
  symm _ _ := Apart.symm

section Fits

variable {field other : Field} {n : Word}

theorem Fits.bit_eq_bit_get
    (hfits : field.Fits) {i : Nat} (hi : field.Covers i) (word : Word) :
    word.bit i = (field.get word).bit (i - field.offset) := by
  obtain ⟨hlow, hhigh⟩ := hi
  have hlt : i - field.offset < field.width := by omega
  have heq : field.offset + (i - field.offset) = i := by omega
  rw [hfits.bit_get, heq, decide_eq_true hlt, Bool.true_and]

theorem Fits.toNat_value
    (hfits : field.Fits) (hflag : field.kind = .flag → field.width = 1)
    (word : Word) :
    (field.value word).toNat = (field.get word).toNat := by
  rw [value]
  cases hkind : field.kind with
  | number => rfl
  | flag =>
      have hlt := hfits.toNat_get_lt word
      rw [hflag hkind] at hlt
      change (field.isSet word).toNat = _
      rw [isSet]
      -- One bit is zero or one.
      by_cases hzero : field.get word = 0
      · rw [hzero]
        rfl
      · have hne : (field.get word).toNat ≠ 0 := fun h =>
          hzero (UInt32.toNat_inj.mp h)
        rw [bne_iff_ne.mpr hzero, Bool.toNat_true]
        omega

theorem value_congr {word next : Word} (hget : field.get word = field.get next) :
    field.value word = field.value next := by
  simp only [value, isSet, hget]

theorem Fits.le_largest_iff (hfits : field.Fits) :
    n ≤ field.largest ↔ n.toNat < 2 ^ field.width := by
  have hpos : 0 < 2 ^ field.width := Nat.two_pow_pos _
  rw [UInt32.le_iff_toNat_le, hfits.toNat_largest]
  omega

theorem Fits.put_of_lt
    (hfits : field.Fits) (hn : n.toNat < 2 ^ field.width) (word : Word) :
    field.put n word = .ok (field.store n word) :=
  put_eq_ok word (hfits.le_largest_iff.mpr hn)

theorem Fits.put_of_le
    (hfits : field.Fits) (hn : 2 ^ field.width ≤ n.toNat) (word : Word) :
    field.put n word = .error (.outOfBounds field.largest) :=
  put_eq_error word fun hle => Nat.not_lt.mpr hn (hfits.le_largest_iff.mp hle)

theorem Fits.get_store_self
    (hfits : field.Fits) (hn : n.toNat < 2 ^ field.width) (word : Word) :
    field.get (field.store n word) = n := by
  apply Word.ext_bit
  intro i
  rw [hfits.bit_get, hfits.bit_store]
  by_cases hi : i < field.width
  · have hin : field.offset ≤ field.offset + i ∧
        field.offset + i < field.offset + field.width := by omega
    rw [if_pos hin, Nat.add_sub_cancel_left, decide_eq_true hi, Bool.true_and]
  · have hhigh : n.bit i = false := by
      apply Nat.testBit_eq_false_of_lt
      exact hn.trans_le (Nat.pow_le_pow_right (by decide) (Nat.not_lt.mp hi))
    rw [hhigh, decide_eq_false hi, Bool.false_and]

theorem Fits.get_store_of_apart
    (hfits : field.Fits) (hother : other.Fits) (hapart : other.Apart field)
    (n word : Word) :
    other.get (field.store n word) = other.get word := by
  apply Word.ext_bit
  intro i
  rw [hother.bit_get, hother.bit_get, hfits.bit_store]
  by_cases hi : i < other.width
  · have hcovers : other.Covers (other.offset + i) :=
      ⟨by omega, by omega⟩
    have hmiss := hapart _ hcovers
    rw [Covers] at hmiss
    rw [if_neg hmiss]
  · rw [decide_eq_false hi, Bool.false_and, Bool.false_and]

theorem Fits.store_comm
    (hfits : field.Fits) (hother : other.Fits) (hapart : field.Apart other)
    (n k word : Word) :
    field.store n (other.store k word) =
      other.store k (field.store n word) := by
  apply Word.ext_bit
  intro i
  simp only [hfits.bit_store, hother.bit_store]
  split
  next hin =>
    have hmiss := hapart i hin
    rw [Covers] at hmiss
    rw [if_neg hmiss]
  next hout => rfl

end Fits

end Field

end MssClock
