import MssClock.Register.Field
import Mathlib.Data.Nat.Bitwise

/-!
# Fields as bits of a word

A register word is looked at bit by bit here, bit 0 being the lowest.  Reading
a field shifts its bits down to bit 0, storing into a field replaces them, and
for a flag both come down to one bit: the flag is that bit, and clearing the
flag clears that bit alone.
-/

namespace MssClock

namespace Word

def bit (word : Word) (i : Nat) : Bool :=
  word.toNat.testBit i

/-- The word with bit `i` zero and every other bit kept. -/
def clearBit (word : Word) (i : Nat) : Word :=
  word &&& ~~~(1 <<< UInt32.ofNat i)

theorem ext_bit
    {word other : Word} (h : ∀ i, word.bit i = other.bit i) :
    word = other := by
  apply UInt32.toNat_inj.mp
  exact Nat.eq_of_testBit_eq h

theorem bit_eq_false_of_le
    (word : Word) {i : Nat} (hi : 32 ≤ i) :
    word.bit i = false := by
  apply Nat.testBit_eq_false_of_lt
  calc
    word.toNat < 2 ^ 32 := word.toNat_lt
    _ ≤ 2 ^ i := Nat.pow_le_pow_right (by decide) hi

@[simp]
theorem bit_zero (i : Nat) : bit 0 i = false := by
  simp [bit]

theorem bit_one (i : Nat) : bit 1 i = decide (i = 0) := by
  rw [Bool.eq_iff_iff, decide_eq_true_eq]
  exact Nat.testBit_one_eq_true_iff_self_eq_zero

@[simp]
theorem bit_and (word other : Word) (i : Nat) :
    bit (word &&& other) i = (word.bit i && other.bit i) := by
  simp [bit]

@[simp]
theorem bit_or (word other : Word) (i : Nat) :
    bit (word ||| other) i = (word.bit i || other.bit i) := by
  simp [bit]

theorem bit_not (word : Word) (i : Nat) :
    bit (~~~word) i = (decide (i < 32) && !word.bit i) := by
  have hword : word.toNat < 2 ^ 32 := word.toNat_lt
  have hnot : (~~~word).toNat = 2 ^ 32 - (word.toNat + 1) := by
    rw [UInt32.toNat_not, UInt32.size]
    omega
  rw [bit, hnot, Nat.testBit_two_pow_sub_succ hword, bit]

theorem bit_shiftLeft
    (word : Word) {n : Nat} (hn : n < 32) (i : Nat) :
    bit (word <<< UInt32.ofNat n) i =
      (decide (i < 32) && (decide (n ≤ i) && word.bit (i - n))) := by
  have hshift : (word <<< UInt32.ofNat n).toNat =
      (word.toNat <<< n) % 2 ^ 32 := by
    simp [Nat.mod_eq_of_lt hn]
  rw [bit, hshift, Nat.testBit_mod_two_pow, Nat.testBit_shiftLeft, bit]

theorem bit_shiftRight
    (word : Word) {n : Nat} (hn : n < 32) (i : Nat) :
    bit (word >>> UInt32.ofNat n) i = word.bit (n + i) := by
  have hshift : (word >>> UInt32.ofNat n).toNat = word.toNat >>> n := by
    simp [Nat.mod_eq_of_lt hn]
  rw [bit, hshift, Nat.testBit_shiftRight, bit]

theorem bit_clearBit
    (word : Word) {i : Nat} (hi : i < 32) (j : Nat) :
    (word.clearBit i).bit j = (word.bit j && decide (j ≠ i)) := by
  rw [clearBit, bit_and, bit_not, bit_shiftLeft 1 hi, bit_one]
  by_cases hj : j < 32
  · by_cases heq : j = i
    · subst heq
      simp [hj]
    · have hne : ¬(i ≤ j ∧ j - i = 0) := by omega
      rw [← Bool.decide_and, decide_eq_false hne]
      simp [hj, heq]
  · simp [word.bit_eq_false_of_le (by omega : 32 ≤ j)]

def clearBits (word : Word) (positions : List Nat) : Word :=
  positions.foldl clearBit word

theorem bit_clearBits
    (word : Word) {positions : List Nat} (hpositions : ∀ i ∈ positions, i < 32)
    (j : Nat) :
    (word.clearBits positions).bit j =
      if j ∈ positions then false else word.bit j := by
  induction positions generalizing word with
  | nil => simp [clearBits]
  | cons i rest ih =>
      have hi : i < 32 := hpositions i List.mem_cons_self
      have hrest := ih (word.clearBit i)
        fun k hk => hpositions k (List.mem_cons_of_mem i hk)
      calc
        (word.clearBits (i :: rest)).bit j =
            if j ∈ rest then false else (word.clearBit i).bit j := hrest
        _ = if j ∈ i :: rest then false else word.bit j := by
          rw [word.bit_clearBit hi]
          by_cases hj : j = i <;> simp [hj]

end Word

namespace Field

/-- The field lies within a word. -/
structure Fits (field : Field) : Prop where
  offset_lt : field.offset < 32
  end_le : field.offset + field.width ≤ 32

theorem flag_fits (name : String) {i : Nat} (hi : i < 32) :
    (flag name i).Fits :=
  ⟨hi, hi⟩

theorem bits_fits
    (name : String) {high low : Nat} (hhigh : high < 32) (hlow : low ≤ high) :
    (bits name high low).Fits := by
  constructor
  · exact Nat.lt_of_le_of_lt hlow hhigh
  · simp only [bits]
    omega

variable {field : Field}

theorem Fits.toNat_largest (hfits : field.Fits) :
    field.largest.toNat = 2 ^ field.width - 1 := by
  have hend := hfits.end_le
  have hpow : 2 ^ field.width ≤ 2 ^ 32 :=
    Nat.pow_le_pow_right (by decide) (by omega)
  have hpos : 0 < 2 ^ field.width := Nat.two_pow_pos _
  rw [largest, Nat.one_shiftLeft, UInt32.toNat_ofNat']
  exact Nat.mod_eq_of_lt (by omega)

theorem Fits.bit_largest (hfits : field.Fits) (i : Nat) :
    field.largest.bit i = decide (i < field.width) := by
  rw [Word.bit, hfits.toNat_largest, Nat.testBit_two_pow_sub_one]

theorem Fits.bit_mask (hfits : field.Fits) (i : Nat) :
    field.mask.bit i =
      decide (field.offset ≤ i ∧ i < field.offset + field.width) := by
  have hend := hfits.end_le
  rw [mask, Word.bit_shiftLeft _ hfits.offset_lt, hfits.bit_largest,
    Bool.eq_iff_iff]
  simp only [Bool.and_eq_true, decide_eq_true_eq]
  omega

theorem Fits.bit_get (hfits : field.Fits) (word : Word) (i : Nat) :
    (field.get word).bit i =
      (decide (i < field.width) && word.bit (field.offset + i)) := by
  rw [get, Word.bit_and, Word.bit_shiftRight _ hfits.offset_lt,
    hfits.bit_largest, Bool.and_comm]

theorem Fits.bit_store (hfits : field.Fits) (n word : Word) (i : Nat) :
    (field.store n word).bit i =
      if field.offset ≤ i ∧ i < field.offset + field.width then
        n.bit (i - field.offset)
      else word.bit i := by
  have hend := hfits.end_le
  rw [store, Word.bit_or, Word.bit_and, Word.bit_not, hfits.bit_mask,
    Word.bit_shiftLeft _ hfits.offset_lt, Word.bit_and, hfits.bit_largest]
  split
  next hin =>
    have hi : i < 32 := by omega
    have hwidth : i - field.offset < field.width := by omega
    simp [hin, hi, hwidth]
  next hout =>
    by_cases hi : i < 32
    · have hwidth : ¬(field.offset ≤ i ∧ i - field.offset < field.width) := by
        omega
      by_cases hoffset : field.offset ≤ i
      · have hlt : ¬ i - field.offset < field.width := by omega
        simp [hout, hi, hlt]
      · simp [hi, hoffset]
    · simp [hi, word.bit_eq_false_of_le (by omega : 32 ≤ i)]

/-- As a number, a field is a quotient and a remainder of its word. -/
theorem Fits.toNat_get (hfits : field.Fits) (word : Word) :
    (field.get word).toNat =
      word.toNat / 2 ^ field.offset % 2 ^ field.width := by
  apply Nat.eq_of_testBit_eq
  intro i
  have hbit := hfits.bit_get word i
  simp only [Word.bit] at hbit
  rw [hbit, Nat.testBit_mod_two_pow, Nat.testBit_div_two_pow, Nat.add_comm]

theorem Fits.toNat_get_lt (hfits : field.Fits) (word : Word) :
    (field.get word).toNat < 2 ^ field.width := by
  rw [hfits.toNat_get]
  exact Nat.mod_lt _ (Nat.two_pow_pos _)

theorem Fits.toNat_get_add_one
    (hfits : field.Fits) (hwidth : field.width < 32) (word : Word) :
    (field.get word + 1).toNat = (field.get word).toNat + 1 := by
  have hlt := hfits.toNat_get_lt word
  have hpow : 2 ^ field.width ≤ 2 ^ 31 :=
    Nat.pow_le_pow_right (by decide) (by omega)
  rw [UInt32.toNat_add, UInt32.toNat_one]
  exact Nat.mod_eq_of_lt (by omega)

/-- A field does not see a bit cleared outside it. -/
theorem Fits.get_clearBit
    (hfits : field.Fits) {i : Nat} (hi : i < 32)
    (hout : i < field.offset ∨ field.offset + field.width ≤ i)
    (word : Word) :
    field.get (word.clearBit i) = field.get word := by
  apply Word.ext_bit
  intro j
  rw [hfits.bit_get, hfits.bit_get, word.bit_clearBit hi]
  by_cases hj : j < field.width
  · have hne : field.offset + j ≠ i := by omega
    simp [hne]
  · simp [hj]

/-- A flag is the bit at its offset. -/
theorem isSet_flag (name : String) {i : Nat} (hi : i < 32) (word : Word) :
    (flag name i).isSet word = word.bit i := by
  have hget : ∀ j, ((flag name i).get word).bit j =
      (decide (j = 0) && word.bit i) := by
    intro j
    rw [(flag_fits name hi).bit_get]
    cases j with
    | zero => rfl
    | succ j => simp [flag]
  cases hbit : word.bit i with
  | false =>
      have hzero : (flag name i).get word = 0 := by
        apply Word.ext_bit
        intro j
        simp [hget, hbit]
      simp [isSet, hzero]
  | true =>
      have hne : (flag name i).get word ≠ 0 := by
        intro hzero
        have hlow := hget 0
        simp [hzero, hbit] at hlow
      simp [isSet, hne]

/-- Clearing a flag clears the bit at its offset. -/
theorem clear_flag (name : String) {i : Nat} (hi : i < 32) (word : Word) :
    (flag name i).clear word = word.clearBit i := by
  apply Word.ext_bit
  intro j
  rw [clear, (flag_fits name hi).bit_store, word.bit_clearBit hi]
  by_cases hj : j = i
  · simp [flag, hj]
  · have hout : ¬((flag name i).offset ≤ j ∧
        j < (flag name i).offset + (flag name i).width) := by
      simp only [flag]
      omega
    simp [hout, hj]

end Field

end MssClock
