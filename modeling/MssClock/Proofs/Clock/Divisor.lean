import MssClock.Proofs.Clock.Wrap

/-!
# Divisor codes anywhere in a word

The raw decoder is given a whole word and the bit at which a divisor field
starts.  What it sees of the word is one code, the number made of three bits,
and bits past the end of the word count as zero.  Equal codes give equal
divisors, whatever words and offsets they come from.
-/

namespace MssClock

/-- The code in the three bits from `offset` on. -/
def Word.codeAt (word : Word) (offset : Nat) : Nat :=
  word.toNat / 2 ^ offset % 8

namespace Word

variable (word : Word)

theorem codeAt_of_le {offset : Nat} (hoffset : 32 ≤ offset) :
    word.codeAt offset = 0 := by
  have hlt : word.toNat < 2 ^ offset := by
    calc
      word.toNat < 2 ^ 32 := word.toNat_lt
      _ ≤ 2 ^ offset := Nat.pow_le_pow_right (by decide) hoffset
  rw [codeAt, Nat.div_eq_of_lt hlt]

theorem testBit_codeAt (offset i : Nat) :
    (word.codeAt offset).testBit i =
      (decide (i < 3) && word.bit (offset + i)) := by
  have hmod : word.codeAt offset = word.toNat / 2 ^ offset % 2 ^ 3 := rfl
  rw [hmod, Nat.testBit_mod_two_pow, Nat.testBit_div_two_pow, Nat.add_comm,
    bit]

variable {word} in
theorem codeAt_congr {other : Word} {offset : Nat}
    (hbits : ∀ i, offset ≤ i → i ≤ offset + 2 → word.bit i = other.bit i) :
    word.codeAt offset = other.codeAt offset := by
  apply Nat.eq_of_testBit_eq
  intro i
  rw [testBit_codeAt, testBit_codeAt]
  by_cases hi : i < 3
  · rw [hbits (offset + i) (by omega) (by omega)]
  · simp [hi]

theorem toNat_shiftRight_of_lt {n : Word} (hn : n < 32) :
    (word >>> n).toNat = word.toNat / 2 ^ n.toNat := by
  have hlt : n.toNat < 32 := UInt32.lt_iff_toNat_lt.mp hn
  rw [UInt32.toNat_shiftRight, Nat.mod_eq_of_lt hlt,
    Nat.shiftRight_eq_div_pow]

theorem codeAt_shiftRight {n : Word} (hn : n < 32) (offset : Nat) :
    (word >>> n).codeAt offset = word.codeAt (n.toNat + offset) := by
  rw [codeAt, codeAt, toNat_shiftRight_of_lt word hn,
    Nat.div_div_eq_div_mul, ← Nat.pow_add]

end Word

namespace Encoding

variable (encoding : Encoding)

theorem divisor_congr {field other : Word}
    (hcode : field.toNat % 8 = other.toNat % 8) :
    encoding.divisor field = encoding.divisor other := by
  simp only [divisor, toNat_and_fieldMask, hcode]

theorem divisor_extended_eq (field : Word) :
    extended.divisor field = normal.divisor field ∨
      extended.divisor field = 2 * normal.divisor field := by
  have hlt : field.toNat % 8 < 8 := Nat.mod_lt _ (by decide)
  simp only [divisor, toNat_and_fieldMask]
  interval_cases field.toNat % 8 <;> decide

theorem divisorAt_eq_divisor (word offset : Word) :
    encoding.divisorAt word offset =
      encoding.divisor (UInt32.ofNat (word.codeAt offset.toNat)) := by
  have hlt : word.codeAt offset.toNat < 8 := Nat.mod_lt _ (by decide)
  have hcode : (UInt32.ofNat (word.codeAt offset.toNat)).toNat % 8 =
      word.codeAt offset.toNat := by
    rw [UInt32.toNat_ofNat_of_lt' (by rw [UInt32.size]; omega),
      Nat.mod_eq_of_lt hlt]
  rw [divisorAt, toUInt8_and_fieldMask, divisor_and_fieldMask]
  apply encoding.divisor_congr
  rw [hcode]
  split
  next hoffset => rw [word.toNat_shiftRight_of_lt hoffset, Word.codeAt]
  next hoffset =>
    have hle : 32 ≤ offset.toNat :=
      Nat.not_lt.mp fun h => hoffset (UInt32.lt_iff_toNat_lt.mpr h)
    rw [word.codeAt_of_le hle]
    rfl

theorem divisorAt_congr {word other offset place : Word}
    (hcode : word.codeAt offset.toNat = other.codeAt place.toNat) :
    encoding.divisorAt word offset = encoding.divisorAt other place := by
  rw [divisorAt_eq_divisor, divisorAt_eq_divisor, hcode]

/-- The decoder sees three bits of the word and nothing else, so it can be
moved along a shifted word, and past the end of the word it sees zero.  Every
divisor divides 32, and the two encodings differ by a factor of two at most. -/
theorem divisorAt_threeBits (word offset : Word) :
    let divisor := encoding.divisorAt word offset
    divisor = encoding.divisor
        (UInt32.ofNat (word.toNat / 2 ^ offset.toNat % 8)) ∧
      (32 ≤ offset.toNat → divisor = 1) ∧
      (∀ other : Word,
        (∀ i, offset.toNat ≤ i → i ≤ offset.toNat + 2 →
          word.bit i = other.bit i) →
        divisor = encoding.divisorAt other offset) ∧
      (∀ a b : Word, a.toNat < 32 → a.toNat + b.toNat < UInt32.size →
        encoding.divisorAt word (a + b) =
          encoding.divisorAt (word >>> a) b) ∧
      divisor.toNat ∣ 32 ∧
      (extended.divisorAt word offset = normal.divisorAt word offset ∨
        extended.divisorAt word offset =
          2 * normal.divisorAt word offset) := by
  intro divisor
  have hdivisor : divisor =
      encoding.divisor (UInt32.ofNat (word.codeAt offset.toNat)) :=
    encoding.divisorAt_eq_divisor word offset
  refine ⟨hdivisor, ?_, ?_, ?_, ?_, ?_⟩
  · intro hoffset
    rw [hdivisor, word.codeAt_of_le hoffset]
    cases encoding <;> rfl
  · intro other hbits
    exact encoding.divisorAt_congr (Word.codeAt_congr hbits)
  · intro a b ha hsum
    have hadd : (a + b).toNat = a.toNat + b.toNat := by
      rw [UInt32.toNat_add]
      exact Nat.mod_eq_of_lt hsum
    apply encoding.divisorAt_congr
    rw [hadd, word.codeAt_shiftRight (UInt32.lt_iff_toNat_lt.mpr ha)]
  · rw [hdivisor]
    exact encoding.toNat_divisor_dvd _
  · rw [divisorAt_eq_divisor, divisorAt_eq_divisor]
    exact divisor_extended_eq _

/-- The field at bit 30 has one bit past the end of the word. -/
theorem divisorAt_threeBits_lastBits :
    let word : Word := 0xDEADBEEF
    normal.divisorAt word 30 = 4 ∧ extended.divisorAt word 30 = 8 ∧
      extended.divisorAt word 32 = 1 ∧
      extended.divisorAt word 30 = extended.divisorAt 0xC0000000 30 ∧
      extended.divisorAt word (29 + 1) =
        extended.divisorAt (word >>> 29) 1 := by
  intro word
  have hagree : ∀ i, 30 ≤ i → i ≤ 30 + 2 →
      word.bit i = Word.bit 0xC0000000 i := by
    intro i hlow hhigh
    interval_cases i <;> decide
  obtain ⟨-, -, hbits, hshift, -⟩ := extended.divisorAt_threeBits word 30
  exact ⟨by decide, by decide, (extended.divisorAt_threeBits word 32).2.1 (by decide),
    hbits 0xC0000000 hagree, hshift 29 1 (by decide) (by decide)⟩

end Encoding

end MssClock
