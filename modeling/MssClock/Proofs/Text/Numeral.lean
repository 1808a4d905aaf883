import MssClock.Text.Numeral
import MssClock.Word
import Mathlib.Data.List.DropRight

/-!
# Printed words are read back

A word is printed in two ways, as its eight hexadecimal digits and as a plain
decimal number.  Either text consists of letters and digits, so nothing of it
is skipped, and reading it digit by digit gives the word again.
-/

namespace MssClock

theorem isBlank_of_isAlphanum {c : Char} (hc : c.isAlphanum = true) :
    isBlank c = false := by
  have hrange : 48 ≤ c.toNat ∧ c.toNat ≤ 122 := by
    change ((decide (65 ≤ c.val ∧ c.val ≤ 90) ||
      (97 ≤ c.val && c.val ≤ 122)) || (48 ≤ c.val && c.val ≤ 57)) = true at hc
    simp only [Bool.or_eq_true, Bool.and_eq_true, decide_eq_true_eq,
      UInt32.le_iff_toNat_le] at hc
    change ((65 ≤ c.toNat ∧ c.toNat ≤ 90) ∨ (97 ≤ c.toNat ∧ c.toNat ≤ 122)) ∨
      (48 ≤ c.toNat ∧ c.toNat ≤ 57) at hc
    omega
  simp only [isBlank, Bool.or_eq_false_iff, Bool.and_eq_false_iff,
    decide_eq_false_iff_not, beq_eq_false_iff_ne]
  omega

theorem trim_eq_self
    {text : List Char} (htext : ∀ c ∈ text, isBlank c = false) :
    trim text = text := by
  have hfront : text.dropWhile isBlank = text := by
    rw [List.dropWhile_eq_self_iff]
    intro hpos
    simp [htext _ (List.getElem_mem hpos)]
  have hback : text.rdropWhile isBlank = text := by
    rw [List.rdropWhile_eq_self_iff]
    intro hne
    simp [htext _ (List.getLast_mem hne)]
  rw [trim, hfront]
  exact hback

theorem significant_eq_self
    {text : List Char} (htext : ∀ c ∈ text, c.isAlphanum = true) :
    significant text = text := by
  have hmark : ∀ c ∈ text, (c != '_') = true := by
    intro c hc
    rw [bne_iff_ne]
    rintro rfl
    exact absurd (htext _ hc) (by decide)
  rw [significant, trim_eq_self fun c hc => isBlank_of_isAlphanum (htext c hc)]
  exact List.filter_eq_self.mpr hmark

theorem splitRadix_of_isDigit
    {digits : List Char} (hdigits : ∀ c ∈ digits, c.isDigit = true) :
    splitRadix digits = (.decimal, digits) := by
  unfold splitRadix
  split
  · exact absurd (hdigits 'x' (by simp)) (by decide)
  · exact absurd (hdigits 'X' (by simp)) (by decide)
  · rfl

theorem readUnsigned_of_isAlphanum
    {text : List Char} (htext : ∀ c ∈ text, c.isAlphanum = true)
    (hne : text ≠ []) (radix : Radix) (bound : Nat) :
    readUnsigned radix bound text = readDigits radix bound 0 text := by
  unfold readUnsigned
  split
  · exact absurd rfl hne
  · exact absurd (htext '+' (by simp)) (by decide)
  · rfl

/-! ## Hexadecimal -/

namespace Word

theorem isAlphanum_hexDigit {n : Nat} (hn : n < 16) :
    (hexDigit n).isAlphanum = true := by
  have hall : ∀ n : Fin 16, (hexDigit n).isAlphanum = true := by decide
  exact hall ⟨n, hn⟩

theorem digit?_hexDigit {n : Nat} (hn : n < 16) :
    Radix.hexadecimal.digit? (hexDigit n) = some n := by
  have hall : ∀ n : Fin 16,
      Radix.hexadecimal.digit? (hexDigit n) = some n.val := by decide
  exact hall ⟨n, hn⟩

theorem toList_hex (word : Word) :
    word.hex.toList = (List.range 8).reverse.map word.hexDigitAt :=
  String.toList_ofList

theorem isAlphanum_of_mem_hex {word : Word} {c : Char}
    (hc : c ∈ word.hex.toList) : c.isAlphanum = true := by
  rw [toList_hex] at hc
  obtain ⟨i, -, rfl⟩ := List.mem_map.mp hc
  exact isAlphanum_hexDigit (Nat.mod_lt _ (by decide))

/-- The digits below weight `16 ^ k`, read onto what the others make. -/
theorem readDigits_hexDigitAt (word : Word) (k : Nat) :
    readDigits .hexadecimal UInt32.size (word.toNat >>> (4 * k))
      ((List.range k).reverse.map word.hexDigitAt) = .ok word.toNat := by
  induction k with
  | zero => rfl
  | succ k ih =>
      let value := word.toNat >>> (4 * k)
      have hvalue : word.toNat >>> (4 * (k + 1)) = value / 16 := by
        rw [Nat.mul_add, Nat.shiftRight_add, Nat.shiftRight_eq_div_pow _ 4]
      have hdigit : Radix.hexadecimal.digit? (word.hexDigitAt k) =
          some (value % 16) :=
        digit?_hexDigit (Nat.mod_lt _ (by decide))
      have hnext : value / 16 * Radix.hexadecimal.base + value % 16 = value := by
        simp only [Radix.base]
        omega
      have hbound : value < UInt32.size := by
        calc
          value ≤ word.toNat := Nat.shiftRight_le _ _
          _ < UInt32.size := word.toNat_lt
      rw [List.range_succ, List.reverse_append, hvalue]
      simp only [List.reverse_singleton, List.singleton_append, List.map_cons,
        readDigits, hdigit, hnext, if_pos hbound]
      exact ih

end Word

/-- Hexadecimal words are read back, leading zeros and all. -/
theorem readWord_hex (word : Word) : readWord ("0x" ++ word.hex) = .ok word := by
  have htext : ("0x" ++ word.hex).toList = '0' :: 'x' :: word.hex.toList := by
    rw [String.toList_append]
    rfl
  have halphanum : ∀ c ∈ ("0x" ++ word.hex).toList, c.isAlphanum = true := by
    intro c hc
    simp only [htext, List.mem_cons] at hc
    rcases hc with rfl | rfl | hc
    · decide
    · decide
    · exact Word.isAlphanum_of_mem_hex hc
  have hdigits : readDigits .hexadecimal UInt32.size 0 word.hex.toList =
      .ok word.toNat := by
    have hall := word.readDigits_hexDigitAt 8
    have hzero : word.toNat >>> (4 * 8) = 0 :=
      Nat.shiftRight_eq_zero _ _ word.toNat_lt
    rwa [hzero, ← Word.toList_hex] at hall
  have hne : word.hex.toList ≠ [] := by
    simp [Word.toList_hex]
  unfold readWord readWordChars
  rw [significant_eq_self halphanum, htext]
  simp only [splitRadix]
  rw [readUnsigned_of_isAlphanum (fun _ => Word.isAlphanum_of_mem_hex) hne,
    hdigits]
  simp

/-! ## Decimal -/

theorem digit?_digitChar {n : Nat} (hn : n < 10) :
    Radix.decimal.digit? n.digitChar = some n := by
  have hall : ∀ n : Fin 10,
      Radix.decimal.digit? (Nat.digitChar n) = some n.val := by decide
  exact hall ⟨n, hn⟩

theorem readDigits_append
    (radix : Radix) (bound value : Nat) (digits more : List Char) :
    readDigits radix bound value (digits ++ more) =
      match readDigits radix bound value digits with
      | .ok next => readDigits radix bound next more
      | .error fault => .error fault := by
  induction digits generalizing value with
  | nil => rfl
  | cons c rest ih =>
      simp only [List.cons_append, readDigits]
      cases radix.digit? c with
      | none => rfl
      | some digit =>
          simp only
          split
          · exact ih _
          · rfl

theorem readDigits_toDigits (n bound : Nat) :
    readDigits .decimal bound 0 (Nat.toDigits 10 n) =
      if n < bound then .ok n else .error .tooLarge := by
  induction n using Nat.strongRecOn with
  | ind n ih =>
      by_cases hsmall : n < 10
      · rw [Nat.toDigits_of_lt_base hsmall]
        simp [readDigits, digit?_digitChar hsmall]
      · have hlast : n % 10 < 10 := Nat.mod_lt _ (by decide)
        have hnext : n / 10 * Radix.decimal.base + n % 10 = n := by
          simp only [Radix.base]
          omega
        rw [Nat.toDigits_of_base_le (by decide) (by omega), readDigits_append,
          ih (n / 10) (by omega)]
        by_cases hfront : n / 10 < bound
        · simp only [if_pos hfront, readDigits, digit?_digitChar hlast, hnext]
        · simp only [if_neg hfront, if_neg (show ¬ n < bound by omega)]

theorem isAlphanum_of_mem_toDigits {n : Nat} {c : Char}
    (hc : c ∈ Nat.toDigits 10 n) : c.isAlphanum = true := by
  have hdigit := Nat.isDigit_of_mem_toDigits (by decide) (by decide) hc
  simp [Char.isAlphanum, hdigit]

theorem isDigit_of_mem_toString {n : Nat} {c : Char}
    (hc : c ∈ (toString n).toList) : c.isDigit = true := by
  rw [Nat.toString_eq_ofList_toDigits, String.toList_ofList] at hc
  exact Nat.isDigit_of_mem_toDigits (by decide) (by decide) hc

/-- A number that a word cannot hold is refused for its size. -/
theorem readWord_toString_nat (n : Nat) :
    readWord (toString n) =
      if n < UInt32.size then .ok (UInt32.ofNat n)
      else .error ⟨toString n, .tooLarge⟩ := by
  have htext : (toString n).toList = Nat.toDigits 10 n := by
    rw [Nat.toString_eq_ofList_toDigits, String.toList_ofList]
  have hdigit : ∀ c ∈ (toString n).toList, c.isDigit = true :=
    fun _ => isDigit_of_mem_toString
  have halphanum : ∀ c ∈ (toString n).toList, c.isAlphanum = true := by
    rw [htext]
    exact fun _ => isAlphanum_of_mem_toDigits
  have hne : (toString n).toList ≠ [] := by
    rw [htext]
    exact Nat.toDigits_ne_nil
  have hread : readUnsigned .decimal UInt32.size (toString n).toList =
      if n < UInt32.size then .ok n else .error .tooLarge := by
    rw [readUnsigned_of_isAlphanum halphanum hne, htext, readDigits_toDigits]
  unfold readWord readWordChars
  rw [significant_eq_self halphanum]
  simp only [splitRadix_of_isDigit hdigit, hread, String.ofList_toList]
  by_cases hn : n < UInt32.size
  · simp only [if_pos hn]
  · simp only [if_neg hn]

theorem readWord_toString (word : Word) :
    readWord (toString word.toNat) = .ok word := by
  rw [readWord_toString_nat, if_pos word.toNat_lt, UInt32.ofNat_toNat]

theorem readBaud_toString (baud : UInt32) :
    readBaud (toString baud.toNat) = .ok baud := by
  have hbaud := baud.toNat_lt
  have htext : (toString baud.toNat).toList = Nat.toDigits 10 baud.toNat := by
    rw [Nat.toString_eq_ofList_toDigits, String.toList_ofList]
  have hread : readSigned (toString baud.toNat).toList = .ok baud.toNat := by
    have hunsigned : readUnsigned .decimal signedBound (Nat.toDigits 10 baud.toNat) =
        .ok baud.toNat := by
      rw [readUnsigned_of_isAlphanum (fun _ => isAlphanum_of_mem_toDigits)
        Nat.toDigits_ne_nil, readDigits_toDigits, if_pos]
      simp only [signedBound]
      omega
    unfold readSigned
    split
    · rename_i heq
      have hmem : '-' ∈ (toString baud.toNat).toList := by
        rw [heq]
        exact List.mem_cons_self
      cases isDigit_of_mem_toString hmem
    · rw [htext, hunsigned]
      rfl
  rw [readBaud, hread]
  simp only
  rw [if_pos, Int.toNat_natCast, UInt32.ofNat_toNat]
  have hsize : UInt32.size = 4294967296 := rfl
  omega

end MssClock
