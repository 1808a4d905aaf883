import MssClock.Hjson.Quoted
import Mathlib.Data.Char

/-!
# Written strings

The ways to write a string between double quotes.  A character stands for itself
unless it is a quote, a backslash or a control character; some characters have an
escape of one letter, and any character may be written by its code unit, or by
two units if it has no single one.  However each character is written, reading
gives the string back.
-/

namespace MssClock.Hjson

/-- The characters with an escape of one letter, each with its letter. -/
def shortEscapes : List (Char × Char) :=
  [('"', '"'), ('\\', '\\'), ('/', '/'), ('\x08', 'b'), ('\x0c', 'f'),
    ('\n', 'n'), ('\r', 'r'), ('\t', 't')]

/-- A hexadecimal digit, in lower or upper case. -/
def IsHexDigit (n : Nat) (c : Char) : Prop :=
  n < 16 ∧ (c = n.digitChar ∨ c = n.digitChar.toUpper)

instance (n : Nat) (c : Char) : Decidable (IsHexDigit n c) :=
  inferInstanceAs (Decidable (_ ∧ _))

/-- A code unit in four digits. -/
inductive WrittenUnit (n : Nat) : List Char → Prop
  | digits {a b c d : Char}
      (ha : IsHexDigit (n / 4096) a) (hb : IsHexDigit (n / 256 % 16) b)
      (hc : IsHexDigit (n / 16 % 16) c) (hd : IsHexDigit (n % 16) d) :
      WrittenUnit n [a, b, c, d]

inductive WrittenChar (c : Char) : List Char → Prop
  | plain (hcontrol : ' ' ≤ c) (hquote : c ≠ '"') (hslash : c ≠ '\\') :
      WrittenChar c [c]
  | short {letter : Char} (hletter : (c, letter) ∈ shortEscapes) :
      WrittenChar c ['\\', letter]
  | unit {digits : List Char} (hdigits : WrittenUnit c.toNat digits) :
      WrittenChar c ('\\' :: 'u' :: digits)
  | pair {high low : List Char} (hc : 0x10000 ≤ c.toNat)
      (hhigh : WrittenUnit (0xD800 + (c.toNat - 0x10000) / 0x400) high)
      (hlow : WrittenUnit (0xDC00 + (c.toNat - 0x10000) % 0x400) low) :
      WrittenChar c ('\\' :: 'u' :: (high ++ '\\' :: 'u' :: low))

/-- The characters between the quotes of a string. -/
inductive WrittenText : List Char → List Char → Prop
  | nil : WrittenText [] []
  | cons {c : Char} {chars written more : List Char}
      (hc : WrittenChar c written) (hmore : WrittenText chars more) :
      WrittenText (c :: chars) (written ++ more)

/-- A character that may stand for itself. -/
def isVerbatim (c : Char) : Bool :=
  ' ' ≤ c && c != '"' && c != '\\'

theorem writtenText_self {chars : List Char}
    (hchars : chars.all isVerbatim = true) : WrittenText chars chars := by
  induction chars with
  | nil => exact .nil
  | cons c chars ih =>
      simp only [List.all_cons, isVerbatim, Bool.and_eq_true, decide_eq_true_eq,
        bne_iff_ne] at hchars
      obtain ⟨⟨⟨hcontrol, hquote⟩, hslash⟩, hrest⟩ := hchars
      exact .cons (.plain hcontrol hquote hslash) (ih hrest)

theorem IsHexDigit.digit? {n : Nat} {c : Char} (h : IsHexDigit n c) :
    Radix.hexadecimal.digit? c = some n := by
  have hall : ∀ n : Fin 16,
      Radix.hexadecimal.digit? (Nat.digitChar n) = some n.val ∧
      Radix.hexadecimal.digit? (Nat.digitChar n).toUpper = some n.val := by
    decide
  obtain ⟨hn, rfl | rfl⟩ := h
  · exact (hall ⟨n, hn⟩).1
  · exact (hall ⟨n, hn⟩).2

theorem WrittenUnit.exists_codeUnit? {n : Nat} {digits : List Char}
    (h : WrittenUnit n digits) :
    n < 0x10000 ∧ ∃ a b c d, digits = [a, b, c, d] ∧
      codeUnit? a b c d = some n := by
  cases h with
  | @digits a b c d ha hb hc hd =>
      have hlt := ha.1
      have hn : ((n / 4096 * 16 + n / 256 % 16) * 16 + n / 16 % 16) * 16 +
          n % 16 = n := by
        omega
      refine ⟨by omega, a, b, c, d, rfl, ?_⟩
      simp only [codeUnit?, ha.digit?, hb.digit?, hc.digit?, hd.digit?]
      exact congrArg some hn

theorem toNat_valid (c : Char) :
    c.toNat < 0xD800 ∨ 0xDFFF < c.toNat ∧ c.toNat < 0x110000 :=
  c.valid

/-- A character is not half of a pair. -/
theorem not_isSurrogate (c : Char) :
    isHighSurrogate c.toNat = false ∧ isLowSurrogate c.toNat = false := by
  have hvalid := toNat_valid c
  simp only [isHighSurrogate, isLowSurrogate, Bool.and_eq_false_iff,
    decide_eq_false_iff_not]
  omega

theorem combineSurrogates_eq (c : Char) (hc : 0x10000 ≤ c.toNat) :
    combineSurrogates (0xD800 + (c.toNat - 0x10000) / 0x400)
      (0xDC00 + (c.toNat - 0x10000) % 0x400) = c := by
  have hsum : 0x10000 +
      (0xD800 + (c.toNat - 0x10000) / 0x400 - 0xD800) * 0x400 +
      (0xDC00 + (c.toNat - 0x10000) % 0x400 - 0xDC00) = c.toNat := by
    omega
  rw [combineSurrogates, hsum, Char.ofNat_toNat]

/-- One written character is read, whatever comes after it. -/
theorem WrittenChar.quoted_append {c : Char} {written : List Char}
    (h : WrittenChar c written) (rest : List Char) :
    quoted (written ++ rest) =
      (quoted rest).map fun (s, after) => (c :: s, after) := by
  cases h with
  | plain hcontrol hquote hslash =>
      rw [List.singleton_append, quoted]
      · exact hquote
      · simp [hslash]
      · simp [hslash]
      · simp [hslash]
  | short hletter =>
      simp only [shortEscapes, List.mem_cons, Prod.mk.injEq, List.not_mem_nil,
        or_false] at hletter
      rcases hletter with h | h | h | h | h | h | h | h <;>
        obtain ⟨rfl, rfl⟩ := h <;> rfl
  | unit hdigits =>
      obtain ⟨-, x, y, z, w, rfl, hunit⟩ := hdigits.exists_codeUnit?
      obtain ⟨hhigh, hlow⟩ := not_isSurrogate c
      simp only [List.cons_append, List.nil_append, quoted, hunit, hhigh, hlow,
        Bool.false_eq_true, if_false, Char.ofNat_toNat]
  | pair hc hhigh hlow =>
      have hvalid := toNat_valid c
      obtain ⟨-, x, y, z, w, rfl, hunit⟩ := hhigh.exists_codeUnit?
      obtain ⟨-, x', y', z', w', rfl, hunit'⟩ := hlow.exists_codeUnit?
      have hishigh : isHighSurrogate
          (0xD800 + (c.toNat - 0x10000) / 0x400) = true := by
        simp only [isHighSurrogate, Bool.and_eq_true, decide_eq_true_eq]
        omega
      have hislow : isLowSurrogate
          (0xDC00 + (c.toNat - 0x10000) % 0x400) = true := by
        simp only [isLowSurrogate, Bool.and_eq_true, decide_eq_true_eq]
        omega
      simp only [List.cons_append, List.nil_append, quoted, hunit, hunit',
        hishigh, hislow, if_true, combineSurrogates_eq c hc]

/-- A written string is read up to its closing quote. -/
theorem WrittenText.quoted_append {chars written : List Char}
    (h : WrittenText chars written) (rest : List Char) :
    quoted (written ++ '"' :: rest) = some (chars, rest) := by
  induction h with
  | nil => rfl
  | cons hc _ ih =>
      rw [List.append_assoc, hc.quoted_append, ih]
      rfl

end MssClock.Hjson
