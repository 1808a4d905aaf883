import MssClock.Proofs.Text.Counted
import MssClock.Proofs.Text.Digits

/-!
# Which texts are words

A text is a number if what counts of it is a mark, which may be absent, then
perhaps a plus sign, and then at least one digit.  The numbers below the bound
of the words are what is read, and nothing else is.  Zeros, underscores, white
space and the case of the digits make no difference to the number.
-/

namespace MssClock

/-! ## Signs -/

/-- The text without the plus sign in front of it, unless that is all. -/
def dropSign (text : List Char) : List Char :=
  if text.head? = some '+' ∧ 1 < text.length then text.tail else text

theorem dropSign_ne_nil {text : List Char} (hne : text ≠ []) :
    dropSign text ≠ [] := by
  unfold dropSign
  split
  · rw [← List.length_pos_iff, List.length_tail]
    omega
  · exact hne

theorem eq_or_eq_cons_dropSign (text : List Char) :
    text = dropSign text ∨ text = '+' :: dropSign text := by
  unfold dropSign
  split
  · rename_i hsign
    exact .inr (List.cons_head?_tail hsign.1).symm
  · exact .inl rfl

theorem dropSign_of_isNumeral {radix : Radix} {text digits : List Char}
    {value : Nat} (htext : text = digits ∨ text = '+' :: digits)
    (hne : digits ≠ []) (hdigits : radix.IsNumeral digits value) :
    dropSign text = digits := by
  rcases htext with rfl | rfl
  · rw [dropSign, if_neg]
    rintro ⟨hhead, -⟩
    obtain ⟨n, hn⟩ := hdigits.exists_denotes (List.mem_of_mem_head? hhead)
    rw [← Radix.digit?_eq_some_iff] at hn
    cases radix <;> cases hn
  · rw [dropSign, if_pos, List.tail_cons]
    exact ⟨rfl, by simpa using List.length_pos_of_ne_nil hne⟩

theorem readUnsigned_eq_readDigits {text : List Char} (hne : text ≠ [])
    (radix : Radix) (bound : Nat) :
    readUnsigned radix bound text = readDigits radix bound 0 (dropSign text) := by
  unfold readUnsigned
  split
  · exact absurd rfl hne
  · rw [dropSign, if_pos (by simp), List.tail_cons]
  · rename_i hsign
    rw [dropSign, if_neg]
    rintro ⟨hhead, hlength⟩
    obtain ⟨rest, rfl⟩ := List.head?_eq_some_iff.mp hhead
    cases rest with
    | nil => simp at hlength
    | cons c rest => exact hsign c rest rfl

theorem readUnsigned_eq_ok_iff {radix : Radix} {bound : Nat} (hbound : 0 < bound)
    {text : List Char} {value : Nat} :
    readUnsigned radix bound text = .ok value ↔
      ∃ digits, (text = digits ∨ text = '+' :: digits) ∧ digits ≠ [] ∧
        radix.IsNumeral digits value ∧ value < bound := by
  constructor
  · intro h
    have hne : text ≠ [] := by
      rintro rfl
      cases h
    rw [readUnsigned_eq_readDigits hne, readDigits_eq_ok_iff hbound] at h
    exact ⟨dropSign text, eq_or_eq_cons_dropSign text, dropSign_ne_nil hne, h⟩
  · rintro ⟨digits, htext, hne, hdigits, hvalue⟩
    have hnonempty : text ≠ [] := by
      rcases htext with rfl | rfl
      · exact hne
      · exact List.cons_ne_nil _ _
    rw [readUnsigned_eq_readDigits hnonempty,
      dropSign_of_isNumeral htext hne hdigits]
    exact (readDigits_eq_ok_iff hbound).mpr ⟨hdigits, hvalue⟩

/-! ## Numbers -/

theorem readWord_of_marks {s : String} {counted rest : List Char} {radix : Radix}
    (hcounts : Counts s.toList counted) (hmarks : Marks counted radix rest) :
    readWord s =
      match readUnsigned radix UInt32.size rest with
      | .ok n => .ok (UInt32.ofNat n)
      | .error fault => .error ⟨String.ofList counted, fault⟩ := by
  have hsplit := marks_iff.mp hmarks
  cases hread : readUnsigned radix UInt32.size rest <;>
    simp only [readWord, readWordChars, hcounts.significant_eq, hsplit, hread]

inductive IsNumber : List Char → Nat → Prop
  | intro {text counted rest digits : List Char} {radix : Radix} {value : Nat}
      (hcounts : Counts text counted) (hmarks : Marks counted radix rest)
      (hsign : rest = digits ∨ rest = '+' :: digits) (hne : digits ≠ [])
      (hdigits : radix.IsNumeral digits value) : IsNumber text value

theorem IsNumber.readWord {s : String} {value : Nat}
    (h : IsNumber s.toList value) (hlt : value < UInt32.size) :
    readWord s = .ok (UInt32.ofNat value) := by
  generalize htext : s.toList = text at h
  cases h with
  | intro hcounts hmarks hsign hne hdigits =>
      have hnumber := (readUnsigned_eq_ok_iff (by decide : 0 < UInt32.size)).mpr
        ⟨_, hsign, hne, hdigits, hlt⟩
      rw [readWord_of_marks (htext ▸ hcounts) hmarks, hnumber]

theorem isNumber_of_readWord {s : String} {word : UInt32}
    (h : readWord s = .ok word) : IsNumber s.toList word.toNat := by
  obtain ⟨counted, radix, rest, hcounts, hmarks⟩ := exists_counts_marks s.toList
  rw [readWord_of_marks hcounts hmarks] at h
  cases hnumber : readUnsigned radix UInt32.size rest with
  | error fault =>
      rw [hnumber] at h
      cases h
  | ok n =>
      obtain ⟨digits, hsign, hne, hdigits, hlt⟩ :=
        (readUnsigned_eq_ok_iff (by decide)).mp hnumber
      rw [hnumber] at h
      cases h
      rw [UInt32.toNat_ofNat_of_lt' hlt]
      exact .intro hcounts hmarks hsign hne hdigits

theorem IsNumber.of_mem {text : List Char} {value : Nat} {c : Char}
    (h : IsNumber text value) (hc : c ∈ text) :
    c.toNat ∈ whiteSpace ∨ c ∈ ['_', '0', 'x', 'X', '+'] ∨
      ∃ radix : Radix, ∃ n, radix.Denotes c n := by
  cases h with
  | intro hcounts hmarks hsign hne hdigits =>
      have hmarkSubset : ['0', 'x', 'X'] ⊆ ['_', '0', 'x', 'X', '+'] := by
        decide
      rcases hcounts.of_mem hc with hwhite | hunderscore | hcounted
      · exact .inl hwhite
      · exact .inr (.inl (by simp [hunderscore]))
      rcases hmarks.of_mem hcounted with hmark | hrest
      · exact .inr (.inl (hmarkSubset hmark))
      rcases hsign with rfl | rfl
      · exact .inr (.inr ⟨_, hdigits.exists_denotes hrest⟩)
      · rcases List.mem_cons.mp hrest with hplus | hrest
        · exact .inr (.inl (by simp [hplus]))
        · exact .inr (.inr ⟨_, hdigits.exists_denotes hrest⟩)

/-! ## Written words -/

/-- The ways to write a word: in decimal or in hexadecimal, with digits in
either case, and with zeros in front, underscores and white space added. -/
inductive WrittenWord (word : UInt32) : List Char → Prop
  | decimal {left body right : List Char} (zeros : Nat)
      (hleft : ∀ c ∈ left, c.toNat ∈ whiteSpace)
      (hright : ∀ c ∈ right, c.toNat ∈ whiteSpace)
      (hbody : (body.filter fun c => c != '_') =
        List.replicate zeros '0' ++ Nat.toDigits 10 word.toNat) :
      WrittenWord word (left ++ body ++ right)
  | hexadecimal {left body right digits : List Char} {x : Char} (zeros : Nat)
      (hleft : ∀ c ∈ left, c.toNat ∈ whiteSpace)
      (hright : ∀ c ∈ right, c.toNat ∈ whiteSpace)
      (hx : x = 'x' ∨ x = 'X')
      (hdigits : digits.map Char.toLower = Nat.toDigits 16 word.toNat)
      (hbody : (body.filter fun c => c != '_') =
        '0' :: x :: (List.replicate zeros '0' ++ digits)) :
      WrittenWord word (left ++ body ++ right)

theorem WrittenWord.isNumber {word : UInt32} {text : List Char}
    (h : WrittenWord word text) : IsNumber text word.toNat := by
  cases h with
  | decimal zeros hleft hright hbody =>
      have hdigits : Radix.decimal.IsNumeral
          (List.replicate zeros '0' ++ Nat.toDigits 10 word.toNat) word.toNat :=
        (Radix.decimal.isNumeral_toDigits word.toNat).replicate_append zeros
      have hcounts := counts_of_filter_eq hleft hright hbody
        fun c hc => hdigits.isBlank_of_mem hc
      refine .intro hcounts (.decimal fun x rest heq => ?_) (.inl rfl) ?_ hdigits
      · -- The mark is no decimal digit.
        obtain ⟨n, hn⟩ := hdigits.exists_denotes (c := x) (by simp [heq])
        rw [← Radix.digit?_eq_some_iff] at hn
        constructor <;> rintro rfl <;> cases hn
      · simp [Nat.toDigits_ne_nil]
  | @hexadecimal left body right digits x zeros hleft hright hx hlower hbody =>
      have hdigits : Radix.hexadecimal.IsNumeral
          (List.replicate zeros '0' ++ digits) word.toNat := by
        apply Radix.IsNumeral.replicate_append
        apply Radix.IsNumeral.of_toLower
        exact hlower ▸ Radix.hexadecimal.isNumeral_toDigits word.toNat
      have hne : digits ≠ [] := by
        rintro rfl
        exact Nat.toDigits_ne_nil hlower.symm
      have hcounts := counts_of_filter_eq hleft hright hbody <| by
        intro c hc
        simp only [List.mem_cons] at hc
        rcases hc with rfl | rfl | hc
        · decide
        · rcases hx with rfl | rfl <;> decide
        · exact hdigits.isBlank_of_mem hc
      exact .intro hcounts (.hexadecimal hx) (.inl rfl) (by simp [hne]) hdigits

/-- What is read is the numbers below the bound of the words, each as itself,
and among them is every way to write a word. -/
theorem readWord_language (s : String) :
    (∀ value : Nat,
      (∃ word : UInt32, readWord s = .ok word ∧ word.toNat = value) ↔
        IsNumber s.toList value ∧ value < UInt32.size) ∧
    ∀ word : UInt32, WrittenWord word s.toList → readWord s = .ok word := by
  refine ⟨fun value => ⟨?_, ?_⟩, fun word hword => ?_⟩
  · rintro ⟨word, hread, rfl⟩
    exact ⟨isNumber_of_readWord hread, word.toNat_lt⟩
  · rintro ⟨hnumber, hlt⟩
    exact ⟨_, hnumber.readWord hlt, UInt32.toNat_ofNat_of_lt' hlt⟩
  · rw [hword.isNumber.readWord word.toNat_lt, UInt32.ofNat_toNat]

theorem readWord_language_splitMark :
    let s := "\u2003 0_X00_fF__\t"
    WrittenWord 255 s.toList ∧ readWord s = .ok 255 := by
  intro s
  have hs : s.toList = ['\u2003', ' '] ++ "0_X00_fF__".toList ++ ['\t'] := by
    decide +kernel
  have hdigits : ['f', 'F'].map Char.toLower = Nat.toDigits 16 255 := by
    decide +kernel
  have hword : WrittenWord 255 s.toList := by
    rw [hs]
    exact .hexadecimal 2 (by simp [whiteSpace]) (by simp [whiteSpace]) (.inr rfl)
      hdigits (by decide +kernel)
  exact ⟨hword, (readWord_language s).2 255 hword⟩

end MssClock
