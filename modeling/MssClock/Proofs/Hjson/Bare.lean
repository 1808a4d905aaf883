import MssClock.Hjson.Value
import MssClock.Proofs.Hjson.Gap
import MssClock.Proofs.Hjson.Quoted
import MssClock.Proofs.Text.Numeral

/-!
# Values without quotes

A number in decimal ends before the next mark, with blanks in between if there
are any.  A hexadecimal text is no number, because a letter follows its zero, so
it goes on to the end of its line.  Which of the two it is shows only where the
value ends, not where it starts.
-/

namespace MssClock.Hjson

/-! ## Collecting characters -/

/-- A character that is collected wherever it stands. -/
def isPlain (c : Char) : Bool :=
  !endsLine c && !([',', '}', ']', '#', '/', apostrophe].contains c)

variable {source text rest pad : List Char}

theorem bare_append (htext : ∀ c ∈ text, isPlain c = true)
    (collected : List Char) :
    bare source collected (text ++ rest) =
      bare source (text.reverse ++ collected) rest := by
  induction text generalizing collected with
  | nil => rfl
  | cons c text ih =>
      have hc : isPlain c = true := htext c List.mem_cons_self
      simp only [isPlain, Bool.and_eq_true, Bool.not_eq_true',
        List.contains_eq_mem, decide_eq_false_iff_not, List.mem_cons,
        List.not_mem_nil, or_false, not_or] at hc
      obtain ⟨hline, hcomma, hbrace, hbracket, hnumber, hslash, hquote⟩ := hc
      have hliteral : endsLiteral (c :: (text ++ rest)) = false := by
        rw [endsLiteral]
        · simp [hline, hcomma, hbrace, hbracket, hnumber]
        · simp [hslash]
        · simp [hslash]
      have hmarks : c :: collected ≠ List.replicate 3 apostrophe := by
        intro heq
        injection heq with hhead
        exact hquote hhead
      rw [List.cons_append, bare]
      simp only [hliteral, Bool.false_eq_true, if_false, hline, hmarks]
      rw [ih fun d hd => htext d (List.mem_cons_of_mem c hd)]
      simp

/-- A literal ends before a mark, which stays. -/
theorem bare_of_literal {collected : List Char} {c : Char} {literal : Literal}
    (hmark : endsLiteral (c :: rest) = true)
    (hliteral : literal? collected.reverse = some literal) :
    bare source collected (c :: rest) = some (.ofLiteral literal, c :: rest) := by
  rw [bare]
  simp only [hmark, if_true, hliteral]

/-- A text ends with its line. -/
theorem bare_of_endsLine {collected : List Char} {c : Char}
    (hline : endsLine c = true)
    (hliteral : literal? collected.reverse = none) :
    bare source collected (c :: rest) =
      some (.text (trim collected.reverse), rest) := by
  rw [bare]
  simp only [hliteral, hline, if_true, ite_self]

/-- Spaces and tabs, which end neither a number nor a text. -/
def IsPad (pad : List Char) : Prop :=
  ∀ c ∈ pad, c = ' ' ∨ c = '\t'

theorem IsPad.isGap (hpad : IsPad pad) : IsGap pad := by
  apply isGap_of_subset
  intro c hc
  rcases hpad c hc with rfl | rfl <;> decide

theorem IsPad.isPlain (hpad : IsPad pad) : ∀ c ∈ pad, isPlain c = true := by
  intro c hc
  rcases hpad c hc with rfl | rfl <;> decide

/-! ## Numbers -/

/-- What may follow a number: a mark, after spaces and tabs. -/
inductive EndsNumber : List Char → Prop
  | mark {pad rest : List Char} {c : Char} (hpad : IsPad pad)
      (hmark : endsLiteral (c :: rest) = true) : EndsNumber (pad ++ c :: rest)

theorem endsNumber_of_mark {c : Char} (hmark : endsLiteral (c :: rest) = true) :
    EndsNumber (c :: rest) := by
  have hpad : IsPad [] := by simp [IsPad]
  exact .mark hpad hmark

theorem EndsNumber.cons {c : Char} {follow : List Char} (hc : c = ' ' ∨ c = '\t')
    (h : EndsNumber follow) : EndsNumber (c :: follow) := by
  obtain @⟨pad, rest, mark, hpad, hmark⟩ := h
  have hcons : IsPad (c :: pad) := List.forall_mem_cons.mpr ⟨hc, hpad⟩
  exact .mark hcons hmark

/-- The first character of a gap that is neither a space nor a tab is a mark. -/
theorem IsGap.endsNumber {gap : List Char} (hgap : IsGap gap)
    (h : EndsNumber rest ∨ ¬ IsPad gap) : EndsNumber (gap ++ rest) := by
  induction hgap with
  | nil =>
      refine h.resolve_right fun hpad => hpad ?_
      simp [IsPad]
  | @blank c gap hc _ ih =>
      by_cases hpad : c = ' ' ∨ c = '\t'
      · refine .cons hpad (ih (h.imp_right fun hnot hgap => hnot ?_))
        exact List.forall_mem_cons.mpr ⟨hpad, hgap⟩
      · simp only [blanks, List.mem_cons, List.not_mem_nil, or_false] at hc
        rcases hc with rfl | rfl | rfl | rfl
        · exact absurd (.inl rfl) hpad
        · exact absurd (.inr rfl) hpad
        · exact endsNumber_of_mark rfl
        · exact endsNumber_of_mark rfl
  | number => exact endsNumber_of_mark rfl
  | slashes => exact endsNumber_of_mark rfl
  | block => exact endsNumber_of_mark rfl

theorem isPlain_of_isAlphanum {c : Char} (hc : c.isAlphanum = true) :
    isPlain c = true := by
  simp only [isPlain, endsLine, Bool.and_eq_true, Bool.not_eq_true',
    Bool.or_eq_false_iff, beq_eq_false_iff_ne, List.contains_eq_mem,
    decide_eq_false_iff_not, List.mem_cons, List.not_mem_nil, or_false, not_or]
  refine ⟨⟨⟨?_, ?_⟩, ?_⟩, ?_, ?_, ?_, ?_, ?_, ?_⟩ <;>
    rintro rfl <;> exact absurd hc (by decide)

theorem isDigit_of_mem_toDigits {n : Nat} {c : Char}
    (hc : c ∈ Nat.toDigits 10 n) : isDigit c = true := by
  have hdigit := Nat.isDigit_of_mem_toDigits (by decide) (by decide) hc
  simpa [isDigit, Char.isDigit, Char.le_def] using hdigit

theorem toDigits_eq_cons (n : Nat) :
    ∃ c more, Nat.toDigits 10 n = c :: more ∧ isDigit c = true := by
  obtain ⟨c, more, heq⟩ := List.exists_cons_of_ne_nil
    (Nat.toDigits_ne_nil (b := 10) (n := n))
  exact ⟨c, more, heq, isDigit_of_mem_toDigits (heq ▸ List.mem_cons_self)⟩

/-- A decimal number is printed without leading zeros. -/
theorem toDigits_eq_cons_of_pos {n : Nat} (hn : 0 < n) :
    ∃ c more, Nat.toDigits 10 n = c :: more ∧ c ≠ '0' := by
  induction n using Nat.strongRecOn with
  | ind n ih =>
      by_cases hsmall : n < 10
      · have hall : ∀ n : Fin 10, 0 < n.val → Nat.digitChar n ≠ '0' := by
          decide
        rw [Nat.toDigits_of_lt_base hsmall]
        exact ⟨_, [], rfl, hall ⟨n, hsmall⟩ hn⟩
      · obtain ⟨c, more, heq, hc⟩ := ih (n / 10) (by omega) (by omega)
        rw [Nat.toDigits_of_base_le (by decide) (by omega), heq]
        exact ⟨c, _, rfl, hc⟩

theorem properDigits_toDigits (n : Nat) :
    properDigits (Nat.toDigits 10 n) = true := by
  rcases Nat.eq_zero_or_pos n with rfl | hn
  · rfl
  · obtain ⟨c, more, heq, hc⟩ := toDigits_eq_cons_of_pos hn
    rw [heq]
    unfold properDigits
    split
    · contradiction
    · rfl
    · rename_i h
      injection h with h
      exact absurd h hc
    · rfl

/-- A pad goes on with no part of a number. -/
theorem IsPad.not_number (hpad : IsPad pad) :
    splitDigits pad = ([], pad) ∧ dropFraction? pad = some (false, pad) ∧
      dropExponent? pad = some (false, pad) := by
  cases pad with
  | nil => exact ⟨rfl, rfl, rfl⟩
  | cons c pad =>
      rcases hpad c List.mem_cons_self with rfl | rfl <;> exact ⟨rfl, rfl, rfl⟩

theorem splitDigits_append (htext : ∀ c ∈ text, isDigit c = true) :
    splitDigits (text ++ rest) =
      (text ++ (splitDigits rest).1, (splitDigits rest).2) := by
  rw [splitDigits, List.takeWhile_append_of_pos htext,
    List.dropWhile_append_of_pos htext, splitDigits]

theorem literal?_of_isDigit {c : Char} (hc : isDigit c = true) :
    literal? (c :: text) = unsignedNumber? false (c :: text) := by
  have hkeyword : keyword? (c :: text) = none := by
    unfold keyword?
    split <;> first | rfl | (rename_i h; injection h with h; subst h; cases hc)
  simp only [literal?, hkeyword]
  unfold number?
  split
  · rename_i h
    injection h with h
    subst h
    cases hc
  · rfl

theorem literal?_toDigits (n : UInt64) (hpad : IsPad pad) :
    literal? (Nat.toDigits 10 n.toNat ++ pad) = some (.natural n) := by
  obtain ⟨hsplit, hpoint, hexponent⟩ := hpad.not_number
  have hdigits : splitDigits (Nat.toDigits 10 n.toNat ++ pad) =
      (Nat.toDigits 10 n.toNat, pad) := by
    rw [splitDigits_append fun _ => isDigit_of_mem_toDigits, hsplit,
      List.append_nil]
  have hblank : (pad.all fun c => c == ' ' || c == '\t') = true := by
    simpa [IsPad] using hpad
  have hinteger : integer? false (Nat.toDigits 10 n.toNat) =
      some (.natural n) := by
    simp only [integer?, Bool.false_eq_true, if_false, readDigits_toDigits,
      if_pos n.toNat_lt, UInt64.ofNat_toNat]
  have hliteral : literal? (Nat.toDigits 10 n.toNat ++ pad) =
      unsignedNumber? false (Nat.toDigits 10 n.toNat ++ pad) := by
    obtain ⟨c, more, heq, hc⟩ := toDigits_eq_cons n.toNat
    rw [heq]
    exact literal?_of_isDigit hc
  have hproper : guard (properDigits (Nat.toDigits 10 n.toNat)) = some () := by
    rw [properDigits_toDigits]
    rfl
  have hrest : guard (pad.all fun c => c == ' ' || c == '\t') = some () := by
    rw [hblank]
    rfl
  rw [hliteral, unsignedNumber?, hdigits]
  refine Option.bind_eq_some_iff.mpr ⟨(), hproper, ?_⟩
  refine Option.bind_eq_some_iff.mpr ⟨(false, pad), hpoint, ?_⟩
  refine Option.bind_eq_some_iff.mpr ⟨(false, pad), hexponent, ?_⟩
  exact Option.bind_eq_some_iff.mpr ⟨(), hrest, hinteger⟩

/-- A value without quotes starts with anything that nothing else starts with. -/
theorem value_bare {fuel : Nat} {register : Bool} {c : Char}
    (hskip : skip text = c :: rest)
    (hc : c ∉ ['n', '"', '[', '\x7b']) (hstart : startsNoValue c = false) :
    value source (fuel + 1) register text = bare source [] (c :: rest) := by
  simp only [List.mem_cons, List.not_mem_nil, or_false, not_or] at hc
  obtain ⟨hnull, hquote, hlist, hobject⟩ := hc
  unfold value
  cases register <;> simp [hskip, hnull, hstart]

theorem value_of_isDigit {fuel : Nat} {register : Bool} {gap : List Char}
    {c : Char} (hgap : IsGap gap) (hc : isDigit c = true) :
    value source (fuel + 1) register (gap ++ c :: rest) =
      bare source [] (c :: rest) := by
  have hne : ∀ d, isDigit d = false → c ≠ d := by
    rintro d hd rfl
    rw [hc] at hd
    cases hd
  have htoken : startsToken c := by
    refine ⟨?_, hne _ rfl, hne _ rfl⟩
    simp [blanks, hne ' ' rfl, hne '\t' rfl, hne '\r' rfl, hne '\n' rfl]
  apply value_bare
  · rw [hgap.skip_append, skip_of_startsToken htoken]
  · simp [hne 'n' rfl, hne '"' rfl, hne '[' rfl, hne '\x7b' rfl]
  · simp [startsNoValue, hne '}' rfl, hne ']' rfl, hne ',' rfl, hne ':' rfl,
      hne '\x00' rfl]

theorem value_number {fuel : Nat} {register : Bool} {gap follow : List Char}
    (n : UInt64) (hgap : IsGap gap) (hfollow : EndsNumber follow) :
    ∃ after, skip after = skip follow ∧
      value source (fuel + 1) register
        (gap ++ (Nat.toDigits 10 n.toNat ++ follow)) =
          some (.register (.number n), after) := by
  obtain @⟨pad, rest, mark, hpad, hmark⟩ := hfollow
  have hplain : ∀ c ∈ Nat.toDigits 10 n.toNat ++ pad, isPlain c = true := by
    intro c hc
    rcases List.mem_append.mp hc with hc | hc
    · exact isPlain_of_isAlphanum (isAlphanum_of_mem_toDigits hc)
    · exact hpad.isPlain c hc
  have hstart : value source (fuel + 1) register
      (gap ++ (Nat.toDigits 10 n.toNat ++ (pad ++ mark :: rest))) =
        bare source [] (Nat.toDigits 10 n.toNat ++ pad ++ mark :: rest) := by
    obtain ⟨c, more, heq, hc⟩ := toDigits_eq_cons n.toNat
    rw [List.append_assoc, heq]
    exact value_of_isDigit hgap hc
  have hliteral : literal? (((Nat.toDigits 10 n.toNat ++ pad).reverse ++
      []).reverse) = some (.natural n) := by
    rw [List.append_nil, List.reverse_reverse]
    exact literal?_toDigits n hpad
  refine ⟨mark :: rest, (hpad.isGap.skip_append _).symm, ?_⟩
  rw [hstart, bare_append hplain, bare_of_literal hmark hliteral, Item.ofLiteral]

/-! ## Hexadecimal texts -/

/-- What may follow a text: the end of its line, after spaces and tabs. -/
inductive EndsText : List Char → Prop
  | text {pad : List Char} (hpad : IsPad pad) : EndsText pad
  | line {pad rest : List Char} {c : Char} (hpad : IsPad pad)
      (hline : c = '\r' ∨ c = '\n') : EndsText (pad ++ c :: rest)

/-- The texts that are written without quotes. -/
inductive IsHexText : List Char → Prop
  | marked {mark : Char} {digits : List Char} (hmark : mark = 'x' ∨ mark = 'X')
      (hne : digits ≠ [])
      (hdigits : ∀ c ∈ digits, c = '_' ∨ ∃ n, IsHexDigit n c) :
      IsHexText ('0' :: mark :: digits)

theorem IsHexDigit.isAlphanum {n : Nat} {c : Char} (h : IsHexDigit n c) :
    c.isAlphanum = true := by
  have hall : ∀ n : Fin 16, (Nat.digitChar n).isAlphanum = true ∧
      (Nat.digitChar n).toUpper.isAlphanum = true := by
    decide
  obtain ⟨hn, rfl | rfl⟩ := h
  · exact (hall ⟨n, hn⟩).1
  · exact (hall ⟨n, hn⟩).2

variable (htext : IsHexText text)

include htext

theorem IsHexText.isAlphanum_or_eq : ∀ c ∈ text, c.isAlphanum = true ∨ c = '_' := by
  obtain @⟨mark, digits, hmark, -, hdigits⟩ := htext
  intro c hc
  rw [List.mem_cons, List.mem_cons] at hc
  rcases hc with rfl | rfl | hc
  · exact .inl rfl
  · rcases hmark with rfl | rfl <;> exact .inl rfl
  · rcases hdigits c hc with rfl | ⟨n, hn⟩
    · exact .inr rfl
    · exact .inl hn.isAlphanum

theorem IsHexText.isPlain : ∀ c ∈ text, isPlain c = true := by
  intro c hc
  rcases htext.isAlphanum_or_eq c hc with hc | rfl
  · exact isPlain_of_isAlphanum hc
  · rfl

theorem IsHexText.isBlank : ∀ c ∈ text, isBlank c = false := by
  intro c hc
  rcases htext.isAlphanum_or_eq c hc with hc | rfl
  · exact isBlank_of_isAlphanum hc
  · rfl

/-- A letter after the zero makes it no number. -/
theorem IsHexText.literal? (rest : List Char) : literal? (text ++ rest) = none := by
  obtain ⟨hmark, -, -⟩ := htext
  rcases hmark with rfl | rfl <;> rfl

theorem IsHexText.trim_append (hpad : IsPad pad) : trim (text ++ pad) = text := by
  have hfront : (text ++ pad).dropWhile MssClock.isBlank = text ++ pad := by
    obtain ⟨-, -, -⟩ := htext
    rfl
  have hback : text.dropWhile MssClock.isBlank = text := by
    obtain ⟨-, -, -⟩ := htext
    rfl
  have hblank : ∀ c ∈ pad.reverse, MssClock.isBlank c = true := by
    intro c hc
    rcases hpad c (List.mem_reverse.mp hc) with rfl | rfl <;> rfl
  calc
    trim (text ++ pad) = dropEndWhile MssClock.isBlank (text ++ pad) := by
      rw [trim, hfront]
    _ = dropEndWhile MssClock.isBlank text := by
      rw [dropEndWhile, List.reverse_append, List.dropWhile_append_of_pos hblank,
        dropEndWhile]
    _ = trim text := by
      rw [trim, hback]
    _ = text := trim_eq_self htext.isBlank

theorem value_hexText {fuel : Nat} {register : Bool} {gap follow : List Char}
    (hgap : IsGap gap) (hfollow : EndsText follow) :
    ∃ after, skip after = skip follow ∧
      value source (fuel + 1) register (gap ++ (text ++ follow)) =
        some (.text text, after) := by
  have hstart : ∀ rest, value source (fuel + 1) register
      (gap ++ (text ++ rest)) = bare source [] (text ++ rest) := by
    obtain ⟨-, -, -⟩ := htext
    exact fun rest => value_of_isDigit hgap rfl
  have hplain : ∀ pad, IsPad pad → ∀ c ∈ text ++ pad, Hjson.isPlain c = true := by
    intro pad hpad c hc
    rcases List.mem_append.mp hc with hc | hc
    · exact htext.isPlain c hc
    · exact hpad.isPlain c hc
  -- What has been collected is no literal, so only the end of the line ends it.
  cases hfollow with
  | text hpad =>
      refine ⟨[], ?_, ?_⟩
      · rw [← List.append_nil follow, hpad.isGap.skip_append]
      · have hall : bare source [] (text ++ follow ++ []) =
            bare source ((text ++ follow).reverse ++ []) [] :=
          bare_append (hplain _ hpad) []
        rw [List.append_nil, List.append_nil] at hall
        rw [hstart, hall, bare]
        simp only [List.reverse_reverse, htext.literal?, htext.trim_append hpad]
  | @line pad rest c hpad hline =>
      have hend : endsLine c = true := by
        rcases hline with rfl | rfl <;> rfl
      have hblank : c ∈ blanks := by
        rcases hline with rfl | rfl <;> decide
      refine ⟨rest, ?_, ?_⟩
      · rw [hpad.isGap.skip_append]
        exact ((IsGap.blank hblank .nil).skip_append rest).symm
      · rw [hstart, ← List.append_assoc, bare_append (hplain _ hpad),
          bare_of_endsLine hend]
        all_goals rw [List.append_nil, List.reverse_reverse]
        · rw [htext.trim_append hpad]
        · exact htext.literal? pad

end MssClock.Hjson
