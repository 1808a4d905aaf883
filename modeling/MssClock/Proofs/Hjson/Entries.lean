import MssClock.Dump
import MssClock.Proofs.Hjson.Bare

/-!
# Written entries

An entry is a key, a colon and a value.  How the value is written decides what
may come next: a quoted string ends by itself, a number with the next mark, and a
text without quotes with its line.  Reading one entry leaves what follows it, up
to the gap that comes first; reading several is reading the first and going on.
-/

namespace MssClock.Hjson

/-! ## Where an entry starts -/

/-- The text starts with what is neither a gap nor a mark of the format. -/
def StartsEntry (text : List Char) : Prop :=
  ∃ c rest, text = c :: rest ∧ startsToken c ∧ c ∉ [',', '[', '\x7b', '}']

section StartsEntry

variable {text : List Char} (h : StartsEntry text)

include h

theorem StartsEntry.append (more : List Char) : StartsEntry (text ++ more) := by
  obtain ⟨c, rest, rfl, hc⟩ := h
  exact ⟨c, rest ++ more, rfl, hc⟩

theorem StartsEntry.length_pos : 0 < text.length := by
  obtain ⟨c, rest, rfl, -⟩ := h
  exact Nat.succ_pos _

theorem StartsEntry.skip : skip text = text := by
  obtain ⟨c, rest, rfl, htoken, -⟩ := h
  exact skip_of_startsToken htoken rest

theorem StartsEntry.ne_cons {c : Char} (hc : c ∈ [',', '[', '\x7b', '}'])
    (rest : List Char) : text ≠ c :: rest := by
  obtain ⟨d, more, rfl, -, hd⟩ := h
  rintro heq
  injection heq with heq
  exact hd (heq ▸ hc)

end StartsEntry

/-! ## Keys -/

/-- Only the keys of the settings are also written without quotes. -/
inductive WrittenKey : String → List Char → Prop
  | bare (s : Setting) : WrittenKey s.key s.key.toList
  | quoted {name : String} {written : List Char}
      (hname : WrittenText name.toList written) :
      WrittenKey name ('"' :: (written ++ ['"']))

theorem isKeyChar_of_blank {c : Char} (hc : c ∈ blanks) :
    isKeyChar c = false ∧ isKeyBlank c = true := by
  simp only [blanks, List.mem_cons, List.not_mem_nil, or_false] at hc
  rcases hc with rfl | rfl | rfl | rfl <;> exact ⟨rfl, rfl⟩

variable {source pad gap text follow : List Char}

theorem key_bare (s : Setting) (hpad : pad ⊆ blanks)
    (rest : List Char) :
    key (s.key.toList ++ (pad ++ ':' :: rest)) =
      some (s.key.toList, ':' :: rest) := by
  have hchars : ∀ c ∈ s.key.toList, isKeyChar c = true := by
    rw [← List.all_eq_true]
    cases s <;> decide
  have hstop : (pad ++ ':' :: rest).takeWhile isKeyChar = [] ∧
      (pad ++ ':' :: rest).dropWhile isKeyChar = pad ++ ':' :: rest := by
    cases pad with
    | nil => exact ⟨rfl, rfl⟩
    | cons c pad =>
        have hc := (isKeyChar_of_blank (hpad List.mem_cons_self)).1
        simp [hc]
  have htake : (s.key.toList ++ (pad ++ ':' :: rest)).takeWhile isKeyChar =
      s.key.toList := by
    rw [List.takeWhile_append_of_pos hchars, hstop.1, List.append_nil]
  have hdrop : ((s.key.toList ++ (pad ++ ':' :: rest)).dropWhile
      isKeyChar).dropWhile isKeyBlank = ':' :: rest := by
    rw [List.dropWhile_append_of_pos hchars, hstop.2,
      List.dropWhile_append_of_pos fun _ hc => (isKeyChar_of_blank (hpad hc)).2]
    rfl
  obtain ⟨c, chars, hkey, hquote⟩ :
      ∃ c chars, s.key.toList = c :: chars ∧ c ≠ '"' := by
    cases s <;> exact ⟨_, _, rfl, by decide⟩
  rw [hkey, List.cons_append] at htake hdrop ⊢
  rw [key]
  · rw [htake, hdrop]
    rfl
  · simp [hquote]

theorem colon_append (hgap : IsGap gap) (rest : List Char) :
    colon (gap ++ ':' :: rest) = some rest := by
  have htoken : startsToken ':' := by decide
  rw [colon, hgap.skip_append, skip_of_startsToken htoken]
  rfl

theorem WrittenKey.key {name : String} (h : WrittenKey name text)
    (hpad : pad ⊆ blanks) (rest : List Char) :
    ∃ after, key (text ++ (pad ++ ':' :: rest)) = some (name.toList, after) ∧
      colon after = some rest := by
  cases h with
  | bare s => exact ⟨':' :: rest, key_bare s hpad rest, colon_append .nil rest⟩
  | @quoted _ written hname =>
      refine ⟨pad ++ ':' :: rest, ?_, colon_append (isGap_of_subset hpad) rest⟩
      have happend : '"' :: (written ++ ['"']) ++ (pad ++ ':' :: rest) =
          '"' :: (written ++ '"' :: (pad ++ ':' :: rest)) := by
        simp
      rw [happend]
      exact hname.quoted_append _

theorem WrittenKey.startsEntry {name : String} (h : WrittenKey name text) :
    StartsEntry text := by
  cases h with
  | bare s => cases s <;> exact ⟨_, _, rfl, by decide, by decide⟩
  | quoted hname => exact ⟨_, _, rfl, by decide, by decide⟩

/-! ## Values -/

/-- How a value is written. -/
inductive Form where
  | number
  | quoted
  | text
  deriving DecidableEq

/-- What may come right after a value. -/
def Form.Ends : Form → List Char → Prop
  | .number, follow => EndsNumber follow
  | .quoted, _ => True
  | .text, follow => EndsText follow

inductive WrittenValue : RegisterValue → Form → List Char → Prop
  | number (n : UInt64) :
      WrittenValue (.number n) .number (Nat.toDigits 10 n.toNat)
  | quoted {s : String} {written : List Char}
      (hs : WrittenText s.toList written) :
      WrittenValue (.text s) .quoted ('"' :: (written ++ ['"']))
  | text {s : String} (hs : IsHexText s.toList) :
      WrittenValue (.text s) .text s.toList

theorem value_quoted {chars : List Char} {fuel : Nat} {register : Bool}
    (htext : WrittenText chars text) (hgap : IsGap gap) :
    value source (fuel + 1) register
      (gap ++ ('"' :: (text ++ ['"']) ++ follow)) = some (.text chars, follow) := by
  have htoken : startsToken '"' := by decide
  have hskip : skip (gap ++ ('"' :: (text ++ ['"']) ++ follow)) =
      '"' :: (text ++ '"' :: follow) := by
    rw [hgap.skip_append, List.cons_append, List.append_assoc,
      skip_of_startsToken htoken]
    rfl
  unfold value
  cases register <;> simp only [hskip, htext.quoted_append, Option.map_some]

theorem WrittenValue.value {v : RegisterValue} {form : Form} {fuel : Nat}
    {register : Bool} (h : WrittenValue v form text) (hgap : IsGap gap)
    (hfollow : form.Ends follow) :
    ∃ after, skip after = skip follow ∧
      value source (fuel + 1) register (gap ++ (text ++ follow)) =
        some (.register v, after) := by
  cases h with
  | number n => exact value_number n hgap hfollow
  | quoted hs =>
      refine ⟨follow, rfl, (value_quoted hs hgap).trans ?_⟩
      rw [Item.text, String.ofList_toList]
  | @text s hs =>
      obtain ⟨after, hafter, hvalue⟩ := value_hexText hs hgap hfollow
      refine ⟨after, hafter, hvalue.trans ?_⟩
      rw [Item.text, String.ofList_toList]

/-! ## Entries -/

inductive WrittenEntry : String × RegisterValue → Form → List Char → Prop
  | entry {name : String} {v : RegisterValue} {form : Form}
      {key pad gap text : List Char} (hkey : WrittenKey name key)
      (hpad : pad ⊆ blanks) (hgap : IsGap gap)
      (hvalue : WrittenValue v form text) :
      WrittenEntry (name, v) form (key ++ (pad ++ ':' :: (gap ++ text)))

variable {entry : String × RegisterValue} {form : Form}

theorem WrittenEntry.startsEntry (h : WrittenEntry entry form text) :
    StartsEntry text := by
  obtain ⟨hkey, -, -, -⟩ := h
  exact hkey.startsEntry.append _

def toItem (entry : String × RegisterValue) : String × Item :=
  (entry.1, .register entry.2)

variable {fuel : Nat} {known : String → Bool} {braced first : Bool}
  {input : List Char}

/-- One step: an entry is read, and reading goes on after it. -/
theorem WrittenEntry.entries (h : WrittenEntry entry form text)
    (hfollow : form.Ends follow)
    (hinput : separator first input = text ++ follow) :
    ∃ after, skip after = skip follow ∧
      entries source (fuel + 2) known braced first input =
        (entries source (fuel + 1) known braced false after).map
          fun (items, rest) => (toItem entry :: items, rest) := by
  have hentry := h.startsEntry.append follow
  obtain @⟨name, v, _, key, pad, gap, value, hkey, hpad, hgap, hvalue⟩ := h
  obtain ⟨after, hafter, hread⟩ : ∃ after, skip after = skip follow ∧
      Hjson.value source (fuel + 1) (known name) (gap ++ (value ++ follow)) =
        some (.register v, after) :=
    hvalue.value hgap hfollow
  obtain ⟨rest, hname, hcolon⟩ := hkey.key hpad (gap ++ (value ++ follow))
  refine ⟨after, hafter, ?_⟩
  have hstart : separator first input =
      key ++ (pad ++ ':' :: (gap ++ (value ++ follow))) := by
    rw [hinput]
    simp only [List.append_assoc, List.cons_append]
  -- Neither the end of the text nor the closing brace has been reached.
  have hclosing : ∀ rest, separator first input ≠ '}' :: rest := by
    rw [hinput]
    exact hentry.ne_cons (by decide)
  have hend : separator first input ≠ [] := by
    rw [hinput]
    exact List.ne_nil_of_length_pos hentry.length_pos
  rw [Hjson.entries]
  · rw [hstart, hname]
    simp only [Option.bind_eq_bind, Option.bind_some, hcolon,
      String.ofList_toList, hread]
    cases Hjson.entries source (fuel + 1) known braced false after <;> rfl
  · exact fun rest _ => hclosing rest
  · exact fun _ => hend

/-! ## Several entries -/

/-- A gap that ends the value before it. -/
inductive IsBreak : Form → List Char → Prop
  | number {gap : List Char} (hgap : IsGap gap) (hmark : ¬ IsPad gap) :
      IsBreak .number gap
  | quoted {gap : List Char} (hgap : IsGap gap) : IsBreak .quoted gap
  | text {pad gap : List Char} {c : Char} (hpad : IsPad pad)
      (hline : c = '\r' ∨ c = '\n') (hgap : IsGap gap) :
      IsBreak .text (pad ++ c :: gap)

theorem IsBreak.ends (h : IsBreak form gap) (rest : List Char) :
    form.Ends (gap ++ rest) := by
  cases h with
  | number hgap hmark => exact hgap.endsNumber (.inr hmark)
  | quoted => trivial
  | text hpad hline =>
      rw [List.append_assoc]
      exact EndsText.line hpad hline

theorem IsBreak.isGap (h : IsBreak form gap) : IsGap gap := by
  cases h with
  | number hgap => exact hgap
  | quoted hgap => exact hgap
  | text hpad hline hgap =>
      refine hpad.isGap.append (.blank ?_ hgap)
      rcases hline with rfl | rfl <;> decide

theorem IsBreak.append {more : List Char} (h : IsBreak form gap)
    (hmore : IsGap more) : IsBreak form (gap ++ more) := by
  cases h with
  | number hgap hmark =>
      refine .number (hgap.append hmore) fun hpad => hmark ?_
      exact fun c hc => hpad c (List.mem_append_left more hc)
  | quoted hgap => exact .quoted (hgap.append hmore)
  | text hpad hline hgap =>
      rw [List.append_assoc]
      exact .text hpad hline (hgap.append hmore)

/-- What stands between two entries.  No comma ends a text. -/
inductive IsSeparator (form : Form) : List Char → Prop
  | gap {gap : List Char} (hbreak : IsBreak form gap) : IsSeparator form gap
  | comma {gap more : List Char} (hform : form ≠ .text) (hgap : IsGap gap)
      (hmore : IsGap more) : IsSeparator form (gap ++ ',' :: more)

theorem ends_of_mark {c : Char} (hform : form ≠ .text) (hgap : IsGap gap)
    (hc : endsLiteral (c :: follow) = true) : form.Ends (gap ++ c :: follow) := by
  cases form with
  | number => exact hgap.endsNumber (.inl (endsNumber_of_mark hc))
  | quoted => trivial
  | text => contradiction

theorem IsSeparator.ends {sep : List Char} (h : IsSeparator form sep)
    (rest : List Char) : form.Ends (sep ++ rest) := by
  cases h with
  | gap hbreak => exact hbreak.ends rest
  | comma hform hgap =>
      rw [List.append_assoc]
      exact ends_of_mark hform hgap rfl

theorem separator_of_ne {input rest : List Char} {c : Char} (hc : c ≠ ',')
    (hskip : skip input = c :: rest) : separator first input = c :: rest := by
  unfold separator
  rw [hskip]
  split
  · rename_i heq
    injection heq with heq
    exact absurd heq hc
  · rfl

theorem separator_comma {input rest : List Char}
    (hskip : skip input = ',' :: rest) : separator false input = skip rest := by
  unfold separator
  rw [hskip]
  rfl

theorem StartsEntry.separator (h : StartsEntry text)
    (hinput : Hjson.skip input = Hjson.skip text) :
    separator first input = text := by
  rw [h.skip] at hinput
  obtain ⟨c, rest, rfl, -, hc⟩ := h
  refine separator_of_ne ?_ hinput
  rintro rfl
  simp at hc

theorem IsSeparator.separator {sep after rest : List Char}
    (h : IsSeparator form sep) (hrest : StartsEntry rest)
    (hafter : skip after = skip (sep ++ rest)) : separator false after = rest := by
  cases h with
  | gap hbreak =>
      exact hrest.separator (hafter.trans (hbreak.isGap.skip_append rest))
  | @comma gap more hform hgap hmore =>
      have hcomma : startsToken ',' := by decide
      have hskip : skip after = ',' :: (more ++ rest) := by
        rw [hafter, List.append_assoc, hgap.skip_append]
        exact skip_of_startsToken hcomma _
      rw [separator_comma hskip, hmore.skip_append, hrest.skip]

/-- The last form is that of the last value. -/
inductive WrittenEntries :
    List (String × RegisterValue) → Form → List Char → Prop
  | single {entry : String × RegisterValue} {form : Form} {text : List Char}
      (hentry : WrittenEntry entry form text) : WrittenEntries [entry] form text
  | cons {entry : String × RegisterValue}
      {entries : List (String × RegisterValue)} {form last : Form}
      {text sep more : List Char} (hentry : WrittenEntry entry form text)
      (hsep : IsSeparator form sep) (hmore : WrittenEntries entries last more) :
      WrittenEntries (entry :: entries) last (text ++ (sep ++ more))

variable {items : List (String × RegisterValue)}

theorem WrittenEntries.startsEntry (h : WrittenEntries items form text) :
    StartsEntry text := by
  cases h with
  | single hentry => exact hentry.startsEntry
  | cons hentry => exact hentry.startsEntry.append _

theorem WrittenEntries.length_le (h : WrittenEntries items form text) :
    items.length ≤ text.length := by
  induction h with
  | single hentry => exact hentry.startsEntry.length_pos
  | cons hentry _ _ ih =>
      have hpos := hentry.startsEntry.length_pos
      simp only [List.length_cons, List.length_append]
      omega

theorem WrittenEntry.exists_toDigits (h : WrittenEntry entry form text)
    (hform : form = .number) : ∃ front n, text = front ++ Nat.toDigits 10 n := by
  subst hform
  obtain @⟨_, _, _, key, pad, gap, _, -, -, -, hvalue⟩ := h
  cases hvalue with
  | number n => exact ⟨key ++ (pad ++ ':' :: gap), n.toNat, by simp⟩

/-- Entries that end in a number end in its digits. -/
theorem WrittenEntries.exists_toDigits (h : WrittenEntries items form text)
    (hform : form = .number) : ∃ front n, text = front ++ Nat.toDigits 10 n := by
  induction h with
  | single hentry => exact hentry.exists_toDigits hform
  | @cons _ _ _ _ text sep _ _ _ _ ih =>
      obtain ⟨front, n, rfl⟩ := ih hform
      exact ⟨text ++ (sep ++ front), n, by simp⟩

/-- A whole run, with fuel for one more call. -/
theorem WrittenEntries.entries (h : WrittenEntries items form text)
    (hfollow : form.Ends follow)
    (hinput : separator first input = text ++ follow) :
    ∃ after, skip after = skip follow ∧
      entries source (fuel + 1 + items.length) known braced first input =
        (entries source (fuel + 1) known braced false after).map
          fun (others, rest) => (items.map toItem ++ others, rest) := by
  induction h generalizing first input with
  | single hentry => exact hentry.entries hfollow hinput
  | @cons entry items form last text sep more hentry hsep hmore ih =>
      have hrest : separator first input = text ++ (sep ++ (more ++ follow)) := by
        rw [hinput]
        simp only [List.append_assoc]
      obtain ⟨next, hnext, hstep⟩ : ∃ next,
          skip next = skip (sep ++ (more ++ follow)) ∧
          Hjson.entries source (fuel + items.length + 2) known braced first input =
            (Hjson.entries source (fuel + items.length + 1) known braced false
              next).map fun (others, rest) => (toItem entry :: others, rest) :=
        hentry.entries (hsep.ends _) hrest
      -- What separates the two entries is skipped by the second call.
      have hsecond : Hjson.separator false next = more ++ follow :=
        hsep.separator (hmore.startsEntry.append follow) hnext
      obtain ⟨after, hafter, hrun⟩ := ih hfollow hsecond
      have hfuel : fuel + 1 + items.length = fuel + items.length + 1 := by omega
      refine ⟨after, hafter, ?_⟩
      rw [List.length_cons, ← Nat.add_assoc, hfuel, hstep, ← hfuel, hrun,
        Option.map_map]
      rfl

end MssClock.Hjson
