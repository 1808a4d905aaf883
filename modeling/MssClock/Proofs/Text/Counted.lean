import MssClock.Proofs.Text.Numeral

/-!
# What counts of a text

A register value may have white space around it and underscores in it, and
neither counts.  What is left is one text, described here by the way the whole
is put together; a mark at its front selects the radix.
-/

namespace MssClock

/-- The code points with the property White_Space. -/
def whiteSpace : List Nat :=
  [0x09, 0x0A, 0x0B, 0x0C, 0x0D, 0x20, 0x85, 0xA0, 0x1680, 0x2000, 0x2001,
    0x2002, 0x2003, 0x2004, 0x2005, 0x2006, 0x2007, 0x2008, 0x2009, 0x200A,
    0x2028, 0x2029, 0x202F, 0x205F, 0x3000]

theorem isBlank_iff_mem {c : Char} :
    isBlank c = true ↔ c.toNat ∈ whiteSpace := by
  simp only [isBlank, whiteSpace, Bool.or_eq_true, Bool.and_eq_true,
    decide_eq_true_eq, beq_iff_eq, List.mem_cons, List.not_mem_nil, or_false]
  omega

/-! ## What counts of a text -/

/-- The second text is the first one without the white space around it and the
underscores in it. -/
inductive Counts : List Char → List Char → Prop
  | intro {left core right : List Char}
      (hleft : ∀ c ∈ left, c.toNat ∈ whiteSpace)
      (hright : ∀ c ∈ right, c.toNat ∈ whiteSpace)
      (hfirst : ∀ c ∈ core.head?, c.toNat ∉ whiteSpace)
      (hlast : ∀ c ∈ core.getLast?, c.toNat ∉ whiteSpace) :
      Counts (left ++ core ++ right) (core.filter fun c => c != '_')

section Trim

variable {p : Char → Bool} {left core right text : List Char}

theorem dropWhile_append_of_head?
    (hleft : ∀ c ∈ left, p c = true) (hfirst : ∀ c ∈ core.head?, p c = false) :
    (left ++ core).dropWhile p = core := by
  rw [List.dropWhile_append_of_pos hleft]
  cases core with
  | nil => rfl
  | cons c rest => exact List.dropWhile_cons_of_neg (by simp [hfirst c rfl])

theorem dropEndWhile_append_of_getLast?
    (hright : ∀ c ∈ right, p c = true)
    (hlast : ∀ c ∈ core.getLast?, p c = false) :
    dropEndWhile p (core ++ right) = core := by
  have hback : (right.reverse ++ core.reverse).dropWhile p = core.reverse := by
    apply dropWhile_append_of_head?
    · simpa using hright
    · simpa using hlast
  rw [dropEndWhile, List.reverse_append, hback, List.reverse_reverse]

theorem exists_append_dropWhile (p : Char → Bool) (text : List Char) :
    ∃ left, text = left ++ text.dropWhile p ∧ (∀ c ∈ left, p c = true) ∧
      ∀ c ∈ (text.dropWhile p).head?, p c = false := by
  refine ⟨text.takeWhile p, List.takeWhile_append_dropWhile.symm,
    fun _ => List.mem_takeWhile_imp, fun c hc => ?_⟩
  have hhead := List.head?_dropWhile_not p text
  rw [Option.mem_def.mp hc] at hhead
  simpa using hhead

theorem exists_dropEndWhile_append (p : Char → Bool) (text : List Char) :
    ∃ right, text = dropEndWhile p text ++ right ∧ (∀ c ∈ right, p c = true) ∧
      ∀ c ∈ (dropEndWhile p text).getLast?, p c = false := by
  obtain ⟨left, htext, hleft, hfirst⟩ := exists_append_dropWhile p text.reverse
  refine ⟨left.reverse, ?_, by simpa using hleft, ?_⟩
  · rw [dropEndWhile, ← List.reverse_append, ← htext, List.reverse_reverse]
  · simpa [dropEndWhile] using hfirst

end Trim

theorem Counts.significant_eq {text counted : List Char}
    (h : Counts text counted) : significant text = counted := by
  cases h with
  | @intro left core right hleft hright hfirst hlast =>
      simp only [← isBlank_iff_mem, Bool.not_eq_true] at hleft hright hfirst hlast
      have htrim : trim (left ++ core ++ right) = core := by
        cases core with
        | nil =>
            -- Nothing but white space is left, on whichever side it is counted.
            have hnone : (left ++ [] ++ right).dropWhile isBlank = [] := by
              rw [List.dropWhile_eq_nil_iff]
              simp only [List.append_nil, List.mem_append]
              exact fun c hc => hc.elim (hleft c) (hright c)
            rw [trim, hnone]
            rfl
        | cons c rest =>
            have hfront : (left ++ (c :: rest ++ right)).dropWhile isBlank =
                c :: rest ++ right :=
              dropWhile_append_of_head? hleft (by simpa using hfirst)
            rw [trim, List.append_assoc, hfront]
            exact dropEndWhile_append_of_getLast? hright hlast
      rw [significant, htrim]

theorem counts_significant (text : List Char) :
    Counts text (significant text) := by
  obtain ⟨left, htext, hleft, hfirst⟩ := exists_append_dropWhile isBlank text
  obtain ⟨right, hcore, hright, hlast⟩ :=
    exists_dropEndWhile_append isBlank (text.dropWhile isBlank)
  have hsplit : text = left ++ trim text ++ right := by
    rw [List.append_assoc]
    exact htext.trans (congrArg (left ++ ·) hcore)
  -- What the second step leaves starts like what the first one has left.
  have hhead : ∀ c ∈ (trim text).head?, isBlank c = false := by
    intro c hc
    apply hfirst
    rw [hcore]
    exact List.mem_head?_append_of_mem_head? hc
  simp only [← Bool.not_eq_true, isBlank_iff_mem] at hleft hright hhead hlast
  have hcounts : Counts (left ++ trim text ++ right) (significant text) :=
    .intro hleft hright hhead hlast
  rwa [← hsplit] at hcounts

theorem counts_iff {text counted : List Char} :
    Counts text counted ↔ significant text = counted :=
  ⟨Counts.significant_eq, fun h => h ▸ counts_significant text⟩

/-- The radix that a text selects, and what follows its mark. -/
inductive Marks : List Char → Radix → List Char → Prop
  | hexadecimal {x : Char} {digits : List Char} (hx : x = 'x' ∨ x = 'X') :
      Marks ('0' :: x :: digits) .hexadecimal digits
  | decimal {digits : List Char}
      (hmark : ∀ x rest, digits = '0' :: x :: rest → x ≠ 'x' ∧ x ≠ 'X') :
      Marks digits .decimal digits

theorem marks_iff {text digits : List Char} {radix : Radix} :
    Marks text radix digits ↔ splitRadix text = (radix, digits) := by
  constructor
  · intro h
    cases h with
    | hexadecimal hx => rcases hx with rfl | rfl <;> rfl
    | decimal hmark =>
        unfold splitRadix
        split
        · exact absurd rfl (hmark _ _ rfl).1
        · exact absurd rfl (hmark _ _ rfl).2
        · rfl
  · intro h
    unfold splitRadix at h
    split at h <;> cases h
    · exact .hexadecimal (.inl rfl)
    · exact .hexadecimal (.inr rfl)
    · rename_i hlower hupper
      refine .decimal fun x rest heq => ⟨?_, ?_⟩
      · rintro rfl
        exact hlower rest heq
      · rintro rfl
        exact hupper rest heq

theorem Counts.of_mem {text counted : List Char} {c : Char}
    (h : Counts text counted) (hc : c ∈ text) :
    c.toNat ∈ whiteSpace ∨ c = '_' ∨ c ∈ counted := by
  cases h with
  | intro hleft hright =>
      simp only [List.mem_append] at hc
      rcases hc with (hc | hc) | hc
      · exact .inl (hleft c hc)
      · by_cases hunderscore : c = '_'
        · exact .inr (.inl hunderscore)
        · refine .inr (.inr (List.mem_filter.mpr ⟨hc, ?_⟩))
          simpa using hunderscore
      · exact .inl (hright c hc)

theorem Marks.of_mem {text digits : List Char} {radix : Radix} {c : Char}
    (h : Marks text radix digits) (hc : c ∈ text) :
    c ∈ ['0', 'x', 'X'] ∨ c ∈ digits := by
  cases h with
  | hexadecimal hx =>
      rcases hx with rfl | rfl <;> simp at hc ⊢ <;> tauto
  | decimal => exact .inr hc

theorem exists_counts_marks (text : List Char) :
    ∃ counted radix rest, Counts text counted ∧ Marks counted radix rest :=
  ⟨_, _, _, counts_significant text, marks_iff.mpr rfl⟩

theorem counts_of_filter_eq {left body right counted : List Char}
    (hleft : ∀ c ∈ left, c.toNat ∈ whiteSpace)
    (hright : ∀ c ∈ right, c.toNat ∈ whiteSpace)
    (hbody : (body.filter fun c => c != '_') = counted)
    (hcounted : ∀ c ∈ counted, isBlank c = false) :
    Counts (left ++ body ++ right) counted := by
  have hblank : ∀ c ∈ body, c.toNat ∉ whiteSpace := by
    intro c hc hwhite
    rw [← isBlank_iff_mem] at hwhite
    by_cases hmark : c = '_'
    · subst hmark
      exact absurd hwhite (by decide)
    · have hmem : c ∈ counted := by
        rw [← hbody, List.mem_filter]
        exact ⟨hc, by simpa using hmark⟩
      rw [hcounted c hmem] at hwhite
      cases hwhite
  rw [← hbody]
  exact .intro hleft hright
    (fun c hc => hblank c (List.mem_of_mem_head? hc))
    (fun c hc => hblank c (List.mem_of_mem_getLast? hc))

end MssClock
