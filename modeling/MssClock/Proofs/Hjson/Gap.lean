import MssClock.Hjson.Gap
import Mathlib.Data.List.Infix

/-!
# Written gaps

What may be written between two tokens: blanks, comments up to the end of their
line, and block comments that are closed.  A reader that skips a gap is left
with what follows it, whatever the comments say.
-/

namespace MssClock.Hjson

def blanks : List Char := [' ', '\t', '\r', '\n']

inductive IsGap : List Char → Prop
  | nil : IsGap []
  | blank {c : Char} {gap : List Char} (hc : c ∈ blanks) (hgap : IsGap gap) :
      IsGap (c :: gap)
  | number {text gap : List Char} (htext : '\n' ∉ text) (hgap : IsGap gap) :
      IsGap ('#' :: (text ++ '\n' :: gap))
  | slashes {text gap : List Char} (htext : '\n' ∉ text) (hgap : IsGap gap) :
      IsGap ('/' :: '/' :: (text ++ '\n' :: gap))
  | block {text gap : List Char} (htext : ¬ ['*', '/'] <:+: text)
      (hgap : IsGap gap) :
      IsGap ('/' :: '*' :: (text ++ '*' :: '/' :: gap))

theorem isSpace_iff_mem {c : Char} : isSpace c = true ↔ c ∈ blanks := by
  simp [isSpace, blanks, or_assoc]

variable {text rest : List Char}

theorem skipGap_line (htext : '\n' ∉ text) :
    skipGap .line (text ++ '\n' :: rest) = skipGap .blank rest := by
  induction text with
  | nil => rfl
  | cons c text ih =>
      rw [List.mem_cons, not_or] at htext
      have hc : c ≠ '\n' := Ne.symm htext.1
      rw [List.cons_append, skipGap, if_neg hc]
      exact ih htext.2

theorem skipGap_block (htext : ¬ ['*', '/'] <:+: text) :
    skipGap .block (text ++ '*' :: '/' :: rest) = skipGap .blank rest := by
  induction text with
  | nil => rfl
  | cons c text ih =>
      have htail : ¬ ['*', '/'] <:+: text := fun h =>
        htext (h.trans (List.suffix_cons c text).isInfix)
      -- The closing marks cannot begin inside the comment.
      have hmark : ∀ more, c = '*' → text ++ '*' :: '/' :: rest ≠ '/' :: more := by
        rintro more rfl heq
        cases text with
        | nil => cases heq
        | cons d text =>
            injection heq with hd
            exact htext ⟨[], text, by simp [hd]⟩
      rw [List.cons_append, skipGap]
      · exact ih htail
      · exact hmark

theorem IsGap.skip_append {gap : List Char} (hgap : IsGap gap)
    (rest : List Char) : skip (gap ++ rest) = skip rest := by
  unfold skip
  induction hgap with
  | nil => rfl
  | blank hc _ ih =>
      simp only [blanks, List.mem_cons, List.not_mem_nil, or_false] at hc
      rcases hc with rfl | rfl | rfl | rfl <;> exact ih
  | number htext _ ih =>
      rw [List.cons_append, List.append_assoc]
      exact (skipGap_line htext).trans ih
  | slashes htext _ ih =>
      rw [List.cons_append, List.cons_append, List.append_assoc]
      exact (skipGap_line htext).trans ih
  | block htext _ ih =>
      rw [List.cons_append, List.cons_append, List.append_assoc]
      exact (skipGap_block htext).trans ih

theorem IsGap.append {gap more : List Char} (hgap : IsGap gap)
    (hmore : IsGap more) : IsGap (gap ++ more) := by
  induction hgap with
  | nil => exact hmore
  | blank hc _ ih => exact .blank hc ih
  | number htext _ ih =>
      rw [List.cons_append, List.append_assoc]
      exact .number htext ih
  | slashes htext _ ih =>
      rw [List.cons_append, List.cons_append, List.append_assoc]
      exact .slashes htext ih
  | block htext _ ih =>
      rw [List.cons_append, List.cons_append, List.append_assoc]
      exact .block htext ih

theorem isGap_of_subset {gap : List Char} (hgap : gap ⊆ blanks) : IsGap gap := by
  induction gap with
  | nil => exact .nil
  | cons c gap ih =>
      obtain ⟨hc, hrest⟩ := List.cons_subset.mp hgap
      exact .blank hc (ih hrest)

/-- A character that a gap does not start with. -/
def startsToken (c : Char) : Prop :=
  c ∉ blanks ∧ c ≠ '#' ∧ c ≠ '/'

instance : DecidablePred startsToken := fun c =>
  inferInstanceAs (Decidable (c ∉ blanks ∧ c ≠ '#' ∧ c ≠ '/'))

theorem skip_of_startsToken {c : Char} (hc : startsToken c)
    (rest : List Char) : skip (c :: rest) = c :: rest := by
  obtain ⟨hblank, hnumber, hslash⟩ := hc
  unfold skip
  rw [skipGap]
  · rw [if_neg]
    rwa [isSpace_iff_mem]
  · simpa using hnumber
  · simp [hslash]
  · simp [hslash]

end MssClock.Hjson
