import MssClock.Proofs.Text.Numeral
import Mathlib.Data.List.Infix

/-!
# Words and lines of a text

A printed text is read as a reader would: line by line, each line as the words
between its spaces, however many spaces there are.  Both readings follow from
what splitting does at one separator.  Control words are found by their form
alone, wherever in the text they stand.
-/

namespace MssClock

def lineTexts (text : String) : List String :=
  (text.toList.splitOn '\n').map String.ofList

/-- The words of a text, separated by any number of spaces. -/
def words (text : String) : List String :=
  ((text.toList.splitOn ' ').filter (· ≠ [])).map String.ofList

theorem lineTexts_print
    {lines : List String} (hlines : ∀ line ∈ lines, '\n' ∉ line.toList) :
    lineTexts (String.join (lines.map fun line => line ++ "\n")) =
      lines ++ [""] := by
  induction lines with
  | nil => rfl
  | cons line rest ih =>
      have hline : '\n' ∉ line.toList := hlines line List.mem_cons_self
      have hrest := ih fun other hmem =>
        hlines other (List.mem_cons_of_mem line hmem)
      have hbreak : "\n".toList = ['\n'] := rfl
      unfold lineTexts at hrest ⊢
      rw [List.map_cons, String.join_cons, String.append_assoc,
        String.toList_append, String.toList_append, hbreak,
        List.singleton_append,
        List.splitOn_append_cons_self_of_not_mem hline, List.map_cons, hrest,
        String.ofList_toList, List.cons_append]

theorem words_append_space (front back : String) :
    words (front ++ " " ++ back) = words front ++ words back := by
  have hspace : " ".toList = [' '] := rfl
  unfold words
  rw [String.append_assoc, String.toList_append, String.toList_append, hspace,
    List.singleton_append, List.splitOn_append_cons_self, List.filter_append,
    List.map_append]

theorem words_intercalate (pieces : List String) :
    words (" ".intercalate pieces) = pieces.flatMap words := by
  induction pieces with
  | nil => rfl
  | cons piece rest ih =>
      cases rest with
      | nil => simp
      | cons next rest =>
          rw [String.intercalate_cons_cons, words_append_space, ih,
            ← List.flatMap_cons]

theorem words_eq_singleton
    {text : String} (hne : text ≠ "") (hspace : ' ' ∉ text.toList) :
    words text = [text] := by
  have hchars : text.toList ≠ [] := by
    rwa [Ne, String.toList_eq_nil_iff]
  unfold words
  rw [List.splitOn_eq_singleton hspace]
  simp [hchars]

theorem words_spaces (n : Nat) :
    words (String.ofList (List.replicate n ' ')) = [] := by
  induction n with
  | zero => rfl
  | succ n ih =>
      have hsplit : String.ofList (List.replicate (n + 1) ' ') =
          "" ++ " " ++ String.ofList (List.replicate n ' ') := by
        simp [List.replicate_succ]
      rw [hsplit, words_append_space, ih]
      rfl

/-! ## Numbers -/

/-- The number that a word of decimal digits stands for. -/
def decimal? (word : String) : Option Nat :=
  if word ≠ "" ∧ word.toList.all Char.isDigit then
    some (Nat.ofDigitChars 10 word.toList 0)
  else none

theorem notMem_toDigits {c : Char} (hc : c.isDigit = false) (n : Nat) :
    c ∉ Nat.toDigits 10 n := by
  intro hmem
  rw [Nat.isDigit_of_mem_toDigits (by decide) (by decide) hmem] at hc
  cases hc

theorem toString_ne_empty (n : Nat) : toString n ≠ "" := by
  rw [Ne, ← String.toList_eq_nil_iff, Nat.toString_eq_ofList_toDigits,
    String.toList_ofList]
  exact Nat.toDigits_ne_nil

theorem decimal?_toString (n : Nat) : decimal? (toString n) = some n := by
  have hall : (toString n).toList.all Char.isDigit = true := by
    rw [List.all_eq_true]
    exact fun _ => isDigit_of_mem_toString
  unfold decimal?
  rw [if_pos ⟨toString_ne_empty n, hall⟩, Nat.toString_eq_ofList_toDigits,
    String.toList_ofList, Nat.ofDigitChars_ten_toDigits]

theorem words_toString (n : Nat) : words (toString n) = [toString n] := by
  apply words_eq_singleton (toString_ne_empty n)
  rw [Nat.toString_eq_ofList_toDigits, String.toList_ofList]
  exact notMem_toDigits (by decide) n

/-! ## Control words -/

def isHexDigit (c : Char) : Bool :=
  c.isDigit || ('A' ≤ c && c ≤ 'F')

/-- The control word at the start of a text: eight upper-case digits. -/
def hexWordAt? : List Char → Option String
  | '0' :: 'x' :: rest =>
      let digits := rest.take 8
      if digits.length = 8 ∧ digits.all isHexDigit then
        some (String.ofList ('0' :: 'x' :: digits))
      else none
  | _ => none

/-- All control words of a text. -/
def hexWords (text : List Char) : List String :=
  text.tails.filterMap hexWordAt?

theorem hexWords_append
    {front back : List Char} (hfront : 'x' ∉ front)
    (hback : back.head? ≠ some 'x') :
    hexWords (front ++ back) = hexWords back := by
  -- A control word is told by the mark after its first digit, so none starts
  -- where no mark follows.
  induction front with
  | nil => rfl
  | cons c rest ih =>
      rw [List.mem_cons, not_or] at hfront
      have hhead : (rest ++ back).head? ≠ some 'x' := by
        cases rest with
        | nil => exact hback
        | cons d rest =>
            simp only [List.cons_append, List.head?_cons, ne_eq,
              Option.some.injEq]
            intro hd
            exact hfront.2 (by simp [hd])
      have hnone : hexWordAt? (c :: (rest ++ back)) = none := by
        unfold hexWordAt?
        split
        · rename_i heq
          injection heq with _ htail
          exact absurd (by rw [htail]; rfl) hhead
        · rfl
      unfold hexWords at ih ⊢
      rw [List.cons_append, List.tails_cons, List.filterMap_cons_none hnone]
      exact ih hfront.2

theorem Word.isHexDigit_of_mem_hex {word : Word} {c : Char}
    (hc : c ∈ word.hex.toList) : isHexDigit c = true := by
  have hall : ∀ n : Fin 16, isHexDigit (hexDigit n) = true := by decide
  rw [toList_hex] at hc
  rcases List.mem_map.mp hc with ⟨i, -, rfl⟩
  exact hall ⟨_, Nat.mod_lt _ (by decide)⟩

theorem hexWords_hex
    (word : Word) {back : List Char} (hback : back.head? ≠ some 'x') :
    hexWords ('0' :: 'x' :: (word.hex.toList ++ back)) =
      ("0x" ++ word.hex) :: hexWords back := by
  have hlength : word.hex.toList.length = 8 := by
    simp [Word.toList_hex]
  have hall : word.hex.toList.all isHexDigit = true := by
    rw [List.all_eq_true]
    exact fun _ => Word.isHexDigit_of_mem_hex
  have htake : (word.hex.toList ++ back).take 8 = word.hex.toList := by
    rw [← hlength, List.take_left]
  have hword : hexWordAt? ('0' :: 'x' :: (word.hex.toList ++ back)) =
      some ("0x" ++ word.hex) := by
    unfold hexWordAt?
    simp only [htake, hlength, hall, and_self, if_true, Option.some.injEq]
    simp [← String.toList_inj]
  have hmark : 'x' ∉ word.hex.toList := by
    intro hmem
    exact absurd (Word.isHexDigit_of_mem_hex hmem) (by decide)
  calc
    hexWords ('0' :: 'x' :: (word.hex.toList ++ back)) =
        ("0x" ++ word.hex) :: hexWords (word.hex.toList ++ back) := by
      unfold hexWords
      rw [List.tails_cons, List.filterMap_cons_some hword, List.tails_cons,
        List.filterMap_cons_none rfl]
    _ = ("0x" ++ word.hex) :: hexWords back := by
      rw [hexWords_append hmark hback]

end MssClock
