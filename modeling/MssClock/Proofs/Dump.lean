import MssClock.Command.Decode
import MssClock.Proofs.Hjson.Entries

/-!
# Written dumps are read back

A dump is written as entries in any order, between braces or without, with gaps
around them and with entries of other keys in between.  Reading the text gives
the settings of the dump again.
-/

namespace MssClock

open Hjson

/-! ## Entries of a dump -/

/-- Each setting of the dump is given once, and the others not at all. -/
def Dump.IsGivenBy (dump : Dump) (items : List (String × RegisterValue)) : Prop :=
  ∀ s : Setting, (items.filter fun item => item.1 == s.key).map Prod.snd =
    (dump.get s).toList

variable {dump : Dump} {items : List (String × RegisterValue)}

theorem Dump.IsGivenBy.lookup? (h : dump.IsGivenBy items) (s : Setting) :
    lookup? (items.map toItem) s.key = some (dump.get s) := by
  have hfilter : (items.map toItem).filter (fun entry => entry.1 == s.key) =
      (items.filter fun item => item.1 == s.key).map toItem :=
    List.filter_map
  have hs := h s
  unfold Dump.lookup?
  rw [hfilter]
  cases hget : dump.get s with
  | none =>
      rw [hget, Option.toList_none, List.map_eq_nil_iff] at hs
      rw [hs]
      rfl
  | some v =>
      rw [hget, Option.toList_some] at hs
      obtain ⟨⟨name, v'⟩, hitem, hv⟩ := List.map_eq_singleton_iff.mp hs
      rw [hitem, ← hv]
      rfl

theorem Dump.IsGivenBy.ofEntries? (h : dump.IsGivenBy items) :
    ofEntries? (items.map toItem) = some dump := by
  unfold Dump.ofEntries? Dump.ofSettings?
  simp only [h.lookup?]
  rfl

/-! ## The end of the entries -/

namespace Hjson

variable {source input rest : List Char} {fuel : Nat} {known : String → Bool}
  {first : Bool}

theorem entries_closed (hinput : separator first input = '}' :: rest) :
    entries source (fuel + 1) known true first input = some ([], rest) := by
  unfold entries
  rw [hinput]
  rfl

theorem entries_end (hinput : skip input = []) :
    entries source (fuel + 1) known false first input = some ([], []) := by
  have hseparator : separator first input = [] := by
    unfold separator
    rw [hinput]
    cases first <;> rfl
  unfold entries
  rw [hseparator]

/-- What stands between the last value and the closing brace. -/
inductive IsClosing (form : Form) : List Char → Prop
  | gap {gap : List Char} (hbreak : IsBreak form gap) : IsClosing form gap
  | brace {gap : List Char} (hform : form ≠ .text) (hgap : IsGap gap) :
      IsClosing form gap

/-- What stands after the last value if there are no braces.  A number that
only spaces and tabs follow has no mark after it. -/
inductive IsEnd (form : Form) : List Char → Prop
  | nothing : IsEnd form []
  | gap {gap : List Char} (hbreak : IsBreak form gap) : IsEnd form gap

variable {form : Form}

theorem IsClosing.isGap {gap : List Char} (h : IsClosing form gap) : IsGap gap := by
  cases h with
  | gap hbreak => exact hbreak.isGap
  | brace _ hgap => exact hgap

theorem IsClosing.ends {gap : List Char} (h : IsClosing form gap)
    (rest : List Char) : form.Ends (gap ++ '}' :: rest) := by
  cases h with
  | gap hbreak => exact hbreak.ends _
  | brace hform hgap => exact ends_of_mark hform hgap rfl

/-- Entries between braces are read up to the closing brace. -/
theorem WrittenEntries.entries_braced {inner text closing : List Char}
    (h : WrittenEntries items form text) (hinner : IsGap inner)
    (hclosing : IsClosing form closing) (hfuel : items.length < fuel) :
    Hjson.entries source fuel known true true
      (inner ++ (text ++ (closing ++ '}' :: rest))) =
        some (items.map toItem, rest) := by
  obtain ⟨spare, rfl⟩ : ∃ spare, fuel = spare + 1 + items.length :=
    ⟨fuel - items.length - 1, by omega⟩
  have hstart := h.startsEntry.append (closing ++ '}' :: rest)
  obtain ⟨after, hafter, hrun⟩ := h.entries (hclosing.ends rest)
    (hstart.separator (hinner.skip_append _))
  have hbrace : startsToken '}' := by decide
  have hend : separator false after = '}' :: rest := by
    apply separator_of_ne (by decide)
    rw [hafter, hclosing.isGap.skip_append, skip_of_startsToken hbrace]
  rw [hrun, entries_closed hend, Option.map_some]
  simp only [List.append_nil]

/-- Entries without braces are read up to the end of the text. -/
theorem WrittenEntries.entries_plain {text follow : List Char}
    (h : WrittenEntries items form text) (hgap : IsGap follow)
    (hfollow : form.Ends follow) (hfuel : items.length < fuel) :
    Hjson.entries source fuel known false true (text ++ follow) =
      some (items.map toItem, []) := by
  obtain ⟨spare, rfl⟩ : ∃ spare, fuel = spare + 1 + items.length :=
    ⟨fuel - items.length - 1, by omega⟩
  have hstart := h.startsEntry.append follow
  obtain ⟨after, hafter, hrun⟩ := h.entries hfollow (hstart.separator rfl)
  have hend : skip after = [] := by
    rw [hafter, ← List.append_nil follow, hgap.skip_append]
    rfl
  rw [hrun, entries_end hend, Option.map_some]
  simp only [List.append_nil]

end Hjson

/-! ## Whole texts -/

/-- Without braces there is an entry at least. -/
inductive WrittenDump : List (String × RegisterValue) → List Char → Prop
  | empty {lead inner trail : List Char} (hlead : IsGap lead)
      (hinner : IsGap inner) (htrail : IsGap trail) :
      WrittenDump [] (lead ++ '\x7b' :: (inner ++ '}' :: trail))
  | braced {items : List (String × RegisterValue)} {form : Form}
      {lead inner text closing trail : List Char} (hlead : IsGap lead)
      (hinner : IsGap inner) (hitems : WrittenEntries items form text)
      (hclosing : IsClosing form closing) (htrail : IsGap trail) :
      WrittenDump items
        (lead ++ '\x7b' :: (inner ++ (text ++ (closing ++ '}' :: trail))))
  | plain {items : List (String × RegisterValue)} {form : Form}
      {lead text tail : List Char} (hlead : IsGap lead)
      (hitems : WrittenEntries items form text) (htail : IsEnd form tail) :
      WrittenDump items (lead ++ (text ++ tail))

namespace Dump

theorem closed_eq (text : List Char) :
    ∃ more, (more = [] ∨ more = ['\n']) ∧ closed text = text ++ more := by
  unfold closed
  split
  · rename_i hempty
    rw [List.getLast?_eq_none_iff] at hempty
    subst hempty
    exact ⟨['\n'], .inr rfl, rfl⟩
  · split
    · exact ⟨[], .inl rfl, (List.append_nil text).symm⟩
    · exact ⟨['\n'], .inr rfl, rfl⟩

/-- After a number the text does not end in a blank. -/
theorem closed_toDigits (front : List Char) (n : Nat) :
    closed (front ++ Nat.toDigits 10 n) = front ++ Nat.toDigits 10 n ++ ['\n'] := by
  have hne : Nat.toDigits 10 n ≠ [] := Nat.toDigits_ne_nil
  have hlast : isBlank ((Nat.toDigits 10 n).getLast hne) = false :=
    isBlank_of_isAlphanum (isAlphanum_of_mem_toDigits (List.getLast_mem hne))
  have hget : (front ++ Nat.toDigits 10 n).getLast? =
      some ((Nat.toDigits 10 n).getLast hne) := by
    rw [List.getLast?_append_of_ne_nil front hne, List.getLast?_eq_some_getLast hne]
  simp only [closed, hget, hlast, Bool.false_eq_true, if_false]

theorem isGap_of_closed {more : List Char} (hmore : more = [] ∨ more = ['\n']) :
    IsGap more := by
  apply isGap_of_subset
  rcases hmore with rfl | rfl <;> decide

variable {form : Form} {lead text tail : List Char}

/-- A text that has no braces is closed so that its last value ends. -/
theorem closed_plain (hitems : WrittenEntries items form text)
    (htail : IsEnd form tail) :
    ∃ after, IsGap after ∧ form.Ends after ∧
      closed (lead ++ (text ++ tail)) = lead ++ (text ++ after) := by
  obtain ⟨more, hmore, hclosed⟩ := closed_eq (lead ++ (text ++ tail))
  have happend : closed (lead ++ (text ++ tail)) =
      lead ++ (text ++ (tail ++ more)) := by
    rw [hclosed]
    simp only [List.append_assoc]
  cases htail with
  | gap hbreak =>
      have hafter := hbreak.append (isGap_of_closed hmore)
      have hends := hafter.ends []
      rw [List.append_nil] at hends
      exact ⟨_, hafter.isGap, hends, happend⟩
  | nothing =>
      rw [List.nil_append] at happend
      cases form with
      | quoted => exact ⟨more, isGap_of_closed hmore, trivial, happend⟩
      | text =>
          refine ⟨more, isGap_of_closed hmore, ?_, happend⟩
          have hpad : IsPad [] := by simp [IsPad]
          rcases hmore with rfl | rfl
          · exact EndsText.text hpad
          · exact EndsText.line hpad (.inr rfl)
      | number =>
          -- The text ends in a digit, so a line feed closes it.
          obtain ⟨front, n, rfl⟩ := hitems.exists_toDigits rfl
          refine ⟨['\n'], isGap_of_closed (.inr rfl), endsNumber_of_mark rfl, ?_⟩
          rw [List.append_nil, ← List.append_assoc, closed_toDigits,
            List.append_assoc]
          simp

/-! ## Reading the text -/

variable {source rest after : List Char}
  {entries : List (String × Item)}

theorem ofChars?_braced (hsource : skip (closed text) = '\x7b' :: rest)
    (hentries : Hjson.entries (closed text) (2 * (closed text).length + 2)
      Setting.isKey true true rest = some (entries, after))
    (hafter : skip after = []) : ofChars? text = ofEntries? entries := by
  unfold ofChars?
  simp only [hsource, hentries, Option.bind_eq_bind, Option.bind_some, finish,
    if_pos hafter]

theorem ofChars?_plain (hsource : skip (closed text) = rest)
    (hrest : StartsEntry rest)
    (hentries : Hjson.entries (closed text) (2 * (closed text).length + 2)
      Setting.isKey false true rest = some (entries, after))
    (hafter : skip after = []) : ofChars? text = ofEntries? entries := by
  obtain ⟨c, more, rfl, -, hc⟩ := hrest
  simp only [List.mem_cons, List.not_mem_nil, or_false, not_or] at hc
  obtain ⟨-, hlist, hobject, -⟩ := hc
  unfold ofChars?
  simp [hsource, hentries, finish, hafter, hlist, hobject]

theorem skip_brace (hlead : IsGap lead) (rest : List Char) :
    skip (lead ++ '\x7b' :: rest) = '\x7b' :: rest := by
  have htoken : startsToken '\x7b' := by decide
  rw [hlead.skip_append, skip_of_startsToken htoken]

theorem skip_eq_nil {gap : List Char} (hgap : IsGap gap) : skip gap = [] := by
  rw [← List.append_nil gap, hgap.skip_append]
  rfl

theorem ofChars?_of_empty {inner trail : List Char} (hlead : IsGap lead)
    (hinner : IsGap inner) (htrail : IsGap trail) :
    ofChars? (lead ++ '\x7b' :: (inner ++ '}' :: trail)) = ofEntries? [] := by
  obtain ⟨more, hmore, hclosed⟩ :=
    closed_eq (lead ++ '\x7b' :: (inner ++ '}' :: trail))
  have hsource : closed (lead ++ '\x7b' :: (inner ++ '}' :: trail)) =
      lead ++ '\x7b' :: (inner ++ '}' :: (trail ++ more)) := by
    rw [hclosed]
    simp
  have hbrace : startsToken '}' := by decide
  have hempty : separator true (inner ++ '}' :: (trail ++ more)) =
      '}' :: (trail ++ more) := by
    apply separator_of_ne (by decide)
    rw [hinner.skip_append, skip_of_startsToken hbrace]
  apply ofChars?_braced
  · rw [hsource, skip_brace hlead]
  · exact entries_closed hempty
  · exact skip_eq_nil (htrail.append (isGap_of_closed hmore))

theorem ofChars?_of_braced {inner closing trail : List Char}
    (hlead : IsGap lead) (hinner : IsGap inner)
    (hitems : WrittenEntries items form text) (hclosing : IsClosing form closing)
    (htrail : IsGap trail) :
    ofChars? (lead ++ '\x7b' :: (inner ++ (text ++ (closing ++ '}' :: trail)))) =
      ofEntries? (items.map toItem) := by
  obtain ⟨more, hmore, hclosed⟩ := closed_eq
    (lead ++ '\x7b' :: (inner ++ (text ++ (closing ++ '}' :: trail))))
  have hsource : closed
      (lead ++ '\x7b' :: (inner ++ (text ++ (closing ++ '}' :: trail)))) =
        lead ++ '\x7b' ::
          (inner ++ (text ++ (closing ++ '}' :: (trail ++ more)))) := by
    rw [hclosed]
    simp
  have hlength := hitems.length_le
  apply ofChars?_braced
  · rw [hsource, skip_brace hlead]
  · apply hitems.entries_braced hinner hclosing
    rw [hsource]
    simp only [List.length_append, List.length_cons]
    omega
  · exact skip_eq_nil (htrail.append (isGap_of_closed hmore))

theorem ofChars?_of_plain (hlead : IsGap lead)
    (hitems : WrittenEntries items form text) (htail : IsEnd form tail) :
    ofChars? (lead ++ (text ++ tail)) = ofEntries? (items.map toItem) := by
  obtain ⟨follow, hgap, hfollow, hclosed⟩ :
      ∃ follow, IsGap follow ∧ form.Ends follow ∧
        closed (lead ++ (text ++ tail)) = lead ++ (text ++ follow) :=
    closed_plain hitems htail
  have hlength := hitems.length_le
  have hstart := hitems.startsEntry.append follow
  apply ofChars?_plain _ hstart
  · apply hitems.entries_plain hgap hfollow
    rw [hclosed]
    simp only [List.length_append]
    omega
  · rfl
  · rw [hclosed, hlead.skip_append, hstart.skip]

end Dump

/-- Whatever way a dump is written, reading it gives the dump. -/
theorem Given.load_of_writtenDump {items : List (String × RegisterValue)}
    {dump : Dump} {text : String} (hitems : dump.IsGivenBy items)
    (htext : WrittenDump items text.toList) :
    Dump.ofText? text = some dump ∧
      ∀ (given : Given) (read : String → Except ReadError String) (path : String),
        given.file = some path → read path = .ok text →
          given.load read = .ok dump := by
  have hread : Dump.ofText? text = some dump := by
    rw [← hitems.ofEntries?]
    unfold Dump.ofText?
    generalize text.toList = chars at htext ⊢
    cases htext with
    | empty hlead hinner htrail =>
        exact Dump.ofChars?_of_empty hlead hinner htrail
    | braced hlead hinner hentries hclosing htrail =>
        exact Dump.ofChars?_of_braced hlead hinner hentries hclosing htrail
    | plain hlead hentries htail =>
        exact Dump.ofChars?_of_plain hlead hentries htail
  refine ⟨hread, ?_⟩
  intro given read path hfile hpath
  simp only [load, hfile, hpath, hread]

theorem Given.load_of_writtenDump_mixed :
    let text :=
      "# board 3\n\x7b\n  \"note\": \"\\u00e9\\ud83d\\ude00\", // kept\n" ++
      "  facc1_cr: 0x1F_00 \n  \"sysref\" : 100000000 /* Hz */\n" ++
      "  pll_status_low_cr:\"12\\n\"\n\x7d"
    let items : List (String × RegisterValue) :=
      [("note", .text "é😀"), ("facc1_cr", .text "0x1F_00"),
        ("sysref", .number 100000000), ("pll_status_low_cr", .text "12\n")]
    let dump : Dump :=
      { sysref := some (.number 100000000), facc1 := some (.text "0x1F_00"),
        pllLow := some (.text "12\n"), pllHigh := none }
    dump.IsGivenBy items ∧ WrittenDump items text.toList ∧
      ({ Given.nothing with file := some "board.hjson" }.load
        fun _ => .ok text) = .ok dump := by
  intro text items dump
  have hitems : dump.IsGivenBy items := by
    intro s
    cases s <;> decide +kernel
  have hspace : IsGap [' '] := isGap_of_subset (by decide)
  have hindent : IsGap ['\n', ' ', ' '] := isGap_of_subset (by decide)
  have hnone : [] ⊆ blanks := by decide
  have hface : WrittenText "é😀".toList
      ("\\u00e9".toList ++ ("\\ud83d\\ude00".toList ++ [])) := by
    refine .cons (.unit (.digits ?_ ?_ ?_ ?_)) (.cons (.pair ?_
      (.digits ?_ ?_ ?_ ?_) (.digits ?_ ?_ ?_ ?_)) .nil) <;> decide
  have hcontrol : WrittenText "12\n".toList
      (['1'] ++ (['2'] ++ (['\\', 'n'] ++ []))) := by
    refine .cons (.plain ?_ ?_ ?_) (.cons (.plain ?_ ?_ ?_)
      (.cons (.short ?_) .nil)) <;> decide
  have hhex : IsHexText "0x1F_00".toList := by
    have hone : IsHexDigit 1 '1' := by decide
    have hfifteen : IsHexDigit 15 'F' := by decide
    have hzero : IsHexDigit 0 '0' := by decide
    refine .marked (.inl rfl) (by decide) ?_
    intro c hc
    change c ∈ ['1', 'F', '_', '0', '0'] at hc
    simp only [List.mem_cons, List.not_mem_nil, or_false] at hc
    rcases hc with rfl | rfl | rfl | rfl | rfl
    · exact .inr ⟨1, hone⟩
    · exact .inr ⟨15, hfifteen⟩
    · exact .inl rfl
    · exact .inr ⟨0, hzero⟩
    · exact .inr ⟨0, hzero⟩
  have hnote := WrittenEntry.entry
    (.quoted (writtenText_self (by decide : "note".toList.all isVerbatim = true)))
    hnone hspace (.quoted hface)
  have hfacc1 := WrittenEntry.entry (.bare .facc1) hnone hspace (.text hhex)
  have hsysref := WrittenEntry.entry
    (.quoted (writtenText_self (by decide : "sysref".toList.all isVerbatim = true)))
    (by decide : [' '] ⊆ blanks) hspace (.number 100000000)
  have hpllLow := WrittenEntry.entry (.bare .pllLow) hnone .nil (.quoted hcontrol)
  have hcomma : IsSeparator .quoted ([] ++ ',' :: " // kept\n  ".toList) := by
    refine .comma (by decide) .nil (.blank (by decide) ?_)
    exact .slashes (by decide : '\n' ∉ " kept".toList)
      (isGap_of_subset (by decide : [' ', ' '] ⊆ blanks))
  have hline : IsSeparator .text ([' '] ++ '\n' :: [' ', ' ']) := by
    refine .gap (.text ?_ (.inr rfl) (isGap_of_subset (by decide)))
    simp [IsPad]
  have hmark : IsSeparator .number " /* Hz */\n  ".toList := by
    refine .gap (.number (.blank (by decide) ?_) ?_)
    · exact .block (by decide : ¬ ['*', '/'] <:+: " Hz ".toList) hindent
    · intro hpad
      exact absurd (hpad '/' (by decide)) (by decide)
  have hentries := WrittenEntries.cons hnote hcomma
    (.cons hfacc1 hline (.cons hsysref hmark (.single hpllLow)))
  have hlead : IsGap "# board 3\n".toList :=
    .number (by decide : '\n' ∉ " board 3".toList) .nil
  have hdump := WrittenDump.braced hlead hindent hentries
    (.brace (by decide) (isGap_of_subset (by decide : ['\n'] ⊆ blanks)))
    .nil
  have htext : WrittenDump items text.toList :=
    Eq.mp (congrArg (WrittenDump _) (by decide +kernel)) hdump
  exact ⟨hitems, htext,
    (Given.load_of_writtenDump hitems htext).2 _ _ "board.hjson" rfl rfl⟩

end MssClock
