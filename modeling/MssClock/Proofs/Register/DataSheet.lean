import MssClock.Proofs.Register.Edits

/-!
# Layouts and the data sheet

The data sheet gives every field by its highest and its lowest bit.  The
registers are declared by widths alone, and here the two are shown to agree, so
that a field reads as the quotient and the remainder the data sheet asks for.
Nothing is lost in a register either: it is put together again from its fields,
stored in any order, and two words are equal if and only if all their fields
and their padding are.
-/

namespace MssClock

/-- A line of the data sheet. -/
structure DataSheetRow where
  name : String
  high : Nat
  low : Nat
  deriving DecidableEq, Repr

namespace Layout

def dataSheet : List (Layout × List DataSheetRow) :=
  [(WdogCr.layout, [⟨"enable", 0, 0⟩, ⟨"mode", 1, 1⟩]),
    (PllStatusLow.layout,
      [⟨"divr", 5, 0⟩, ⟨"divf", 15, 6⟩, ⟨"divq", 18, 16⟩, ⟨"range", 22, 19⟩,
        ⟨"lockwin", 25, 23⟩, ⟨"lockcnt", 29, 26⟩]),
    (PllStatusHigh.layout,
      [⟨"bypass", 0, 0⟩, ⟨"mode_1v2", 1, 1⟩, ⟨"mode_3v3", 2, 2⟩,
        ⟨"fse", 3, 3⟩, ⟨"pd", 4, 4⟩, ⟨"sse", 5, 5⟩, ⟨"ssmd", 7, 6⟩,
        ⟨"ssmf", 12, 8⟩]),
    (Facc1.layout,
      [⟨"divisor_a", 1, 0⟩, ⟨"apb0_divisor", 4, 2⟩, ⟨"apb1_divisor", 7, 5⟩,
        ⟨"ddr_clk_en", 8, 8⟩, ⟨"m3_clk_divisor", 11, 9⟩,
        ⟨"facc_glmux_sel", 12, 12⟩, ⟨"fic0_divisor", 15, 13⟩,
        ⟨"fic1_divisor", 18, 16⟩, ⟨"ddr_fic_divisor", 21, 19⟩]),
    (PllStatus.layout,
      [⟨"fab_pll_lock", 0, 0⟩, ⟨"mpll_lock", 1, 1⟩, ⟨"rcosc_div2", 2, 2⟩]),
    (WdogEnable.layout, [⟨"enabled", 0, 0⟩]),
    (WdogControl.layout,
      [⟨"timeoutinten", 0, 0⟩, ⟨"wakeupinten", 1, 1⟩, ⟨"mode", 2, 2⟩]),
    (WdogStatus.layout, [⟨"refreshstatus", 0, 0⟩]),
    (WdogRis.layout, [⟨"timeoutrs", 0, 0⟩, ⟨"wakeuprs", 1, 1⟩])]

theorem layouts_dataSheet : dataSheet.map Prod.fst = all := rfl

theorem names_dataSheet : ∀ sheet ∈ dataSheet,
    sheet.1.fields.map Field.name = sheet.2.map DataSheetRow.name := by
  decide

theorem exists_field_of_row : ∀ sheet ∈ dataSheet, ∀ row ∈ sheet.2,
    ∃ field ∈ sheet.1.fields, sheet.1.field? row.name = some field ∧
      field.offset = row.low ∧ field.width = row.high + 1 - row.low := by
  decide

/-! ## A register from its fields -/

section Rebuild

variable {layout : Layout} {field gap : Field} {order : List Field}

/-- The edits that store the fields of `word`, one after the other. -/
def assignments (word : Word) (order : List Field) : List Edit :=
  order.map fun field => .write .replace field (field.get word)

theorem isOf_of_mem_assignments
    (word : Word) (horder : order ⊆ layout.fields) :
    ∀ edit ∈ assignments word order, edit.IsOf layout := by
  intro edit hmem
  obtain ⟨field, hfield, rfl⟩ := List.mem_map.mp hmem
  exact horder hfield

theorem loaded?_of_mem_assignments (word : Word) (order : List Field) :
    ∀ edit ∈ assignments word order, edit.loaded? = none := by
  intro edit hmem
  obtain ⟨field, -, rfl⟩ := List.mem_map.mp hmem
  rfl

theorem Packed.replies_assignments
    (hpacked : layout.Packed) (word start : Word)
    (horder : order ⊆ layout.fields) :
    ∀ outcome ∈ Edit.replies start (assignments word order),
      outcome.1 = .done := by
  induction order generalizing start with
  | nil => intro outcome hmem; cases hmem
  | cons first rest ih =>
      obtain ⟨hfirst, hrest⟩ := List.cons_subset.mp horder
      have hfits := hpacked.fits_field hfirst
      have happly := Edit.apply_write_of_lt hfits (hfits.toNat_get_lt word)
        .replace start
      intro outcome hmem
      cases hmem with
      | head => rw [happly]
      | tail _ hlater => exact ih _ hrest outcome hlater

theorem lastLoaded_assignments (start word : Word) (order : List Field) :
    Edit.lastLoaded start (assignments word order) = start := by
  have hnil : (assignments word order).filterMap Edit.loaded? = [] :=
    List.filterMap_eq_nil_iff.mpr (loaded?_of_mem_assignments word order)
  rw [Edit.lastLoaded, hnil]
  rfl

theorem Packed.lastStored?_assignments
    (hpacked : layout.Packed) (word : Word) (horder : order ⊆ layout.fields)
    (hfield : field ∈ order) :
    Edit.lastStored? field (assignments word order) =
      some (field.get word) := by
  have hsince : Edit.sinceLoad (assignments word order) =
      assignments word order := by
    refine List.rtakeWhile_eq_self_iff.mpr fun edit hmem => ?_
    rw [loaded?_of_mem_assignments word order edit hmem]
    rfl
  have hfits := hpacked.fits_field (horder hfield)
  let stored := (assignments word order).filterMap (Edit.stored? field)
  have hmem : field.get word ∈ stored :=
    List.mem_filterMap.mpr
      ⟨.write .replace field (field.get word),
        List.mem_map.mpr ⟨field, hfield, rfl⟩,
        if_pos ⟨rfl, hfits.toNat_get_lt word⟩⟩
  have hall : ∀ n ∈ stored, n = field.get word := by
    intro n hn
    obtain ⟨edit, hedit, hstored⟩ := List.mem_filterMap.mp hn
    obtain ⟨target, -, rfl⟩ := List.mem_map.mp hedit
    simp only [Edit.stored?, Option.ite_none_right_eq_some,
      Option.some.injEq] at hstored
    obtain ⟨⟨rfl, -⟩, rfl⟩ := hstored
    rfl
  have hsame : stored = List.replicate stored.length (field.get word) :=
    List.eq_replicate_of_mem hall
  have hne : stored.length ≠ 0 := (List.length_pos_of_mem hmem).ne'
  rw [Edit.lastStored?, hsince]
  change stored.getLast? = _
  rw [hsame, List.getLast?_replicate, if_neg hne]

/-- Stored into an empty register, the fields of a word give the word without
its padding. -/
theorem Packed.bit_run_assignments
    (hpacked : layout.Packed) (word : Word) (horder : order.Perm layout.fields)
    (i : Nat) :
    (Edit.run 0 (assignments word order)).bit i =
      if ∃ gap ∈ layout.gaps, gap.Covers i then false else word.bit i := by
  have hedits := isOf_of_mem_assignments word horder.subset
  let final := Edit.run 0 (assignments word order)
  by_cases hi : i < 32
  · obtain ⟨span, hspan, hcovers⟩ := (hpacked.exists_covers_iff i).mpr hi
    have hfits := hpacked.fits hspan
    have hget := Edit.get_run hpacked 0 hedits hspan
    obtain hfield | hgap := List.mem_append.mp hspan
    · have hmem : span ∈ order := horder.mem_iff.mpr hfield
      rw [hpacked.lastStored?_assignments word horder.subset hmem,
        Option.getD_some] at hget
      have hnotGap : ¬ ∃ gap ∈ layout.gaps, gap.Covers i := by
        rintro ⟨gap, hgap, hgapCovers⟩
        exact layout.apart_of_ne hspan (List.mem_append_right _ hgap)
          (hpacked.ne_of_mem_gaps hfield hgap) i hcovers hgapCovers
      rw [if_neg hnotGap, hfits.bit_eq_bit_get hcovers, hget,
        ← hfits.bit_eq_bit_get hcovers]
    · rw [Edit.lastStored?_gap hpacked hedits hgap, Option.getD_none,
        lastLoaded_assignments] at hget
      rw [if_pos ⟨span, hgap, hcovers⟩, hfits.bit_eq_bit_get hcovers, hget,
        hfits.bit_get, Word.bit_zero, Bool.and_false]
  · have hle : 32 ≤ i := Nat.not_lt.mp hi
    rw [word.bit_eq_false_of_le hle, final.bit_eq_false_of_le hle, ite_self]

theorem Packed.eq_iff (hpacked : layout.Packed) (word other : Word) :
    word = other ↔
      (∀ field ∈ layout.fields, field.value word = field.value other) ∧
        ∀ gap ∈ layout.gaps, gap.get word = gap.get other := by
  constructor
  · rintro rfl
    exact ⟨fun _ _ => rfl, fun _ _ => rfl⟩
  · rintro ⟨hfields, hgaps⟩
    refine hpacked.ext_get fun span hspan => ?_
    obtain hfield | hgap := List.mem_append.mp hspan
    · apply UInt32.toNat_inj.mp
      rw [← hpacked.toNat_value hfield word,
        ← hpacked.toNat_value hfield other, hfields span hfield]
    · exact hgaps span hgap

end Rebuild

/-- Every register is laid out as the data sheet says, without a bit shared or
left over, and holds nothing but its fields and its padding. -/
theorem dataSheet_exact :
    dataSheet.map Prod.fst = all ∧
      ∀ sheet ∈ dataSheet,
        let layout := sheet.1
        let rows := sheet.2
        layout.fields.map Field.name = rows.map DataSheetRow.name ∧
          (∀ row ∈ rows, ∃ field, layout.field? row.name = some field ∧
            ∀ word, (field.value word).toNat =
              word.toNat / 2 ^ row.low % 2 ^ (row.high + 1 - row.low)) ∧
          (layout.fields ++ layout.gaps).Pairwise Field.Apart ∧
          (∀ i, (∃ span ∈ layout.fields ++ layout.gaps, span.Covers i) ↔
            i < 32) ∧
          (∀ word (order : List Field), order.Perm layout.fields →
            let edits := assignments word order
            (∀ outcome ∈ Edit.replies 0 edits, outcome.1 = .done) ∧
              ∀ i, (Edit.run 0 edits).bit i =
                if ∃ gap ∈ layout.gaps, gap.Covers i then false
                else word.bit i) ∧
          ∀ word other,
            (Edit.compare other).apply word = (.equal true, word) ↔
              (∀ field ∈ layout.fields,
                field.value word = field.value other) ∧
                ∀ gap ∈ layout.gaps, gap.get word = gap.get other := by
  refine ⟨layouts_dataSheet, fun sheet hsheet => ?_⟩
  intro layout rows
  have hmem : layout ∈ all := by
    rw [← layouts_dataSheet]
    exact List.mem_map.mpr ⟨sheet, hsheet, rfl⟩
  have hpacked := packed_of_mem_all layout hmem
  refine ⟨names_dataSheet sheet hsheet, ?_, layout.pairwise_apart,
    hpacked.exists_covers_iff, ?_, ?_⟩
  · intro row hrow
    obtain ⟨field, hfield, hname, hoffset, hwidth⟩ :=
      exists_field_of_row sheet hsheet row hrow
    refine ⟨field, hname, fun word => ?_⟩
    rw [hpacked.toNat_value hfield, (hpacked.fits_field hfield).toNat_get,
      hoffset, hwidth]
  · intro word order horder edits
    exact ⟨hpacked.replies_assignments word 0 horder.subset,
      hpacked.bit_run_assignments word horder⟩
  · intro word other
    rw [← hpacked.eq_iff word other]
    simp [Edit.apply]

theorem dataSheet_exact_facc1Reversed :
    let edits := assignments 0xFFFFFFFF Facc1.layout.fields.reverse
    (∀ outcome ∈ Edit.replies 0 edits, outcome.1 = .done) ∧
      ∀ i, (Edit.run 0 edits).bit i =
        if ∃ gap ∈ Facc1.layout.gaps, gap.Covers i then false
        else Word.bit 0xFFFFFFFF i := by
  obtain ⟨-, hsheets⟩ := dataSheet_exact
  obtain ⟨-, -, -, -, hrebuild, -⟩ :=
    hsheets dataSheet[3] (List.getElem_mem (by decide))
  exact hrebuild 0xFFFFFFFF _ (List.reverse_perm _)

end Layout

end MssClock
