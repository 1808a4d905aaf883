import MssClock.Board.Boot
import MssClock.Proofs.Board.Words
import MssClock.Proofs.Clock.Learning
import MssClock.Proofs.Command.Report
import MssClock.Proofs.Command.Spelling

/-!
# From the log of a board to the decoder

Learning logs the three control words and nothing else.  Read out of the text of
that record and given to the decoder, with the reference in decimal, they make it
print what was learned: the decoder's own numbers are the ones that the board
has, and the ones that it logs for its clocks.
-/

namespace MssClock

/-! ## The logged texts -/

namespace Record

/-- The name and the number of hertz in the text of a record on a frequency. -/
def frequency? : List String → Option (String × Nat)
  | ["INFO", "rcc:", name, "=", hz, "Hz"] =>
      (decimal? hz).map fun n => (name, n)
  | _ => none

theorem frequency?_text (domain : Domain) (freq : Hertz) :
    frequency? (words (Record.frequency domain freq).text) =
      some (domain.name, freq.value.toNat) := by
  have htext : (Record.frequency domain freq).text =
      " ".intercalate ["INFO", "rcc:", domain.name, "=",
        toString freq.value.toNat, "Hz"] := by
    change "INFO" ++ " " ++ ("rcc: " ++ domain.name ++ " = " ++
      toString freq.value.toNat ++ " Hz") = _
    simp [← String.toList_inj]
  have hwords : words (Record.frequency domain freq).text =
      ["INFO", "rcc:", domain.name, "=", toString freq.value.toNat, "Hz"] := by
    rw [htext, words_intercalate]
    simp only [List.flatMap_cons, List.flatMap_nil, domain.words_name,
      words_toString]
    rfl
  rw [hwords]
  simp only [frequency?, decimal?_toString, Option.map_some]

theorem hexWords_text (facc1 pllLow pllHigh : Word) :
    hexWords (Record.controlWords facc1 pllLow pllHigh).text.toList =
      ["0x" ++ facc1.hex, "0x" ++ pllLow.hex, "0x" ++ pllHigh.hex] := by
  have htext : (Record.controlWords facc1 pllLow pllHigh).text.toList =
      "TRACE rcc: facc1=".toList ++ '0' :: 'x' :: (facc1.hex.toList ++
        (" pll_low=".toList ++ '0' :: 'x' :: (pllLow.hex.toList ++
          (" pll_high=".toList ++ '0' :: 'x' :: (pllHigh.hex.toList ++
            []))))) := by
    change ("TRACE" ++ " " ++ ("rcc: facc1=0x" ++ facc1.hex ++ " pll_low=0x" ++
      pllLow.hex ++ " pll_high=0x" ++ pllHigh.hex)).toList = _
    simp
  rw [htext, hexWords_append (by decide) (by simp), hexWords_hex _ (by simp),
    hexWords_append (by decide) (by simp), hexWords_hex _ (by simp),
    hexWords_append (by decide) (by simp), hexWords_hex _ (by simp)]
  rfl

end Record

namespace Clocks

theorem level_of_mem_records
    {clocks : Clocks} {record : Record} (hrecord : record ∈ clocks.records) :
    record.level = .info := by
  rcases List.mem_map.mp hrecord with ⟨pair, -, rfl⟩
  rfl

theorem map_frequency?_records (clocks : Clocks) :
    clocks.records.map (fun record => Record.frequency? (words record.text)) =
      clocks.named.map some := by
  unfold records named
  rw [List.map_map, List.map_map]
  apply List.map_congr_left
  intro pair _
  exact Record.frequency?_text pair.1 pair.2

end Clocks

/-! ## The logged words on the command line -/

namespace Command

/-- The text that is given for each setting. -/
def givenText (sysref : Hertz) (facc1 pllLow pllHigh : String) :
    Setting → String
  | .sysref => toString sysref.value.toNat
  | .facc1 => facc1
  | .pllLow => pllLow
  | .pllHigh => pllHigh

theorem run_hex
    (read : String → Except ReadError String)
    {order : List Setting} (horder : order.Perm Setting.all)
    (attached : Setting → Bool) (sysref : Hertz) (snapshot : Snapshot) :
    run read (Setting.arguments order attached
        (givenText sysref ("0x" ++ snapshot.facc1.hex)
          ("0x" ++ snapshot.pllLow.hex) ("0x" ++ snapshot.pllHigh.hex))) =
      .finished (Report.print (Report.lines sysref snapshot)) := by
  let text : Setting → String :=
    givenText sysref ("0x" ++ snapshot.facc1.hex)
      ("0x" ++ snapshot.pllLow.hex) ("0x" ++ snapshot.pllHigh.hex)
  let word : Setting → UInt32
    | .sysref => sysref.value
    | .facc1 => snapshot.facc1
    | .pllLow => snapshot.pllLow
    | .pllHigh => snapshot.pllHigh
  have hword : ∀ s, readWord (text s) = .ok (word s) := by
    intro s
    cases s with
    | sysref => exact readWord_toString sysref.value
    | facc1 => exact readWord_hex snapshot.facc1
    | pllLow => exact readWord_hex snapshot.pllLow
    | pllHigh => exact readWord_hex snapshot.pllHigh
  have hvalue : ∀ s, IsValue (text s) := by
    intro s
    unfold IsValue
    cases s with
    | sysref =>
        intro hhead
        have hdigit := isDigit_of_mem_toString (List.mem_of_head? hhead)
        exact absurd hdigit (by decide)
    | facc1 | pllLow | pllHigh => simp [text, givenText]
  unfold run
  rw [Given.ofArguments_settings horder attached hvalue hword]
  simp only [Given.decode_ofSettings]
  rfl

end Command

namespace Board

/-- The words that learning logs make the decoder print what was learned. -/
theorem learn_printed
    (board : Board) (sysref : Hertz)
    (read : String → Except ReadError String)
    {order : List Setting} (horder : order.Perm Setting.all)
    (attached : Setting → Bool) :
    let learned := board.learn sysref
    let clocks := learned.1
    ∃ record facc1 pllLow pllHigh printed,
      learned.2.records.toList = [record] ∧ record.level = .trace ∧
      hexWords record.text.toList = [facc1, pllLow, pllHigh] ∧
      Command.run read (Setting.arguments order attached
          (Command.givenText sysref facc1 pllLow pllHigh)) =
        .finished printed ∧
      Report.frequencies printed = clocks.named ∧
      clocks.records.length = Domain.count ∧
      (∀ record ∈ clocks.records, record.level = .info) ∧
      clocks.records.map
          (fun record => Record.frequency? (words record.text)) =
        clocks.named.map some := by
  intro learned clocks
  let snapshot : Snapshot :=
    ⟨board.read .facc1, board.read .pllStatusLow, board.read .pllStatusHigh⟩
  let record : Record :=
    .controlWords snapshot.facc1 snapshot.pllLow snapshot.pllHigh
  have hlearned := (Session.start board).learn_eq_extend sysref
  have hclocks : clocks = snapshot.derive sysref := congrArg Prod.fst hlearned
  have hrecords : learned.2.records.toList = [record] := by
    calc
      learned.2.records.toList = _ :=
        congrArg (fun result => result.2.records.toList) hlearned
      _ = [record] := by
        simp only [Session.start, Session.extend, Array.toList_append,
          List.nil_append]
        rfl
  refine ⟨record, _, _, _, _, hrecords, rfl, Record.hexWords_text _ _ _,
    Command.run_hex read horder attached sysref snapshot, ?_, ?_, ?_, ?_⟩
  · rw [Report.frequencies_print_lines, hclocks]
  · rfl
  · intro _
    exact Clocks.level_of_mem_records
  · exact clocks.map_frequency?_records

theorem learn_printed_boot :
    let board := ((boot.setWord .sysreg (Block.wordAt 0x090) 0x180).setWord
      .sysreg (Block.wordAt 0x094) 0x8).setWord .sysreg (Block.wordAt 0x098)
        0x249
    let learned := board.learn ⟨50000000⟩
    let order : List Setting := [.pllHigh, .sysref, .facc1, .pllLow]
    order.Perm Setting.all ∧
      learned.2.records.toList.map (fun record => hexWords record.text.toList) =
        [["0x00000249", "0x00000180", "0x00000008"]] ∧
      (∃ printed,
        Command.run (fun _ => .error .notFound)
            ["--pll-high=0x00000008", "--sysref", "50000000",
              "--facc1=0x00000249", "--pll-low", "0x00000180"] =
          .finished printed ∧
        Report.frequencies printed = learned.1.named) ∧
      learned.1.named =
        [("sysref", 50000000), ("ddr", 350000000), ("clk_a", 175000000),
          ("systick", 87500000), ("pclk0", 43750000), ("pclk1", 43750000),
          ("fic0", 175000000), ("fic1", 175000000),
          ("ddr_fic", 175000000)] := by
  intro board learned order
  have horder : order.Perm Setting.all := by decide
  have hlogged :
      learned.2.records.toList.map (fun record => hexWords record.text.toList) =
        [["0x00000249", "0x00000180", "0x00000008"]] := by
    decide +kernel
  obtain ⟨record, facc1, pllLow, pllHigh, printed, hrecords, -, hwords, hrun,
    hfrequencies, -⟩ :=
    learn_printed board ⟨50000000⟩ (fun _ => .error .notFound) horder
      fun s => s = .pllHigh ∨ s = .facc1
  have hsame : [[facc1, pllLow, pllHigh]] =
      [["0x00000249", "0x00000180", "0x00000008"]] := by
    rw [← hlogged, hrecords, List.map_singleton, hwords]
  simp only [List.cons.injEq, and_true] at hsame
  obtain ⟨rfl, rfl, rfl⟩ := hsame
  exact ⟨horder, hlogged, ⟨printed, hrun, hfrequencies⟩, by decide +kernel⟩

end Board

end MssClock
