import MssClock.Proofs.Clock.Evaluation
import MssClock.Proofs.Register.Bits

/-!
# The clock tree, domain by domain

Every domain follows from its parent in the clocks that are learned.  Here the
tree is read a second time as arithmetic on natural numbers, with the dividers
taken from the words by their offsets instead of through the declared fields.
-/

namespace MssClock

/-! ## Dividers by their offsets -/

namespace Encoding

theorem toNat_and_fieldMask (word : Word) :
    (word &&& fieldMask).toNat = word.toNat % 8 := by
  rw [UInt32.toNat_and]
  exact Nat.and_two_pow_sub_one_eq_mod word.toNat 3

/-- A decoder takes the lowest three bits only, so taking them before it
makes no difference. -/
theorem divisor_and_fieldMask (encoding : Encoding) (word : Word) :
    encoding.divisor (word &&& fieldMask) = encoding.divisor word := by
  have hmask : word &&& fieldMask &&& fieldMask = word &&& fieldMask := by
    rw [UInt32.and_assoc, UInt32.and_self]
  simp only [divisor, hmask]

/-- Three bits fit into one byte. -/
theorem toUInt8_and_fieldMask (word : Word) :
    (word &&& fieldMask).toUInt8.toUInt32 = word &&& fieldMask := by
  have hlt : (word &&& fieldMask).toNat < 2 ^ 8 := by
    rw [toNat_and_fieldMask]
    omega
  apply UInt32.toNat_inj.mp
  rw [UInt8.toNat_toUInt32, UInt32.toNat_toUInt8, Nat.mod_eq_of_lt hlt]

theorem divisor_get
    (encoding : Encoding) {field : Field} (word : Word)
    (hwidth : field.width = 3) (hoffset : field.offset < 32) :
    encoding.divisor (field.get word) =
      encoding.divisorAt word (UInt32.ofNat field.offset) := by
  have hlargest : field.largest = fieldMask := by
    rw [Field.largest, hwidth]
    rfl
  have hlt : UInt32.ofNat field.offset < 32 := by
    rw [UInt32.lt_iff_toNat_lt, UInt32.toNat_ofNat',
      Nat.mod_eq_of_lt (by omega)]
    exact hoffset
  rw [Field.get, hlargest, divisorAt, if_pos hlt, toUInt8_and_fieldMask]

end Encoding

theorem Field.toNat_get_bits_add_one
    (name : String) {high low : Nat} (hhigh : high < 31) (hlow : low ≤ high)
    (word : Word) :
    ((bits name high low).get word + 1).toNat =
      word.toNat / 2 ^ low % 2 ^ (high + 1 - low) + 1 := by
  have hfits := bits_fits name (by omega : high < 32) hlow
  have hwidth : (bits name high low).width < 32 := by
    simp only [bits]
    omega
  rw [hfits.toNat_get_add_one hwidth, hfits.toNat_get]
  rfl

namespace Snapshot

variable (snapshot : Snapshot) (sysref : Nat)

/-- The product of the reference and the PLL factors, which wraps. -/
def vcoByBits : Nat :=
  sysref / (snapshot.pllLow.toNat % 64 + 1) *
    (snapshot.pllLow.toNat / 64 % 1024 + 1) % UInt32.size

def ddrByBits : Nat :=
  if snapshot.pllHigh.bit 3 then
    snapshot.vcoByBits sysref /
      (Encoding.extended.divisorAt snapshot.pllLow 16).toNat
  else 2 * snapshot.vcoByBits sysref % UInt32.size

def clkAByBits : Nat :=
  snapshot.ddrByBits sysref / (snapshot.facc1.toNat % 4 + 1)

/-- A second-stage frequency whose divider starts at bit `offset`. -/
def secondStageByBits (offset : Word) : Nat :=
  snapshot.clkAByBits sysref /
    (Encoding.normal.divisorAt snapshot.facc1 offset).toNat

def frequencyByBits : Domain → Nat
  | .sysref => sysref
  | .ddr => snapshot.ddrByBits sysref
  | .clkA => snapshot.clkAByBits sysref
  | .systick => snapshot.secondStageByBits sysref 9
  | .pclk0 => snapshot.secondStageByBits sysref 2
  | .pclk1 => snapshot.secondStageByBits sysref 5
  | .fic0 => snapshot.secondStageByBits sysref 13
  | .fic1 => snapshot.secondStageByBits sysref 16
  | .ddrFic => snapshot.secondStageByBits sysref 19

theorem toNat_divr : snapshot.divr.toNat = snapshot.pllLow.toNat % 64 := by
  have hget := (Field.bits_fits "divr" (by decide : 5 < 32)
    (by decide : 0 ≤ 5)).toNat_get snapshot.pllLow
  simpa [divr, PllStatusLow.divr, Field.bits] using hget

theorem toNat_divf :
    snapshot.divf.toNat = snapshot.pllLow.toNat / 64 % 1024 :=
  (Field.bits_fits "divf" (by decide : 15 < 32)
    (by decide : 6 ≤ 15)).toNat_get snapshot.pllLow

theorem fse_eq_bit : snapshot.fse = snapshot.pllHigh.bit 3 :=
  Field.isSet_flag _ (by decide) _

theorem fse_eq_decide :
    snapshot.fse = decide (snapshot.pllHigh.toNat / 8 % 2 = 1) := by
  rw [fse_eq_bit, Word.bit, Nat.testBit_eq_decide_div_mod_eq]

theorem divq_eq_divisorAt :
    snapshot.divq = Encoding.extended.divisorAt snapshot.pllLow 16 :=
  Encoding.extended.divisor_get snapshot.pllLow rfl (by decide)

theorem toNat_mpllOutput (freq : Hertz) :
    (snapshot.mpllOutput freq).value.toNat =
      snapshot.ddrByBits freq.value.toNat := by
  have hdivr : (snapshot.divr + 1).toNat =
      snapshot.pllLow.toNat % 64 + 1 := by
    simpa [divr, PllStatusLow.divr] using
      Field.toNat_get_bits_add_one "divr" (by decide : 5 < 31)
        (by decide : 0 ≤ 5) snapshot.pllLow
  have hdivf : (snapshot.divf + 1).toNat =
      snapshot.pllLow.toNat / 64 % 1024 + 1 :=
    Field.toNat_get_bits_add_one "divf" (by decide : 15 < 31)
      (by decide : 6 ≤ 15) snapshot.pllLow
  have hvco : (freq / (snapshot.divr + 1) *
      (snapshot.divf + 1)).value.toNat =
        snapshot.vcoByBits freq.value.toNat := by
    rw [Hertz.value_mul, Hertz.value_div, UInt32.toNat_mul, UInt32.toNat_div,
      hdivr, hdivf]
    rfl
  rw [mpllOutput, ddrByBits, fse_eq_bit]
  split
  · rw [Hertz.value_div, UInt32.toNat_div, hvco, divq_eq_divisorAt]
  · rw [Hertz.value_mul, UInt32.toNat_mul, hvco, Nat.mul_comm]
    rfl

theorem toNat_clkA (freq : Hertz) :
    (snapshot.stage .clkA freq).value.toNat =
      freq.value.toNat / (snapshot.facc1.toNat % 4 + 1) := by
  have hdivisorA : (Facc1.divisorA.get snapshot.facc1 + 1).toNat =
      snapshot.facc1.toNat % 4 + 1 := by
    simpa [Facc1.divisorA] using
      Field.toNat_get_bits_add_one "divisor_a" (by decide : 1 < 31)
        (by decide : 0 ≤ 1) snapshot.facc1
  rw [stage, Hertz.value_div, UInt32.toNat_div, hdivisorA]

theorem secondStage_eq_divisorAt
    (field : Field) (hwidth : field.width = 3) (hoffset : field.offset < 32) :
    snapshot.secondStage field =
      Encoding.normal.divisorAt snapshot.facc1 (UInt32.ofNat field.offset) :=
  Encoding.normal.divisor_get snapshot.facc1 hwidth hoffset

variable (sysref : Hertz)

theorem toNat_get_derive_ddr :
    ((snapshot.derive sysref).get .ddr).value.toNat =
      snapshot.ddrByBits sysref.value.toNat := by
  have hsysref : (snapshot.derive sysref).get .sysref = sysref :=
    snapshot.get_derive sysref .sysref
  rw [snapshot.get_derive sysref .ddr]
  calc
    (snapshot.mpllOutput ((snapshot.derive sysref).get .sysref)).value.toNat =
        (snapshot.mpllOutput sysref).value.toNat := by rw [hsysref]
    _ = snapshot.ddrByBits sysref.value.toNat :=
      snapshot.toNat_mpllOutput sysref

theorem toNat_get_derive_clkA :
    ((snapshot.derive sysref).get .clkA).value.toNat =
      snapshot.clkAByBits sysref.value.toNat := by
  rw [snapshot.get_derive sysref .clkA, clkAByBits,
    ← snapshot.toNat_get_derive_ddr sysref]
  exact snapshot.toNat_clkA _

/-- The domains of the second stage differ in their divider alone. -/
theorem toNat_get_derive_secondStage
    {domain : Domain} {divider offset : Word}
    (hdomain : (snapshot.derive sysref).get domain =
      (snapshot.derive sysref).get .clkA / divider)
    (hdivider : divider = Encoding.normal.divisorAt snapshot.facc1 offset) :
    ((snapshot.derive sysref).get domain).value.toNat =
      snapshot.secondStageByBits sysref.value.toNat offset := by
  rw [hdomain, hdivider, Hertz.value_div, UInt32.toNat_div,
    toNat_get_derive_clkA]
  rfl

/-- The evaluator agrees with the arithmetic on the bits, for every reference
and whatever the three words are: each divider is the same whether its field
is read and decoded or the word is decoded at the field's offset, and so is
the frequency of each domain. -/
theorem toNat_get_derive (facc1 pllLow pllHigh : Word) (sysref : Hertz) :
    let snapshot : Snapshot := ⟨facc1, pllLow, pllHigh⟩
    snapshot.divq = Encoding.extended.divisorAt pllLow 16 ∧
      [Facc1.m3ClkDivisor, Facc1.apb0Divisor, Facc1.apb1Divisor,
          Facc1.fic0Divisor, Facc1.fic1Divisor, Facc1.ddrFicDivisor].map
            snapshot.secondStage =
        [9, 2, 5, 13, 16, 19].map (Encoding.normal.divisorAt facc1) ∧
      ∀ domain, ((snapshot.derive sysref).get domain).value.toNat =
        snapshot.frequencyByBits sysref.value.toNat domain := by
  intro snapshot
  have hsystick := snapshot.secondStage_eq_divisorAt
    Facc1.m3ClkDivisor rfl (by decide)
  have hpclk0 := snapshot.secondStage_eq_divisorAt
    Facc1.apb0Divisor rfl (by decide)
  have hpclk1 := snapshot.secondStage_eq_divisorAt
    Facc1.apb1Divisor rfl (by decide)
  have hfic0 := snapshot.secondStage_eq_divisorAt
    Facc1.fic0Divisor rfl (by decide)
  have hfic1 := snapshot.secondStage_eq_divisorAt
    Facc1.fic1Divisor rfl (by decide)
  have hddrFic := snapshot.secondStage_eq_divisorAt
    Facc1.ddrFicDivisor rfl (by decide)
  refine ⟨snapshot.divq_eq_divisorAt, ?_, ?_⟩
  · simp only [List.map_cons, List.map_nil]
    rw [hsystick, hpclk0, hpclk1, hfic0, hfic1, hddrFic]
    rfl
  · have hnode := snapshot.get_derive sysref
    intro domain
    cases domain with
    | sysref => exact congrArg (·.value.toNat) (hnode .sysref)
    | ddr => exact snapshot.toNat_get_derive_ddr sysref
    | clkA => exact snapshot.toNat_get_derive_clkA sysref
    | systick =>
        exact snapshot.toNat_get_derive_secondStage sysref (hnode .systick)
          hsystick
    | pclk0 =>
        exact snapshot.toNat_get_derive_secondStage sysref (hnode .pclk0)
          hpclk0
    | pclk1 =>
        exact snapshot.toNat_get_derive_secondStage sysref (hnode .pclk1)
          hpclk1
    | fic0 =>
        exact snapshot.toNat_get_derive_secondStage sysref (hnode .fic0)
          hfic0
    | fic1 =>
        exact snapshot.toNat_get_derive_secondStage sysref (hnode .fic1)
          hfic1
    | ddrFic =>
        exact snapshot.toNat_get_derive_secondStage sysref (hnode .ddrFic)
          hddrFic

end Snapshot

end MssClock
