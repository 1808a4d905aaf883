import MssClock.Proofs.Clock.Wrap
import Mathlib.Tactic.Linarith
import Mathlib.Tactic.Ring

/-!
# What the dividers truncate

Every divider drops a remainder, and up to four of them stand between the
reference and a domain.  Quotients of quotients are quotients by the product,
so that below the PLL output a domain is a single quotient, and a single
quotient of the product of the PLL as well if that product fits 32 bits.  The
reference divider stands before the multiplication, where its remainder counts
once for each unit of the factor; what is lost in all follows from the two
remainders.
-/

namespace MssClock

section Lost

variable {number divisor total : Nat}

/-- A number that is divided, multiplied and divided again is short of its
multiple by the two remainders. -/
theorem mul_eq_quotient_add_remainders (number divisor factor total : Nat) :
    number * factor =
      divisor * (total * (number / divisor * factor / total)) +
        (number % divisor * factor +
          divisor * (number / divisor * factor % total)) := by
  let product := number / divisor * factor
  have hnumber : divisor * (number / divisor) + number % divisor = number :=
    Nat.div_add_mod number divisor
  have hproduct : total * (product / total) + product % total = product :=
    Nat.div_add_mod product total
  calc
    number * factor =
        (divisor * (number / divisor) + number % divisor) * factor := by
      rw [hnumber]
    _ = divisor * product + number % divisor * factor := by ring
    _ = divisor * (total * (product / total) + product % total) +
        number % divisor * factor := by rw [hproduct]
    _ = _ := by ring

theorem truncated_quotient_bounds
    (hdivisor : 0 < divisor) (htotal : 0 < total) (factor : Nat) :
    let quotient := number / divisor * factor / total
    let lost : Int := number * factor - divisor * (total * quotient)
    0 ≤ lost ∧ lost ≤ (divisor - 1) * factor + divisor * (total - 1) := by
  intro quotient lost
  let coarse := number % divisor
  let fine := number / divisor * factor % total
  have hlost : lost = coarse * factor + divisor * fine := by
    have hexact : number * factor =
        divisor * (total * quotient) + (coarse * factor + divisor * fine) :=
      mul_eq_quotient_add_remainders number divisor factor total
    have hcast : (number * factor : Int) =
        divisor * (total * quotient) + (coarse * factor + divisor * fine) := by
      exact_mod_cast hexact
    exact sub_eq_of_eq_add' hcast
  have hcoarse : (coarse : Int) ≤ divisor - 1 := by
    have hlt : coarse < divisor := Nat.mod_lt number hdivisor
    omega
  have hfine : (fine : Int) ≤ total - 1 := by
    have hlt : fine < total := Nat.mod_lt _ htotal
    omega
  rw [hlost]
  refine ⟨by positivity, add_le_add ?_ ?_⟩
  · exact mul_le_mul_of_nonneg_right hcoarse (by positivity)
  · exact mul_le_mul_of_nonneg_left hfine (by positivity)

end Lost

/-! ## The dividers on the way to a domain -/

/-- The divider that feeds a domain of the second stage. -/
def Domain.divider : Domain → Option Field
  | .sysref | .ddr | .clkA => none
  | .systick => some Facc1.m3ClkDivisor
  | .pclk0 => some Facc1.apb0Divisor
  | .pclk1 => some Facc1.apb1Divisor
  | .fic0 => some Facc1.fic0Divisor
  | .fic1 => some Facc1.fic1Divisor
  | .ddrFic => some Facc1.ddrFicDivisor

namespace Snapshot

section Divisors

variable (snapshot : Snapshot)

/-- The divisor of the common source of the second stage. -/
def firstDivisor : Nat :=
  (Facc1.divisorA.get snapshot.facc1).toNat + 1

theorem firstDivisor_eq :
    snapshot.firstDivisor = snapshot.facc1.toNat % 4 + 1 := by
  have hget := (Field.bits_fits "divisor_a" (by decide : 1 < 32)
    (by decide : 0 ≤ 1)).toNat_get snapshot.facc1
  simpa [firstDivisor, Facc1.divisorA, Field.bits] using hget

/-- What the PLL output is divided by on the way to a domain. -/
def outputDivisor (domain : Domain) : Nat :=
  match domain.divider with
  | some divider =>
      snapshot.firstDivisor * (snapshot.secondStage divider).toNat
  | none => if domain = .clkA then snapshot.firstDivisor else 1

theorem outputDivisor_pos (domain : Domain) :
    0 < snapshot.outputDivisor domain := by
  unfold outputDivisor
  split
  · exact Nat.mul_pos (Nat.succ_pos _) (Encoding.normal.toNat_divisor_pos _)
  · split
    · exact Nat.succ_pos _
    · exact Nat.one_pos

end Divisors

section Frequency

variable (snapshot : Snapshot) (sysref : Hertz)

/-- The learned frequency of a domain, as a number. -/
def frequency (domain : Domain) : Nat :=
  ((snapshot.derive sysref).get domain).value.toNat

theorem frequency_clkA :
    snapshot.frequency sysref .clkA =
      snapshot.frequency sysref .ddr / snapshot.firstDivisor := by
  rw [frequency, frequency, toNat_get_derive_clkA, toNat_get_derive_ddr,
    firstDivisor_eq]
  rfl

theorem frequency_of_divider
    {domain : Domain} {divider : Field}
    (hdivider : domain.divider = some divider) :
    snapshot.frequency sysref domain =
      snapshot.frequency sysref .clkA /
        (snapshot.secondStage divider).toNat := by
  have hnode : (snapshot.derive sysref).get domain =
      (snapshot.derive sysref).get .clkA / snapshot.secondStage divider := by
    rw [snapshot.get_derive sysref domain]
    cases domain <;> cases hdivider <;> rfl
  rw [frequency, hnode, Hertz.value_div, UInt32.toNat_div]
  rfl

theorem frequency_eq_div {domain : Domain} (hdomain : domain ≠ .sysref) :
    snapshot.frequency sysref domain =
      snapshot.frequency sysref .ddr / snapshot.outputDivisor domain := by
  unfold outputDivisor
  cases hdivider : domain.divider with
  | some divider =>
      rw [frequency_of_divider snapshot sysref hdivider, frequency_clkA,
        Nat.div_div_eq_div_mul]
  | none =>
      cases domain with
      | sysref => exact absurd rfl hdomain
      | ddr => exact (Nat.div_one _).symm
      | clkA => exact snapshot.frequency_clkA sysref
      | systick | pclk0 | pclk1 | fic0 | fic1 | ddrFic => cases hdivider

/-- The PLL output is computed without a wrap. -/
def ProductFits : Prop :=
  let product := sysref.value.toNat / (snapshot.divr.toNat + 1) *
    (snapshot.divf.toNat + 1)
  if snapshot.fse then product < UInt32.size else 2 * product < UInt32.size

theorem productFits_iff :
    snapshot.ProductFits sysref ↔
      snapshot.largestProduct sysref.value.toNat < UInt32.size := by
  rw [ProductFits, largestProduct, toNat_divr, toNat_divf, fse_eq_bit]
  split <;> rfl

instance : Decidable (snapshot.ProductFits sysref) :=
  decidable_of_iff _ (snapshot.productFits_iff sysref).symm

/-- What the reference is multiplied by once it has been divided. -/
def factor : Nat :=
  if snapshot.fse then snapshot.divf.toNat + 1
  else 2 * (snapshot.divf.toNat + 1)

theorem largestProduct_eq (reference : Nat) :
    snapshot.largestProduct reference =
      reference / (snapshot.divr.toNat + 1) * snapshot.factor := by
  rw [largestProduct, factor, toNat_divr, toNat_divf, fse_eq_bit]
  split
  · rfl
  · rw [Nat.mul_left_comm]

variable {snapshot sysref}

theorem ProductFits.frequency_eq
    (hfits : snapshot.ProductFits sysref)
    {domain : Domain} (hdomain : domain ≠ .sysref) :
    snapshot.frequency sysref domain =
      snapshot.largestProduct sysref.value.toNat /
        (snapshot.lastDivisor * snapshot.outputDivisor domain) := by
  have hlt := (snapshot.productFits_iff sysref).mp hfits
  have hddr : snapshot.frequency sysref .ddr =
      snapshot.largestProduct sysref.value.toNat / snapshot.lastDivisor := by
    rw [frequency, toNat_get_derive_ddr, ddrByBits_eq, Nat.mod_eq_of_lt hlt]
  rw [frequency_eq_div snapshot sysref hdomain, hddr,
    Nat.div_div_eq_div_mul]

theorem ProductFits.lost_bounds
    (hfits : snapshot.ProductFits sysref)
    {domain : Domain} (hdomain : domain ≠ .sysref) :
    let divisor := snapshot.divr.toNat + 1
    let total := snapshot.lastDivisor * snapshot.outputDivisor domain
    let lost : Int := sysref.value.toNat * snapshot.factor -
      divisor * (total * snapshot.frequency sysref domain)
    0 ≤ lost ∧
      lost ≤ (divisor - 1) * snapshot.factor + divisor * (total - 1) := by
  intro divisor total
  have htotal : 0 < total :=
    Nat.mul_pos snapshot.lastDivisor_pos (snapshot.outputDivisor_pos domain)
  rw [hfits.frequency_eq hdomain, largestProduct_eq]
  exact truncated_quotient_bounds (Nat.succ_pos _) htotal snapshot.factor

end Frequency

/-- A frequency of the second stage is one truncated quotient of the PLL
output.  Without a wrap in the PLL, what it is short of the exact frequency is
bounded by the dividers and the factor alone, whatever the reference. -/
theorem secondStage_truncation (snapshot : Snapshot) (sysref : Hertz)
    {domain : Domain} {divider : Field}
    (hdivider : domain.divider = some divider) :
    let f := snapshot.frequency sysref domain
    let s := sysref.value.toNat
    let r := snapshot.divr.toNat + 1
    let m := snapshot.divf.toNat + 1
    let d := snapshot.divq.toNat
    let D := ((Facc1.divisorA.get snapshot.facc1).toNat + 1) *
      (snapshot.secondStage divider).toNat
    f = snapshot.frequency sysref .ddr / D ∧
      f ≤ snapshot.frequency sysref .clkA ∧
      snapshot.frequency sysref .clkA ≤ snapshot.frequency sysref .ddr ∧
      (snapshot.ProductFits sysref →
        (snapshot.fse = true →
          let lost : Int := s * m - r * d * D * f
          0 ≤ lost ∧ lost ≤ (r - 1) * m + r * (d * D - 1)) ∧
        (snapshot.fse = false →
          let lost : Int := 2 * s * m - r * D * f
          0 ≤ lost ∧ lost ≤ 2 * (r - 1) * m + r * (D - 1))) := by
  intro f s r m d D
  have hdomain : domain ≠ .sysref := by
    rintro rfl
    cases hdivider
  have houtput : snapshot.outputDivisor domain = D := by
    rw [outputDivisor, hdivider]
    rfl
  refine ⟨?_, ?_, ?_, fun hfits => ?_⟩
  · rw [← houtput]
    exact snapshot.frequency_eq_div sysref hdomain
  · exact (snapshot.frequency_of_divider sysref hdivider).trans_le
      (Nat.div_le_self _ _)
  · exact (snapshot.frequency_clkA sysref).trans_le (Nat.div_le_self _ _)
  · have hbounds := hfits.lost_bounds hdomain
    rw [houtput, factor, lastDivisor, ← fse_eq_bit] at hbounds
    refine ⟨fun hfse => ?_, fun hfse => ?_⟩
    · obtain ⟨hnonneg, hle⟩ :
          (0 : Int) ≤ s * m - r * (d * D * f) ∧
            (s * m - r * (d * D * f) : Int) ≤
              (r - 1) * m + r * (d * D - 1) := by
        simpa only [hfse, if_true, Nat.cast_mul] using hbounds
      exact ⟨by linarith, by linarith⟩
    · obtain ⟨hnonneg, hle⟩ :
          (0 : Int) ≤ s * (2 * m) - r * (D * f) ∧
            (s * (2 * m) - r * (D * f) : Int) ≤
              (r - 1) * (2 * m) + r * (D - 1) := by
        simpa only [hfse, Bool.false_eq_true, if_false, one_mul, Nat.cast_mul,
          Nat.cast_ofNat] using hbounds
      exact ⟨by linarith, by linarith⟩

theorem secondStage_truncation_everyDivider :
    let snapshot : Snapshot := ⟨0x2C6046, 0x100C2, 8⟩
    let f := snapshot.frequency ⟨100000000⟩ .fic1
    let lost : Int := 400000000 - 144 * f
    Domain.fic1.divider = some Facc1.fic1Divisor ∧
      snapshot.ProductFits ⟨100000000⟩ ∧ snapshot.fse = true ∧
      f = snapshot.frequency ⟨100000000⟩ .ddr / 24 ∧
      0 ≤ lost ∧ lost ≤ 149 := by
  intro snapshot f lost
  have hfits : snapshot.ProductFits ⟨100000000⟩ := by decide
  have hfse : snapshot.fse = true := by decide
  have hdivr : snapshot.divr.toNat = 2 := by decide
  have hdivf : snapshot.divf.toNat = 3 := by decide
  have hdivq : snapshot.divq.toNat = 2 := by decide
  have hdivisor : ((Facc1.divisorA.get snapshot.facc1).toNat + 1) *
      (snapshot.secondStage Facc1.fic1Divisor).toNat = 24 := by decide
  have hsysref : (100000000 : UInt32).toNat = 100000000 := rfl
  obtain ⟨hquotient, -, -, hlost⟩ :=
    snapshot.secondStage_truncation ⟨100000000⟩
      (rfl : Domain.fic1.divider = some Facc1.fic1Divisor)
  obtain ⟨hnonneg, hle⟩ := (hlost hfits).1 hfse
  rw [hdivisor] at hquotient
  rw [hsysref, hdivr, hdivf, hdivq, hdivisor] at hnonneg hle
  exact ⟨rfl, hfits, hfse, hquotient, by omega, by omega⟩

end Snapshot

end MssClock
