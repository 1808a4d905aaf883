import MssClock.Proofs.Clock.Tree
import Mathlib.Tactic.IntervalCases

/-!
# Wrapped and exact PLL outputs

The PLL output is computed in 32 bits, and the exact one in natural numbers.
They agree modulo a period.  Without the internal feedback that is the word
size; with it the wrapped product is divided once more, by a power of two, and
the period is divided along with it.  So no wrap is hidden by the last
division: an exact output below the period comes from a product that fits.
-/

namespace MssClock

/-! ## Remainders -/

section Remainder

variable {size divisor exact period : Nat}

theorem mod_div_of_dvd (hpos : 0 < divisor) (hdvd : divisor ∣ size)
    (number : Nat) :
    number % size / divisor = number / divisor % (size / divisor) := by
  obtain ⟨period, rfl⟩ := hdvd
  rw [Nat.mod_mul_right_div_self, Nat.mul_div_cancel_left period hpos]

theorem div_lt_div_iff_of_dvd (hpos : 0 < divisor) (hdvd : divisor ∣ size)
    {number : Nat} : number / divisor < size / divisor ↔ number < size := by
  rw [Nat.div_lt_iff_lt_mul hpos, Nat.div_mul_cancel hdvd]

/-- A remainder that is not the number is short of it by whole periods. -/
theorem short_of_mod_ne (hpos : 0 < period) (hne : exact % period ≠ exact) :
    exact % period < exact ∧
      ∃ turns > 0, exact % period + turns * period = exact := by
  have hle : period ≤ exact := by
    by_contra hlt
    exact hne (Nat.mod_eq_of_lt (by omega))
  exact ⟨(Nat.mod_lt exact hpos).trans_le hle,
    exact / period, Nat.div_pos hle hpos, Nat.mod_add_div' exact period⟩

end Remainder

/-! ## The output divider -/

namespace Encoding

theorem toNat_divisor_dvd (encoding : Encoding) (field : Word) :
    (encoding.divisor field).toNat ∣ 32 := by
  unfold divisor
  split <;> decide

theorem toNat_divisor_pos (encoding : Encoding) (field : Word) :
    0 < (encoding.divisor field).toNat :=
  Nat.pos_of_dvd_of_pos (encoding.toNat_divisor_dvd field) (by decide)

theorem toNat_divisor_le (encoding : Encoding) (field : Word) :
    (encoding.divisor field).toNat ≤ 32 :=
  Nat.le_of_dvd (by decide) (encoding.toNat_divisor_dvd field)

theorem toNat_divisor_extended (field : Word) :
    (extended.divisor field).toNat = 2 ^ min (field.toNat % 8) 5 := by
  have hlt : field.toNat % 8 < 8 := Nat.mod_lt _ (by decide)
  unfold divisor
  rw [toNat_and_fieldMask]
  interval_cases field.toNat % 8 <;> rfl

end Encoding

namespace Snapshot

section Divider

variable (snapshot : Snapshot)

theorem toNat_divq :
    snapshot.divq.toNat = 2 ^ min (snapshot.pllLow.toNat / 65536 % 8) 5 := by
  have hget := (Field.bits_fits "divq" (by decide : 18 < 32)
    (by decide : 16 ≤ 18)).toNat_get snapshot.pllLow
  have hfield : (PllStatusLow.divq.get snapshot.pllLow).toNat =
      snapshot.pllLow.toNat / 65536 % 8 := hget
  rw [divq, Encoding.toNat_divisor_extended, hfield, Nat.mod_mod]

theorem divq_pos : 0 < snapshot.divq.toNat :=
  Encoding.extended.toNat_divisor_pos _

theorem divq_dvd_size : snapshot.divq.toNat ∣ UInt32.size :=
  (Encoding.extended.toNat_divisor_dvd _).trans (by decide)

end Divider

/-! ## The exact output -/

section Exact

variable (snapshot : Snapshot) (sysref : Nat)

/-- The last number of the computation that has to fit 32 bits. -/
def largestProduct : Nat :=
  let product := sysref / (snapshot.pllLow.toNat % 64 + 1) *
    (snapshot.pllLow.toNat / 64 % 1024 + 1)
  if snapshot.pllHigh.bit 3 then product else 2 * product

def lastDivisor : Nat :=
  if snapshot.pllHigh.bit 3 then snapshot.divq.toNat else 1

theorem ddrByBits_eq :
    snapshot.ddrByBits sysref =
      snapshot.largestProduct sysref % UInt32.size / snapshot.lastDivisor := by
  unfold ddrByBits vcoByBits largestProduct lastDivisor
  rw [← divq_eq_divisorAt]
  split
  · rfl
  · rw [Nat.div_one, Nat.mul_mod_mod]

theorem lastDivisor_pos : 0 < snapshot.lastDivisor := by
  unfold lastDivisor
  split
  · exact snapshot.divq_pos
  · exact Nat.one_pos

theorem lastDivisor_dvd_size : snapshot.lastDivisor ∣ UInt32.size := by
  unfold lastDivisor
  split
  · exact snapshot.divq_dvd_size
  · exact one_dvd _

/-- What the wrap leaves is the remainder of the exact output. -/
theorem toNat_mpllOutput_eq_mod (freq : Hertz) :
    (snapshot.mpllOutput freq).value.toNat =
      snapshot.largestProduct freq.value.toNat / snapshot.lastDivisor %
        (UInt32.size / snapshot.lastDivisor) := by
  rw [toNat_mpllOutput, ddrByBits_eq,
    mod_div_of_dvd snapshot.lastDivisor_pos snapshot.lastDivisor_dvd_size]

end Exact

/-- The output of the PLL is the exact one if and only if the largest product
of the computation fits 32 bits, and any other is too small. -/
theorem mpllOutput_exact_iff (snapshot : Snapshot) (sysref : Hertz) :
    let low := snapshot.pllLow.toNat
    let quotient := sysref.value.toNat / (low % 64 + 1)
    let factor := low / 64 % 1024 + 1
    let divisor := 2 ^ min (low / 65536 % 8) 5
    let feedback := snapshot.pllHigh.bit 3
    let output := (snapshot.mpllOutput sysref).value.toNat
    let exact :=
      if feedback then quotient * factor / divisor else 2 * quotient * factor
    let period := if feedback then UInt32.size / divisor else UInt32.size
    snapshot.divr.toNat = low % 64 ∧ snapshot.divf.toNat = low / 64 % 1024 ∧
      snapshot.divq.toNat = divisor ∧ snapshot.fse = feedback ∧
      (output = exact ↔
        if feedback then quotient * factor < UInt32.size
        else 2 * quotient * factor < UInt32.size) ∧
      (output ≠ exact →
        output < exact ∧ ∃ turns > 0, output + turns * period = exact) := by
  intro low quotient factor divisor feedback output exact period
  let product := snapshot.largestProduct sysref.value.toNat
  have hpos := snapshot.lastDivisor_pos
  have hdvd := snapshot.lastDivisor_dvd_size
  have hdivq : snapshot.divq.toNat = divisor := snapshot.toNat_divq
  have hproduct : product =
      if feedback then quotient * factor else 2 * quotient * factor := by
    rw [Nat.mul_assoc]
    rfl
  have hexact : exact = product / snapshot.lastDivisor := by
    rw [hproduct, lastDivisor, hdivq]
    split <;> simp [exact, feedback, *]
  have hperiod : period = UInt32.size / snapshot.lastDivisor := by
    rw [lastDivisor, hdivq]
    split <;> simp [period, feedback, *]
  have houtput : output = exact % period := by
    rw [hexact, hperiod]
    exact snapshot.toNat_mpllOutput_eq_mod sysref
  have hperiodPos : 0 < period := by
    rw [hperiod]
    exact Nat.div_pos (Nat.le_of_dvd (by decide) hdvd) hpos
  have hfits : exact < period ↔ product < UInt32.size := by
    rw [hexact, hperiod]
    exact div_lt_div_iff_of_dvd hpos hdvd
  refine ⟨snapshot.toNat_divr, snapshot.toNat_divf, hdivq,
    snapshot.fse_eq_bit, ?_, ?_⟩
  · rw [houtput, Nat.mod_eq_iff_lt hperiodPos.ne', hfits, hproduct]
    split <;> rfl
  · rw [houtput]
    exact short_of_mod_ne hperiodPos

theorem mpllOutput_exact_iff_oversizedFactor :
    let snapshot : Snapshot := ⟨0, 0x3FFC0, 8⟩
    let output := (snapshot.mpllOutput ⟨100000000⟩).value.toNat
    output < 12800000000 ∧
      ∃ turns > 0, output + turns * 536870912 = 12800000000 := by
  intro snapshot output
  have hfeedback : snapshot.pllHigh.bit 3 = true := by decide
  have hlow : snapshot.pllLow.toNat = 0x3FFC0 := rfl
  obtain ⟨-, -, -, -, -, hshort⟩ :=
    mpllOutput_exact_iff snapshot ⟨100000000⟩
  rw [if_pos hfeedback, if_pos hfeedback, hlow] at hshort
  exact hshort (by decide)

end Snapshot

end MssClock
