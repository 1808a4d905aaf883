import MssClock.Proofs.Clock.Truncation

/-!
# How the clocks depend on the reference

As long as the product of the PLL fits 32 bits, every frequency is a truncated
quotient of that product, and the divisor is the same for every reference.  So
no frequency falls when the reference rises, and none is lost to truncation
once the product has reached the divisor.  With every divider at its largest
and the factor at its smallest this takes a reference of 262144 Hz; below it
there is a tree with a dead clock.
-/

namespace MssClock

namespace Snapshot

section Range

variable (snapshot : Snapshot)

theorem factor_pos : 0 < snapshot.factor := by
  unfold factor
  split <;> omega

theorem lastDivisor_le : snapshot.lastDivisor ≤ 32 := by
  unfold lastDivisor
  split
  · exact Encoding.extended.toNat_divisor_le _
  · decide

theorem firstDivisor_le : snapshot.firstDivisor ≤ 4 := by
  rw [firstDivisor_eq]
  omega

theorem outputDivisor_le (domain : Domain) :
    snapshot.outputDivisor domain ≤ 4 * 32 := by
  have hfirst := snapshot.firstDivisor_le
  unfold outputDivisor
  split
  · exact Nat.mul_le_mul hfirst (Encoding.normal.toNat_divisor_le _)
  · split <;> omega

/-- The reference is never divided by more than 64. -/
theorem div_le_largestProduct (reference : Nat) :
    reference / 64 ≤ snapshot.largestProduct reference := by
  have hdivr : snapshot.divr.toNat + 1 ≤ 64 := by
    rw [toNat_divr]
    omega
  calc
    reference / 64 ≤ reference / (snapshot.divr.toNat + 1) :=
      Nat.div_le_div_left hdivr (Nat.succ_pos _)
    _ ≤ reference / (snapshot.divr.toNat + 1) * snapshot.factor :=
      Nat.le_mul_of_pos_right _ snapshot.factor_pos
    _ = snapshot.largestProduct reference :=
      (snapshot.largestProduct_eq reference).symm

theorem largestProduct_mono {low high : Nat} (hle : low ≤ high) :
    snapshot.largestProduct low ≤ snapshot.largestProduct high := by
  rw [largestProduct_eq, largestProduct_eq]
  exact Nat.mul_le_mul_right _ (Nat.div_le_div_right hle)

end Range

section Dependence

variable {snapshot : Snapshot} {sysref low high : Hertz}

theorem frequency_sysref (snapshot : Snapshot) (sysref : Hertz) :
    snapshot.frequency sysref .sysref = sysref.value.toNat :=
  congrArg (·.value.toNat) (snapshot.get_derive sysref .sysref)

theorem ProductFits.of_le (hfits : snapshot.ProductFits high)
    (hle : low ≤ high) : snapshot.ProductFits low := by
  rw [productFits_iff] at hfits ⊢
  exact (snapshot.largestProduct_mono (UInt32.le_iff_toNat_le.mp hle)).trans_lt
    hfits

theorem ProductFits.frequency_mono (hfits : snapshot.ProductFits high)
    (hle : low ≤ high) (domain : Domain) :
    snapshot.frequency low domain ≤ snapshot.frequency high domain := by
  have hvalue : low.value.toNat ≤ high.value.toNat :=
    UInt32.le_iff_toNat_le.mp hle
  by_cases hdomain : domain = .sysref
  · rw [hdomain, frequency_sysref, frequency_sysref]
    exact hvalue
  · rw [(hfits.of_le hle).frequency_eq hdomain, hfits.frequency_eq hdomain]
    exact Nat.div_le_div_right (snapshot.largestProduct_mono hvalue)

theorem ProductFits.frequency_pos (hfits : snapshot.ProductFits sysref)
    (hsysref : 262144 ≤ sysref.value.toNat) (domain : Domain) :
    0 < snapshot.frequency sysref domain := by
  by_cases hdomain : domain = .sysref
  · rw [hdomain, frequency_sysref]
    omega
  · have hpos : 0 < snapshot.lastDivisor * snapshot.outputDivisor domain :=
      Nat.mul_pos snapshot.lastDivisor_pos (snapshot.outputDivisor_pos domain)
    rw [hfits.frequency_eq hdomain]
    -- The largest divisor meets the smallest product at the bound.
    refine Nat.div_pos ?_ hpos
    calc
      snapshot.lastDivisor * snapshot.outputDivisor domain ≤ 32 * (4 * 32) :=
        Nat.mul_le_mul snapshot.lastDivisor_le
          (snapshot.outputDivisor_le domain)
      _ ≤ sysref.value.toNat / 64 := by omega
      _ ≤ snapshot.largestProduct sysref.value.toNat :=
        snapshot.div_le_largestProduct _

end Dependence

/-! ## The slowest tree -/

/-- Every divider at its largest, and the factor at its smallest. -/
def slowest : Snapshot := ⟨0x3FFFFF, 0x7003F, 8⟩

theorem largestProduct_slowest (reference : Nat) :
    slowest.largestProduct reference = reference / 64 := by
  have hdivr : slowest.divr.toNat + 1 = 64 := by decide
  have hfactor : slowest.factor = 1 := by decide
  rw [largestProduct_eq, hdivr, hfactor, Nat.mul_one]

theorem productFits_slowest (sysref : Hertz) : slowest.ProductFits sysref := by
  have hlt : sysref.value.toNat < UInt32.size := sysref.value.toNat_lt
  rw [productFits_iff, largestProduct_slowest]
  exact (Nat.div_le_self _ _).trans_lt hlt

theorem frequency_slowest (sysref : Hertz) :
    slowest.frequency sysref .systick = sysref.value.toNat / 262144 := by
  have hdivisor :
      slowest.lastDivisor * slowest.outputDivisor .systick = 4096 := by
    decide
  rw [(productFits_slowest sysref).frequency_eq (by decide), hdivisor,
    largestProduct_slowest, Nat.div_div_eq_div_mul]

/-- From 262144 Hz on no tree without a wrap has a dead clock, and below it
some tree has one. -/
theorem frequency_pos_threshold (sysref : Hertz) :
    (262144 ≤ sysref.value.toNat →
      ∀ snapshot : Snapshot, snapshot.ProductFits sysref →
        ∀ domain, 0 < snapshot.frequency sysref domain) ∧
      (sysref.value.toNat < 262144 →
        ∃ snapshot : Snapshot, snapshot.ProductFits sysref ∧
          ∃ domain, snapshot.frequency sysref domain = 0) := by
  constructor
  · intro hsysref snapshot hfits domain
    exact hfits.frequency_pos hsysref domain
  · intro hsysref
    refine ⟨slowest, productFits_slowest sysref, .systick, ?_⟩
    rw [frequency_slowest]
    exact Nat.div_eq_of_lt hsysref

theorem frequency_pos_threshold_slowest :
    slowest.ProductFits ⟨262144⟩ ∧
      (∀ domain, 0 < slowest.frequency ⟨262144⟩ domain) ∧
      ∃ snapshot : Snapshot, snapshot.ProductFits ⟨262143⟩ ∧
        ∃ domain, snapshot.frequency ⟨262143⟩ domain = 0 := by
  have hfits : slowest.ProductFits ⟨262144⟩ := by decide
  obtain ⟨hpos, -⟩ := frequency_pos_threshold ⟨262144⟩
  obtain ⟨-, hdead⟩ := frequency_pos_threshold ⟨262143⟩
  exact ⟨hfits, hpos (by decide) slowest hfits, hdead (by decide)⟩

/-- A higher reference lowers no frequency, as long as the PLL does not wrap
at it; it does not wrap at the lower one then. -/
theorem get_derive_mono (snapshot : Snapshot) {low high : Hertz}
    (hle : low ≤ high) (hfits : snapshot.ProductFits high) :
    snapshot.ProductFits low ∧
      ∀ domain, (snapshot.derive low).get domain ≤
        (snapshot.derive high).get domain := by
  refine ⟨hfits.of_le hle, fun domain => ?_⟩
  exact UInt32.le_iff_toNat_le.mpr (hfits.frequency_mono hle domain)

theorem get_derive_mono_everyDivider :
    let snapshot : Snapshot := ⟨0x2C6046, 0x100C2, 8⟩
    (⟨99999999⟩ : Hertz) ≤ ⟨100000000⟩ ∧
      snapshot.ProductFits ⟨100000000⟩ ∧
      snapshot.ProductFits ⟨99999999⟩ ∧
      (snapshot.derive ⟨99999999⟩).get .fic1 ≤
        (snapshot.derive ⟨100000000⟩).get .fic1 := by
  intro snapshot
  have hle : (⟨99999999⟩ : Hertz) ≤ ⟨100000000⟩ := by decide
  have hfits : snapshot.ProductFits ⟨100000000⟩ := by decide
  obtain ⟨hlow, hmono⟩ := snapshot.get_derive_mono hle hfits
  exact ⟨hle, hfits, hlow, hmono .fic1⟩

-- At the reference where the product wraps, the output falls.
example :
    let snapshot : Snapshot := ⟨0, 0xFFC0, 0⟩
    ¬ (snapshot.derive ⟨2097151⟩).get .ddr ≤
      (snapshot.derive ⟨2097152⟩).get .ddr := by
  decide

end Snapshot

end MssClock
