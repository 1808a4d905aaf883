import MssClock.Console
import Mathlib.Tactic.Ring
import Mathlib.Tactic.Zify

/-!
# The divisors that fit the latch

In 64 bits nothing wraps, so the divisor is the quotient on natural numbers.  It
fits the latch for an interval of clocks, from half of a divisor of one up to the
last divisor and a half; outside of it the error tells the whole quotient, which
32 bits hold for every clock.  Within it the divisor serves the clock that is
nearest to the given one, and of two that are equally near the higher one.
-/

namespace MssClock

/-- The clock over sixteen times the baud rate, with a half going up. -/
def nearestDivisor (clock baud : Nat) : Nat :=
  (clock + 8 * baud) / (16 * baud)

def FitsLatch (clock baud : Nat) : Prop :=
  0 < baud ∧ 8 * baud ≤ clock ∧ clock < 16 * baud * 65535 + 8 * baud

instance (clock baud : Nat) : Decidable (FitsLatch clock baud) :=
  inferInstanceAs (Decidable (_ ∧ _))

theorem fitsLatch_iff {clock baud : Nat} (hbaud : 0 < baud) :
    FitsLatch clock baud ↔
      0 < nearestDivisor clock baud ∧ nearestDivisor clock baud ≤ 0xFFFF := by
  have hpos : 0 < 16 * baud := by omega
  have hlower : 0 < nearestDivisor clock baud ↔
      16 * baud ≤ clock + 8 * baud := by
    rw [nearestDivisor, Nat.div_pos_iff]
    omega
  have hupper : nearestDivisor clock baud ≤ 0xFFFF ↔
      clock + 8 * baud < 0x10000 * (16 * baud) := by
    rw [← Nat.lt_succ_iff]
    exact Nat.div_lt_iff_lt_mul hpos
  rw [hlower, hupper, FitsLatch]
  omega

theorem nearestDivisor_lt {clock baud : Nat} (hclock : clock < UInt32.size)
    (hbaud : 0 < baud) : nearestDivisor clock baud < UInt32.size := by
  have hpos : 0 < 16 * baud := by omega
  have hsize : UInt32.size = 4294967296 := rfl
  rw [nearestDivisor, Nat.div_lt_iff_lt_mul hpos, hsize]
  omega

theorem toNat_oversampled (baud : UInt32) :
    (baud.toUInt64 * 16).toNat = 16 * baud.toNat := by
  have hbaud := baud.toNat_lt
  have hsixteen : (16 : UInt64).toNat = 16 := rfl
  rw [UInt64.toNat_mul, UInt32.toNat_toUInt64, hsixteen]
  omega

theorem toNat_half_oversampled (baud : UInt32) :
    (baud.toUInt64 * 16 / 2).toNat = 8 * baud.toNat := by
  rw [UInt64.toNat_div, toNat_oversampled]
  change 16 * baud.toNat / 2 = _
  omega

theorem toNat_roundedDivisor (clock : Hertz) (baud : UInt32) :
    (roundedDivisor clock baud).toNat =
      nearestDivisor clock.value.toNat baud.toNat := by
  have hclock := clock.value.toNat_lt
  have hbaud := baud.toNat_lt
  have hsum : (clock.value.toUInt64 + baud.toUInt64 * 16 / 2).toNat =
      clock.value.toNat + 8 * baud.toNat := by
    rw [UInt64.toNat_add, toNat_half_oversampled, UInt32.toNat_toUInt64]
    omega
  simp only [roundedDivisor, UInt64.toNat_div, hsum, toNat_oversampled]
  rfl

section Divisor

variable {clock : Hertz} {baud : UInt32}

theorem baudDivisor_zero (clock : Hertz) :
    baudDivisor clock 0 = .error .baudZero := rfl

theorem toNat_pos_iff : 0 < baud.toNat ↔ baud ≠ 0 := by
  rw [Nat.pos_iff_ne_zero, Ne, Ne, ← UInt32.toNat_inj, UInt32.toNat_zero]

theorem roundedDivisor_refused_iff (hpos : 0 < baud.toNat) :
    (roundedDivisor clock baud = 0 ∨ 0xFFFF < roundedDivisor clock baud) ↔
      ¬ FitsLatch clock.value.toNat baud.toNat := by
  have hlarge : (0xFFFF : UInt64).toNat = 0xFFFF := rfl
  rw [fitsLatch_iff hpos, ← toNat_roundedDivisor, ← UInt64.toNat_inj,
    UInt64.lt_iff_toNat_lt, hlarge]
  change (_ = 0 ∨ _) ↔ _
  omega

theorem baudDivisor_of_fitsLatch
    (h : FitsLatch clock.value.toNat baud.toNat) :
    ∃ divisor : UInt16, baudDivisor clock baud = .ok divisor ∧
      divisor.toNat = nearestDivisor clock.value.toNat baud.toNat := by
  have hfits := (fitsLatch_iff h.1).mp h
  refine ⟨(roundedDivisor clock baud).toUInt16, ?_, ?_⟩
  · rw [baudDivisor, if_neg (toNat_pos_iff.mp h.1)]
    exact if_neg fun hrefused => (roundedDivisor_refused_iff h.1).mp hrefused h
  · rw [UInt64.toNat_toUInt16, toNat_roundedDivisor]
    omega

theorem baudDivisor_of_not_fitsLatch (hbaud : baud ≠ 0)
    (h : ¬ FitsLatch clock.value.toNat baud.toNat) :
    ∃ divisor : UInt32,
      baudDivisor clock baud = .error (.divisorOutOfRange divisor) ∧
      divisor.toNat = nearestDivisor clock.value.toNat baud.toNat := by
  have hpos : 0 < baud.toNat := toNat_pos_iff.mpr hbaud
  have hlt := nearestDivisor_lt clock.value.toNat_lt hpos
  refine ⟨(roundedDivisor clock baud).toUInt32, ?_, ?_⟩
  · rw [baudDivisor, if_neg hbaud]
    exact if_pos ((roundedDivisor_refused_iff hpos).mpr h)
  · rw [UInt64.toNat_toUInt32, toNat_roundedDivisor]
    exact Nat.mod_eq_of_lt hlt

theorem baudDivisor_eq_baudZero_iff :
    baudDivisor clock baud = .error .baudZero ↔ baud = 0 := by
  constructor
  · intro hzero
    by_contra hbaud
    by_cases hfits : FitsLatch clock.value.toNat baud.toNat
    · obtain ⟨divisor, hok, -⟩ := baudDivisor_of_fitsLatch hfits
      cases hok.symm.trans hzero
    · obtain ⟨divisor, herror, -⟩ := baudDivisor_of_not_fitsLatch hbaud hfits
      cases herror.symm.trans hzero
  · rintro rfl
    exact baudDivisor_zero clock

theorem baudDivisor_eq_ok_iff {divisor : UInt16} :
    baudDivisor clock baud = .ok divisor ↔
      FitsLatch clock.value.toNat baud.toNat ∧
        divisor.toNat = nearestDivisor clock.value.toNat baud.toNat := by
  constructor
  · intro hok
    have hbaud : baud ≠ 0 := by
      rintro rfl
      cases (baudDivisor_zero clock).symm.trans hok
    by_cases hfits : FitsLatch clock.value.toNat baud.toNat
    · obtain ⟨nearest, hnearest, hvalue⟩ := baudDivisor_of_fitsLatch hfits
      cases hnearest.symm.trans hok
      exact ⟨hfits, hvalue⟩
    · obtain ⟨largest, herror, -⟩ := baudDivisor_of_not_fitsLatch hbaud hfits
      cases herror.symm.trans hok
  · rintro ⟨hfits, hvalue⟩
    obtain ⟨nearest, hnearest, hnearestValue⟩ := baudDivisor_of_fitsLatch hfits
    have heq : divisor = nearest :=
      UInt16.toNat_inj.mp (hvalue.trans hnearestValue.symm)
    rw [heq, hnearest]

end Divisor

/-! ## The nearest divisor -/

section Nearest

variable (clock : Nat) {baud : Nat}

/-- How far the clock is from the one that the divisor serves exactly. -/
def deviation (clock baud : Nat) (divisor : Int) : Nat :=
  ((clock : Int) - 16 * baud * divisor).natAbs

theorem nearestDivisor_bounds (hbaud : 0 < baud) :
    16 * baud * nearestDivisor clock baud ≤ clock + 8 * baud ∧
      clock < 16 * baud * nearestDivisor clock baud + 8 * baud := by
  have hpos : 0 < 16 * baud := by omega
  have hle : 16 * baud * nearestDivisor clock baud ≤ clock + 8 * baud :=
    Nat.mul_div_le _ _
  have hlt : clock + 8 * baud <
      16 * baud * (nearestDivisor clock baud + 1) :=
    Nat.lt_mul_div_succ _ hpos
  rw [Nat.mul_add, Nat.mul_one] at hlt
  exact ⟨hle, by omega⟩

theorem deviation_nearestDivisor_le (hbaud : 0 < baud) :
    deviation clock baud (nearestDivisor clock baud) ≤ 8 * baud := by
  obtain ⟨hle, hlt⟩ := nearestDivisor_bounds clock hbaud
  zify at hle hlt
  rw [deviation]
  omega

/-- A smaller divisor serves a clock that is a whole step below the nearest. -/
theorem le_deviation_of_lt (hbaud : 0 < baud) {divisor : Int}
    (hlt : divisor < nearestDivisor clock baud) :
    8 * baud ≤ deviation clock baud divisor := by
  obtain ⟨hle, -⟩ := nearestDivisor_bounds clock hbaud
  have hstep : 16 * (baud : Int) * (divisor + 1) ≤
      16 * baud * nearestDivisor clock baud :=
    Int.mul_le_mul_of_nonneg_left hlt (by omega)
  zify at hle
  rw [Int.mul_add, Int.mul_one] at hstep
  rw [deviation]
  omega

theorem lt_deviation_of_gt (hbaud : 0 < baud) {divisor : Int}
    (hgt : nearestDivisor clock baud < divisor) :
    8 * baud < deviation clock baud divisor := by
  obtain ⟨-, hlt⟩ := nearestDivisor_bounds clock hbaud
  have hstep : 16 * (baud : Int) * (nearestDivisor clock baud + 1) ≤
      16 * baud * divisor :=
    Int.mul_le_mul_of_nonneg_left hgt (by omega)
  zify at hlt
  rw [Int.mul_add, Int.mul_one] at hstep
  rw [deviation]
  omega

theorem deviation_nearestDivisor_minimal (hbaud : 0 < baud) (divisor : Int) :
    deviation clock baud (nearestDivisor clock baud) ≤
        deviation clock baud divisor ∧
      (deviation clock baud divisor =
          deviation clock baud (nearestDivisor clock baud) →
        divisor ≤ nearestDivisor clock baud) := by
  have hnearest := deviation_nearestDivisor_le clock hbaud
  rcases lt_trichotomy divisor (nearestDivisor clock baud) with
    hlt | heq | hgt
  · exact ⟨hnearest.trans (le_deviation_of_lt clock hbaud hlt), fun _ => hlt.le⟩
  · exact ⟨by rw [heq], fun _ => heq.le⟩
  · have hfar := lt_deviation_of_gt clock hbaud hgt
    exact ⟨by omega, fun htie => by omega⟩

/-- A divisor that does not fit the latch is zero or too large for it, and no
clock makes it larger than `2 ^ 28`. -/
theorem nearestDivisor_of_not_fitsLatch (hbaud : 0 < baud)
    (hclock : clock < UInt32.size) (h : ¬ FitsLatch clock baud) :
    nearestDivisor clock baud = 0 ∨
      65536 ≤ nearestDivisor clock baud ∧
        nearestDivisor clock baud ≤ 2 ^ 28 := by
  have hsize : UInt32.size = 4294967296 := rfl
  have hle : nearestDivisor clock baud ≤ 2 ^ 28 := by
    have hpos : 0 < 16 * baud := by omega
    rw [nearestDivisor, ← Nat.lt_succ_iff, Nat.div_lt_iff_lt_mul hpos]
    omega
  rw [fitsLatch_iff hbaud] at h
  omega

end Nearest

/-- The latch gets the divisor whose clock is nearest, the larger one of two
that are equally near, and it gets one for exactly the clocks from half of a
divisor of one up to the last divisor and a half.  For every other clock the
error tells the whole quotient. -/
theorem baudDivisor_nearest (clock : Hertz) (baud : UInt32) :
    let frequency := clock.value.toNat
    let rate := baud.toNat
    (baudDivisor clock baud = .error .baudZero ↔ rate = 0) ∧
      ((∃ divisor, baudDivisor clock baud = .ok divisor) ↔
        0 < rate ∧ 8 * rate ≤ frequency ∧
          frequency < 16 * rate * 65535 + 8 * rate) ∧
      (∀ divisor, baudDivisor clock baud = .ok divisor →
        1 ≤ divisor.toNat ∧ divisor.toNat ≤ 65535 ∧
          (∀ other : Int,
            deviation frequency rate divisor.toNat ≤
                deviation frequency rate other ∧
              (deviation frequency rate other =
                  deviation frequency rate divisor.toNat →
                other ≤ divisor.toNat)) ∧
          2 * divisor.toNat * deviation frequency rate divisor.toNat ≤
            16 * rate * divisor.toNat) ∧
      (0 < rate →
        ¬ (8 * rate ≤ frequency ∧
          frequency < 16 * rate * 65535 + 8 * rate) →
        ∃ divisor : UInt32,
          baudDivisor clock baud = .error (.divisorOutOfRange divisor) ∧
            divisor.toNat = (frequency + 8 * rate) / (16 * rate) ∧
            divisor.toNat = (roundedDivisor clock baud).toNat ∧
            (divisor.toNat = 0 ∨
              65536 ≤ divisor.toNat ∧ divisor.toNat ≤ 2 ^ 28)) := by
  intro frequency rate
  have hrate : rate = 0 ↔ baud = 0 := by
    rw [← UInt32.toNat_inj, UInt32.toNat_zero]
  refine ⟨baudDivisor_eq_baudZero_iff.trans hrate.symm, ?_, ?_, ?_⟩
  · constructor
    · rintro ⟨divisor, hok⟩
      exact (baudDivisor_eq_ok_iff.mp hok).1
    · intro hfits
      obtain ⟨divisor, hok, -⟩ := baudDivisor_of_fitsLatch hfits
      exact ⟨divisor, hok⟩
  · intro divisor hok
    obtain ⟨hfits, hvalue⟩ := baudDivisor_eq_ok_iff.mp hok
    have hpos : 0 < rate := hfits.1
    obtain ⟨hlower, hupper⟩ := (fitsLatch_iff hpos).mp hfits
    have hnear := deviation_nearestDivisor_le frequency hpos
    rw [hvalue]
    refine ⟨hlower, hupper, deviation_nearestDivisor_minimal frequency hpos, ?_⟩
    calc
      2 * nearestDivisor frequency rate *
            deviation frequency rate (nearestDivisor frequency rate) ≤
          2 * nearestDivisor frequency rate * (8 * rate) :=
        Nat.mul_le_mul_left _ hnear
      _ = 16 * rate * nearestDivisor frequency rate := by ring
  · intro hpos hout
    have hfits : ¬ FitsLatch frequency rate := fun hfits => hout hfits.2
    have hbaud : baud ≠ 0 := toNat_pos_iff.mp hpos
    obtain ⟨divisor, herror, hvalue⟩ :=
      baudDivisor_of_not_fitsLatch hbaud hfits
    refine ⟨divisor, herror, hvalue, ?_, ?_⟩
    · rw [hvalue, toNat_roundedDivisor]
    · rw [hvalue]
      exact nearestDivisor_of_not_fitsLatch _ hpos clock.value.toNat_lt hfits

theorem baudDivisor_nearest_tie :
    (∀ other : Int,
        deviation 2764800 115200 2 ≤ deviation 2764800 115200 other ∧
          (deviation 2764800 115200 other = deviation 2764800 115200 2 →
            other ≤ 2)) ∧
      deviation 2764800 115200 1 = deviation 2764800 115200 2 ∧
      ∃ divisor : UInt32,
        baudDivisor ⟨4294967295⟩ 1 = .error (.divisorOutOfRange divisor) ∧
          divisor.toNat = 268435456 := by
  have hok : baudDivisor ⟨2764800⟩ 115200 = .ok 2 := by decide
  obtain ⟨-, -, hnearest, -⟩ := baudDivisor_nearest ⟨2764800⟩ 115200
  obtain ⟨-, -, -, hout⟩ := baudDivisor_nearest ⟨4294967295⟩ 1
  obtain ⟨-, -, hminimal, -⟩ := hnearest 2 hok
  obtain ⟨divisor, herror, hvalue, -⟩ := hout (by decide) (by decide)
  exact ⟨hminimal, by decide, divisor, herror, hvalue⟩

end MssClock
