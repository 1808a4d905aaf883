import MssClock.Proofs.Clock.Wrap
import MssClock.Proofs.Console
import Mathlib.Order.Interval.Set.Defs

/-!
# Evaluation without a trap

The clock tree and the console divisor are computed a second time here, and
every step that could be without a result says so: a sum or a product that its
word does not hold, a shift by the width of the word or more, a zero divisor, an
index outside of the store.  The product of a frequency is not among them, since
it wraps by intent, and neither is the decoding of a divider, which has an
answer for every word.

Whatever the registers hold, no step is without a result, so that the checked
computation returns what the plain one does.
-/

namespace MssClock

/-- Why a step has no result. -/
inductive Trap where
  | fault (fault : Fault)
  /-- A sum or a product is too large for its word, or a shift too wide. -/
  | overflow
  | indexOutOfRange
  deriving DecidableEq, Repr

/-! ## Checked steps -/

namespace Checked

/-- A result whose exact value is `exact`, if the numbers below `size` hold
it. -/
def within {α : Type} (size exact : Nat) (result : α) : Except Trap α :=
  if exact < size then pure result else throw .overflow

def add32 (a b : UInt32) : Except Trap UInt32 :=
  within UInt32.size (a.toNat + b.toNat) (a + b)

def add64 (a b : UInt64) : Except Trap UInt64 :=
  within UInt64.size (a.toNat + b.toNat) (a + b)

def mul64 (a b : UInt64) : Except Trap UInt64 :=
  within UInt64.size (a.toNat * b.toNat) (a * b)

def div64 (a b : UInt64) : Except Trap UInt64 :=
  if b = 0 then throw (.fault .divisionByZero) else pure (a / b)

def divide (freq : Hertz) (divisor : UInt32) : Except Trap Hertz :=
  (freq.divide divisor).mapError .fault

/-- Reading a field shifts it down to bit 0. -/
def read (field : Field) (word : Word) : Except Trap Word :=
  if field.offset < 32 then pure (field.get word) else throw .overflow

/-- A divider that is programmed as one less. -/
def increment (field : Field) (word : Word) : Except Trap Word := do
  add32 (← read field word) 1

section Steps

variable {α : Type} {size exact : Nat}

theorem within_of_lt (result : α) (hlt : exact < size) :
    within size exact result = pure result :=
  if_pos hlt

theorem div64_of_pos (a : UInt64) {b : UInt64} (hpos : 0 < b.toNat) :
    div64 a b = pure (a / b) := by
  have hne : b ≠ 0 := by
    rintro rfl
    exact absurd hpos (by decide)
  exact if_neg hne

theorem divide_of_pos (freq : Hertz) {divisor : UInt32}
    (hpos : 0 < divisor.toNat) :
    divide freq divisor = pure (freq / divisor) := by
  rw [divide, Hertz.divide_eq_ok (toNat_pos_iff.mp hpos)]
  rfl

variable {field : Field}

theorem read_of_fits (hfits : field.Fits) (word : Word) :
    read field word = pure (field.get word) :=
  if_pos hfits.offset_lt

section Increment

variable (hfits : field.Fits) (hwidth : field.width ≤ 10)

include hfits hwidth

/-- The dividers that are programmed as one less lie in at most ten bits. -/
theorem toNat_get_add_one_mem (word : Word) :
    (field.get word + 1).toNat ∈ Set.Icc 1 1024 := by
  have hlt := hfits.toNat_get_lt word
  have hpow : 2 ^ field.width ≤ 2 ^ 10 :=
    Nat.pow_le_pow_right (by decide) hwidth
  rw [hfits.toNat_get_add_one (by omega)]
  exact ⟨by omega, by omega⟩

theorem increment_eq (word : Word) :
    increment field word = pure (field.get word + 1) := by
  have hsize : UInt32.size = 4294967296 := rfl
  have hone : (1 : UInt32).toNat = 1 := rfl
  obtain ⟨-, hle⟩ := toNat_get_add_one_mem hfits hwidth word
  rw [hfits.toNat_get_add_one (by omega)] at hle
  rw [increment, read_of_fits hfits, pure_bind]
  exact within_of_lt _ (by omega)

theorem divide_get_add_one (freq : Hertz) (word : Word) :
    divide freq (field.get word + 1) = pure (freq / (field.get word + 1)) :=
  divide_of_pos freq (toNat_get_add_one_mem hfits hwidth word).1

end Increment

end Steps

theorem divide_divisor (freq : Hertz) (encoding : Encoding) (field : Word) :
    divide freq (encoding.divisor field) =
      pure (freq / encoding.divisor field) :=
  divide_of_pos freq (encoding.toNat_divisor_pos field)

end Checked

/-! ## The store -/

namespace Clocks

def readAt (clocks : Clocks) (index : Nat) : Except Trap Hertz :=
  match clocks.freqs[index]? with
  | some freq => pure freq
  | none => throw .indexOutOfRange

def writeAt (clocks : Clocks) (index : Nat) (freq : Hertz) :
    Except Trap Clocks :=
  if h : index < Domain.count then pure ⟨clocks.freqs.set index freq h⟩
  else throw .indexOutOfRange

def toListChecked (clocks : Clocks) : Except Trap (List (Domain × Hertz)) :=
  Domain.all.mapM fun domain => do
    return (domain, ← clocks.readAt domain.index)

variable (clocks : Clocks) (domain : Domain)

theorem readAt_index : clocks.readAt domain.index = pure (clocks.get domain) := by
  have hsome : clocks.freqs[domain.index.val]? =
      some clocks.freqs[domain.index.val] :=
    Vector.getElem?_eq_getElem domain.index.isLt
  rw [readAt, hsome]
  rfl

theorem writeAt_index (freq : Hertz) :
    clocks.writeAt domain.index freq = pure (clocks.set domain freq) :=
  dif_pos domain.index.isLt

theorem toListChecked_eq : clocks.toListChecked = pure clocks.toList := by
  simp only [toListChecked, readAt_index, pure_bind, List.mapM_pure]
  rfl

end Clocks

/-! ## The tree -/

namespace Snapshot

open Checked

def divqChecked (snapshot : Snapshot) : Except Trap Word := do
  return Encoding.extended.divisor
    (← read PllStatusLow.divq snapshot.pllLow)

def mpllOutputChecked (snapshot : Snapshot) (sysref : Hertz) :
    Except Trap Hertz := do
  let divider ← increment PllStatusLow.divr snapshot.pllLow
  let reference ← divide sysref divider
  let factor ← increment PllStatusLow.divf snapshot.pllLow
  let vco := reference * factor
  let feedback ← read PllStatusHigh.fse snapshot.pllHigh
  if feedback != 0 then divide vco (← snapshot.divqChecked)
  else return vco * (2 : UInt32)

def secondStageChecked (snapshot : Snapshot) (field : Field) (parent : Hertz) :
    Except Trap Hertz := do
  divide parent (Encoding.normal.divisor (← read field snapshot.facc1))

def stageChecked (snapshot : Snapshot) (domain : Domain) (parent : Hertz) :
    Except Trap Hertz :=
  match domain with
  | .sysref => return parent
  | .ddr => snapshot.mpllOutputChecked parent
  | .clkA => do divide parent (← increment Facc1.divisorA snapshot.facc1)
  | .systick => snapshot.secondStageChecked Facc1.m3ClkDivisor parent
  | .pclk0 => snapshot.secondStageChecked Facc1.apb0Divisor parent
  | .pclk1 => snapshot.secondStageChecked Facc1.apb1Divisor parent
  | .fic0 => snapshot.secondStageChecked Facc1.fic0Divisor parent
  | .fic1 => snapshot.secondStageChecked Facc1.fic1Divisor parent
  | .ddrFic => snapshot.secondStageChecked Facc1.ddrFicDivisor parent

def visitChecked (snapshot : Snapshot) (sysref : Hertz)
    (clocks : Clocks) (domain : Domain) : Except Trap Clocks := do
  let freq ←
    match domain.parent with
    | none => pure sysref
    | some parent => do
        snapshot.stageChecked domain (← clocks.readAt parent.index)
  clocks.writeAt domain.index freq

def deriveChecked (snapshot : Snapshot) (sysref : Hertz) :
    Except Trap Clocks :=
  Domain.all.foldlM (snapshot.visitChecked sysref) .zero

theorem divr_fits : PllStatusLow.divr.Fits :=
  Field.bits_fits _ (by decide) (by decide)

theorem divf_fits : PllStatusLow.divf.Fits :=
  Field.bits_fits _ (by decide) (by decide)

theorem divisorA_fits : Facc1.divisorA.Fits :=
  Field.bits_fits _ (by decide) (by decide)

variable (snapshot : Snapshot)

theorem divqChecked_eq : snapshot.divqChecked = pure snapshot.divq := by
  have hdivq : PllStatusLow.divq.Fits :=
    Field.bits_fits _ (by decide) (by decide)
  rw [divqChecked, read_of_fits hdivq, pure_bind]
  rfl

theorem mpllOutputChecked_eq (sysref : Hertz) :
    snapshot.mpllOutputChecked sysref = pure (snapshot.mpllOutput sysref) := by
  have hfse : PllStatusHigh.fse.Fits := Field.flag_fits _ (by decide)
  have hdivq : ∀ freq, divide freq snapshot.divq =
      pure (freq / snapshot.divq) := fun freq =>
    divide_divisor freq .extended _
  simp only [mpllOutputChecked, pure_bind, increment_eq divr_fits (by decide),
    divide_get_add_one divr_fits (by decide),
    increment_eq divf_fits (by decide),
    read_of_fits hfse, divqChecked_eq, hdivq]
  rw [mpllOutput, fse, Field.isSet]
  split <;> rfl

theorem secondStageChecked_eq
    {field : Field} (hfits : field.Fits) (parent : Hertz) :
    snapshot.secondStageChecked field parent =
      pure (parent / snapshot.secondStage field) := by
  rw [secondStageChecked, read_of_fits hfits, pure_bind, divide_divisor]
  rfl

theorem stageChecked_eq (domain : Domain) (parent : Hertz) :
    snapshot.stageChecked domain parent =
      pure (snapshot.stage domain parent) := by
  cases domain with
  | sysref => rfl
  | ddr => exact snapshot.mpllOutputChecked_eq parent
  | clkA =>
      simp only [stageChecked, increment_eq divisorA_fits (by decide), pure_bind,
        divide_get_add_one divisorA_fits (by decide)]
      rfl
  | systick | pclk0 | pclk1 | fic0 | fic1 | ddrFic =>
      exact snapshot.secondStageChecked_eq
        (Field.bits_fits _ (by decide) (by decide)) parent

theorem visitChecked_eq (sysref : Hertz) (clocks : Clocks) (domain : Domain) :
    snapshot.visitChecked sysref clocks domain =
      pure (snapshot.visit sysref clocks domain) := by
  unfold visitChecked visit
  cases domain.parent with
  | none => simp only [pure_bind, Clocks.writeAt_index]
  | some parent =>
      simp only [Clocks.readAt_index, pure_bind, stageChecked_eq,
        Clocks.writeAt_index]

theorem deriveChecked_eq (sysref : Hertz) :
    snapshot.deriveChecked sysref = pure (snapshot.derive sysref) := by
  have hvisit : snapshot.visitChecked sysref = fun clocks domain =>
      pure (snapshot.visit sysref clocks domain) :=
    funext₂ (snapshot.visitChecked_eq sysref)
  rw [deriveChecked, hvisit, List.foldlM_pure]
  rfl

end Snapshot

/-! ## The console divisor -/

section Console

open Checked

def baudDivisorChecked (clock : Hertz) (baud : UInt32) :
    Except Trap (Except ConsoleError UInt16) := do
  if baud = 0 then return .error .baudZero
  let oversampled ← mul64 baud.toUInt64 16
  let half ← div64 oversampled 2
  let sum ← add64 clock.value.toUInt64 half
  let divisor ← div64 sum oversampled
  if divisor = 0 ∨ 0xFFFF < divisor then
    return .error (.divisorOutOfRange divisor.toUInt32)
  else return .ok divisor.toUInt16

def Clocks.consoleDivisorChecked (clocks : Clocks) (baud : UInt32) :
    Except Trap (Except ConsoleError UInt16) := do
  baudDivisorChecked (← clocks.readAt Domain.pclk0.index) baud

theorem baudDivisorChecked_eq (clock : Hertz) (baud : UInt32) :
    baudDivisorChecked clock baud = pure (baudDivisor clock baud) := by
  have hclock := clock.value.toNat_lt
  have hbaud := baud.toNat_lt
  have hsize : UInt64.size = 18446744073709551616 := rfl
  have hmul : mul64 baud.toUInt64 16 = pure (baud.toUInt64 * 16) := by
    refine within_of_lt _ ?_
    rw [UInt32.toNat_toUInt64]
    change baud.toNat * 16 < _
    omega
  have hadd : add64 clock.value.toUInt64 (baud.toUInt64 * 16 / 2) =
      pure (clock.value.toUInt64 + baud.toUInt64 * 16 / 2) := by
    refine within_of_lt _ ?_
    rw [UInt32.toNat_toUInt64, toNat_half_oversampled]
    omega
  by_cases hzero : baud = 0
  · rw [hzero]
    rfl
  · have hpos : 0 < (baud.toUInt64 * 16).toNat := by
      rw [toNat_oversampled]
      have := toNat_pos_iff.mpr hzero
      omega
    simp only [baudDivisorChecked, hzero, if_false, hmul, hadd, pure_bind,
      div64_of_pos _ (by decide : 0 < (2 : UInt64).toNat), div64_of_pos _ hpos]
    rw [baudDivisor, if_neg hzero]
    dsimp only [roundedDivisor]
    split <;> rfl

theorem Clocks.consoleDivisorChecked_eq (clocks : Clocks) (baud : UInt32) :
    clocks.consoleDivisorChecked baud = pure (clocks.consoleDivisor baud) := by
  rw [consoleDivisorChecked, readAt_index, pure_bind, baudDivisorChecked_eq]
  rfl

end Console

/-- Nothing on the way from three register words to the clocks and on to the
console divisor is without a result, for any words, reference and baud rate:
the checked computation returns what the plain one does. -/
theorem Snapshot.checked_eq_ok
    (facc1 pllLow pllHigh : Word) (sysref : Hertz) (baud : UInt32) :
    let snapshot : Snapshot := ⟨facc1, pllLow, pllHigh⟩
    let clocks := snapshot.derive sysref
    (snapshot.divr + 1).toNat ∈ Set.Icc 1 1024 ∧
      (snapshot.divf + 1).toNat ∈ Set.Icc 1 1024 ∧
      (Facc1.divisorA.get facc1 + 1).toNat ∈ Set.Icc 1 1024 ∧
      snapshot.divq.toNat ∈ Set.Icc 1 1024 ∧
      (∀ encoding field,
        (Encoding.divisor encoding field).toNat ∈ Set.Icc 1 1024) ∧
      snapshot.divqChecked = .ok snapshot.divq ∧
      snapshot.mpllOutputChecked sysref = .ok (snapshot.mpllOutput sysref) ∧
      snapshot.deriveChecked sysref = .ok clocks ∧
      clocks.toListChecked = .ok clocks.toList ∧
      clocks.consoleDivisorChecked baud = .ok (clocks.consoleDivisor baud) := by
  intro snapshot clocks
  have hdivisor : ∀ encoding field,
      (Encoding.divisor encoding field).toNat ∈ Set.Icc 1 1024 := by
    intro encoding field
    have hle := encoding.toNat_divisor_le field
    exact ⟨encoding.toNat_divisor_pos field, by omega⟩
  exact ⟨Checked.toNat_get_add_one_mem divr_fits (by decide) pllLow,
    Checked.toNat_get_add_one_mem divf_fits (by decide) pllLow,
    Checked.toNat_get_add_one_mem divisorA_fits (by decide) facc1,
    hdivisor _ _, hdivisor, snapshot.divqChecked_eq,
    snapshot.mpllOutputChecked_eq sysref, snapshot.deriveChecked_eq sysref,
    clocks.toListChecked_eq, clocks.consoleDivisorChecked_eq baud⟩

-- The traps are there: a sum too large, and an index past the last domain.
example : Checked.add32 0xFFFFFFFF 1 = .error .overflow := rfl

example : Clocks.zero.readAt 9 = .error .indexOutOfRange := rfl

end MssClock
