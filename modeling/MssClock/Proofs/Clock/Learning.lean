import MssClock.Proofs.BringUp.History
import MssClock.Proofs.Clock.Tree

/-!
# What learning depends on

Two snapshots may differ and still describe the same tree: only the dividers
and the feedback selection count, and the output divider only together with
one of its feedback paths.  A bring-up changes bits of the control words, but
none of those, so that the clocks learned after any number of bring-ups are
the ones that the words described before them.
-/

namespace MssClock

/-- The fields of the divider word that divide. -/
def Facc1.dividers : List Field :=
  [divisorA, m3ClkDivisor, apb0Divisor, apb1Divisor, fic0Divisor, fic1Divisor,
    ddrFicDivisor]

namespace Snapshot

/-- The snapshots agree on every field that the tree is evaluated from. -/
structure SameTree (a b : Snapshot) : Prop where
  divr : PllStatusLow.divr.get a.pllLow = PllStatusLow.divr.get b.pllLow
  divf : PllStatusLow.divf.get a.pllLow = PllStatusLow.divf.get b.pllLow
  fse : PllStatusHigh.fse.isSet a.pllHigh = PllStatusHigh.fse.isSet b.pllHigh
  divq : PllStatusHigh.fse.isSet a.pllHigh = true →
    PllStatusLow.divq.get a.pllLow = PllStatusLow.divq.get b.pllLow
  dividers : ∀ field ∈ Facc1.dividers, field.get a.facc1 = field.get b.facc1

variable {a b c : Snapshot}

theorem SameTree.refl (a : Snapshot) : a.SameTree a :=
  ⟨rfl, rfl, rfl, fun _ => rfl, fun _ _ => rfl⟩

theorem SameTree.trans (hab : a.SameTree b) (hbc : b.SameTree c) :
    a.SameTree c where
  divr := hab.divr.trans hbc.divr
  divf := hab.divf.trans hbc.divf
  fse := hab.fse.trans hbc.fse
  divq := fun hfse => (hab.divq hfse).trans (hbc.divq (hab.fse ▸ hfse))
  dividers := fun field hmem =>
    (hab.dividers field hmem).trans (hbc.dividers field hmem)

theorem SameTree.mpllOutput_eq (hsame : a.SameTree b) (freq : Hertz) :
    a.mpllOutput freq = b.mpllOutput freq := by
  have hdivr : a.divr = b.divr := hsame.divr
  have hdivf : a.divf = b.divf := hsame.divf
  have hfse : a.fse = b.fse := hsame.fse
  unfold mpllOutput
  rw [hdivr, hdivf, ← hfse]
  cases hcase : a.fse with
  | false => rfl
  | true =>
      have hdivq : a.divq = b.divq :=
        congrArg Encoding.extended.divisor (hsame.divq hcase)
      simp only [hdivq]

theorem SameTree.stage_eq
    (hsame : a.SameTree b) (domain : Domain) (freq : Hertz) :
    a.stage domain freq = b.stage domain freq := by
  have hstage : ∀ field ∈ Facc1.dividers,
      a.secondStage field = b.secondStage field := fun field hmem =>
    congrArg Encoding.normal.divisor (hsame.dividers field hmem)
  cases domain with
  | sysref => rfl
  | ddr => exact hsame.mpllOutput_eq freq
  | clkA =>
      have hdivisorA := hsame.dividers Facc1.divisorA (by decide)
      simp only [stage, hdivisorA]
  | systick => simp only [stage, hstage Facc1.m3ClkDivisor (by decide)]
  | pclk0 => simp only [stage, hstage Facc1.apb0Divisor (by decide)]
  | pclk1 => simp only [stage, hstage Facc1.apb1Divisor (by decide)]
  | fic0 => simp only [stage, hstage Facc1.fic0Divisor (by decide)]
  | fic1 => simp only [stage, hstage Facc1.fic1Divisor (by decide)]
  | ddrFic => simp only [stage, hstage Facc1.ddrFicDivisor (by decide)]

theorem SameTree.derive_eq (hsame : a.SameTree b) (sysref : Hertz) :
    a.derive sysref = b.derive sysref := by
  have hvisit : a.visit sysref = b.visit sysref := by
    funext clocks domain
    rw [visit_eq_set, visit_eq_set, follow, follow]
    cases domain.parent with
    | none => rfl
    | some parent => simp only [hsame.stage_eq]
  simp only [derive, pass, hvisit]

end Snapshot

/-! ## Learning after bring-ups -/

namespace Session

variable {σ : Type} [ClockBank σ]

/-- Learning reads each control word once, and neither writes nor polls. -/
theorem learn_eq_extend (session : Session σ) (sysref : Hertz) :
    let facc1 := ClockBank.facc1 session.bank
    let pllLow := ClockBank.pllLow session.bank
    let pllHigh := ClockBank.pllHigh session.bank
    session.learn sysref =
      (Snapshot.derive ⟨facc1, pllLow, pllHigh⟩ sysref,
        session.extend session.bank
          [.readFacc1 facc1, .readLow pllLow, .readHigh pllHigh]
          [.controlWords facc1 pllLow pllHigh]) := by
  simp [learn, snapshot, readFacc1, readLow, readHigh, noted, log, extend,
    ← Array.toList_inj]

end Session

namespace RegisterFile

def snapshot (file : RegisterFile) : Snapshot :=
  ⟨file.facc1, file.pllLow, file.pllHigh⟩

theorem sameTree_afterLock (file : RegisterFile) (pll : Pll) (count : Nat) :
    (file.afterLock pll count).snapshot.SameTree file.snapshot := by
  have hfse : PllStatusHigh.fse.isSet (file.pllHigh.clearBit pll.openingBit) =
      PllStatusHigh.fse.isSet file.pllHigh := by
    rw [PllStatusHigh.fse, Field.isSet_flag _ (by decide),
      Field.isSet_flag _ (by decide)]
    cases pll <;> simp [Pll.openingBit, Word.bit_clearBit]
  exact ⟨rfl, rfl, hfse, fun _ => rfl, fun _ _ => rfl⟩

theorem sameTree_afterMux (file : RegisterFile) :
    file.afterMux.snapshot.SameTree file.snapshot := by
  have hdisjoint : ∀ field ∈ Facc1.dividers,
      field.offset < 32 ∧ field.offset + field.width ≤ 32 ∧
        (12 < field.offset ∨ field.offset + field.width ≤ 12) := by
    decide
  refine ⟨rfl, rfl, rfl, fun _ => rfl, fun field hmem => ?_⟩
  obtain ⟨hoffset, hend, hout⟩ := hdisjoint field hmem
  have hfits : field.Fits := ⟨hoffset, hend⟩
  exact hfits.get_clearBit (by decide) hout file.facc1

theorem Course.sameTree
    {file final : RegisterFile} {bound : Option Nat} {patience : Nat}
    {result : BringUpResult} {accesses : List Access} {records : List Record}
    (hcourse : file.Course bound patience result final accesses records) :
    final.snapshot.SameTree file.snapshot := by
  cases hcourse with
  | fabricTimeout | fabricPending => exact file.sameTree_afterLock _ _
  | mpllTimeout | mpllPending =>
      exact (sameTree_afterLock _ _ _).trans (sameTree_afterLock _ _ _)
  | running =>
      exact (sameTree_afterMux _).trans
        ((sameTree_afterLock _ _ _).trans (sameTree_afterLock _ _ _))

theorem sameTree_afterCalls
    (file : RegisterFile) (deadline : Nat) (limits : List PollLimit) :
    (file.afterCalls (file.calls deadline limits)).snapshot.SameTree
      file.snapshot := by
  induction limits generalizing file with
  | nil => exact .refl _
  | cons limit rest ih =>
      obtain ⟨result, next, accesses, records, hcourse, hcall⟩ :=
        file.exists_call_eq deadline limit
      simp only [calls, afterCalls, hcall, Session.bank_extend]
      split
      · exact hcourse.sameTree
      · exact (ih next).trans hcourse.sameTree

/-- After any bring-ups, whether they have returned or not, learning makes its
three reads and nothing else, and it learns the clocks that the words told
before the bring-ups.  Bits outside the fields of `SameTree` never show in the
clocks. -/
theorem learn_afterCalls
    (file : RegisterFile) (deadline : Nat) (limits : List PollLimit)
    (sysref : Hertz) :
    let final := file.afterCalls (file.calls deadline limits)
    let learned := final.learn sysref
    learned.1 = file.snapshot.derive sysref ∧
      learned.2.accesses.toList =
        [.readFacc1 final.facc1, .readLow final.pllLow,
          .readHigh final.pllHigh] ∧
      learned.2.bank = final ∧
      ∀ a b : Snapshot, a.SameTree b →
        ∀ reference, a.derive reference = b.derive reference := by
  intro final learned
  have hlearned := (Session.start final).learn_eq_extend sysref
  have hclocks : learned.1 = final.snapshot.derive sysref :=
    congrArg Prod.fst hlearned
  have hsession := congrArg Prod.snd hlearned
  have hsame : final.snapshot.SameTree file.snapshot :=
    file.sameTree_afterCalls deadline limits
  refine ⟨hclocks.trans (hsame.derive_eq sysref), ?_, ?_, ?_⟩
  · calc
      learned.2.accesses.toList = _ :=
        congrArg (fun session => session.accesses.toList) hsession
      _ = _ := by
        simp only [Session.start, Session.extend, Array.toList_append,
          List.nil_append]
        rfl
  · exact congrArg Session.bank hsession
  · intro a b hab reference
    exact hab.derive_eq reference

theorem learn_afterCalls_lateLocks :
    let limits : List PollLimit := [.iterations 2, .iterations 3, .forever]
    let final := lateLocks.afterCalls (lateLocks.calls 100 limits)
    let a : Snapshot := ⟨0x1100, 0x70000, 0⟩
    let b : Snapshot := ⟨0, 0xC0000000, 7⟩
    final.facc1 ≠ lateLocks.facc1 ∧ final.pllHigh ≠ lateLocks.pllHigh ∧
      (final.learn ⟨100000000⟩).1 =
        lateLocks.snapshot.derive ⟨100000000⟩ ∧
      a.SameTree b ∧ a.derive ⟨100000000⟩ = b.derive ⟨100000000⟩ := by
  intro limits final a b
  obtain ⟨hclocks, -, -, hagree⟩ :=
    learn_afterCalls lateLocks 100 limits ⟨100000000⟩
  have hsame : a.SameTree b :=
    ⟨by decide, by decide, by decide,
      fun hfse => absurd hfse (by decide), by decide⟩
  refine ⟨by decide +kernel, by decide +kernel, hclocks, hsame, ?_⟩
  exact hagree a b hsame ⟨100000000⟩

end RegisterFile

end MssClock
