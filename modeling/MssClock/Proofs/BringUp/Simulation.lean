import MssClock.Clock.BringUp

/-!
# Bring-up on related banks

A bring-up reaches its registers through the operations of a clock bank only.
If two banks answer these operations alike, and go on doing so whatever is
stored into both, then a bring-up makes the same accesses to both, emits the
same records and has the same answer.
-/

namespace MssClock

/-- Related banks hold the same words and stay related. -/
structure ClockBank.Simulation
    {σ τ : Type} [ClockBank σ] [ClockBank τ] (related : σ → τ → Prop) :
    Prop where
  facc1_eq : ∀ {s t}, related s t → facc1 s = facc1 t
  pllHigh_eq : ∀ {s t}, related s t → pllHigh s = pllHigh t
  setFacc1 : ∀ {s t} (bits : Word), related s t →
    related (setFacc1 bits s) (setFacc1 bits t)
  setPllHigh : ∀ {s t} (bits : Word), related s t →
    related (setPllHigh bits s) (setPllHigh bits t)
  status_eq : ∀ {s t}, related s t → (pollStatus s).1 = (pollStatus t).1
  pollStatus : ∀ {s t}, related s t →
    related (pollStatus s).2 (pollStatus t).2

section Waits

variable {α β : Type} {related : α → β → Prop}
  {condition : α → Bool × α} {other : β → Bool × β}
  (hstep : ∀ a b, related a b →
    (condition a).1 = (other b).1 ∧ related (condition a).2 (other b).2)

include hstep

theorem search_related
    {a : α} {b : β} (hrelated : related a b) (tries count : Nat) :
    let here := search condition tries count a
    let there := search other tries count b
    here.1 = there.1 ∧ here.2.1 = there.2.1 ∧
      related here.2.2 there.2.2 := by
  induction tries generalizing count a b with
  | zero => exact ⟨rfl, rfl, hrelated⟩
  | succ tries ih =>
      obtain ⟨hsame, hstay⟩ := hstep a b hrelated
      simp only [search]
      -- Both searches see the same answer and go on from related states.
      cases hhere : condition a with
      | mk answer next =>
          cases hthere : other b with
          | mk otherAnswer otherNext =>
              rw [hhere, hthere] at hsame hstay
              simp only at hsame hstay
              subst hsame
              cases answer with
              | true => exact ⟨rfl, rfl, hstay⟩
              | false => exact ih hstay (count + 1)

theorem waitUntil_related
    {a : α} {b : β} (hrelated : related a b)
    (bound : Option Nat) (patience : Nat) :
    let here := waitUntil condition bound patience a
    let there := waitUntil other bound patience b
    here.result = there.result ∧ here.evaluations = there.evaluations ∧
      related here.state there.state := by
  obtain ⟨hfound, hcount, hstate⟩ :=
    search_related hstep hrelated (triesWithin bound patience) 0
  simp only [waitUntil]
  cases hhere : search condition (triesWithin bound patience) 0 a with
  | mk found rest =>
      cases hthere : search other (triesWithin bound patience) 0 b with
      | mk otherFound otherRest =>
          rw [hhere, hthere] at hfound hcount hstate
          simp only at hfound hcount hstate
          subst hfound
          cases found <;> exact ⟨rfl, hcount, hstate⟩

end Waits

namespace Session

variable {σ τ : Type} {related : σ → τ → Prop}

/-- Related banks with the same accesses and records behind them. -/
structure Related (related : σ → τ → Prop)
    (here : Session σ) (there : Session τ) : Prop where
  bank : related here.bank there.bank
  accesses : here.accesses = there.accesses
  records : here.records = there.records

variable {here : Session σ} {there : Session τ}

theorem Related.log
    (hrelated : Related related here there) (record : Record) :
    Related related (here.log record) (there.log record) :=
  ⟨hrelated.bank, hrelated.accesses,
    congrArg (·.push record) hrelated.records⟩

variable [ClockBank σ] [ClockBank τ]

theorem Related.clearFacc1
    (hsim : ClockBank.Simulation related)
    (hrelated : Related related here there) (field : Field) :
    Related related (here.clearFacc1 field) (there.clearFacc1 field) := by
  have hword := hsim.facc1_eq hrelated.bank
  simp only [Session.clearFacc1, readFacc1, writeFacc1, noted, hword]
  exact ⟨hsim.setFacc1 _ hrelated.bank, by rw [hrelated.accesses],
    hrelated.records⟩

theorem Related.clearHigh
    (hsim : ClockBank.Simulation related)
    (hrelated : Related related here there) (field : Field) :
    Related related (here.clearHigh field) (there.clearHigh field) := by
  have hword := hsim.pllHigh_eq hrelated.bank
  simp only [Session.clearHigh, readHigh, writeHigh, noted, hword]
  exact ⟨hsim.setPllHigh _ hrelated.bank, by rw [hrelated.accesses],
    hrelated.records⟩

theorem Related.poll
    (hsim : ClockBank.Simulation related)
    (hrelated : Related related here there) (flag : Field) :
    (here.poll flag).1 = (there.poll flag).1 ∧
      Related related (here.poll flag).2 (there.poll flag).2 := by
  have hstatus := hsim.status_eq hrelated.bank
  refine ⟨congrArg flag.isSet hstatus, hsim.pollStatus hrelated.bank, ?_,
    hrelated.records⟩
  simp only [Session.poll, hstatus, hrelated.accesses]

theorem Related.awaitLock
    (hsim : ClockBank.Simulation related)
    (hrelated : Related related here there)
    (pll : Pll) (bound : Option Nat) (patience : Nat) :
    let wait := here.awaitLock pll bound patience
    let other := there.awaitLock pll bound patience
    wait.result = other.result ∧ wait.evaluations = other.evaluations ∧
      Related related wait.state other.state := by
  have hstep : ∀ (a : Session σ) (b : Session τ), Related related a b →
      (a.poll pll.lockFlag).1 = (b.poll pll.lockFlag).1 ∧
        Related related (a.poll pll.lockFlag).2 (b.poll pll.lockFlag).2 :=
    fun a b hpolled => hpolled.poll hsim pll.lockFlag
  obtain ⟨hresult, hcount, hstate⟩ :=
    waitUntil_related hstep hrelated bound patience
  simp only [Session.awaitLock, ← hresult]
  split
  next => exact ⟨rfl, hcount, hstate.log _⟩
  next => exact ⟨rfl, hcount, hstate.log _⟩
  next => exact ⟨hresult, hcount, hstate⟩

theorem Related.lockMpll
    (hsim : ClockBank.Simulation related)
    (hrelated : Related related here there)
    (bound : Option Nat) (patience : Nat) :
    (here.lockMpll bound patience).1 = (there.lockMpll bound patience).1 ∧
      Related related (here.lockMpll bound patience).2
        (there.lockMpll bound patience).2 := by
  have hopened := hrelated.clearHigh hsim PllStatusHigh.bypass
  obtain ⟨hresult, -, hstate⟩ := hopened.awaitLock hsim .mpll bound patience
  simp only [Session.lockMpll, ← hresult]
  split
  next => exact ⟨rfl, (hstate.clearFacc1 hsim _).log _⟩
  next => exact ⟨rfl, hstate⟩
  next => exact ⟨rfl, hstate⟩

theorem Related.bringUpWithin
    (hsim : ClockBank.Simulation related)
    (hrelated : Related related here there)
    (bound : Option Nat) (patience : Nat) :
    (here.bringUpWithin bound patience).1 =
        (there.bringUpWithin bound patience).1 ∧
      Related related (here.bringUpWithin bound patience).2
        (there.bringUpWithin bound patience).2 := by
  have hopened := hrelated.clearHigh hsim PllStatusHigh.mode3v3
  obtain ⟨hresult, hcount, hstate⟩ :=
    hopened.awaitLock hsim .fabric bound patience
  simp only [Session.bringUpWithin, ← hresult, ← hcount]
  split
  next => exact hstate.lockMpll hsim bound _
  next => exact ⟨rfl, hstate⟩
  next => exact ⟨rfl, hstate⟩

end Session

end MssClock
