import MssClock.Clock.Snapshot

/-!
# Evaluating the tree

A pass over the domains writes one frequency at a time.  What it leaves for a
domain follows from what it leaves for the parent, provided that neither is
written again afterwards, and in an order that lists every domain once and
after its parent that is so for every domain.  So a pass in such an order
solves the equations of the tree, whatever the store held before.  The
equations have one solution only, since every domain hangs on the reference,
and the order of the pass therefore does not show.
-/

namespace MssClock

namespace Domain

/-- The order lists every domain once, and after its parent. -/
structure IsEvaluationOrder (order : List Domain) : Prop where
  once : order.Perm all
  parent_first : ∀ domain parent, domain.parent = some parent →
    order.idxOf parent < order.idxOf domain

theorem isEvaluationOrder_all : IsEvaluationOrder all where
  once := .refl all
  parent_first domain parent hparent := by
    cases domain <;> cases hparent <;> decide

theorem IsEvaluationOrder.exists_eq_append
    {order : List Domain} (horder : IsEvaluationOrder order)
    (domain : Domain) :
    ∃ before after, order = before ++ domain :: after ∧
      domain ∉ after ∧
      ∀ parent ∈ domain.parent, parent ∉ domain :: after := by
  have hmem : domain ∈ order := horder.once.mem_iff.mpr domain.mem_all
  have hnodup : order.Nodup := horder.once.nodup_iff.mpr (by decide)
  obtain ⟨before, after, hsplit⟩ := List.append_of_mem hmem
  -- Listed once, a domain cannot stand on both sides of the split.
  rw [hsplit] at hnodup
  obtain ⟨-, hlate, hapart⟩ := List.nodup_append.mp hnodup
  have hdomain : domain ∉ before := fun hearly =>
    hapart domain hearly domain List.mem_cons_self rfl
  refine ⟨before, after, hsplit, (List.nodup_cons.mp hlate).1, ?_⟩
  intro parent hparent hmemLate
  have hnotEarly : parent ∉ before := fun hearly =>
    hapart parent hearly parent hmemLate rfl
  have hfirst := horder.parent_first domain parent hparent
  rw [hsplit, List.idxOf_append, if_neg hnotEarly, List.idxOf_append,
    if_neg hdomain, List.idxOf_cons_self] at hfirst
  omega

theorem parent_eq_none (domain : Domain) (hparent : domain.parent = none) :
    domain = .sysref := by
  cases domain with
  | sysref => rfl
  | ddr | clkA | systick | pclk0 | pclk1 | fic0 | fic1 | ddrFic =>
      cases hparent

/-- What passes from parents to their children holds of the whole tree, the
reference having no parent. -/
@[elab_as_elim]
theorem induction_parent {motive : Domain → Prop}
    (step : ∀ domain, (∀ parent, domain.parent = some parent → motive parent) →
      motive domain)
    (domain : Domain) : motive domain := by
  induction hindex : domain.index.val using Nat.strongRecOn
    generalizing domain with
  | ind index ih =>
      subst hindex
      refine step domain fun parent hparent => ?_
      exact ih parent.index (index_parent_lt hparent) parent rfl

theorem exists_index_eq (index : Fin count) :
    ∃ domain : Domain, domain.index = index := by
  have hall : ∀ index : Fin count, (all[index]).index = index := by decide
  exact ⟨all[index], hall index⟩

end Domain

theorem Clocks.ext_get
    {a b : Clocks} (hget : ∀ domain, a.get domain = b.get domain) : a = b := by
  have hfreqs : a.freqs = b.freqs := by
    refine Vector.ext fun index hindex => ?_
    obtain ⟨domain, hdomain⟩ := Domain.exists_index_eq ⟨index, hindex⟩
    simpa [get, hdomain] using hget domain
  exact congrArg Clocks.mk hfreqs

namespace Snapshot

section Pass

variable (snapshot : Snapshot) (sysref : Hertz)

def follow (clocks : Clocks) (domain : Domain) : Hertz :=
  match domain.parent with
  | none => sysref
  | some parent => snapshot.stage domain (clocks.get parent)

theorem visit_eq_set (clocks : Clocks) (domain : Domain) :
    snapshot.visit sysref clocks domain =
      clocks.set domain (snapshot.follow sysref clocks domain) := rfl

variable {snapshot sysref} {domain : Domain} {order : List Domain}

theorem get_pass_of_notMem (start : Clocks) (hnotMem : domain ∉ order) :
    (snapshot.pass sysref order start).get domain = start.get domain := by
  induction order generalizing start with
  | nil => rfl
  | cons first rest ih =>
      obtain ⟨hne, hrest⟩ := List.ne_and_not_mem_of_not_mem_cons hnotMem
      calc
        (snapshot.pass sysref (first :: rest) start).get domain =
            (snapshot.visit sysref start first).get domain := ih _ hrest
        _ = start.get domain := by
          rw [visit_eq_set]
          exact start.get_set_of_ne _ hne

theorem get_pass_of_eq_append
    {before after : List Domain} (start : Clocks)
    (horder : order = before ++ domain :: after)
    (hlast : domain ∉ after)
    (hparent : ∀ parent ∈ domain.parent, parent ∉ domain :: after) :
    (snapshot.pass sysref order start).get domain =
      snapshot.follow sysref (snapshot.pass sysref order start) domain := by
  let early := snapshot.pass sysref before start
  have hsplit : snapshot.pass sysref order start =
      snapshot.pass sysref (domain :: after) early := by
    rw [horder]
    exact List.foldl_append
  -- What comes after the domain writes neither the domain nor its parent.
  have hself : (snapshot.pass sysref order start).get domain =
      snapshot.follow sysref early domain := by
    rw [hsplit]
    calc
      (snapshot.pass sysref (domain :: after) early).get domain =
          (snapshot.visit sysref early domain).get domain :=
        get_pass_of_notMem _ hlast
      _ = snapshot.follow sysref early domain := by
        rw [visit_eq_set, Clocks.get_set_self]
  rw [hself, follow, follow]
  cases hcase : domain.parent with
  | none => rfl
  | some parent =>
      have hkept : (snapshot.pass sysref order start).get parent =
          early.get parent := by
        rw [hsplit]
        exact get_pass_of_notMem early (hparent parent hcase)
      simp only [hkept]

theorem get_pass (horder : Domain.IsEvaluationOrder order)
    (start : Clocks) (domain : Domain) :
    (snapshot.pass sysref order start).get domain =
      snapshot.follow sysref (snapshot.pass sysref order start) domain := by
  obtain ⟨before, after, hsplit, hlast, hparent⟩ :=
    horder.exists_eq_append domain
  exact get_pass_of_eq_append start hsplit hlast hparent

variable (snapshot sysref domain)

theorem get_derive :
    (snapshot.derive sysref).get domain =
      snapshot.follow sysref (snapshot.derive sysref) domain :=
  get_pass Domain.isEvaluationOrder_all .zero domain

end Pass

/-! ## The equations of the tree -/

/-- The reference is the given one, and every other domain is one stage below
its parent. -/
structure Solves (snapshot : Snapshot) (sysref : Hertz) (clocks : Clocks) :
    Prop where
  reference : clocks.get .sysref = sysref
  below : ∀ domain parent, domain.parent = some parent →
    clocks.get domain = snapshot.stage domain (clocks.get parent)

section Solution

variable {snapshot : Snapshot} {sysref : Hertz} {clocks other : Clocks}

theorem solves_pass
    {order : List Domain} (horder : Domain.IsEvaluationOrder order)
    (start : Clocks) :
    snapshot.Solves sysref (snapshot.pass sysref order start) where
  reference := get_pass horder start .sysref
  below domain parent hparent := by
    rw [get_pass horder start domain, follow, hparent]

theorem Solves.get_eq
    (hclocks : snapshot.Solves sysref clocks)
    (hother : snapshot.Solves sysref other) (domain : Domain) :
    clocks.get domain = other.get domain := by
  induction domain using Domain.induction_parent with
  | step domain ih =>
      cases hparent : domain.parent with
      | none =>
          have hsysref : domain = .sysref := domain.parent_eq_none hparent
          rw [hsysref, hclocks.reference, hother.reference]
      | some parent =>
          calc
            clocks.get domain = snapshot.stage domain (clocks.get parent) :=
              hclocks.below domain parent hparent
            _ = snapshot.stage domain (other.get parent) := by
              rw [ih parent hparent]
            _ = other.get domain := (hother.below domain parent hparent).symm

theorem Solves.eq
    (hclocks : snapshot.Solves sysref clocks)
    (hother : snapshot.Solves sysref other) : clocks = other :=
  Clocks.ext_get (hclocks.get_eq hother)

end Solution

/-- The learned clocks are the one solution of the equations, and a pass in
any evaluation order finds them, from whatever it starts; so does a second
pass over the clocks themselves. -/
theorem derive_unique_solution (snapshot : Snapshot) (sysref : Hertz) :
    (∀ clocks, snapshot.Solves sysref clocks ↔
        clocks = snapshot.derive sysref) ∧
      (∀ order, Domain.IsEvaluationOrder order → ∀ start,
        snapshot.pass sysref order start = snapshot.derive sysref) ∧
      snapshot.pass sysref Domain.all (snapshot.derive sysref) =
        snapshot.derive sysref := by
  have hderive : snapshot.Solves sysref (snapshot.derive sysref) :=
    solves_pass Domain.isEvaluationOrder_all .zero
  have hpass : ∀ order, Domain.IsEvaluationOrder order → ∀ start,
      snapshot.pass sysref order start = snapshot.derive sysref :=
    fun _ horder start => (solves_pass horder start).eq hderive
  refine ⟨fun clocks => ⟨fun hclocks => hclocks.eq hderive, ?_⟩, hpass, ?_⟩
  · rintro rfl
    exact hderive
  · exact hpass Domain.all Domain.isEvaluationOrder_all _

theorem derive_unique_solution_stageReversed :
    let snapshot : Snapshot := ⟨0x2C6046, 0x100C2, 8⟩
    let clocks : Clocks :=
      ⟨#v[⟨100000000⟩, ⟨66666666⟩, ⟨22222222⟩, ⟨22222222⟩, ⟨11111111⟩,
        ⟨5555555⟩, ⟨5555555⟩, ⟨2777777⟩, ⟨1388888⟩]⟩
    let order : List Domain :=
      [.sysref, .ddr, .clkA, .ddrFic, .fic1, .fic0, .pclk1, .pclk0, .systick]
    let start : Clocks := ⟨Vector.replicate Domain.count ⟨7⟩⟩
    snapshot.Solves ⟨100000000⟩ clocks ∧ Domain.IsEvaluationOrder order ∧
      snapshot.pass ⟨100000000⟩ order start = clocks := by
  intro snapshot clocks order start
  have hsolves : snapshot.Solves ⟨100000000⟩ clocks := by
    refine ⟨by decide, fun domain parent hparent => ?_⟩
    cases domain <;> cases hparent <;> decide
  have horder : Domain.IsEvaluationOrder order := by
    refine ⟨by decide, fun domain parent hparent => ?_⟩
    cases domain <;> cases hparent <;> decide
  obtain ⟨hunique, hpass, -⟩ := derive_unique_solution snapshot ⟨100000000⟩
  have hclocks := (hunique clocks).mp hsolves
  exact ⟨hsolves, horder, (hpass order horder start).trans hclocks.symm⟩

end Snapshot

end MssClock
