import MssClock.Proofs.BringUp.History
import MssClock.Proofs.BringUp.Trace

/-!
# Order of the accesses of a bring-up

A bring-up may be cut off at any access: by a reset, or because a PLL never
locks.  What must hold then is a property of each access and of those made
before it.  `Admissible` states that property for one access of a bring-up and
`Guarded` for a list of accesses, one after the other; the course of a
bring-up is followed phase by phase.
-/

namespace MssClock

/-- The number of waits that come before the wait for this PLL. -/
def Pll.turn : Pll → Nat
  | .fabric => 0
  | .mpll => 1

theorem Pll.turn_injective : Function.Injective Pll.turn := by
  intro pll other hturn
  cases pll <;> cases other <;> simp [turn] at hturn ⊢

/-- The lock wait that was begun last has used up the limit and was never
shown the lock. -/
def WaitExpired (limit : PollLimit) (accesses : List Access) : Prop :=
  ∃ n pll earlier statuses, limit = .iterations n ∧
    Access.waits accesses = earlier ++ [statuses] ∧
    earlier.length = Pll.turn pll ∧ statuses.length = n.toNat ∧
    ∀ status ∈ statuses, status.bit pll.lockBit = false

/-- What a bring-up may do next, when `past` are its accesses so far and
`stored` is in the PLL control word. -/
structure Admissible (limit : PollLimit) (stored : Word)
    (past : List Access) (access : Access) : Prop where
  facc1 : ∀ bits, access = .writeFacc1 bits →
    ∃ fabric high mpll,
      [.poll fabric, .writeHigh high, .poll mpll].Sublist past ∧
        fabric.bit 0 = true ∧ high.bit 0 = false ∧ high.bit 2 = false ∧
        mpll.bit 1 = true
  bypass : ∀ bits, access = .writeHigh bits →
    stored.bit 0 = true → bits.bit 0 = false →
    ∃ high fabric,
      [.writeHigh high, .poll fabric].Sublist past ∧
        high.bit 2 = false ∧ fabric.bit 0 = true
  alive : ¬WaitExpired limit past

def Guarded (limit : PollLimit) :
    (stored : Word) → (past accesses : List Access) → Prop
  | _, _, [] => True
  | stored, past, access :: rest =>
      Admissible limit stored past access ∧
        Guarded limit (Access.highAfter stored [access]) (past ++ [access])
          rest

variable {limit : PollLimit} {stored : Word} {past : List Access}

theorem guarded_append {accesses more : List Access} :
    Guarded limit stored past (accesses ++ more) ↔
      Guarded limit stored past accesses ∧
        Guarded limit (Access.highAfter stored accesses) (past ++ accesses)
          more := by
  induction accesses generalizing stored past with
  | nil => simp [Guarded, Access.highAfter]
  | cons access rest ih =>
      have hhigh := Access.highAfter_append stored [access] rest
      simp only [List.singleton_append] at hhigh
      simp [Guarded, ih, hhigh, and_assoc]

theorem Guarded.admissible
    {accesses more : List Access} {access : Access}
    (hguarded : Guarded limit stored past (accesses ++ access :: more)) :
    Admissible limit (Access.highAfter stored accesses) (past ++ accesses)
      access :=
  (guarded_append.mp hguarded).2.1

theorem guarded_read
    {access : Access} (hfacc1 : ∀ bits, access ≠ .writeFacc1 bits)
    (hhigh : ∀ bits, access ≠ .writeHigh bits)
    (halive : ¬WaitExpired limit past) :
    Guarded limit stored past [access] :=
  ⟨⟨fun bits h => absurd h (hfacc1 bits), fun bits h => absurd h (hhigh bits),
    halive⟩, trivial⟩

/-- Whether a wait has expired is decided by its polls alone. -/
theorem waitExpired_append
    {more : List Access} (hpolls : Access.polledFirst more = [])
    (hwaits : Access.waits more = []) :
    WaitExpired limit (past ++ more) ↔ WaitExpired limit past := by
  unfold WaitExpired
  rw [Access.waits_append past hpolls, hwaits, List.append_nil]

theorem not_waitExpired_nil : ¬WaitExpired limit [] := by
  rintro ⟨n, pll, earlier, statuses, -, hwaits, -⟩
  simp [Access.waits] at hwaits

namespace RegisterFile

variable {file : RegisterFile} {pll : Pll} {bound : Option Nat}
  {patience count : Nat} {result : WaitResult}

theorem exists_locked_of_waitEnd
    (hend : WaitEnd (file.locking pll) limit.bound patience result count)
    {k : Nat} (hk : k < count ∨ k = count ∧ result ≠ .expired)
    {n : UInt32} (hlimit : limit = .iterations n) (hn : k = n.toNat) :
    ∃ status ∈ file.statuses k, status.bit pll.lockBit = true := by
  subst hlimit
  cases hend with
  | @ready first hleast hbound _ =>
      have hlt : first < n.toNat := hbound n.toNat rfl
      have hfirst : first < k := by omega
      exact ⟨_, List.mem_map.mpr ⟨first, List.mem_range.mpr hfirst, rfl⟩,
        hleast.1⟩
  | expired hbound _ _ =>
      have hcount : n.toNat = count := by
        simpa [PollLimit.bound] using hbound
      simp at hk
      omega
  | pending hbound _ =>
      have hlt : patience < n.toNat := hbound n.toNat rfl
      simp at hk
      omega

theorem not_waitExpired_of_waitEnd
    (hend : WaitEnd (file.locking pll) limit.bound patience result count)
    {k : Nat} (hk : k < count ∨ k = count ∧ result ≠ .expired)
    {earlier : List (List Word)} (hturn : earlier.length = pll.turn)
    (hwaits : Access.waits past = earlier ++ [file.statuses k]) :
    ¬WaitExpired limit past := by
  rintro ⟨n, other, _, _, hlimit, hother, hotherTurn, hlength, hnone⟩
  rw [hwaits] at hother
  obtain ⟨rfl, hstatuses⟩ := List.append_inj' hother rfl
  obtain rfl : file.statuses k = _ := List.singleton_inj.mp hstatuses
  have hpll : pll = other := Pll.turn_injective (hturn.symm.trans hotherTurn)
  subst hpll
  rw [length_statuses] at hlength
  obtain ⟨status, hmem, hlocked⟩ :=
    exists_locked_of_waitEnd hend hk hlimit hlength
  rw [hnone status hmem] at hlocked
  cases hlocked

theorem guarded_polls
    (halive : ∀ k < count, ¬WaitExpired limit (past ++ file.polls k)) :
    Guarded limit stored past (file.polls count) := by
  induction count with
  | zero => trivial
  | succ count ih =>
      have hsnoc : file.polls (count + 1) = file.polls count ++
          [.poll (file.status (file.position + count))] := by
        simp [polls, List.range_succ]
      rw [hsnoc, guarded_append]
      refine ⟨ih fun k hk => halive k (by omega), ?_⟩
      exact guarded_read (by simp) (by simp) (halive count (by omega))

theorem guarded_lockPhase
    (hend : WaitEnd (file.locking pll) limit.bound patience result count)
    (hturn : (Access.waits past).length = pll.turn)
    (halive : ¬WaitExpired limit past)
    (hbypass : file.pllHigh.bit 0 = true →
      (file.pllHigh.clearBit pll.openingBit).bit 0 = false →
      ∃ high fabric,
        [.writeHigh high, .poll fabric].Sublist past ∧
          high.bit 2 = false ∧ fabric.bit 0 = true) :
    Guarded limit file.pllHigh past (file.lockPhase pll count) := by
  have hpolls : ∀ k < count, ¬WaitExpired limit
      (past ++ file.lockPhase pll k) := by
    intro k hk
    refine not_waitExpired_of_waitEnd hend (.inl hk) hturn ?_
    rw [Access.waits_append _ (file.polledFirst_lockPhase pll k),
      waits_lockPhase]
  refine ⟨⟨by simp, by simp, halive⟩, ⟨by simp, ?_, ?_⟩, ?_⟩
  · rintro _ ⟨⟩ hset hclear
    obtain ⟨high, fabric, hsublist, hbits⟩ := hbypass hset hclear
    exact ⟨high, fabric,
      hsublist.trans (List.sublist_append_left _ _), hbits⟩
  · rwa [waitExpired_append rfl rfl]
  · apply guarded_polls
    simpa [lockPhase] using hpolls

/-- A wait that succeeds was shown the lock after its store. -/
theorem exists_sublist_lockPhase
    (hend : WaitEnd (file.locking pll) bound patience .ready count) :
    ∃ status,
      [.writeHigh (file.pllHigh.clearBit pll.openingBit),
          .poll status].Sublist (file.lockPhase pll count) ∧
        status.bit pll.lockBit = true := by
  cases hend with
  | @ready k hleast _ _ =>
      have hmem : .poll (file.status (file.position + k)) ∈
          file.polls (k + 1) :=
        List.mem_map.mpr ⟨k, List.mem_range.mpr k.lt_succ_self, rfl⟩
      exact ⟨_, .cons _ (.cons_cons _ (List.singleton_sublist.mpr hmem)),
        hleast.1⟩

theorem guarded_fabricPhase
    (hfabric : WaitEnd (file.locking .fabric) limit.bound patience
      result count) :
    Guarded limit file.pllHigh [] (file.lockPhase .fabric count) := by
  refine guarded_lockPhase hfabric rfl not_waitExpired_nil ?_
  intro hset hclear
  simp [Pll.openingBit, Word.bit_clearBit, hset] at hclear

theorem guarded_lockPhases
    {more : Nat} {remaining : Nat}
    (hfabric : WaitEnd (file.locking .fabric) limit.bound patience
      .ready count)
    (hmpll : WaitEnd ((file.afterLock .fabric count).locking .mpll)
      limit.bound remaining result more) :
    Guarded limit file.pllHigh []
      (file.lockPhase .fabric count ++
        (file.afterLock .fabric count).lockPhase .mpll more) := by
  rw [guarded_append, highAfter_lockPhase, List.nil_append]
  refine ⟨guarded_fabricPhase hfabric, guarded_lockPhase hmpll ?_ ?_ ?_⟩
  · rw [waits_lockPhase]
    rfl
  · exact not_waitExpired_of_waitEnd hfabric (.inr ⟨rfl, by decide⟩)
      (List.length_nil) (file.waits_lockPhase .fabric count)
  · intro _ _
    obtain ⟨fabric, hsublist, hlocked⟩ := exists_sublist_lockPhase hfabric
    exact ⟨_, fabric, hsublist,
      by simp [Pll.openingBit, Word.bit_clearBit], hlocked⟩

theorem guarded_muxPhase
    {more : Nat} {remaining : Nat}
    (hfabric : WaitEnd (file.locking .fabric) limit.bound patience
      .ready count)
    (hmpll : WaitEnd ((file.afterLock .fabric count).locking .mpll)
      limit.bound remaining .ready more)
    (switched : RegisterFile) :
    Guarded limit stored
      (file.lockPhase .fabric count ++
        (file.afterLock .fabric count).lockPhase .mpll more)
      switched.muxPhase := by
  have halive := not_waitExpired_of_waitEnd hmpll (.inr ⟨rfl, by decide⟩)
    List.length_singleton (file.waits_lockPhases count more)
  refine ⟨⟨by simp, by simp, halive⟩, ⟨?_, by simp, ?_⟩, trivial⟩
  · rintro _ -
    obtain ⟨fabric, hfirst, hfabricLocked⟩ :=
      exists_sublist_lockPhase hfabric
    obtain ⟨mpll, hsecond, hmpllLocked⟩ := exists_sublist_lockPhase hmpll
    have hboth := (List.sublist_of_cons_sublist hfirst).append hsecond
    refine ⟨fabric, _, mpll,
      hboth.trans (List.sublist_append_left _ _), hfabricLocked, ?_, ?_,
      hmpllLocked⟩
    · simp [Pll.openingBit, Word.bit_clearBit]
    · simp [afterLock, Pll.openingBit, Word.bit_clearBit]
  · rwa [waitExpired_append rfl rfl]

theorem Course.guarded
    {final : RegisterFile} {result : BringUpResult}
    {accesses : List Access} {records : List Record}
    (hcourse : file.Course limit.bound patience
      result final accesses records) :
    Guarded limit file.pllHigh [] accesses := by
  cases hcourse with
  | fabricTimeout hfabric | fabricPending hfabric =>
      exact guarded_fabricPhase hfabric
  | mpllTimeout hfabric hmpll | mpllPending hfabric hmpll =>
      exact guarded_lockPhases hfabric hmpll
  | running hfabric hmpll =>
      exact guarded_append.mpr
        ⟨guarded_lockPhases hfabric hmpll, guarded_muxPhase hfabric hmpll _⟩

theorem waitExpired_of_waitEnd
    (hend : WaitEnd (file.locking pll) limit.bound patience .expired count)
    {earlier : List (List Word)} (hturn : earlier.length = pll.turn)
    (hwaits : Access.waits past = earlier ++ [file.statuses count]) :
    WaitExpired limit past := by
  cases hend with
  | expired hbound hnone _ =>
      cases limit with
      | forever => cases hbound
      | iterations n =>
          obtain rfl : n.toNat = count := Option.some.inj hbound
          refine ⟨n, pll, earlier, _, rfl, hwaits, hturn,
            file.length_statuses _, ?_⟩
          intro status hmem
          obtain ⟨k, hk, rfl⟩ := List.mem_map.mp hmem
          simpa [locking] using hnone k (List.mem_range.mp hk)

/-- A bring-up times out if and only if one of its waits has expired. -/
theorem Course.waitExpired_iff
    {final : RegisterFile} {result : BringUpResult}
    {accesses : List Access} {records : List Record}
    (hcourse : file.Course limit.bound patience
      result final accesses records) :
    WaitExpired limit accesses ↔ ∃ error, result = .timedOut error := by
  cases hcourse with
  | fabricTimeout hfabric =>
      exact iff_of_true (waitExpired_of_waitEnd hfabric List.length_nil
        (file.waits_lockPhase _ _)) ⟨_, rfl⟩
  | fabricPending hfabric =>
      exact iff_of_false (not_waitExpired_of_waitEnd hfabric
        (.inr ⟨rfl, by decide⟩) List.length_nil (file.waits_lockPhase _ _))
        (by simp)
  | mpllTimeout _ hmpll =>
      exact iff_of_true (waitExpired_of_waitEnd hmpll List.length_singleton
        (file.waits_lockPhases _ _)) ⟨_, rfl⟩
  | mpllPending _ hmpll =>
      exact iff_of_false (not_waitExpired_of_waitEnd hmpll
        (.inr ⟨rfl, by decide⟩) List.length_singleton
        (file.waits_lockPhases _ _)) (by simp)
  | running _ hmpll =>
      rw [waitExpired_append rfl rfl]
      exact iff_of_false (not_waitExpired_of_waitEnd hmpll
        (.inr ⟨rfl, by decide⟩) List.length_singleton
        (file.waits_lockPhases _ _)) (by simp)

end RegisterFile

/-! ## Histories of bring-ups -/

structure Event where
  call : Nat
  access : Access
  deriving DecidableEq

/-- The accesses of bring-ups one after another, numbered from `number`. -/
def eventsFrom (number : Nat) : List Call → List Event
  | [] => []
  | call :: rest =>
      call.session.accesses.toList.map (Event.mk number) ++
        eventsFrom (number + 1) rest

def accessesOf (call : Nat) (events : List Event) : List Access :=
  (events.filter fun event => event.call = call).map Event.access

theorem accessesOf_append (call : Nat) (events more : List Event) :
    accessesOf call (events ++ more) =
      accessesOf call events ++ accessesOf call more := by
  simp [accessesOf]

theorem accessesOf_map_self (call : Nat) (accesses : List Access) :
    accessesOf call (accesses.map (Event.mk call)) = accesses := by
  simp [accessesOf, List.filter_map, Function.comp_def]

theorem accessesOf_map_of_ne
    {call other : Nat} (hne : other ≠ call) (accesses : List Access) :
    accessesOf call (accesses.map (Event.mk other)) = [] := by
  simp [accessesOf, List.filter_map, Function.comp_def, hne]

theorem accessesOf_eventsFrom
    {call number : Nat} {calls : List Call}
    (hcall : number + calls.length ≤ call) :
    accessesOf call (eventsFrom number calls) = [] := by
  induction calls generalizing number with
  | nil => rfl
  | cons first rest ih =>
      rw [List.length_cons] at hcall
      rw [eventsFrom, accessesOf_append,
        accessesOf_map_of_ne (by omega), ih (by omega)]
      rfl

theorem accessesOf_isPrefix
    {events more : List Event} (hstart : events <+: more) (call : Nat) :
    accessesOf call events <+: accessesOf call more :=
  (hstart.filter _).map _

/-- Where an event of a history stands: in one bring-up, after the events of
the bring-ups before it and after accesses of its own. -/
theorem exists_call_of_eventsFrom_eq
    {number : Nat} {calls : List Call} {before after : List Event}
    {event : Event}
    (hsplit : eventsFrom number calls = before ++ event :: after) :
    ∃ earlier call later past rest,
      calls = earlier ++ call :: later ∧
        event.call = number + earlier.length ∧
        before = eventsFrom number earlier ++
          past.map (Event.mk event.call) ∧
        call.session.accesses.toList = past ++ event.access :: rest := by
  induction calls generalizing number before with
  | nil => simp [eventsFrom] at hsplit
  | cons first calls ih =>
      have hlater : ∀ skipped,
          before = first.session.accesses.toList.map (Event.mk number) ++
            skipped →
          eventsFrom (number + 1) calls = skipped ++ event :: after →
          ∃ earlier call later past rest,
            first :: calls = earlier ++ call :: later ∧
              event.call = number + earlier.length ∧
              before = eventsFrom number earlier ++
                past.map (Event.mk event.call) ∧
              call.session.accesses.toList =
                past ++ event.access :: rest := by
        intro skipped hbefore hskipped
        obtain ⟨earlier, call, later, past, rest, rfl, hnumber, rfl, hown⟩ :=
          ih hskipped
        refine ⟨first :: earlier, call, later, past, rest, rfl, ?_, ?_, hown⟩
        · rw [hnumber, List.length_cons]
          omega
        · rw [hbefore, eventsFrom, List.append_assoc]
      -- Either the first bring-up ends before the event, or it holds it.
      rw [eventsFrom, List.append_eq_append_iff] at hsplit
      rcases hsplit with ⟨skipped, hbefore, hskipped⟩ | ⟨own, hown, hrest⟩
      · exact hlater skipped hbefore hskipped
      · cases own with
        | nil =>
            rw [List.append_nil] at hown
            exact hlater [] (by rw [hown, List.append_nil]) hrest.symm
        | cons head own =>
            obtain ⟨rfl, hafter⟩ := List.cons_eq_cons.mp hrest
            obtain ⟨past, tail, haccesses, rfl, htail⟩ :=
              List.map_eq_append_iff.mp hown
            obtain ⟨access, rest, rfl, rfl, -⟩ :=
              List.map_eq_cons_iff.mp htail
            exact ⟨[], first, calls, past, rest, rfl, rfl, rfl, haccesses⟩

namespace RegisterFile

def events (file : RegisterFile) (deadline : Nat)
    (limits : List PollLimit) : List Event :=
  eventsFrom 0 (file.calls deadline limits)

/-- A bring-up of a history starts from what the events before it left. -/
theorem eq_call_of_calls_eq
    {file : RegisterFile} {deadline : Nat} {limits : List PollLimit}
    {earlier later : List Call} {call : Call} (number : Nat)
    (hsplit : file.calls deadline limits = earlier ++ call :: later) :
    ∃ limit, limits[earlier.length]? = some limit ∧
      call = (file.afterCalls earlier).call deadline limit ∧
      (file.afterCalls earlier).pllHigh = Access.highAfter file.pllHigh
        ((eventsFrom number earlier).map Event.access) := by
  induction limits generalizing file earlier number with
  | nil => simp [calls] at hsplit
  | cons limit limits ih =>
      rw [calls] at hsplit
      cases earlier with
      | nil =>
          obtain ⟨hcall, -⟩ := List.cons_eq_cons.mp hsplit
          exact ⟨limit, rfl, hcall.symm, rfl⟩
      | cons first earlier =>
          obtain ⟨hfirst, hrest⟩ := List.cons_eq_cons.mp hsplit
          split at hrest
          next => simp at hrest
          next =>
            obtain ⟨result, final, accesses, records, hcourse, hcall⟩ :=
              file.exists_call_eq deadline limit
            obtain ⟨found, hlimit, hsame, hhigh⟩ := ih (number + 1) hrest
            rw [hfirst] at hsame hhigh
            refine ⟨found, hlimit, hsame, hhigh.trans ?_⟩
            rw [← hfirst, hcall, eventsFrom, List.map_append,
              Access.highAfter_append]
            simp [Session.extend, Session.start, Function.comp_def,
              hcourse.pllHigh_eq_highAfter]

/-- Any prefix of the accesses of a history, cut off anywhere.  Before the
multiplexer is switched its bring-up was shown the fabric lock, then stored
with bypass and supply bit clear, and then was shown the PLL lock.  Before the
bypass ends it stored with the supply bit clear and then was shown the fabric
lock.  And it makes no access after a wait of it has expired, which is how it
times out. -/
theorem events_sequenced
    (file : RegisterFile) (deadline : Nat) (limits : List PollLimit)
    (trace : List Event) (hstart : trace <+: file.events deadline limits) :
    (∀ before event after, trace = before ++ event :: after →
      let own := accessesOf event.call before
      (∀ bits, event.access = .writeFacc1 bits →
        ∃ fabric high mpll,
          [.poll fabric, .writeHigh high, .poll mpll].Sublist own ∧
            fabric.bit 0 = true ∧ high.bit 0 = false ∧
            high.bit 2 = false ∧ mpll.bit 1 = true) ∧
      (∀ bits, event.access = .writeHigh bits →
        (Access.highAfter file.pllHigh
          (before.map Event.access)).bit 0 = true →
        bits.bit 0 = false →
        ∃ high fabric,
          [.writeHigh high, .poll fabric].Sublist own ∧
            high.bit 2 = false ∧ fabric.bit 0 = true) ∧
      ∃ limit, limits[event.call]? = some limit ∧
        ∀ early, early <+: before →
          ¬WaitExpired limit (accessesOf event.call early)) ∧
    ∀ call ∈ file.calls deadline limits,
      WaitExpired call.limit call.session.accesses.toList ↔
        ∃ error, call.result = .timedOut error := by
  constructor
  · rintro before event after rfl
    obtain ⟨unseen, hevents⟩ := hstart
    rw [List.append_assoc, List.cons_append] at hevents
    obtain ⟨earlier, call, later, past, rest, hcalls, hnumber, rfl, hown⟩ :=
      exists_call_of_eventsFrom_eq hevents.symm
    obtain ⟨limit, hlimit, rfl, hhigh⟩ := eq_call_of_calls_eq 0 hcalls
    obtain ⟨result, final, accesses, records, hcourse, hcall⟩ :=
      (file.afterCalls earlier).exists_call_eq deadline limit
    have haccesses : accesses = past ++ event.access :: rest := by
      rw [← hown, hcall]
      simp [Session.extend, Session.start]
    have hguarded := hcourse.guarded
    have hbefore : accessesOf event.call (eventsFrom 0 earlier ++
        past.map (Event.mk event.call)) = past := by
      rw [accessesOf_append, accessesOf_eventsFrom hnumber.ge,
        accessesOf_map_self, List.nil_append]
    have hstored : Access.highAfter file.pllHigh
        ((eventsFrom 0 earlier ++ past.map (Event.mk event.call)).map
          Event.access) =
        Access.highAfter (file.afterCalls earlier).pllHigh past := by
      rw [List.map_append, Access.highAfter_append, ← hhigh]
      simp [Function.comp_def]
    have hadmissible := (haccesses ▸ hguarded).admissible
    rw [List.nil_append] at hadmissible
    simp only [hbefore, hstored]
    refine ⟨hadmissible.facc1, hadmissible.bypass, limit, ?_, ?_⟩
    · rw [hnumber, Nat.zero_add]
      exact hlimit
    · -- Whatever was made before the event had an access after it.
      intro early hearly
      have hpast := accessesOf_isPrefix hearly event.call
      rw [hbefore] at hpast
      obtain ⟨made, hmade⟩ := hpast
      rw [haccesses, ← hmade, List.append_assoc] at hguarded
      cases made with
      | nil => simpa using hguarded.admissible.alive
      | cons next made => simpa using hguarded.admissible.alive
  · intro call hmem
    obtain ⟨earlier, later, hcalls⟩ := List.append_of_mem hmem
    obtain ⟨limit, -, rfl, -⟩ := eq_call_of_calls_eq 0 hcalls
    obtain ⟨result, final, accesses, records, hcourse, hcall⟩ :=
      (file.afterCalls earlier).exists_call_eq deadline limit
    rw [hcall]
    simpa [Session.extend, Session.start] using hcourse.waitExpired_iff

theorem events_sequenced_lateLocks :
    let limits : List PollLimit := [.iterations 2, .iterations 3, .forever]
    let events := lateLocks.events 100 limits
    let before := events.dropLast
    let first := lateLocks.call 100 (.iterations 2)
    events <+: lateLocks.events 100 limits ∧
      events = before ++ [⟨2, .writeFacc1 0xfff⟩] ∧
      (∃ fabric high mpll,
        [.poll fabric, .writeHigh high, .poll mpll].Sublist
            (accessesOf 2 before) ∧
          fabric.bit 0 = true ∧ high.bit 0 = false ∧
          high.bit 2 = false ∧ mpll.bit 1 = true) ∧
      first ∈ lateLocks.calls 100 limits ∧
      WaitExpired (.iterations 2) first.session.accesses.toList := by
  intro limits events before first
  have hlast : events = before ++ [⟨2, .writeFacc1 0xfff⟩] := by
    decide +kernel
  have hfirst : first.result = .timedOut .fabricPllLockTimeout := by
    decide +kernel
  have hmem : first ∈ lateLocks.calls 100 limits := .head _
  obtain ⟨hsequenced, hexpired⟩ :=
    events_sequenced lateLocks 100 limits events List.prefix_rfl
  exact ⟨List.prefix_rfl, hlast,
    (hsequenced before _ [] hlast).1 _ rfl, hmem,
    (hexpired first hmem).mpr ⟨_, hfirst⟩⟩

end RegisterFile

end MssClock
