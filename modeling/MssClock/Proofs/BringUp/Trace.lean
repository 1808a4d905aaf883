import MssClock.Proofs.BringUp.Course

/-!
# What a list of accesses shows

A list of accesses tells by itself, whatever made it, what the PLL control
word holds in the end and what was polled in which lock wait.  A lock wait
begins with a store into the control word and consists of the polls up to the
next store.
-/

namespace MssClock

namespace Access

/-- The statuses polled before the next store into the PLL control word. -/
def polledFirst : List Access → List Word
  | [] => []
  | .poll status :: rest => status :: polledFirst rest
  | .writeHigh _ :: _ => []
  | _ :: rest => polledFirst rest

def waits : List Access → List (List Word)
  | [] => []
  | .writeHigh _ :: rest => polledFirst rest :: waits rest
  | _ :: rest => waits rest

/-- The PLL control word after the accesses, `stored` being in it before. -/
def highAfter (stored : Word) : List Access → Word
  | [] => stored
  | .writeHigh bits :: rest => highAfter bits rest
  | _ :: rest => highAfter stored rest

theorem highAfter_append
    (stored : Word) (accesses more : List Access) :
    highAfter stored (accesses ++ more) =
      highAfter (highAfter stored accesses) more := by
  induction accesses generalizing stored with
  | nil => rfl
  | cons access rest ih => cases access <;> exact ih _

theorem highAfter_polls (stored : Word) (statuses : List Word) :
    highAfter stored (statuses.map .poll) = stored := by
  induction statuses with
  | nil => rfl
  | cons status statuses ih => exact ih

theorem polledFirst_polls_append
    (statuses : List Word) (rest : List Access) :
    polledFirst (statuses.map .poll ++ rest) =
      statuses ++ polledFirst rest := by
  induction statuses with
  | nil => rfl
  | cons status statuses ih => simp [polledFirst, ih]

theorem polledFirst_append
    {accesses rest : List Access} (hrest : polledFirst rest = []) :
    polledFirst (accesses ++ rest) = polledFirst accesses := by
  induction accesses with
  | nil => exact hrest
  | cons access accesses ih => cases access <;> simp [polledFirst, ih]

theorem waits_append
    (accesses : List Access) {rest : List Access} (hrest : polledFirst rest = []) :
    waits (accesses ++ rest) = waits accesses ++ waits rest := by
  induction accesses with
  | nil => rfl
  | cons access accesses ih =>
      cases access <;> simp [waits, ih, polledFirst_append hrest]

theorem waits_polls_append
    (statuses : List Word) (rest : List Access) :
    waits (statuses.map .poll ++ rest) = waits rest := by
  induction statuses with
  | nil => rfl
  | cons status statuses ih => simp [waits, ih]

end Access

namespace RegisterFile

variable (file : RegisterFile)

def statuses (count : Nat) : List Word :=
  (List.range count).map fun k => file.status (file.position + k)

theorem polls_eq_map (count : Nat) :
    file.polls count = (file.statuses count).map .poll := by
  simp [polls, statuses]

@[simp]
theorem length_statuses (count : Nat) :
    (file.statuses count).length = count := by
  simp [statuses]

theorem polls_isPrefix_of_le {count more : Nat} (hle : count ≤ more) :
    file.polls count <+: file.polls more := by
  obtain ⟨extra, rfl⟩ := Nat.exists_eq_add_of_le hle
  rw [polls, polls, List.range_add, List.map_append]
  exact List.prefix_append _ _

theorem lockPhase_isPrefix_of_le
    (pll : Pll) {count more : Nat} (hle : count ≤ more) :
    file.lockPhase pll count <+: file.lockPhase pll more := by
  unfold lockPhase
  rw [List.prefix_cons_inj, List.prefix_cons_inj]
  exact file.polls_isPrefix_of_le hle

theorem polledFirst_lockPhase (pll : Pll) (count : Nat) :
    Access.polledFirst (file.lockPhase pll count) = [] := rfl

theorem waits_lockPhase (pll : Pll) (count : Nat) :
    Access.waits (file.lockPhase pll count) = [file.statuses count] := by
  have hfirst := Access.polledFirst_polls_append (file.statuses count) []
  have hwaits := Access.waits_polls_append (file.statuses count) []
  rw [List.append_nil] at hfirst hwaits
  simp [lockPhase, polls_eq_map, Access.waits, hfirst, hwaits,
    Access.polledFirst]

/-- The wait for the PLL begins with the poll after the fabric lock. -/
theorem waits_lockPhases (count more : Nat) :
    Access.waits
      (file.lockPhase .fabric count ++
        (file.afterLock .fabric count).lockPhase .mpll more) =
      [file.statuses count,
        (file.afterLock .fabric count).statuses more] := by
  rw [Access.waits_append _ (polledFirst_lockPhase _ _ _),
    waits_lockPhase, waits_lockPhase]
  rfl

theorem highAfter_lockPhase (pll : Pll) (count : Nat) (stored : Word) :
    Access.highAfter stored (file.lockPhase pll count) =
      (file.afterLock pll count).pllHigh := by
  rw [lockPhase, polls_eq_map]
  exact Access.highAfter_polls _ _

theorem Course.pllHigh_eq_highAfter
    {file final : RegisterFile} {bound : Option Nat} {patience : Nat}
    {result : BringUpResult} {accesses : List Access}
    {records : List Record}
    (hcourse : file.Course bound patience result final accesses records) :
    final.pllHigh = Access.highAfter file.pllHigh accesses := by
  cases hcourse with
  | fabricTimeout | fabricPending => rw [highAfter_lockPhase]
  | mpllTimeout | mpllPending =>
      rw [Access.highAfter_append, highAfter_lockPhase]
  | running =>
      rw [Access.highAfter_append, Access.highAfter_append,
        highAfter_lockPhase]
      rfl

end RegisterFile

end MssClock
