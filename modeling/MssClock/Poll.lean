/-!
# Polling with a limit

A wait evaluates a condition again and again until it holds.  A limited wait
gives up after a fixed number of evaluations, an unlimited one never does.

The `patience` of a run is the number of evaluations after which it is looked
at from outside.  It stands in for the end of the run and belongs to no wait:
a wait that has neither succeeded nor used up its limit by then is pending,
and more patience never changes an answer that was already given.
-/

namespace MssClock

inductive PollLimit where
  | forever
  /-- Give up after this many evaluations; zero gives up without any. -/
  | iterations (count : UInt32)
  deriving DecidableEq, Repr, Inhabited

namespace PollLimit

/-- The limit that applies when none is chosen. -/
def standard : PollLimit := .forever

def debug : PollLimit → String
  | .forever => "Forever"
  | .iterations count => s!"Iterations({count.toNat})"

/-- The number of evaluations after which a wait gives up, if it ever does. -/
def bound : PollLimit → Option Nat
  | .forever => none
  | .iterations count => some count.toNat

end PollLimit

/-- The number of evaluations that a wait may make. -/
def triesWithin (bound : Option Nat) (patience : Nat) : Nat :=
  match bound with
  | none => patience
  | some count => min count patience

/-- Whether a wait without success ends by itself. -/
def expiresWithin (bound : Option Nat) (patience : Nat) : Bool :=
  match bound with
  | none => false
  | some count => count ≤ patience

/-- Evaluates `condition` until it holds, at most `tries` times.  `count`
evaluations have been made before; the answer counts all of them. -/
def search {σ : Type} (condition : σ → Bool × σ) :
    (tries : Nat) → (count : Nat) → σ → Bool × Nat × σ
  | 0, count, state => (false, count, state)
  | tries + 1, count, state =>
      match condition state with
      | (true, next) => (true, count + 1, next)
      | (false, next) => search condition tries (count + 1) next

inductive WaitResult where
  | ready
  | expired
  | pending
  deriving DecidableEq, Repr

structure Wait (σ : Type) where
  result : WaitResult
  evaluations : Nat
  state : σ

/-- Waits for `condition`, up to `bound` evaluations of it. -/
def waitUntil {σ : Type} (condition : σ → Bool × σ) (bound : Option Nat)
    (patience : Nat) (state : σ) : Wait σ :=
  match search condition (triesWithin bound patience) 0 state with
  | (true, evaluations, final) => ⟨.ready, evaluations, final⟩
  | (false, evaluations, final) =>
      ⟨if expiresWithin bound patience then .expired else .pending,
        evaluations, final⟩

end MssClock
