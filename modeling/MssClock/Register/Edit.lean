import MssClock.Register.Layout

/-!
# Edits of a register value

An edit stores into one field, replaces the whole word, or compares it.
There are four ways to store: in place or into a fresh copy, and each of them
either stopping at a number that does not fit or reporting it.  All four store
the same word when the number fits, and none stores anything when it does not.
-/

namespace MssClock

inductive WriteMode where
  | set
  | replace
  | trySet
  | tryReplace
  deriving DecidableEq, Repr

/-- Whether a number that does not fit is reported instead of stopping. -/
def WriteMode.reports : WriteMode → Bool
  | .set | .replace => false
  | .trySet | .tryReplace => true

inductive Edit where
  | write (mode : WriteMode) (field : Field) (n : Word)
  | load (bits : Word)
  | reset
  | compare (bits : Word)
  deriving DecidableEq, Repr

inductive EditReply where
  | done
  | equal (same : Bool)
  | refused
  | fault (fault : Fault)
  deriving DecidableEq, Repr

def Edit.apply (word : Word) : Edit → EditReply × Word
  | .write mode field n =>
      match field.put n word with
      | .ok next => (.done, next)
      | .error fault => (if mode.reports then .refused else .fault fault, word)
  | .load bits => (.done, bits)
  | .reset => (.done, 0)
  | .compare bits => (.equal (word == bits), word)

/-- The reply to each edit and the word after it. -/
def Edit.replies (word : Word) : List Edit → List (EditReply × Word)
  | [] => []
  | edit :: rest =>
      let outcome := edit.apply word
      outcome :: Edit.replies outcome.2 rest

/-- The word after a run of edits. -/
def Edit.run (word : Word) (edits : List Edit) : Word :=
  edits.foldl (fun current edit => (edit.apply current).2) word

end MssClock
