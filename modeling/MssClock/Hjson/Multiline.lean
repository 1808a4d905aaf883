/-!
# Strings of several lines

A string between triple apostrophes.  It starts after the opening marks, or on
the next line if only blanks follow them.  Of the blanks at the start of each
further line as many are dropped as the opening marks are indented, and at
least one.  Carriage returns are dropped, and so is a line feed right before
the closing marks.
-/

namespace MssClock.Hjson

def apostrophe : Char := '\x27'

def isIndent (c : Char) : Bool :=
  c == ' ' || c == '\t' || c == '\r'

/-- The collected characters, latest first, without a line feed at the end. -/
def dropFinalNewline : List Char → List Char
  | '\n' :: rest => rest
  | collected => collected

/-- Reads up to the closing marks.  Up to `drop` blanks are dropped next;
`marks` apostrophes came right before; `collected` has the latest character
first. -/
def multilineFrom (indent : Nat) : (drop marks : Nat) → (collected : List Char) →
    List Char → Option (List Char × List Char)
  | _, _, _, [] => none
  | drop, marks, collected, c :: rest =>
      if c = apostrophe then
        if marks = 2 then some ((dropFinalNewline collected).reverse, rest)
        else multilineFrom indent 0 (marks + 1) collected rest
      else if 0 < drop ∧ isIndent c then
        multilineFrom indent (drop - 1) 0 collected rest
      else
        let collected := List.replicate marks apostrophe ++ collected
        if c = '\n' then multilineFrom indent indent 0 (c :: collected) rest
        else if c = '\r' then multilineFrom indent 0 0 collected rest
        else multilineFrom indent 0 0 (c :: collected) rest

/-- Reads a string whose opening marks stand in this column. -/
def multiline (column : Nat) (text : List Char) :
    Option (List Char × List Char) :=
  let indent := max column 1
  match text.dropWhile isIndent with
  | '\n' :: rest => multilineFrom indent indent 0 [] rest
  | rest => multilineFrom indent 0 0 [] rest

end MssClock.Hjson
