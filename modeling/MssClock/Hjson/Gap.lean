/-!
# Gaps between tokens

Spaces, tabs and line ends count for nothing between tokens, nor do comments:
from a number sign or two slashes to the end of the line, or between the marks
of a block comment, which may also be left open up to the end of the text.
-/

namespace MssClock.Hjson

def isSpace (c : Char) : Bool :=
  c == ' ' || c == '\t' || c == '\r' || c == '\n'

/-- What a reader that skips a gap is inside of. -/
inductive Gap where
  | blank
  | line
  | block
  deriving DecidableEq, Repr

def skipGap : Gap → List Char → List Char
  | _, [] => []
  | .blank, '#' :: rest => skipGap .line rest
  | .blank, '/' :: '/' :: rest => skipGap .line rest
  | .blank, '/' :: '*' :: rest => skipGap .block rest
  | .blank, c :: rest => if isSpace c then skipGap .blank rest else c :: rest
  | .line, c :: rest =>
      if c = '\n' then skipGap .blank rest else skipGap .line rest
  | .block, '*' :: '/' :: rest => skipGap .blank rest
  | .block, _ :: rest => skipGap .block rest

def skip (text : List Char) : List Char :=
  skipGap .blank text

end MssClock.Hjson
