import MssClock.Text.Numeral

/-!
# Literals without quotes

A text without quotes is a literal if it is one of three keywords or a number
in the usual decimal grammar.  An integer that 64 bits cannot hold is no
literal, and neither is a number with a stray leading zero, so both stay text.
Only a natural number can stand for a register; minus zero is zero.
-/

namespace MssClock.Hjson

inductive Literal where
  | natural (n : UInt64)
  /-- A keyword, a fraction, or a negative integer. -/
  | other
  deriving DecidableEq, Repr

def isDigit (c : Char) : Bool :=
  '0' ≤ c && c ≤ '9'

/-- The digits at the start of a text and what follows them. -/
def splitDigits (text : List Char) : List Char × List Char :=
  (text.takeWhile isDigit, text.dropWhile isDigit)

/-- What follows a part of a number that needs at least one digit. -/
def dropDigits? (text : List Char) : Option (List Char) :=
  match splitDigits text with
  | ([], _) => none
  | (_, rest) => some rest

/-- What follows the fraction, if there is one, and whether there was. -/
def dropFraction? : List Char → Option (Bool × List Char)
  | '.' :: rest => (dropDigits? rest).map fun after => (true, after)
  | text => some (false, text)

def dropSign : List Char → List Char
  | '+' :: rest => rest
  | '-' :: rest => rest
  | text => text

/-- What follows the exponent, if there is one, and whether there was. -/
def dropExponent? : List Char → Option (Bool × List Char)
  | 'e' :: rest => (dropDigits? (dropSign rest)).map fun after => (true, after)
  | 'E' :: rest => (dropDigits? (dropSign rest)).map fun after => (true, after)
  | text => some (false, text)

/-- A zero may only stand alone before the point. -/
def properDigits (digits : List Char) : Bool :=
  match digits with
  | [] => false
  | ['0'] => true
  | '0' :: _ => false
  | _ => true

def integer? (negative : Bool) (digits : List Char) : Option Literal :=
  if negative then
    match readDigits .decimal (signedBound + 1) 0 digits with
    | .ok 0 => some (.natural 0)
    | .ok _ => some .other
    | .error _ => none
  else
    match readDigits .decimal UInt64.size 0 digits with
    | .ok n => some (.natural (UInt64.ofNat n))
    | .error _ => none

def unsignedNumber? (negative : Bool) (text : List Char) : Option Literal := do
  let (digits, rest) := splitDigits text
  guard (properDigits digits)
  let (fraction, rest) ← dropFraction? rest
  let (exponent, rest) ← dropExponent? rest
  guard (rest.all fun c => c == ' ' || c == '\t')
  if fraction || exponent then some .other else integer? negative digits

def number? : List Char → Option Literal
  | '-' :: text => unsignedNumber? true text
  | text => unsignedNumber? false text

/-- The keyword that a text starting like it is compared with. -/
def keyword? : List Char → Option String
  | 't' :: _ => some "true"
  | 'f' :: _ => some "false"
  | 'n' :: _ => some "null"
  | _ => none

def literal? (text : List Char) : Option Literal :=
  match keyword? text with
  | some keyword => if trim text = keyword.toList then some .other else none
  | none => number? text

end MssClock.Hjson
