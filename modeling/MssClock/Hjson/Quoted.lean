import MssClock.Text.Numeral

/-!
# Quoted strings

A string in double quotes, with the usual escapes.  An escaped code unit that
is half of a surrogate pair is valid only together with the other half.  Line
ends may stand in a string as they are.
-/

namespace MssClock.Hjson

def codeUnit? (a b c d : Char) : Option Nat := do
  let a ← Radix.hexadecimal.digit? a
  let b ← Radix.hexadecimal.digit? b
  let c ← Radix.hexadecimal.digit? c
  let d ← Radix.hexadecimal.digit? d
  return ((a * 16 + b) * 16 + c) * 16 + d

def isHighSurrogate (unit : Nat) : Bool :=
  0xD800 ≤ unit && unit < 0xDC00

def isLowSurrogate (unit : Nat) : Bool :=
  0xDC00 ≤ unit && unit < 0xE000

def combineSurrogates (high low : Nat) : Char :=
  Char.ofNat (0x10000 + (high - 0xD800) * 0x400 + (low - 0xDC00))

/-- The character of a one-letter escape. -/
def escaped? : Char → Option Char
  | '"' => some '"'
  | '\\' => some '\\'
  | '/' => some '/'
  | 'b' => some '\x08'
  | 'f' => some '\x0c'
  | 'n' => some '\n'
  | 'r' => some '\r'
  | 't' => some '\t'
  | _ => none

/-- The characters up to the closing quote, and what follows it. -/
def quoted : List Char → Option (List Char × List Char)
  | [] => none
  | '"' :: rest => some ([], rest)
  | '\\' :: 'u' :: a :: b :: c :: d :: rest =>
      match codeUnit? a b c d with
      | none => none
      | some unit =>
          if isHighSurrogate unit then
            match rest with
            | '\\' :: 'u' :: a :: b :: c :: d :: rest =>
                match codeUnit? a b c d with
                | none => none
                | some low =>
                    if isLowSurrogate low then
                      (quoted rest).map fun (s, after) =>
                        (combineSurrogates unit low :: s, after)
                    else none
            | _ => none
          else if isLowSurrogate unit then none
          else (quoted rest).map fun (s, after) => (Char.ofNat unit :: s, after)
  | '\\' :: c :: rest =>
      match escaped? c with
      | none => none
      | some e => (quoted rest).map fun (s, after) => (e :: s, after)
  | '\\' :: [] => none
  | c :: rest => (quoted rest).map fun (s, after) => (c :: s, after)

end MssClock.Hjson
