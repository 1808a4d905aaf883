import MssClock.RegisterValue
import MssClock.Hjson.Gap
import MssClock.Hjson.Literal
import MssClock.Hjson.Quoted
import MssClock.Hjson.Multiline

/-!
# Values, lists and objects

The reader of the data format.  A place in the text is what follows it; the
whole text is kept only for the column of a string of several lines.

Some places expect a register value.  There a word that starts like `null` has
to be `null`, which says that the value is absent, and may be followed by
anything; everywhere else it is an ordinary literal.
-/

namespace MssClock.Hjson

inductive Item where
  | absent
  | register (value : RegisterValue)
  /-- A well-formed value that no register has. -/
  | other
  deriving DecidableEq, Repr

def Item.text (chars : List Char) : Item :=
  .register (.text (String.ofList chars))

def Item.ofLiteral : Literal → Item
  | .natural n => .register (.number n)
  | .other => .other

/-- The column of the place before `rest`, in bytes. -/
def column (source rest : List Char) : Nat :=
  let before := source.take (source.length - rest.length)
  let line := before.reverse.takeWhile fun c => c != '\n'
  line.foldl (fun n c => n + c.utf8Size) 0

def endsLine (c : Char) : Bool :=
  c == '\r' || c == '\n' || c == '\x00'

/-- Whether a text without quotes may end here as a literal. -/
def endsLiteral : List Char → Bool
  | [] => true
  | '/' :: '/' :: _ => true
  | '/' :: '*' :: _ => true
  | c :: _ => endsLine c || c == ',' || c == '}' || c == ']' || c == '#'

/-- Reads a value without quotes, given its collected characters, latest
first.  A literal ends before a mark; a text ends only with its line, and the
line end goes with it.  A literal at the very end of the text is an error,
because no mark follows it. -/
def bare (source : List Char) : (collected : List Char) → List Char →
    Option (Item × List Char)
  | collected, [] =>
      match literal? collected.reverse with
      | some _ => none
      | none => some (.text (trim collected.reverse), [])
  | collected, c :: rest =>
      let found :=
        if endsLiteral (c :: rest) then literal? collected.reverse else none
      match found with
      | some literal => some (.ofLiteral literal, c :: rest)
      | none =>
          if endsLine c then some (.text (trim collected.reverse), rest)
          else
            let collected := c :: collected
            if collected = List.replicate 3 apostrophe then
              (multiline (column source rest - 3) rest).map
                fun (chars, after) => (.text chars, after)
            else bare source collected rest

/-- Whether no value may start with this character. -/
def startsNoValue (c : Char) : Bool :=
  c == '}' || c == ']' || c == ',' || c == ':' || c == '\x00'

def isKeyChar (c : Char) : Bool :=
  ' ' < c && !(c == ':' || c == '{' || c == '}' || c == '[' || c == ']' || c == ',')

/-- A key without quotes may be followed by blanks, here any control
character but NUL. -/
def isKeyBlank (c : Char) : Bool :=
  c ≤ ' ' && c != '\x00'

/-- The key of an entry and what follows it. -/
def key : List Char → Option (List Char × List Char)
  | '"' :: rest => quoted rest
  | text =>
      match text.takeWhile isKeyChar, (text.dropWhile isKeyChar).dropWhile isKeyBlank with
      | c :: chars, ':' :: rest => some (c :: chars, ':' :: rest)
      | _, _ => none

/-- What follows the colon of an entry. -/
def colon (text : List Char) : Option (List Char) :=
  match skip text with
  | ':' :: rest => some rest
  | _ => none

/-- Skips the gap before an element, and one comma if it is not the first. -/
def separator (first : Bool) (text : List Char) : List Char :=
  match first, skip text with
  | false, ',' :: rest => skip rest
  | _, rest => rest

mutual

/-- Reads one value.  `register` tells whether a register value is expected. -/
def value (source : List Char) : (fuel : Nat) → (register : Bool) → List Char →
    Option (Item × List Char)
  | 0, _, _ => none
  | fuel + 1, register, text =>
      match register, skip text with
      | _, [] => none
      | true, 'n' :: rest =>
          match rest with
          | 'u' :: 'l' :: 'l' :: after => some (.absent, after)
          | _ => none
      | _, '"' :: rest =>
          (quoted rest).map fun (chars, after) => (.text chars, after)
      | _, '[' :: rest =>
          (elements source fuel false true rest).map
            fun (_, after) => (.other, after)
      | _, '{' :: rest =>
          (entries source fuel (fun _ => false) true true rest).map
            fun (_, after) => (.other, after)
      | _, c :: rest =>
          if startsNoValue c then none else bare source [] (c :: rest)

/-- Reads the elements of a list up to its closing bracket. -/
def elements (source : List Char) : (fuel : Nat) → (register first : Bool) →
    List Char → Option (List Item × List Char)
  | 0, _, _, _ => none
  | fuel + 1, register, first, text =>
      match separator first text with
      | ']' :: rest => some ([], rest)
      | text => do
          let (item, rest) ← value source fuel register text
          let (items, rest) ← elements source fuel register false rest
          return (item :: items, rest)

/-- Reads the entries of an object, up to its closing brace if it has braces
and to the end of the text if it has none.  `known` tells which keys hold
register values. -/
def entries (source : List Char) : (fuel : Nat) → (known : String → Bool) →
    (braced first : Bool) → List Char →
    Option (List (String × Item) × List Char)
  | 0, _, _, _, _ => none
  | fuel + 1, known, braced, first, text =>
      match braced, separator first text with
      | true, '}' :: rest => some ([], rest)
      | false, [] => some ([], [])
      | _, text => do
          let (chars, rest) ← key text
          let name := String.ofList chars
          let rest ← colon rest
          let (item, rest) ← value source fuel (known name) rest
          let (others, rest) ← entries source fuel known braced false rest
          return ((name, item) :: others, rest)

end

end MssClock.Hjson
