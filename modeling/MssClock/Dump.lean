import MssClock.Hjson.Value

/-!
# Register dumps

A dump gives some of the four settings: the reference frequency and the three
control words.  It is an object with or without braces, or a list of exactly
four values in the order of the settings.  A setting given twice makes a dump
malformed, and so does a setting whose value no register can have; entries
with other keys only have to be well-formed.
-/

namespace MssClock

inductive Setting where
  | sysref
  | facc1
  | pllLow
  | pllHigh
  deriving DecidableEq, Repr

namespace Setting

def all : List Setting := [.sysref, .facc1, .pllLow, .pllHigh]

/-- The key of the setting in a dump. -/
def key : Setting → String
  | .sysref => "sysref"
  | .facc1 => "facc1_cr"
  | .pllLow => "pll_status_low_cr"
  | .pllHigh => "pll_status_high_cr"

/-- The name of the setting on the command line. -/
def name : Setting → String
  | .sysref => "sysref"
  | .facc1 => "facc1"
  | .pllLow => "pll-low"
  | .pllHigh => "pll-high"

def isKey (text : String) : Bool :=
  all.any fun setting => setting.key == text

end Setting

structure Dump where
  sysref : Option RegisterValue
  facc1 : Option RegisterValue
  pllLow : Option RegisterValue
  pllHigh : Option RegisterValue
  deriving DecidableEq, Repr

namespace Dump

def empty : Dump := ⟨none, none, none, none⟩

def get (dump : Dump) : Setting → Option RegisterValue
  | .sysref => dump.sysref
  | .facc1 => dump.facc1
  | .pllLow => dump.pllLow
  | .pllHigh => dump.pllHigh

/-- The dump whose settings are all given by `value?`, if each of them is. -/
def ofSettings? (value? : Setting → Option (Option RegisterValue)) :
    Option Dump := do
  let sysref ← value? .sysref
  let facc1 ← value? .facc1
  let pllLow ← value? .pllLow
  let pllHigh ← value? .pllHigh
  return { sysref, facc1, pllLow, pllHigh }

end Dump

/-- The value of a setting that is given by this item. -/
def Hjson.Item.value? : Hjson.Item → Option (Option RegisterValue)
  | .absent => some none
  | .register value => some (some value)
  | .other => none

namespace Dump

/-- The value of a key that occurs at most once. -/
def lookup? (entries : List (String × Hjson.Item)) (key : String) :
    Option (Option RegisterValue) :=
  match entries.filter fun entry => entry.1 == key with
  | [] => some none
  | [entry] => entry.2.value?
  | _ => none

def ofEntries? (entries : List (String × Hjson.Item)) : Option Dump :=
  ofSettings? fun setting => lookup? entries setting.key

def ofItems? : List Hjson.Item → Option Dump
  | [sysref, facc1, pllLow, pllHigh] =>
      ofSettings? fun
        | .sysref => sysref.value?
        | .facc1 => facc1.value?
        | .pllLow => pllLow.value?
        | .pllHigh => pllHigh.value?
  | _ => none

/-- A text that does not end in a blank is closed by a line feed. -/
def closed (text : List Char) : List Char :=
  match text.getLast? with
  | none => ['\n']
  | some c => if isBlank c then text else text ++ ['\n']

/-- Nothing but a gap may follow the dump. -/
def finish (dump? : Option Dump) (rest : List Char) : Option Dump :=
  if Hjson.skip rest = [] then dump? else none

def ofChars? (text : List Char) : Option Dump := do
  let source := closed text
  let fuel := 2 * source.length + 2
  match Hjson.skip source with
  | [] => none
  | '[' :: rest =>
      let (items, rest) ← Hjson.elements source fuel true true rest
      finish (ofItems? items) rest
  | '\x7b' :: rest =>
      let (entries, rest) ←
        Hjson.entries source fuel Setting.isKey true true rest
      finish (ofEntries? entries) rest
  | text =>
      let (entries, rest) ←
        Hjson.entries source fuel Setting.isKey false true text
      finish (ofEntries? entries) rest

/-- Reads a dump; nothing if it is malformed. -/
def ofText? (text : String) : Option Dump :=
  ofChars? text.toList

end Dump

end MssClock
