import MssClock.Fault

/-!
# Fields of a register

A field is a run of consecutive bits of a register word.  It reads as a flag
or as a number, and storing into it leaves every other bit alone.  A number
that does not fit the field is refused and nothing is stored.
-/

namespace MssClock

inductive FieldKind where
  | flag
  | number
  deriving DecidableEq, Repr

structure Field where
  name : String
  /-- The number of the lowest bit. -/
  offset : Nat
  width : Nat
  kind : FieldKind
  deriving DecidableEq, Repr

inductive FieldValue where
  | flag (on : Bool)
  | number (n : Word)
  deriving DecidableEq, Repr

def FieldValue.debug : FieldValue → String
  | .flag true => "true"
  | .flag false => "false"
  | .number n => toString n.toNat

namespace Field

def flag (name : String) (bit : Nat) : Field :=
  ⟨name, bit, 1, .flag⟩

/-- The number in the bits from `low` up to and with `high`. -/
def bits (name : String) (high low : Nat) : Field :=
  ⟨name, low, high + 1 - low, .number⟩

/-- The largest value of the field, which is also its mask at bit 0. -/
def largest (field : Field) : Word :=
  UInt32.ofNat ((1 <<< field.width) - 1)

/-- The field's own bits within the word. -/
def mask (field : Field) : Word :=
  field.largest <<< UInt32.ofNat field.offset

def get (field : Field) (word : Word) : Word :=
  (word >>> UInt32.ofNat field.offset) &&& field.largest

def isSet (field : Field) (word : Word) : Bool :=
  field.get word != 0

def value (field : Field) (word : Word) : FieldValue :=
  match field.kind with
  | .flag => .flag (field.isSet word)
  | .number => .number (field.get word)

/-- Replaces the field's bits by the low bits of `n`. -/
def store (field : Field) (n word : Word) : Word :=
  (word &&& ~~~field.mask) |||
    ((n &&& field.largest) <<< UInt32.ofNat field.offset)

def clear (field : Field) (word : Word) : Word :=
  field.store 0 word

def put (field : Field) (n word : Word) : Except Fault Word :=
  if n ≤ field.largest then .ok (field.store n word)
  else .error (.outOfBounds field.largest)

theorem put_eq_ok
    {field : Field} {n : Word} (word : Word)
    (h : n ≤ field.largest) :
    field.put n word = .ok (field.store n word) := by
  simp [put, h]

theorem put_eq_error
    {field : Field} {n : Word} (word : Word)
    (h : ¬ n ≤ field.largest) :
    field.put n word = .error (.outOfBounds field.largest) := by
  simp [put, h]

end Field

end MssClock
