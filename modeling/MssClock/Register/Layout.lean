import MssClock.Register.Field

/-!
# Register layouts

A layout declares the members of a register in order.  Members are packed
from bit 0 upward without gaps; padding takes bits but has no name, and
nothing but a load of the whole word changes it.
-/

namespace MssClock

inductive Member where
  | flag (name : String)
  | number (name : String) (width : Nat)
  | padding (width : Nat)
  deriving DecidableEq, Repr

def Member.width : Member → Nat
  | .flag _ => 1
  | .number _ width => width
  | .padding width => width

/-- The field of a member whose lowest bit is `offset`. -/
def Member.field? (offset : Nat) : Member → Option Field
  | .flag name => some ⟨name, offset, 1, .flag⟩
  | .number name width => some ⟨name, offset, width, .number⟩
  | .padding _ => none

structure Layout where
  name : String
  members : List Member
  deriving DecidableEq, Repr

namespace Layout

/-- The fields of `members`, the first of which starts at bit `offset`. -/
def fieldsFrom (offset : Nat) : List Member → List Field
  | [] => []
  | member :: rest =>
      (member.field? offset).toList ++ fieldsFrom (offset + member.width) rest

def fields (layout : Layout) : List Field :=
  fieldsFrom 0 layout.members

def field? (layout : Layout) (name : String) : Option Field :=
  layout.fields.find? fun field => field.name == name

def values (layout : Layout) (word : Word) : List (String × FieldValue) :=
  layout.fields.map fun field => (field.name, field.value word)

def debug (layout : Layout) (word : Word) : String :=
  let entries := (layout.values word).map fun (name, value) =>
    s!"{name}: {value.debug}"
  layout.name ++ " \x7b " ++ ", ".intercalate entries ++ " \x7d"

end Layout

end MssClock
