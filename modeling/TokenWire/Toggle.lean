import TokenWire.Layout.Codec

/-! Updates that tell a field left alone from a field cleared. -/

namespace TokenWire

/-- An update of a field that may be left alone, cleared, or set. -/
inductive Toggle (α : Type) where
  | unchanged
  | clear
  | set (a : α)
deriving DecidableEq

namespace Toggle

inductive Kind where
  | none
  | clear
  | set
deriving DecidableEq, Repr

instance : Enumeration Kind where
  title := "ToggleKind"
  all := [.none, .clear, .set]
  tag := Kind.ctorIdx
  name
    | .none => "NONE"
    | .clear => "CLEAR"
    | .set => "SET"

variable {α : Type}

def kind : Toggle α → Kind
  | .unchanged => .none
  | .clear => .clear
  | .set _ => .set

def value? : Toggle α → Option α
  | .set a => some a
  | _ => none

/-- Sets a field, which takes a value. -/
def setTo : Option α → Except Error (Toggle α)
  | some a => .ok (.set a)
  | none => .error .setWithoutValue

/-- A tag, and the value behind it only when it is set. -/
def layout (item : Layout) : Layout :=
  .variants [(0, .unit), (1, .unit), (2, item)]

def toValue (f : α → Value) (t : Toggle α) : Value :=
  .variant (Enumeration.tag t.kind) (.optional f t.value?)

def ofValue (f : Value → Except Error α) : Value → Except Error (Toggle α)
  | .variant 0 _ => .ok .unchanged
  | .variant 1 _ => .ok .clear
  | .variant 2 v => (f v).map .set
  | _ => .error .wrongShape

end Toggle
end TokenWire
