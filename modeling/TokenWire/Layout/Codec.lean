import TokenWire.Error
import TokenWire.Layout.Decode
import TokenWire.Layout.Encode

/-! Layouts at the level of errors, and typed views of values. -/

namespace TokenWire

namespace Layout

/-- The bytes of a value. -/
def write (layout : Layout) (v : Value) : Except Error Bytes :=
  (layout.encode v).mapError .unencodable

/-- The value that data holds. -/
def parse (layout : Layout) (data : Bytes) : Except Error Value :=
  (layout.decode data).mapError (.malformed · data.length)

end Layout

namespace Value

variable {α : Type}

def optional (f : α → Value) : Option α → Value
  | none => .absent
  | some a => f a

def list (f : α → Value) (as : List α) : Value :=
  .seq (as.map f)

/-- Reads nothing as none. -/
def asOption (f : Value → Except Error α) : Value → Except Error (Option α)
  | .absent => .ok none
  | v => (f v).map some

def asList (f : Value → Except Error α) : Value → Except Error (List α)
  | .seq vs => vs.mapM f
  | _ => .error .wrongShape

def asInt : Value → Except Error Int
  | .int n => .ok n
  | _ => .error .wrongShape

def asBool : Value → Except Error Bool
  | .bool b => .ok b
  | _ => .error .wrongShape

def asBytes : Value → Except Error Bytes
  | .bytes bs => .ok bs
  | _ => .error .wrongShape

def asKey : Value → Except Error Key
  | .key k => .ok k
  | _ => .error .wrongShape

end Value
end TokenWire
