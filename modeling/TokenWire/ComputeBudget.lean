import TokenWire.Instruction
import TokenWire.Layout.Codec
import TokenWire.Program

/-! Instructions that ask for compute units and memory, and the levels of urgency. -/

namespace TokenWire.ComputeBudget

/-- The compute units asked for when something is created. -/
def createUnits : Nat := 200000

/-- The compute units asked for when metadata is updated. -/
def updateUnits : Nat := 50000

/-- The instructions, by number. -/
inductive Kind where
  | requestUnits
  | requestHeapFrame
  | setUnitLimit
  | setUnitPrice
  | setLoadedDataLimit
deriving DecidableEq, Repr

instance : Enumeration Kind where
  title := "InstructionType"
  all := [.requestUnits, .requestHeapFrame, .setUnitLimit, .setUnitPrice, .setLoadedDataLimit]
  tag := Kind.ctorIdx
  name
    | .requestUnits => "REQUEST_UNITS_DEPRECATED"
    | .requestHeapFrame => "REQUEST_HEAP_FRAME"
    | .setUnitLimit => "SET_COMPUTE_UNIT_LIMIT"
    | .setUnitPrice => "SET_COMPUTE_UNIT_PRICE"
    | .setLoadedDataLimit => "SET_LOADED_ACCOUNTS_DATA_SIZE_LIMIT"

/-- An instruction with the arguments in its data. -/
inductive Command where
  | requestUnits (units additionalFee : Int)
  | requestHeapFrame (size : Int)
  | setUnitLimit (units : Int)
  | setUnitPrice (microLamports : Int)
  | setLoadedDataLimit (size : Int)
deriving DecidableEq

/-- The layout of the arguments of an instruction. -/
def Kind.layout : Kind → Layout
  | .requestUnits => .struct [("units", .u32), ("additional_fee", .u32)]
  | .requestHeapFrame => .u32
  | .setUnitLimit => .u32
  | .setUnitPrice => .u64
  | .setLoadedDataLimit => .u32

/-- A number of one byte, and the arguments; the number of no instruction stands alone. -/
def layout : Layout :=
  .tagged ⟨"instruction_type", 1, "args", false, false⟩
    ((Enumeration.all : List Kind).map fun kind => (Enumeration.tag kind, kind.layout))

namespace Command

def kind : Command → Kind
  | requestUnits .. => .requestUnits
  | requestHeapFrame .. => .requestHeapFrame
  | setUnitLimit .. => .setUnitLimit
  | setUnitPrice .. => .setUnitPrice
  | setLoadedDataLimit .. => .setLoadedDataLimit

def args : Command → Value
  | requestUnits units additionalFee => .seq [.int units, .int additionalFee]
  | requestHeapFrame n | setUnitLimit n | setUnitPrice n | setLoadedDataLimit n => .int n

def toValue (c : Command) : Value :=
  .variant (Enumeration.tag c.kind) c.args

/-- The instruction with these arguments. -/
def ofArgs : Kind → Value → Except Error Command
  | .requestUnits, .seq [.int units, .int additionalFee] => .ok (requestUnits units additionalFee)
  | .requestHeapFrame, .int n => .ok (requestHeapFrame n)
  | .setUnitLimit, .int n => .ok (setUnitLimit n)
  | .setUnitPrice, .int n => .ok (setUnitPrice n)
  | .setLoadedDataLimit, .int n => .ok (setLoadedDataLimit n)
  | _, _ => .error .wrongShape

def encode (c : Command) : Except Error Bytes :=
  layout.write c.toValue

/-- The instruction that data holds. -/
def decode (data : Bytes) : Except Error Command := do
  match ← layout.parse data with
  | .variant tag args =>
    match (Enumeration.ofTag? tag : Option Kind) with
    | some kind => ofArgs kind args
    | none => .error (.unknownInstruction .computeBudget tag)
  | _ => .error .wrongShape

/-- The instruction as it is sent; it takes no accounts. -/
def instruction (c : Command) : Except Error Instruction := do
  let data ← c.encode
  pure ⟨Program.computeBudget, [], data⟩

end Command

/-- A coarse level of urgency, which callers turn into a price. -/
inductive Priority where
  | none
  | low
  | medium
  | high
  | max
deriving DecidableEq, Repr

namespace Priority

def all : List Priority := [.none, .low, .medium, .high, .max]

def text : Priority → String
  | .none => "None"
  | .low => "Low"
  | .medium => "Medium"
  | .high => "High"
  | .max => "Max"

/-- The name of a level in lists of names. -/
def name (p : Priority) : String :=
  p.text.toUpper

/-- The level with a text, in any case; no letter beyond ASCII has one of these in lower case. -/
def ofText (s : String) : Except Error Priority :=
  match all.find? fun p => p.text.toLower == s.toLower with
  | some p => .ok p
  | Option.none => .error (.invalidPriority s)

end Priority
end TokenWire.ComputeBudget
