import TokenWire.Layout.Basic
import TokenWire.Layout.Fault

/-! Reading values. -/

namespace TokenWire

/-- Reads a value off the front of a byte string. -/
abbrev Reader (α : Type) := Bytes → Except DecodeFault (α × Bytes)

/-- The next `n` bytes. -/
def readBytes (n : Nat) : Reader Bytes := fun bs =>
  match cut? n bs with
  | some result => .ok result
  | none => .error .endOfData

/-- An unsigned integer of `width` bytes. -/
def readNat (width : Nat) : Reader Nat := fun bs => do
  let (front, rest) ← readBytes width bs
  pure (fromLittleEndian front, rest)

/-- Bytes behind their number. -/
def readCounted (width : Nat) : Reader Bytes := fun bs => do
  let (length, rest) ← readNat width bs
  readBytes length rest

/-- A key. -/
def readKey : Reader Key := fun bs =>
  match Key.take? bs with
  | some result => .ok result
  | none => .error .endOfData

/-- A byte, and whether it is other than zero. -/
def readFlag : Reader Bool
  | [] => .error .endOfData
  | b :: rest => .ok (b != 0, rest)

/-- Reads `n` items one after the other. -/
def readEach (read : Reader Value) : Nat → Reader (List Value)
  | 0, bs => .ok ([], bs)
  | n + 1, bs => do
    let (v, rest) ← read bs
    let (vs, rest) ← readEach read n rest
    pure (v :: vs, rest)

namespace Layout

mutual

/-- The value at the front of a byte string, and the bytes after it. -/
def read : Layout → Reader Value
  | .uint width, bs => do
    let (n, rest) ← readNat width bs
    pure (.int n, rest)
  | .sint width, bs => do
    let (n, rest) ← readNat width bs
    pure (.int ((n : Int).bmod (capacity width)), rest)
  | .bool, bs => do
    let (b, rest) ← readFlag bs
    pure (.bool b, rest)
  | .bytes width, bs => do
    let (body, rest) ← readCounted width bs
    pure (.bytes body, rest)
  | .text width, bs => do
    let (body, rest) ← readCounted width bs
    match fromUtf8? body with
    | some s => pure (.text s, rest)
    | none => .error .malformedText
  | .key, bs => do
    let (k, rest) ← readKey bs
    pure (.key k, rest)
  | .sentinelKey, bs => do
    let (k, rest) ← readKey bs
    pure (if k = .zero then .absent else .key k, rest)
  | .fixed length, bs => do
    let (body, rest) ← readBytes length bs
    pure (.bytes body, rest)
  | .unit, bs => pure (.absent, bs)
  | .option item, bs => do
    let (present, rest) ← readFlag bs
    if present then read item rest else pure (.absent, rest)
  | .vec item, bs => do
    let (n, rest) ← readNat countWidth bs
    let (vs, rest) ← readEach (read item) n rest
    pure (.seq vs, rest)
  | .tuple items, bs => do
    let (vs, rest) ← readItems items bs
    pure (.seq vs, rest)
  | .struct fields, bs => do
    let (vs, rest) ← readFields fields bs
    pure (.seq vs, rest)
  | .tagged selector arms, bs => do
    let (tag, rest) ← readNat selector.width bs
    let (body, rest) ← (readArm arms tag rest).getD
      (if selector.closed then .error .unknownTag else pure (.absent, rest))
    pure (.variant tag body, rest)

def readItems : List Layout → Reader (List Value)
  | [], bs => .ok ([], bs)
  | item :: items, bs => do
    let (v, rest) ← read item bs
    let (vs, rest) ← readItems items rest
    pure (v :: vs, rest)

def readFields : List (String × Layout) → Reader (List Value)
  | [], bs => .ok ([], bs)
  | (_, field) :: fields, bs => do
    let (v, rest) ← read field bs
    let (vs, rest) ← readFields fields rest
    pure (v :: vs, rest)

def readArm : List (Nat × Layout) → Nat →
    Bytes → Option (Except DecodeFault (Value × Bytes))
  | [], _, _ => none
  | (t, arm) :: arms, tag, bs => if t = tag then some (read arm bs) else readArm arms tag bs

end

/-- The value that a byte string holds, with no byte left over. -/
def decode (layout : Layout) (bs : Bytes) : Except DecodeFault Value := do
  let (v, rest) ← layout.read bs
  if rest.isEmpty then pure v else .error .leftover

end Layout
end TokenWire
