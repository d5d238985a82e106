import TokenWire.Layout.Basic
import TokenWire.Layout.Fault

/-! Writing values. -/

namespace TokenWire

/-- An unsigned integer on `width` bytes. -/
def writeUnsigned (width : Nat) (n : Int) : Except EncodeFault Bytes :=
  if 0 ≤ n ∧ n.toNat < capacity width then .ok (littleEndian width n.toNat) else .error .outOfRange

/-- A signed integer on `width` bytes, as its remainder modulo `capacity width`. -/
def writeSigned (width : Nat) (n : Int) : Except EncodeFault Bytes :=
  if n.bmod (capacity width) = n then .ok (littleEndian width (n % (capacity width : Nat)).toNat)
  else .error .outOfRange

/-- Bytes behind their number. -/
def writeCounted (width : Nat) (bs : Bytes) : Except EncodeFault Bytes := do
  let head ← writeUnsigned width bs.length
  pure (head ++ bs)

/-- Writes items one after the other. -/
def writeEach (write : Value → Except EncodeFault Bytes) : List Value → Except EncodeFault Bytes
  | [] => .ok []
  | v :: vs => do
    let front ← write v
    let rest ← writeEach write vs
    pure (front ++ rest)

namespace Layout

mutual

/-- The bytes of a value; the first part that cannot be written decides the fault. -/
def encode : Layout → Value → Except EncodeFault Bytes
  | .uint width, .int n => writeUnsigned width n
  | .uint _, .absent => .error .outOfRange
  | .sint width, .int n => writeSigned width n
  | .sint _, .absent => .error .outOfRange
  | .bool, .bool b => .ok [if b then 1 else 0]
  | .bytes width, .bytes bs => writeCounted width bs
  | .text width, .text s => writeCounted width (utf8 s)
  | .key, .key k => .ok k.bytes
  | .sentinelKey, .key k => .ok k.bytes
  | .sentinelKey, .absent => .ok Key.zero.bytes
  | .fixed length, .bytes bs => if bs.length = length then .ok bs else .error .wrongLength
  | .unit, .absent => .ok []
  | .option _, .absent => .ok [0]
  | .option item, v => do
    let bs ← encode item v
    pure (1 :: bs)
  | .vec item, .seq vs => do
    let head ← writeUnsigned countWidth vs.length
    let body ← writeEach (encode item) vs
    pure (head ++ body)
  | .tuple items, .seq vs => encodeItems items vs
  | .struct fields, .seq vs => encodeFields fields vs
  | .tagged selector arms, .variant tag body => do
    let head ← writeUnsigned selector.width tag
    let rest ← (encodeArm arms tag body).getD
      (if selector.closed then .error .unknownTag else .ok [])
    pure (head ++ rest)
  | _, _ => .error .wrongShape

def encodeItems : List Layout → List Value → Except EncodeFault Bytes
  | [], [] => .ok []
  | item :: items, v :: vs => do
    let front ← encode item v
    let rest ← encodeItems items vs
    pure (front ++ rest)
  | _, _ => .error .wrongShape

def encodeFields : List (String × Layout) → List Value → Except EncodeFault Bytes
  | [], [] => .ok []
  | (_, field) :: fields, v :: vs => do
    let front ← encode field v
    let rest ← encodeFields fields vs
    pure (front ++ rest)
  | _, _ => .error .wrongShape

def encodeArm : List (Nat × Layout) → Nat → Value → Option (Except EncodeFault Bytes)
  | [], _, _ => none
  | (t, arm) :: arms, tag, v => if t = tag then some (encode arm v) else encodeArm arms tag v

end

/-- The number of bytes of a value's written form. -/
def packedLength (layout : Layout) (v : Value) : Except EncodeFault Nat :=
  (layout.encode v).map List.length

end Layout
end TokenWire
