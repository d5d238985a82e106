import TokenWire.Key

/-! Layouts of binary data, and the values that they lay out. -/

namespace TokenWire

/-- A value of some layout. -/
inductive Value where
  | absent
  | int (n : Int)
  | bool (b : Bool)
  | bytes (bs : Bytes)
  | text (s : String)
  | key (k : Key)
  | seq (items : List Value)
  | variant (tag : Nat) (body : Value)
deriving Inhabited

/-- How the alternatives of a tagged layout are told apart. -/
structure Selector where
  /-- The name of the tag. -/
  name : String
  /-- The number of bytes of the tag. -/
  width : Nat
  /-- The name of what follows the tag. -/
  body : String
  /-- Whether a tag without an alternative is refused, or stands alone. -/
  closed : Bool
  /-- Whether the tag is a string of bytes and no number. -/
  isRaw : Bool := false

/-- A layout of binary data; all integers are little-endian. -/
inductive Layout where
  /-- An unsigned integer of so many bytes. -/
  | uint (width : Nat)
  /-- A signed integer of so many bytes. -/
  | sint (width : Nat)
  /-- One byte, zero for false. -/
  | bool
  /-- Bytes behind their number. -/
  | bytes (lengthWidth : Nat)
  /-- UTF-8 behind its number of bytes. -/
  | text (lengthWidth : Nat)
  | key
  /-- A key, or all zeros for none. -/
  | sentinelKey
  /-- So many bytes as they are. -/
  | fixed (length : Nat)
  /-- Nothing. -/
  | unit
  /-- One byte, zero for none, and the value if there is one. -/
  | option (item : Layout)
  /-- Items behind their number. -/
  | vec (item : Layout)
  | tuple (items : List Layout)
  | struct (fields : List (String × Layout))
  /-- A tag, and the alternative that it selects. -/
  | tagged (selector : Selector) (arms : List (Nat × Layout))
deriving Inhabited

namespace Layout

abbrev u8 : Layout := .uint 1
abbrev u16 : Layout := .uint 2
abbrev u32 : Layout := .uint 4
abbrev u64 : Layout := .uint 8
abbrev i16 : Layout := .sint 2

/-- Text behind a count of four bytes. -/
abbrev string : Layout := .text 4

/-- Text behind a count of eight bytes. -/
abbrev longString : Layout := .text 8

abbrev blob : Layout := .bytes 4

/-- The width of the count in front of a vector. -/
abbrev countWidth : Nat := 4

/-- A one-byte kind, every other kind refused, and a value. -/
abbrev variants (arms : List (Nat × Layout)) : Layout :=
  .tagged ⟨"kind", 1, "value", true, false⟩ arms

end Layout
end TokenWire
