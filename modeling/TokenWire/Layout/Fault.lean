/-! Why a value has no written form, and why bytes have no value. -/

namespace TokenWire

/-- Why a value cannot be written. -/
inductive EncodeFault where
  /-- An integer field got no integer, or one outside its range; or a length exceeds its field. -/
  | outOfRange
  /-- A field of fixed length got another number of bytes. -/
  | wrongLength
  /-- The tag selects no alternative. -/
  | unknownTag
  /-- The value is not of the layout's shape. -/
  | wrongShape
deriving DecidableEq, Repr

/-- Why bytes cannot be read. -/
inductive DecodeFault where
  /-- The bytes end inside a field. -/
  | endOfData
  /-- Bytes are left over after the value. -/
  | leftover
  /-- The tag selects no alternative. -/
  | unknownTag
  /-- A text field is not UTF-8. -/
  | malformedText
deriving DecidableEq, Repr

end TokenWire
