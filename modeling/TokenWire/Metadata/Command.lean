import TokenWire.Layout.Codec

/-! The instruction data of the metadata interface, which programs that hold metadata share. -/

namespace TokenWire.Metadata

/-- The bytes that select an instruction. -/
def discriminatorLength : Nat := 8

def initializeDiscriminator : Bytes := [210, 225, 30, 162, 88, 184, 77, 141]

def updateFieldDiscriminator : Bytes := [221, 233, 49, 45, 181, 202, 220, 200]

/-- The kinds of fields of metadata, by number. -/
inductive FieldKind where
  | name
  | symbol
  | uri
  | key
deriving DecidableEq, Repr

instance : Enumeration FieldKind where
  title := "Field"
  all := [.name, .symbol, .uri, .key]
  tag := FieldKind.ctorIdx
  name
    | .name => "NAME"
    | .symbol => "SYMBOL"
    | .uri => "URI"
    | .key => "KEY"

/-- A field of metadata. -/
inductive Field where
  | name
  | symbol
  | uri
  /-- The additional pair with this key. -/
  | custom (key : String)
deriving DecidableEq

/-- The field of a kind. A custom field takes its key, which a kind does not hold. -/
def Field.ofKind : FieldKind → Except Error Field
  | .name => .ok .name
  | .symbol => .ok .symbol
  | .uri => .ok .uri
  | .key => .error .keyExpected

namespace Field

def layout : Layout :=
  .tagged ⟨"field_type", 1, "key", true, false⟩ [(0, .unit), (1, .unit), (2, .unit), (3, .string)]

def toValue : Field → Value
  | name => .variant 0 .absent
  | symbol => .variant 1 .absent
  | uri => .variant 2 .absent
  | custom key => .variant 3 (.text key)

end Field

/-- An instruction with the arguments in its data. -/
inductive Command where
  | start (name symbol uri : String)
  | updateField (field : Field) (text : String)
deriving DecidableEq

/-- Eight bytes that select the instruction, and its arguments. -/
def layout : Layout :=
  .tagged ⟨"discriminator", discriminatorLength, "args", true, true⟩ [
    (fromLittleEndian initializeDiscriminator,
      .struct [("name", .string), ("symbol", .string), ("uri", .string)]),
    (fromLittleEndian updateFieldDiscriminator,
      .struct [("field", Field.layout), ("value", .string)])]

namespace Command

def toValue : Command → Value
  | start name symbol uri =>
    .variant (fromLittleEndian initializeDiscriminator) (.seq [.text name, .text symbol, .text uri])
  | updateField field text =>
    .variant (fromLittleEndian updateFieldDiscriminator) (.seq [field.toValue, .text text])

def encode (c : Command) : Except Error Bytes :=
  layout.write c.toValue

end Command
end TokenWire.Metadata
