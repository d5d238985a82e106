import TokenWire.Metadata.Command
import TokenWire.Proofs.Layout.RoundTrip

/-! How an instruction of the metadata interface is read from its data. -/

namespace TokenWire.Metadata

def Field.ofValue : Value → Except Error Field
  | .variant 0 .absent => .ok .name
  | .variant 1 .absent => .ok .symbol
  | .variant 2 .absent => .ok .uri
  | .variant 3 (.text key) => .ok (.custom key)
  | _ => .error .wrongShape

namespace Command

/-- The instruction that a tag selects, with these arguments. -/
def ofArgs (tag : Nat) : Value → Except Error Command
  | .seq [.text name, .text symbol, .text uri] =>
    if tag = fromLittleEndian initializeDiscriminator then .ok (.start name symbol uri)
    else .error .wrongShape
  | .seq [field, .text text] =>
    if tag = fromLittleEndian updateFieldDiscriminator then
      (Field.ofValue field).map (.updateField · text)
    else .error .wrongShape
  | _ => .error .wrongShape

/-- The instruction that data holds. -/
def decode (data : Bytes) : Except Error Command := do
  match ← layout.parse data with
  | .variant tag args => ofArgs tag args
  | _ => .error .wrongShape

theorem shaped_field (field : Field) : Field.layout.Shaped field.toValue := by
  cases field with
  | name => exact .known rfl .unit
  | symbol => exact .known rfl .unit
  | uri => exact .known rfl .unit
  | custom key => exact .known rfl (.text 4 key)

theorem shaped_toValue (c : Command) : layout.Shaped c.toValue := by
  cases c with
  | start name symbol uri =>
    exact .known rfl (.struct (.cons (.text 4 name) (.cons (.text 4 symbol)
      (.cons (.text 4 uri) .nil))))
  | updateField field text =>
    exact .known rfl (.struct (.cons (shaped_field field) (.cons (.text 4 text) .nil)))

theorem normalize_toValue (c : Command) : layout.normalize c.toValue = c.toValue := by
  cases c with
  | start name symbol uri => rfl
  | updateField field text => cases field <;> rfl

theorem parse_of_encode {c : Command} {data : Bytes} (h : c.encode = .ok data) :
    layout.parse data = .ok c.toValue := by
  rw [← normalize_toValue]
  exact c.shaped_toValue.parse_eq h

theorem decode_of_encode {c : Command} {data : Bytes} (h : c.encode = .ok data) :
    decode data = .ok c := by
  rw [decode, parse_of_encode h]
  cases c with
  | start name symbol uri => rfl
  | updateField field text => cases field <;> rfl

end Command
end TokenWire.Metadata
