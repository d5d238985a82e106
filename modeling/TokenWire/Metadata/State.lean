import TokenWire.Layout.Codec

/-! The metadata that a mint holds itself, as an entry of variable length. -/

namespace TokenWire.Metadata

/-- The metadata held by a mint. -/
structure State where
  /-- Who may change the metadata; none if it is final. -/
  updateAuthority : Option Key
  mint : Key
  name : String
  symbol : String
  uri : String
  /-- Further pairs of a key and a text. -/
  additional : List (String × String) := []
deriving DecidableEq

namespace State

/-- The bytes of an entry ahead of the metadata. -/
def headerLength : Nat := 10

def layout : Layout :=
  .struct [("update_authority", .sentinelKey), ("mint", .key), ("name", .string),
    ("symbol", .string), ("uri", .string),
    ("additional_metadata", .vec (.tuple [.string, .string]))]

def toValue (s : State) : Value :=
  .seq [.optional .key s.updateAuthority, .key s.mint, .text s.name, .text s.symbol, .text s.uri,
    .list (fun (key, text) => .seq [.text key, .text text]) s.additional]

def pairOfValue : Value → Except Error (String × String)
  | .seq [.text key, .text text] => .ok (key, text)
  | _ => .error .wrongShape

def ofValue : Value → Except Error State
  | .seq [updateAuthority, .key mint, .text name, .text symbol, .text uri, additional] => do
    let updateAuthority ← updateAuthority.asOption Value.asKey
    let additional ← additional.asList pairOfValue
    pure ⟨updateAuthority, mint, name, symbol, uri, additional⟩
  | _ => .error .wrongShape

def encode (s : State) : Except Error Bytes :=
  layout.write s.toValue

def decode (data : Bytes) : Except Error State := do
  ofValue (← layout.parse data)

/-- The bytes of the metadata as an entry of an account. -/
def entryLength (s : State) : Except Error Nat := do
  let data ← s.encode
  pure (headerLength + data.length)

end State
end TokenWire.Metadata
