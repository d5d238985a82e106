import TokenWire.Entries
import TokenWire.Layout.Codec

/-! What the rules of a programmable asset check: named values, written in the order of names. -/

namespace TokenWire.Asset

/-- A value that rules check. -/
inductive Payload where
  | key (k : Key)
  | seeds (items : List Bytes)
  /-- Nodes of 32 bytes. -/
  | merkleProof (nodes : List Bytes)
  | number (n : Int)
deriving DecidableEq

namespace Payload

inductive Kind where
  | key
  | seeds
  | merkleProof
  | number
deriving DecidableEq, Repr

instance : Enumeration Kind where
  title := "PayloadTypeKind"
  all := [.key, .seeds, .merkleProof, .number]
  tag := Kind.ctorIdx
  name
    | .key => "PUBKEY"
    | .seeds => "SEEDS"
    | .merkleProof => "MERKLE_PROOF"
    | .number => "NUMBER"

def kind : Payload → Kind
  | key _ => .key
  | seeds _ => .seeds
  | merkleProof _ => .merkleProof
  | number _ => .number

def layout : Layout :=
  .variants [(0, .key), (1, .vec .blob), (2, .vec (.fixed 32)), (3, .u64)]

def toValue : Payload → Value
  | key k => .variant 0 (.key k)
  | seeds items => .variant 1 (.list .bytes items)
  | merkleProof nodes => .variant 2 (.list .bytes nodes)
  | number n => .variant 3 (.int n)

def ofValue : Value → Except Error Payload
  | .variant 0 (.key k) => .ok (key k)
  | .variant 1 v => (v.asList Value.asBytes).map seeds
  | .variant 2 v => (v.asList Value.asBytes).map merkleProof
  | .variant 3 (.int n) => .ok (number n)
  | _ => .error .wrongShape

end Payload

/-- Named values for the rules. -/
abbrev Authorization := Entries Payload

namespace Authorization

def layout : Layout :=
  .struct [("payload", .vec (.tuple [.string, Payload.layout]))]

/-- The entries in ascending order of their names. -/
def sorted (a : Authorization) : List (String × Payload) :=
  a.toList.mergeSort fun x y => x.1 ≤ y.1

def toValue (a : Authorization) : Value :=
  .seq [.list (fun (name, payload) => .seq [.text name, payload.toValue]) (sorted a)]

def entryOfValue : Value → Except Error (String × Payload)
  | .seq [.text name, payload] => (Payload.ofValue payload).map (name, ·)
  | _ => .error .wrongShape

/-- The last of equal names wins. -/
def ofValue : Value → Except Error Authorization
  | .seq [entries] => (entries.asList entryOfValue).map Entries.ofList
  | _ => .error .wrongShape

end Authorization
end TokenWire.Asset
