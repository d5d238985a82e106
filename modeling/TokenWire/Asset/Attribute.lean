import TokenWire.Layout.Codec

/-! The attributes of an asset: creators, collection, uses, and how often it may be printed. -/

namespace TokenWire.Asset

/-- The kinds of assets, by number. -/
inductive TokenStandard where
  | nonFungible
  | fungibleAsset
  | fungible
  | nonFungibleEdition
  | programmableNonFungible
  | programmableNonFungibleEdition
deriving DecidableEq, Repr

instance : Enumeration TokenStandard where
  title := "TokenStandard"
  all := [.nonFungible, .fungibleAsset, .fungible, .nonFungibleEdition, .programmableNonFungible,
    .programmableNonFungibleEdition]
  tag := TokenStandard.ctorIdx
  name
    | .nonFungible => "NON_FUNGIBLE"
    | .fungibleAsset => "FUNGIBLE_ASSET"
    | .fungible => "FUNGIBLE"
    | .nonFungibleEdition => "NON_FUNGIBLE_EDITION"
    | .programmableNonFungible => "PROGRAMMABLE_NON_FUNGIBLE"
    | .programmableNonFungibleEdition => "PROGRAMMABLE_NON_FUNGIBLE_EDITION"

/-- How uses of an asset are consumed. -/
inductive UseMethod where
  | burn
  | multiple
  | single
deriving DecidableEq, Repr

instance : Enumeration UseMethod where
  title := "UseMethod"
  all := [.burn, .multiple, .single]
  tag := UseMethod.ctorIdx
  name
    | .burn => "BURN"
    | .multiple => "MULTIPLE"
    | .single => "SINGLE"

/-- A creator and the percentage of royalties. -/
structure Creator where
  address : Key
  verified : Bool
  share : Int
deriving DecidableEq

namespace Creator

def layout : Layout :=
  .struct [("address", .key), ("verified", .bool), ("share", .u8)]

def toValue (c : Creator) : Value :=
  .seq [.key c.address, .bool c.verified, .int c.share]

def ofValue : Value → Except Error Creator
  | .seq [.key address, .bool verified, .int share] => .ok ⟨address, verified, share⟩
  | _ => .error .wrongShape

end Creator

/-- The collection to which an asset belongs. -/
structure Collection where
  verified : Bool
  key : Key
deriving DecidableEq

namespace Collection

def layout : Layout :=
  .struct [("verified", .bool), ("key", .key)]

def toValue (c : Collection) : Value :=
  .seq [.bool c.verified, .key c.key]

def ofValue : Value → Except Error Collection
  | .seq [.bool verified, .key key] => .ok ⟨verified, key⟩
  | _ => .error .wrongShape

end Collection

/-- A limited number of uses. -/
structure Uses where
  method : UseMethod
  remaining : Int
  total : Int
deriving DecidableEq

namespace Uses

def layout : Layout :=
  .struct [("use_method", .u8), ("remaining", .u64), ("total", .u64)]

def toValue (u : Uses) : Value :=
  .seq [.int (Enumeration.tag u.method), .int u.remaining, .int u.total]

def ofValue : Value → Except Error Uses
  | .seq [.int method, .int remaining, .int total] => do
    let method ← Enumeration.ofInt method
    pure ⟨method, remaining, total⟩
  | _ => .error .wrongShape

end Uses

/-- What a parent of a collection holds. -/
inductive CollectionDetails where
  /-- The number of verified items. -/
  | v1 (size : Int)
  /-- Eight reserved bytes. -/
  | v2 (padding : Bytes := List.replicate 8 0)
deriving DecidableEq

namespace CollectionDetails

inductive Kind where
  | v1
  | v2
deriving DecidableEq, Repr

instance : Enumeration Kind where
  title := "CollectionDetailsKind"
  all := [.v1, .v2]
  tag := Kind.ctorIdx
  name
    | .v1 => "V1"
    | .v2 => "V2"

def kind : CollectionDetails → Kind
  | v1 _ => .v1
  | v2 _ => .v2

/-- The number of items, zero where there is none. -/
def size : CollectionDetails → Int
  | v1 size => size
  | v2 _ => 0

/-- The reserved bytes, zeros where there are none. -/
def padding : CollectionDetails → Bytes
  | v1 _ => List.replicate 8 0
  | v2 padding => padding

def layout : Layout :=
  .variants [(0, .struct [("size", .u64)]), (1, .struct [("padding", .fixed 8)])]

def toValue : CollectionDetails → Value
  | v1 size => .variant 0 (.seq [.int size])
  | v2 padding => .variant 1 (.seq [.bytes padding])

def ofValue : Value → Except Error CollectionDetails
  | .variant 0 (.seq [.int size]) => .ok (v1 size)
  | .variant 1 (.seq [.bytes padding]) => .ok (v2 padding)
  | _ => .error .wrongShape

end CollectionDetails

/-- How many editions of a master edition may be printed. -/
inductive PrintSupply where
  | zero
  /-- Up to a limit, which has to be given before the supply is written. -/
  | limited (limit : Option Int)
  | unlimited
deriving DecidableEq

namespace PrintSupply

inductive Kind where
  | zero
  | limited
  | unlimited
deriving DecidableEq, Repr

instance : Enumeration Kind where
  title := "PrintSupplyKind"
  all := [.zero, .limited, .unlimited]
  tag := Kind.ctorIdx
  name
    | .zero => "ZERO"
    | .limited => "LIMITED"
    | .unlimited => "UNLIMITED"

def kind : PrintSupply → Kind
  | zero => .zero
  | limited _ => .limited
  | unlimited => .unlimited

def limit? : PrintSupply → Option Int
  | limited limit => limit
  | _ => none

def layout : Layout :=
  .variants [(0, .unit), (1, .u64), (2, .unit)]

def toValue (s : PrintSupply) : Value :=
  .variant (Enumeration.tag s.kind) (.optional .int s.limit?)

def ofValue : Value → Except Error PrintSupply
  | .variant 0 _ => .ok zero
  | .variant 1 (.int limit) => .ok (limited (some limit))
  | .variant 2 _ => .ok unlimited
  | _ => .error .wrongShape

end PrintSupply
end TokenWire.Asset
