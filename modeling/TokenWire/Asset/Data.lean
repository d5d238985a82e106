import TokenWire.Asset.Attribute

/-! The records that describe an asset. -/

namespace TokenWire.Asset

/-- The layout of a list of creators that may be missing. -/
def creatorsLayout : Layout :=
  .option (.vec Creator.layout)

def creatorsValue (creators : Option (List Creator)) : Value :=
  .optional (.list Creator.toValue) creators

def creatorsOfValue (v : Value) : Except Error (Option (List Creator)) :=
  v.asOption (Value.asList Creator.ofValue)

/-- What an update may replace. -/
structure Data where
  name : String
  symbol : String
  uri : String
  sellerFee : Int
  creators : Option (List Creator) := none
deriving DecidableEq

namespace Data

def layout : Layout :=
  .struct [("name", .string), ("symbol", .string), ("uri", .string),
    ("seller_fee_basis_points", .u16), ("creators", creatorsLayout)]

def toValue (d : Data) : Value :=
  .seq [.text d.name, .text d.symbol, .text d.uri, .int d.sellerFee, creatorsValue d.creators]

def ofValue : Value → Except Error Data
  | .seq [.text name, .text symbol, .text uri, .int sellerFee, creators] => do
    let creators ← creatorsOfValue creators
    pure ⟨name, symbol, uri, sellerFee, creators⟩
  | _ => .error .wrongShape

end Data

/-- The metadata record of an asset. -/
structure DataV2 where
  name : String
  symbol : String
  uri : String
  sellerFee : Int
  creators : Option (List Creator) := none
  collection : Option Collection := none
  uses : Option Uses := none
deriving DecidableEq

namespace DataV2

def layout : Layout :=
  .struct [("name", .string), ("symbol", .string), ("uri", .string),
    ("seller_fee_basis_points", .u16), ("creators", creatorsLayout),
    ("collection", .option Collection.layout), ("uses", .option Uses.layout)]

def toValue (d : DataV2) : Value :=
  .seq [.text d.name, .text d.symbol, .text d.uri, .int d.sellerFee, creatorsValue d.creators,
    .optional Collection.toValue d.collection, .optional Uses.toValue d.uses]

def ofValue : Value → Except Error DataV2
  | .seq [.text name, .text symbol, .text uri, .int sellerFee, creators, collection, uses] => do
    let creators ← creatorsOfValue creators
    let collection ← collection.asOption Collection.ofValue
    let uses ← uses.asOption Uses.ofValue
    pure ⟨name, symbol, uri, sellerFee, creators, collection, uses⟩
  | _ => .error .wrongShape

end DataV2

/-- What names a fungible asset. -/
structure FungibleFields where
  name : String
  symbol : String
  uri : String
deriving DecidableEq

/-- A record without royalties. -/
def FungibleFields.toDataV2 (f : FungibleFields) : DataV2 :=
  { name := f.name, symbol := f.symbol, uri := f.uri, sellerFee := 0 }

end TokenWire.Asset
