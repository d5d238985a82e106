import TokenWire.Asset.Data

/-! The arguments with which the metadata of an asset is created. -/

namespace TokenWire.Asset

/-- The arguments of the first version. -/
structure CreateArgs where
  name : String
  symbol : String
  uri : String
  sellerFee : Int
  tokenStandard : TokenStandard
  creators : Option (List Creator) := none
  primarySaleHappened : Bool := false
  isMutable : Bool := true
  collection : Option Collection := none
  uses : Option Uses := none
  collectionDetails : Option CollectionDetails := none
  ruleSet : Option Key := none
  decimals : Option Int := none
  printSupply : Option PrintSupply := none
deriving DecidableEq

namespace CreateArgs

/-- The versions of the arguments. -/
inductive Kind where
  | v1
deriving DecidableEq, Repr

instance : Enumeration Kind where
  title := "CreateArgsKind"
  all := [.v1]
  tag := Kind.ctorIdx
  name | .v1 => "V1"

def ofDataV2 (d : DataV2) (standard : TokenStandard) : CreateArgs :=
  { name := d.name, symbol := d.symbol, uri := d.uri, sellerFee := d.sellerFee,
    tokenStandard := standard, creators := d.creators, collection := d.collection, uses := d.uses }

def fieldsLayout : Layout :=
  .struct [("name", .string), ("symbol", .string), ("uri", .string),
    ("seller_fee_basis_points", .u16), ("creators", creatorsLayout),
    ("primary_sale_happened", .bool), ("is_mutable", .bool), ("token_standard", .u8),
    ("collection", .option Collection.layout), ("uses", .option Uses.layout),
    ("collection_details", .option CollectionDetails.layout), ("rule_set", .option .key),
    ("decimals", .option .u8), ("print_supply", .option PrintSupply.layout)]

/-- A version of one byte, and the arguments. -/
def layout : Layout :=
  .tagged ⟨"kind", 1, "args", true, false⟩ [(0, fieldsLayout)]

def toValue (a : CreateArgs) : Value :=
  .variant 0 (.seq [.text a.name, .text a.symbol, .text a.uri, .int a.sellerFee,
    creatorsValue a.creators, .bool a.primarySaleHappened, .bool a.isMutable,
    .int (Enumeration.tag a.tokenStandard), .optional Collection.toValue a.collection,
    .optional Uses.toValue a.uses, .optional CollectionDetails.toValue a.collectionDetails,
    .optional .key a.ruleSet, .optional .int a.decimals,
    .optional PrintSupply.toValue a.printSupply])

/-- The arguments of a value; an unknown token standard is told before an unknown use method. -/
def ofValue : Value → Except Error CreateArgs
  | .variant 0 (.seq [.text name, .text symbol, .text uri, .int sellerFee, creators,
      .bool primarySaleHappened, .bool isMutable, .int tokenStandard, collection, uses,
      collectionDetails, ruleSet, decimals, printSupply]) => do
    let tokenStandard ← Enumeration.ofInt tokenStandard
    let creators ← creatorsOfValue creators
    let collection ← collection.asOption Collection.ofValue
    let uses ← uses.asOption Uses.ofValue
    let collectionDetails ← collectionDetails.asOption CollectionDetails.ofValue
    let ruleSet ← ruleSet.asOption Value.asKey
    let decimals ← decimals.asOption Value.asInt
    let printSupply ← printSupply.asOption PrintSupply.ofValue
    pure ⟨name, symbol, uri, sellerFee, tokenStandard, creators, primarySaleHappened, isMutable,
      collection, uses, collectionDetails, ruleSet, decimals, printSupply⟩
  | _ => .error .wrongShape

end CreateArgs
end TokenWire.Asset
