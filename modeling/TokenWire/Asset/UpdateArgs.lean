import TokenWire.Asset.Authorization
import TokenWire.Asset.Data
import TokenWire.Toggle

/-! The arguments with which an asset is updated. -/

namespace TokenWire.Asset

/-- The arguments of the first version; what is not set leaves the asset unchanged. -/
structure UpdateArgs where
  newUpdateAuthority : Option Key := none
  data : Option Data := none
  primarySaleHappened : Option Bool := none
  isMutable : Option Bool := none
  collection : Toggle Collection := .unchanged
  collectionDetails : Toggle CollectionDetails := .unchanged
  uses : Toggle Uses := .unchanged
  ruleSet : Toggle Key := .unchanged
  authorization : Option Authorization := none

namespace UpdateArgs

/-- The versions of an update. -/
inductive Kind where
  | v1
deriving DecidableEq, Repr

instance : Enumeration Kind where
  title := "UpdateType"
  all := [.v1]
  tag := Kind.ctorIdx
  name | .v1 => "V1"

def fields : List (String × Layout) :=
  [("new_update_authority", .option .key), ("data", .option Data.layout),
    ("primary_sale_happened", .option .bool), ("is_mutable", .option .bool),
    ("collection", Toggle.layout Collection.layout),
    ("collection_details", Toggle.layout CollectionDetails.layout),
    ("uses", Toggle.layout Uses.layout), ("rule_set", Toggle.layout .key),
    ("authorization_data", .option Authorization.layout)]

def fieldsLayout : Layout :=
  .struct fields

/-- A version of one byte, and the arguments. -/
def layout : Layout :=
  .tagged ⟨"update_type", 1, "args", true, false⟩ [(0, fieldsLayout)]

/-- What the fields hold, in their order. -/
def fieldValues (a : UpdateArgs) : List Value :=
  [.optional .key a.newUpdateAuthority, .optional Data.toValue a.data,
    .optional .bool a.primarySaleHappened, .optional .bool a.isMutable,
    a.collection.toValue Collection.toValue, a.collectionDetails.toValue CollectionDetails.toValue,
    a.uses.toValue Uses.toValue, a.ruleSet.toValue .key,
    .optional Authorization.toValue a.authorization]

def fieldsValue (a : UpdateArgs) : Value :=
  .seq a.fieldValues

def toValue (a : UpdateArgs) : Value :=
  .variant 0 a.fieldsValue

/-- A change of one argument. -/
inductive Change where
  | newUpdateAuthority (authority : Option Key)
  | data (data : Option Data)
  | primarySaleHappened (happened : Option Bool)
  | isMutable (isMutable : Option Bool)
  | collection (update : Toggle Collection)
  | collectionDetails (update : Toggle CollectionDetails)
  | uses (update : Toggle Uses)
  | ruleSet (update : Toggle Key)
  | authorization (authorization : Option Authorization)

def apply (a : UpdateArgs) : Change → UpdateArgs
  | .newUpdateAuthority authority => { a with newUpdateAuthority := authority }
  | .data data => { a with data }
  | .primarySaleHappened happened => { a with primarySaleHappened := happened }
  | .isMutable isMutable => { a with isMutable }
  | .collection update => { a with collection := update }
  | .collectionDetails update => { a with collectionDetails := update }
  | .uses update => { a with uses := update }
  | .ruleSet update => { a with ruleSet := update }
  | .authorization authorization => { a with authorization }

end UpdateArgs
end TokenWire.Asset
