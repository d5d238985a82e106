import TokenWire.Extension.Descriptor

/-! Extensions asked for together, by name. -/

namespace TokenWire.Extension

/-- The extensions of a new mint. -/
structure Fields where
  metadata : Option MetadataConfig := none
  closeAuthority : Option Key := none
  permanentDelegate : Option Key := none
  nonTransferable : Bool := false
  transferFee : Option TransferFeeConfig := none
  interestBearing : Option InterestConfig := none
  transferHook : Option TransferHookConfig := none
  /-- The names that come first, in this order. -/
  order : List String := []
deriving DecidableEq

/-- The names of extensions, in the order in which they come by default. -/
def fieldNames : List String :=
  ["metadata", "close_authority", "permanent_delegate", "non_transferable", "transfer_fee",
    "interest_bearing", "transfer_hook"]

namespace Fields

/-- The extension of a name, if it is asked for. -/
def descriptor? (fields : Fields) : String → Option Descriptor
  | "metadata" => fields.metadata.map .metadata
  | "close_authority" => fields.closeAuthority.map .closeAuthority
  | "permanent_delegate" => fields.permanentDelegate.map .permanentDelegate
  | "non_transferable" => if fields.nonTransferable then some .nonTransferable else none
  | "transfer_fee" => fields.transferFee.map .transferFee
  | "interest_bearing" => fields.interestBearing.map .interestBearing
  | "transfer_hook" => fields.transferHook.map .transferHook
  | _ => none

/-- The extensions asked for, in the order of their instructions. -/
def descriptors (fields : Fields) : List Descriptor :=
  (fields.order ++ fieldNames).eraseDups.filterMap fields.descriptor?

end Fields
end TokenWire.Extension
