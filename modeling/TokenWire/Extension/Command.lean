import TokenWire.Token.Command

/-! The instruction data that initializes the extensions of a mint. -/

namespace TokenWire.Extension

/-- The instructions within an extension. -/
inductive Step where
  | start
deriving DecidableEq, Repr

instance : Enumeration Step where
  title := "ExtensionInstructionType"
  all := [.start]
  tag := Step.ctorIdx
  name | .start => "INITIALIZE"

/-- The initialization of an extension, with the arguments in its data. -/
inductive Command where
  | closeAuthority (authority : Option Key)
  | transferFee (configAuthority withdrawAuthority : Option Key) (basisPoints maximum : Int)
  | nonTransferable
  | interestBearing (authority : Option Key) (rate : Int)
  | permanentDelegate (delegate : Key)
  | transferHook (authority program : Option Key)
  | metadataPointer (authority address : Option Key)
deriving DecidableEq

/-- The instructions of an extension that has several, by a number of one byte. -/
def stepLayout (args : Layout) : Layout :=
  .tagged ⟨"extension_instruction_type", 1, "args", false, false⟩
    [(Enumeration.tag Step.start, args)]

/-- A number of one byte, and the arguments; a number without arguments here stands alone. -/
def layout : Layout :=
  .tagged ⟨"instruction_type", 1, "args", false, false⟩ [
    (Enumeration.tag Token.Kind.initializeMintCloseAuthority,
      .struct [("close_authority", .option .key)]),
    (Enumeration.tag Token.Kind.transferFeeExtension,
      stepLayout (.struct [("transfer_fee_config_authority", .option .key),
        ("withdraw_withheld_authority", .option .key), ("transfer_fee_basis_points", .u16),
        ("maximum_fee", .u64)])),
    (Enumeration.tag Token.Kind.initializeNonTransferableMint, .unit),
    (Enumeration.tag Token.Kind.interestBearingMintExtension,
      stepLayout (.struct [("rate_authority", .sentinelKey), ("rate", .i16)])),
    (Enumeration.tag Token.Kind.initializePermanentDelegate, .struct [("delegate", .key)]),
    (Enumeration.tag Token.Kind.transferHookExtension,
      stepLayout (.struct [("authority", .sentinelKey), ("program_id", .sentinelKey)])),
    (Enumeration.tag Token.Kind.metadataPointerExtension,
      stepLayout (.struct [("authority", .sentinelKey), ("metadata_address", .sentinelKey)]))]

namespace Command

def kind : Command → Token.Kind
  | closeAuthority .. => .initializeMintCloseAuthority
  | transferFee .. => .transferFeeExtension
  | nonTransferable => .initializeNonTransferableMint
  | interestBearing .. => .interestBearingMintExtension
  | permanentDelegate .. => .initializePermanentDelegate
  | transferHook .. => .transferHookExtension
  | metadataPointer .. => .metadataPointerExtension

def args : Command → Value
  | closeAuthority authority => .seq [.optional .key authority]
  | transferFee configAuthority withdrawAuthority basisPoints maximum =>
    .variant 0 (.seq [.optional .key configAuthority, .optional .key withdrawAuthority,
      .int basisPoints, .int maximum])
  | nonTransferable => .absent
  | interestBearing authority rate => .variant 0 (.seq [.optional .key authority, .int rate])
  | permanentDelegate delegate => .seq [.key delegate]
  | transferHook authority program =>
    .variant 0 (.seq [.optional .key authority, .optional .key program])
  | metadataPointer authority address =>
    .variant 0 (.seq [.optional .key authority, .optional .key address])

def toValue (c : Command) : Value :=
  .variant (Enumeration.tag c.kind) c.args

def encode (c : Command) : Except Error Bytes :=
  layout.write c.toValue

end Command
end TokenWire.Extension
