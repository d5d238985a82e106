import TokenWire.Layout.Codec

/-! The instruction data of the token program. -/

namespace TokenWire.Token

/-- The instructions of the token programs, by number; the later ones are about extensions. -/
inductive Kind where
  | initializeMint
  | initializeAccount
  | initializeMultisig
  | transfer
  | approve
  | revoke
  | setAuthority
  | mintTo
  | burn
  | closeAccount
  | freezeAccount
  | thawAccount
  | transferChecked
  | approveChecked
  | mintToChecked
  | burnChecked
  | initializeAccount2
  | syncNative
  | initializeAccount3
  | initializeMultisig2
  | initializeMint2
  | getAccountDataSize
  | initializeImmutableOwner
  | amountToUiAmount
  | uiAmountToAmount
  | initializeMintCloseAuthority
  | transferFeeExtension
  | confidentialTransferExtension
  | defaultAccountStateExtension
  | reallocate
  | memoTransferExtension
  | createNativeMint
  | initializeNonTransferableMint
  | interestBearingMintExtension
  | cpiGuardExtension
  | initializePermanentDelegate
  | transferHookExtension
  | confidentialTransferFeeExtension
  | withdrawExcessLamports
  | metadataPointerExtension
deriving DecidableEq, Repr

instance : Enumeration Kind where
  title := "InstructionType"
  all := [.initializeMint, .initializeAccount, .initializeMultisig, .transfer, .approve, .revoke,
    .setAuthority, .mintTo, .burn, .closeAccount, .freezeAccount, .thawAccount, .transferChecked,
    .approveChecked, .mintToChecked, .burnChecked, .initializeAccount2, .syncNative,
    .initializeAccount3, .initializeMultisig2, .initializeMint2, .getAccountDataSize,
    .initializeImmutableOwner, .amountToUiAmount, .uiAmountToAmount, .initializeMintCloseAuthority,
    .transferFeeExtension, .confidentialTransferExtension, .defaultAccountStateExtension,
    .reallocate, .memoTransferExtension, .createNativeMint, .initializeNonTransferableMint,
    .interestBearingMintExtension, .cpiGuardExtension, .initializePermanentDelegate,
    .transferHookExtension, .confidentialTransferFeeExtension, .withdrawExcessLamports,
    .metadataPointerExtension]
  tag := Kind.ctorIdx
  name
    | .initializeMint => "INITIALIZE_MINT"
    | .initializeAccount => "INITIALIZE_ACCOUNT"
    | .initializeMultisig => "INITIALIZE_MULTISIG"
    | .transfer => "TRANSFER"
    | .approve => "APPROVE"
    | .revoke => "REVOKE"
    | .setAuthority => "SET_AUTHORITY"
    | .mintTo => "MINT_TO"
    | .burn => "BURN"
    | .closeAccount => "CLOSE_ACCOUNT"
    | .freezeAccount => "FREEZE_ACCOUNT"
    | .thawAccount => "THAW_ACCOUNT"
    | .transferChecked => "TRANSFER_CHECKED"
    | .approveChecked => "APPROVE_CHECKED"
    | .mintToChecked => "MINT_TO_CHECKED"
    | .burnChecked => "BURN_CHECKED"
    | .initializeAccount2 => "INITIALIZE_ACCOUNT2"
    | .syncNative => "SYNC_NATIVE"
    | .initializeAccount3 => "INITIALIZE_ACCOUNT3"
    | .initializeMultisig2 => "INITIALIZE_MULTISIG2"
    | .initializeMint2 => "INITIALIZE_MINT2"
    | .getAccountDataSize => "GET_ACCOUNT_DATA_SIZE"
    | .initializeImmutableOwner => "INITIALIZE_IMMUTABLE_OWNER"
    | .amountToUiAmount => "AMOUNT_TO_UI_AMOUNT"
    | .uiAmountToAmount => "UI_AMOUNT_TO_AMOUNT"
    | .initializeMintCloseAuthority => "INITIALIZE_MINT_CLOSE_AUTHORITY"
    | .transferFeeExtension => "TRANSFER_FEE_EXTENSION"
    | .confidentialTransferExtension => "CONFIDENTIAL_TRANSFER_EXTENSION"
    | .defaultAccountStateExtension => "DEFAULT_ACCOUNT_STATE_EXTENSION"
    | .reallocate => "REALLOCATE"
    | .memoTransferExtension => "MEMO_TRANSFER_EXTENSION"
    | .createNativeMint => "CREATE_NATIVE_MINT"
    | .initializeNonTransferableMint => "INITIALIZE_NON_TRANSFERABLE_MINT"
    | .interestBearingMintExtension => "INTEREST_BEARING_MINT_EXTENSION"
    | .cpiGuardExtension => "CPI_GUARD_EXTENSION"
    | .initializePermanentDelegate => "INITIALIZE_PERMANENT_DELEGATE"
    | .transferHookExtension => "TRANSFER_HOOK_EXTENSION"
    | .confidentialTransferFeeExtension => "CONFIDENTIAL_TRANSFER_FEE_EXTENSION"
    | .withdrawExcessLamports => "WITHDRAW_EXCESS_LAMPORTS"
    | .metadataPointerExtension => "METADATA_POINTER_EXTENSION"

/-- An instruction of the base set, with the arguments in its data. -/
inductive Command where
  | initializeMint (decimals : Int) (mintAuthority : Key) (freezeAuthority : Option Key)
  | mintTo (amount : Int)
  | closeAccount
  | freezeAccount
  | thawAccount
  | initializeMint2 (decimals : Int) (mintAuthority : Key) (freezeAuthority : Option Key)
deriving DecidableEq

def mintLayout : Layout :=
  .struct [("decimals", .u8), ("mint_authority", .key), ("freeze_authority", .option .key)]

/-- A number of one byte, and the arguments; a number without arguments here stands alone. -/
def layout : Layout :=
  .tagged ⟨"instruction_type", 1, "args", false, false⟩ [
    (Enumeration.tag Kind.initializeMint, mintLayout),
    (Enumeration.tag Kind.mintTo, .struct [("amount", .u64)]),
    (Enumeration.tag Kind.closeAccount, .unit),
    (Enumeration.tag Kind.freezeAccount, .unit),
    (Enumeration.tag Kind.thawAccount, .unit),
    (Enumeration.tag Kind.initializeMint2, mintLayout)]

namespace Command

def kind : Command → Kind
  | initializeMint .. => .initializeMint
  | mintTo .. => .mintTo
  | closeAccount => .closeAccount
  | freezeAccount => .freezeAccount
  | thawAccount => .thawAccount
  | initializeMint2 .. => .initializeMint2

def args : Command → Value
  | initializeMint decimals mintAuthority freezeAuthority
  | initializeMint2 decimals mintAuthority freezeAuthority =>
    .seq [.int decimals, .key mintAuthority, .optional .key freezeAuthority]
  | mintTo amount => .seq [.int amount]
  | closeAccount | freezeAccount | thawAccount => .absent

def toValue (c : Command) : Value :=
  .variant (Enumeration.tag c.kind) c.args

def encode (c : Command) : Except Error Bytes :=
  layout.write c.toValue

end Command
end TokenWire.Token
