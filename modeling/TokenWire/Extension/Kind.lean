import TokenWire.Enumeration

/-! The kinds of extension entries in token accounts and mints. -/

namespace TokenWire.Extension

inductive Kind where
  | uninitialized
  | transferFeeConfig
  | transferFeeAmount
  | mintCloseAuthority
  | confidentialTransferMint
  | confidentialTransferAccount
  | defaultAccountState
  | immutableOwner
  | memoTransfer
  | nonTransferable
  | interestBearingConfig
  | cpiGuard
  | permanentDelegate
  | nonTransferableAccount
  | transferHook
  | transferHookAccount
  | confidentialTransferFeeConfig
  | confidentialTransferFeeAmount
  | metadataPointer
  | tokenMetadata
deriving DecidableEq, Repr

instance : Enumeration Kind where
  title := "ExtensionType"
  all := [.uninitialized, .transferFeeConfig, .transferFeeAmount, .mintCloseAuthority,
    .confidentialTransferMint, .confidentialTransferAccount, .defaultAccountState, .immutableOwner,
    .memoTransfer, .nonTransferable, .interestBearingConfig, .cpiGuard, .permanentDelegate,
    .nonTransferableAccount, .transferHook, .transferHookAccount, .confidentialTransferFeeConfig,
    .confidentialTransferFeeAmount, .metadataPointer, .tokenMetadata]
  tag := Kind.ctorIdx
  name
    | .uninitialized => "UNINITIALIZED"
    | .transferFeeConfig => "TRANSFER_FEE_CONFIG"
    | .transferFeeAmount => "TRANSFER_FEE_AMOUNT"
    | .mintCloseAuthority => "MINT_CLOSE_AUTHORITY"
    | .confidentialTransferMint => "CONFIDENTIAL_TRANSFER_MINT"
    | .confidentialTransferAccount => "CONFIDENTIAL_TRANSFER_ACCOUNT"
    | .defaultAccountState => "DEFAULT_ACCOUNT_STATE"
    | .immutableOwner => "IMMUTABLE_OWNER"
    | .memoTransfer => "MEMO_TRANSFER"
    | .nonTransferable => "NON_TRANSFERABLE"
    | .interestBearingConfig => "INTEREST_BEARING_CONFIG"
    | .cpiGuard => "CPI_GUARD"
    | .permanentDelegate => "PERMANENT_DELEGATE"
    | .nonTransferableAccount => "NON_TRANSFERABLE_ACCOUNT"
    | .transferHook => "TRANSFER_HOOK"
    | .transferHookAccount => "TRANSFER_HOOK_ACCOUNT"
    | .confidentialTransferFeeConfig => "CONFIDENTIAL_TRANSFER_FEE_CONFIG"
    | .confidentialTransferFeeAmount => "CONFIDENTIAL_TRANSFER_FEE_AMOUNT"
    | .metadataPointer => "METADATA_POINTER"
    | .tokenMetadata => "TOKEN_METADATA"

end TokenWire.Extension
