import TokenWire.Asset.Address
import TokenWire.Asset.CreateBuilder
import TokenWire.Asset.UpdateBuilder

/-! Common operations on assets, each in one instruction. -/

namespace TokenWire.Asset

/-- Creates a fungible mint together with its metadata; the payer is every authority. -/
def createFungible (mint : Key) (fields : FungibleFields) (decimals : Int) (immutable : Bool)
    (payer : Key) : Logged Instruction := do
  let accounts ← .ofExcept (Accounts.ofMint mint)
  let args := { CreateArgs.ofDataV2 fields.toDataV2 .fungible with
    isMutable := !immutable
    decimals := some decimals }
  (CreateBuilder.ofChanges [
    .account .metadata (some { key := accounts.metadata }),
    .account .mint (some { key := mint, isSigner := some true }),
    .account .authority (some { key := payer }),
    .account .payer (some { key := payer }),
    .account .updateAuthority (some { key := payer, isSigner := some true }),
    .args args,
    .account .tokenProgram (some { key := Program.token })]).instruction

/-- Creates the metadata of a mint that exists, given by its text. -/
def createMetadata (mint : String) (fields : FungibleFields) (immutable : Bool) (payer : Key) :
    Logged Instruction := do
  let mint ← .ofExcept (Key.parse mint)
  let accounts ← .ofExcept (Accounts.ofMint mint)
  let args := { CreateArgs.ofDataV2 fields.toDataV2 .fungible with isMutable := !immutable }
  (CreateBuilder.ofChanges [
    .account .metadata (some { key := accounts.metadata }),
    .account .mint (some { key := mint, isSigner := some false }),
    .account .authority (some { key := payer }),
    .account .payer (some { key := payer }),
    .account .updateAuthority (some { key := payer, isSigner := some true }),
    .args args]).instruction

/-- The making of an instruction that replaces the data; the payer is the update authority. -/
def UpdateBuilder.ofData (payer : Key) (accounts : Accounts) (data : Data) : UpdateBuilder :=
  ofChanges [
    .account .authority (some { key := payer }),
    .account .mint (some { key := accounts.mint }),
    .account .metadata (some { key := accounts.metadata }),
    .account .edition (accounts.edition.map fun key => { key }),
    .account .payer (some { key := payer }),
    .argument (.data (some data))]

/-- Replaces the data of an asset. -/
def updateAsset (payer mint : Key) (data : Data) : Logged Instruction := do
  let accounts ← .ofExcept (Accounts.ofMint mint)
  (UpdateBuilder.ofData payer accounts data).instruction

end TokenWire.Asset
