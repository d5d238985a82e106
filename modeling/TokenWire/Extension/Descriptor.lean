import TokenWire.Extension.Instruction
import TokenWire.Extension.Kind
import TokenWire.Metadata.Instruction
import TokenWire.Metadata.State

/-! Extensions as they are asked for, one by one. -/

namespace TokenWire.Extension

/-- Metadata in the mint itself, to which the metadata pointer leads. -/
structure MetadataConfig where
  name : String
  symbol : String
  uri : String
  /-- Further pairs, each written by its own instruction. -/
  additional : List (String × String) := []
deriving DecidableEq

/-- A fee withheld on every transfer. -/
structure TransferFeeConfig where
  configAuthority : Option Key
  withdrawAuthority : Option Key
  basisPoints : Int
  maximum : Int
deriving DecidableEq

/-- Interest on the amount that is shown. -/
structure InterestConfig where
  authority : Option Key
  rate : Int
deriving DecidableEq

/-- A program that runs on every transfer. -/
structure TransferHookConfig where
  program : Option Key
  authority : Option Key
deriving DecidableEq

/-- An extension asked for. -/
inductive Descriptor where
  | metadata (config : MetadataConfig)
  | closeAuthority (authority : Key)
  | permanentDelegate (delegate : Key)
  | nonTransferable
  | transferFee (config : TransferFeeConfig)
  | interestBearing (config : InterestConfig)
  | transferHook (config : TransferHookConfig)
deriving DecidableEq

namespace Descriptor

def kind : Descriptor → Kind
  | metadata _ => .metadataPointer
  | closeAuthority _ => .mintCloseAuthority
  | permanentDelegate _ => .permanentDelegate
  | nonTransferable => .nonTransferable
  | transferFee _ => .transferFeeConfig
  | interestBearing _ => .interestBearingConfig
  | transferHook _ => .transferHook

/-- What initializes the extension. The metadata pointer leads to the mint and obeys the payer. -/
def command (mint payer : Key) : Descriptor → Command
  | metadata _ => .metadataPointer (some payer) (some mint)
  | closeAuthority authority => .closeAuthority (some authority)
  | permanentDelegate delegate => .permanentDelegate delegate
  | nonTransferable => .nonTransferable
  | transferFee c => .transferFee c.configAuthority c.withdrawAuthority c.basisPoints c.maximum
  | interestBearing c => .interestBearing c.authority c.rate
  | transferHook c => .transferHook c.authority c.program

end Descriptor

namespace MetadataConfig

/-- The metadata that the mint will hold. -/
def state (c : MetadataConfig) (mint payer : Key) : Metadata.State :=
  ⟨some payer, mint, c.name, c.symbol, c.uri, c.additional⟩

/-- What writes the metadata into the mint: its start, and an update for each further pair. -/
def instructions (c : MetadataConfig) (mint payer : Key) : Except Error (List Instruction) := do
  let first ← Metadata.start mint payer mint payer c.name c.symbol c.uri
  let rest ← c.additional.mapM fun (key, text) =>
    Metadata.updateField mint payer (.custom key) text
  pure (first :: rest)

end MetadataConfig
end TokenWire.Extension
