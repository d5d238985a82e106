import TokenWire.Address.Derived
import TokenWire.Instruction
import TokenWire.Layout.Codec
import TokenWire.Program

/-! The token accounts of wallets: one address for a wallet, a mint and a token program. -/

namespace TokenWire.AssociatedToken

/-- The instructions, by number. -/
inductive Kind where
  | create
  | createIdempotent
  | recoverNested
deriving DecidableEq, Repr

instance : Enumeration Kind where
  title := "InstructionType"
  all := [.create, .createIdempotent, .recoverNested]
  tag := Kind.ctorIdx
  name
    | .create => "CREATE"
    | .createIdempotent => "CREATE_IDEMPOTENT"
    | .recoverNested => "RECOVER_NESTED"

/-- A number of one byte and nothing more. -/
def layout : Layout :=
  .struct [("instruction_type", .u8)]

def Kind.encode (kind : Kind) : Except Error Bytes :=
  layout.write (.seq [.int (Enumeration.tag kind)])

def derivation (wallet mint tokenProgram : Key) : Derivation :=
  ⟨[wallet.bytes, tokenProgram.bytes, mint.bytes], Program.associatedToken⟩

/-- The token account of a wallet. -/
def address (wallet mint tokenProgram : Key) : Except Error Key :=
  (derivation wallet mint tokenProgram).address

def createOf (kind : Kind) (payer wallet mint tokenProgram : Key) : Except Error Instruction := do
  let account ← address wallet mint tokenProgram
  let data ← kind.encode
  pure ⟨Program.associatedToken,
    [.writableSigner payer, .writable account, .readonly wallet, .readonly mint,
      .readonly Program.system, .readonly tokenProgram], data⟩

/-- Creates the token account of a wallet, which must not exist. -/
def create (payer wallet mint : Key) (tokenProgram : Key := Program.token) :
    Except Error Instruction :=
  createOf .create payer wallet mint tokenProgram

/-- Creates the token account of a wallet unless it exists. -/
def createIdempotent (payer wallet mint : Key) (tokenProgram : Key := Program.token) :
    Except Error Instruction :=
  createOf .createIdempotent payer wallet mint tokenProgram

/-- Moves tokens out of an account that belongs to a token account of the wallet. -/
def recoverNested (wallet ownerMint nestedMint : Key) (tokenProgram : Key := Program.token) :
    Except Error Instruction := do
  let owner ← address wallet ownerMint tokenProgram
  let destination ← address wallet nestedMint tokenProgram
  let nested ← address owner nestedMint tokenProgram
  let data ← Kind.recoverNested.encode
  pure ⟨Program.associatedToken,
    [.writable nested, .readonly nestedMint, .writable destination, .readonly owner,
      .readonly ownerMint, .writableSigner wallet, .readonly tokenProgram], data⟩

end TokenWire.AssociatedToken
