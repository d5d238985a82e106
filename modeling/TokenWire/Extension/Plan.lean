import TokenWire.Event
import TokenWire.Extension.Fields
import TokenWire.Extension.Size
import TokenWire.Rent
import TokenWire.SystemProgram.Instruction

/-! The making of a mint with extensions: its size, its funding, and the order of instructions. -/

namespace TokenWire.Extension

/-- What one extension adds to the making of a mint. -/
structure Part where
  /-- Sent before the mint is initialized. -/
  before : Instruction
  /-- The bytes that are added to the mint after it is initialized. -/
  metadataSize : Nat
  /-- Sent after the mint is initialized. -/
  after : List Instruction

/-- How a mint is made. -/
structure Plan where
  kinds : List Kind
  /-- The length at which the mint is created. -/
  space : Nat
  /-- The bytes that metadata adds to it later. -/
  metadataSize : Nat
  before : List Instruction
  after : List Instruction
deriving DecidableEq

namespace Descriptor

def part (mint payer : Key) (d : Descriptor) : Except Error Part := do
  let before ← (d.command mint payer).instruction mint
  match d with
  | .metadata c => do
    let size ← (c.state mint payer).entryLength
    let after ← c.instructions mint payer
    pure ⟨before, size, after⟩
  | _ => pure ⟨before, 0, []⟩

end Descriptor

/-- Sizes a mint and collects the instructions of its extensions, in order. -/
def plan (mint payer : Key) (descriptors : List Descriptor) : Logged Plan := do
  let parts ← .ofExcept (descriptors.mapM (Descriptor.part mint payer))
  let kinds := descriptors.map Descriptor.kind
  let space ← .ofExcept (mintLength kinds)
  let metadataSize := parts.foldr (·.metadataSize + ·) 0
  .emit (.planned mint kinds space metadataSize)
  pure ⟨kinds, space, metadataSize, parts.map Part.before, parts.flatMap Part.after⟩

/-- The amount for a mint: the given one, or the rent of the mint with its metadata. -/
def Plan.funds (plan : Plan) : Option Int → Except Error Int
  | some lamports => .ok lamports
  | none => Rent.minimumBalance ((plan.space + plan.metadataSize : Nat) : Int)

/-- Creates a mint: the account, the extensions, the mint itself, and then its metadata. The payer
is the authority of all. -/
def createMint (mint payer : Key) (decimals : Int) (funds : Option Int)
    (descriptors : List Descriptor) : Logged (List Instruction) := do
  let plan ← plan mint payer descriptors
  let lamports ← .ofExcept (plan.funds funds)
  .emit (.funding mint lamports)
  let account ← .ofExcept
    (SystemProgram.createAccount payer mint lamports plan.space Program.extendedToken)
  let initialization ← .ofExcept
    (Token.initializeMint2 Program.extendedToken mint decimals payer (some payer))
  pure (account :: plan.before ++ initialization :: plan.after)

end TokenWire.Extension
