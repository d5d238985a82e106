import TokenWire.Account.Slots
import TokenWire.Asset.Command
import TokenWire.Program

/-! The staged making of an instruction that creates the metadata of a mint. -/

namespace TokenWire.Asset

/-- The accounts of a creation. -/
inductive CreateRole where
  | metadata
  | masterEdition
  /-- Signs when the mint is created in the same transaction. -/
  | mint
  | authority
  | payer
  | updateAuthority
  | systemProgram
  | instructionsSysvar
  | tokenProgram
deriving DecidableEq, Repr

instance : Schema CreateRole where
  all := [.metadata, .masterEdition, .mint, .authority, .payer, .updateAuthority, .systemProgram,
    .instructionsSysvar, .tokenProgram]
  role
    | .metadata => { name := "metadata", isWritable := true }
    | .masterEdition => { name := "master_edition", isWritable := true, isOptional := true }
    | .mint => { name := "mint", isWritable := true, isSigner := true }
    | .authority => { name := "authority", isSigner := true }
    | .payer => { name := "payer", isWritable := true, isSigner := true }
    | .updateAuthority => { name := "update_authority", isSigner := true }
    | .systemProgram =>
      { name := "system_program", isOptional := true, fallback := some Program.system }
    | .instructionsSysvar =>
      { name := "sysvar_instructions", isOptional := true, fallback := some Sysvar.instructions }
    | .tokenProgram => { name := "spl_token_program", isOptional := true }

/-- What is known so far of a creation. -/
structure CreateBuilder where
  slots : Slots CreateRole := {}
  args : Option CreateArgs := none

namespace CreateBuilder

/-- A step of the making. -/
inductive Change where
  | account (role : CreateRole) (supply : Option Supply)
  | args (args : CreateArgs)
  | remaining (accounts : List AccountMeta)

def apply (b : CreateBuilder) : Change → CreateBuilder
  | .account role supply => { b with slots := b.slots.set role supply }
  | .args args => { b with args := some args }
  | .remaining accounts => { b with slots := b.slots.add accounts }

/-- The builder after some steps. -/
def ofChanges (changes : List Change) : CreateBuilder :=
  changes.foldl apply {}

/-- The instruction as far as it is known; the arguments are written before accounts are checked. -/
def instruction (b : CreateBuilder) : Logged Instruction := do
  match b.args with
  | none => .ofExcept (.error (.missingField "create_args"))
  | some args =>
    let data ← .ofExcept (Command.create args).encode
    b.slots.assemble Program.asset data

end CreateBuilder
end TokenWire.Asset
