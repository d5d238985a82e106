import TokenWire.Account.Slots
import TokenWire.Asset.Command
import TokenWire.Program

/-! The staged making of an instruction that updates the metadata of an asset. -/

namespace TokenWire.Asset

/-- The accounts of an update. -/
inductive UpdateRole where
  | authority
  | delegateRecord
  | token
  | mint
  | metadata
  | edition
  | payer
  | systemProgram
  | instructionsSysvar
  | authorizationRulesProgram
  | authorizationRules
deriving DecidableEq, Repr

instance : Schema UpdateRole where
  all := [.authority, .delegateRecord, .token, .mint, .metadata, .edition, .payer, .systemProgram,
    .instructionsSysvar, .authorizationRulesProgram, .authorizationRules]
  role
    | .authority => { name := "authority", isSigner := true }
    | .delegateRecord => { name := "delegate_record", isOptional := true }
    | .token => { name := "token", isOptional := true }
    | .mint => { name := "mint" }
    | .metadata => { name := "metadata", isWritable := true }
    | .edition => { name := "edition", isOptional := true }
    | .payer => { name := "payer", isWritable := true, isSigner := true }
    | .systemProgram =>
      { name := "system_program", isOptional := true, fallback := some Program.system }
    | .instructionsSysvar =>
      { name := "sysvar_instructions", isOptional := true, fallback := some Sysvar.instructions }
    | .authorizationRulesProgram => { name := "authorization_rules_program", isOptional := true }
    | .authorizationRules => { name := "authorization_rules", isOptional := true }

/-- What is known so far of an update. -/
structure UpdateBuilder where
  slots : Slots UpdateRole := {}
  args : UpdateArgs := {}

namespace UpdateBuilder

/-- A step of the making. -/
inductive Change where
  | account (role : UpdateRole) (supply : Option Supply)
  | argument (change : UpdateArgs.Change)
  /-- Replaces all arguments at once. -/
  | args (args : UpdateArgs)
  | remaining (accounts : List AccountMeta)

def apply (b : UpdateBuilder) : Change → UpdateBuilder
  | .account role supply => { b with slots := b.slots.set role supply }
  | .argument change => { b with args := b.args.apply change }
  | .args args => { b with args }
  | .remaining accounts => { b with slots := b.slots.add accounts }

/-- The builder after some steps. -/
def ofChanges (changes : List Change) : UpdateBuilder :=
  changes.foldl apply {}

/-- The instruction as far as it is known; the arguments are written before accounts are checked. -/
def instruction (b : UpdateBuilder) : Logged Instruction := do
  let data ← .ofExcept (Command.update b.args).encode
  b.slots.assemble Program.asset data

end UpdateBuilder
end TokenWire.Asset
