import TokenWire.Asset.CreateArgs
import TokenWire.Asset.UpdateArgs

/-! The instruction data of the program that keeps the metadata of assets. -/

namespace TokenWire.Asset

-- Limits of the program itself. They are told to callers; no instruction is checked against them.

/-- The longest name of an asset, in bytes. -/
def maxNameLength : Nat := 32

/-- The longest symbol of an asset, in bytes. -/
def maxSymbolLength : Nat := 10

/-- The longest address of the description of an asset, in bytes. -/
def maxUriLength : Nat := 200

/-- The most creators of an asset. -/
def maxCreators : Nat := 5

/-- The instructions that are made here. -/
inductive Kind where
  | create
  | update
deriving DecidableEq, Repr

instance : Enumeration Kind where
  title := "InstructionType"
  all := [.create, .update]
  tag
    | .create => 42
    | .update => 50
  name
    | .create => "CREATE"
    | .update => "UPDATE"

/-- An instruction with the arguments in its data. -/
inductive Command where
  | create (args : CreateArgs)
  | update (args : UpdateArgs)

/-- A number of one byte, and the arguments in their version. -/
def layout : Layout :=
  .tagged ⟨"instruction_type", 1, "args", true, false⟩
    [(Enumeration.tag Kind.create, CreateArgs.layout),
      (Enumeration.tag Kind.update, UpdateArgs.layout)]

namespace Command

def toValue : Command → Value
  | create args => .variant (Enumeration.tag Kind.create) args.toValue
  | update args => .variant (Enumeration.tag Kind.update) args.toValue

def encode (c : Command) : Except Error Bytes :=
  layout.write c.toValue

end Command
end TokenWire.Asset
