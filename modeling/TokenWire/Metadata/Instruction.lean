import TokenWire.Instruction
import TokenWire.Metadata.Command
import TokenWire.Program

/-! Instructions of the metadata interface. -/

namespace TokenWire.Metadata

/-- Starts the metadata of a mint; the mint authority signs. -/
def start (metadata updateAuthority mint mintAuthority : Key) (name symbol uri : String)
    (program : Key := Program.extendedToken) : Except Error Instruction := do
  let data ← (Command.start name symbol uri).encode
  pure ⟨program,
    [.writable metadata, .readonly updateAuthority, .readonly mint, .signer mintAuthority], data⟩

/-- Sets one field; a custom field that is missing is added. -/
def updateField (metadata updateAuthority : Key) (field : Field) (text : String)
    (program : Key := Program.extendedToken) : Except Error Instruction := do
  let data ← (Command.updateField field text).encode
  pure ⟨program, [.writable metadata, .signer updateAuthority], data⟩

end TokenWire.Metadata
