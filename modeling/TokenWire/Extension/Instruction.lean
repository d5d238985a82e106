import TokenWire.Extension.Command
import TokenWire.Instruction
import TokenWire.Program

/-! Instructions that initialize the extensions of a mint, sent before the mint is initialized. -/

namespace TokenWire.Extension

/-- The initialization of an extension of a mint. -/
def Command.instruction (c : Command) (mint : Key) (program : Key := Program.extendedToken) :
    Except Error Instruction := do
  let data ← c.encode
  pure ⟨program, [.writable mint], data⟩

end TokenWire.Extension
