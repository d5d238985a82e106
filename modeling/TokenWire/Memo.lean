import TokenWire.Instruction
import TokenWire.Program

/-! Memos: a text recorded under signatures. -/

namespace TokenWire

/-- Records a text; the listed accounts sign for it. -/
def memo (message : String) (signers : List Key) : Instruction :=
  ⟨Program.memo, signers.map .signer, utf8 message⟩

end TokenWire
