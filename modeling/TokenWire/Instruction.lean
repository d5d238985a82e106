import TokenWire.Key

/-! Instructions: a program, the accounts it is given, and its data. -/

namespace TokenWire

/-- An account of an instruction, and what the program may do with it. -/
structure AccountMeta where
  key : Key
  isSigner : Bool
  isWritable : Bool
deriving DecidableEq

namespace AccountMeta

def readonly (k : Key) : AccountMeta := ⟨k, false, false⟩
def writable (k : Key) : AccountMeta := ⟨k, false, true⟩
def signer (k : Key) : AccountMeta := ⟨k, true, false⟩
def writableSigner (k : Key) : AccountMeta := ⟨k, true, true⟩

end AccountMeta

structure Instruction where
  program : Key
  accounts : List AccountMeta
  data : Bytes
deriving DecidableEq

end TokenWire
