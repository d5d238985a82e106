import TokenWire.Instruction
import TokenWire.Program
import TokenWire.Token.Command

/-!
Instructions of the token program. They name the program, since the program with extensions takes
the same ones.
-/

namespace TokenWire.Token

/-- The size of a mint without extensions. -/
def mintLength : Nat := 82

/-- The size of a token account without extensions. -/
def accountLength : Nat := 165

/-- The size of an account with several signers. -/
def multisigLength : Nat := 355

/-- The owner signs if no signers are listed, and leaves it to them otherwise. -/
def signed (owner : Key) (signers : List Key) : Except Error (List AccountMeta) :=
  if signers.length > maxSigners then .error (.tooManySigners signers.length)
  else .ok (⟨owner, signers.isEmpty, false⟩ :: signers.map .signer)

def instruction (program : Key) (accounts : List AccountMeta) (c : Command) :
    Except Error Instruction := do
  let data ← c.encode
  pure ⟨program, accounts, data⟩

/-- An instruction on two accounts and their owner. -/
def ownedInstruction (program : Key) (accounts : List AccountMeta) (owner : Key)
    (signers : List Key) (c : Command) : Except Error Instruction := do
  let owners ← signed owner signers
  instruction program (accounts ++ owners) c

/-- Initializes a mint, given the rent account. -/
def initializeMint (program mint : Key) (decimals : Int) (mintAuthority : Key)
    (freezeAuthority : Option Key) : Except Error Instruction :=
  instruction program [.writable mint, .readonly Sysvar.rent]
    (.initializeMint decimals mintAuthority freezeAuthority)

/-- Initializes a mint without the rent account. -/
def initializeMint2 (program mint : Key) (decimals : Int) (mintAuthority : Key)
    (freezeAuthority : Option Key) : Except Error Instruction :=
  instruction program [.writable mint] (.initializeMint2 decimals mintAuthority freezeAuthority)

def mintTo (program mint receiver authority : Key) (amount : Int) (signers : List Key) :
    Except Error Instruction :=
  ownedInstruction program [.writable mint, .writable receiver] authority signers (.mintTo amount)

/-- Closes an account and moves its lamports to the receiver. -/
def closeAccount (program account receiver owner : Key) (signers : List Key) :
    Except Error Instruction :=
  ownedInstruction program [.writable account, .writable receiver] owner signers .closeAccount

def freezeAccount (program account mint authority : Key) (signers : List Key) :
    Except Error Instruction :=
  ownedInstruction program [.writable account, .readonly mint] authority signers .freezeAccount

def thawAccount (program account mint authority : Key) (signers : List Key) :
    Except Error Instruction :=
  ownedInstruction program [.writable account, .readonly mint] authority signers .thawAccount

end TokenWire.Token
