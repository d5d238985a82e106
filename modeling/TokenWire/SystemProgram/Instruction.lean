import TokenWire.Address.Seeded
import TokenWire.Instruction
import TokenWire.Program
import TokenWire.SystemProgram.Command

/-! Instructions of the system program. -/

namespace TokenWire.SystemProgram

/-- The largest permitted size of account data. -/
def maxDataLength : Nat := 10 * 1024 * 1024

def instruction (accounts : List AccountMeta) (c : Command) : Except Error Instruction := do
  let data ← c.encode
  pure ⟨Program.system, accounts, data⟩

def createAccount (payer account : Key) (lamports space : Int) (owner : Key) :
    Except Error Instruction :=
  instruction [.writableSigner payer, .writableSigner account]
    (.createAccount lamports space owner)

def createAccountWithSeed (payer account base : Key) (seed : String) (lamports space : Int)
    (owner : Key) : Except Error Instruction := do
  checkSeed seed
  instruction [.writableSigner payer, .writable account, .signer base]
    (.createAccountWithSeed base seed lamports space owner)

def assign (account owner : Key) : Except Error Instruction :=
  instruction [.writableSigner account] (.assign owner)

def assignWithSeed (account base : Key) (seed : String) (owner : Key) :
    Except Error Instruction := do
  checkSeed seed
  instruction [.writable account, .signer base] (.assignWithSeed base seed owner)

def transfer (payer receiver : Key) (lamports : Int) : Except Error Instruction :=
  instruction [.writableSigner payer, .writable receiver] (.transfer lamports)

/-- Moves lamports out of the account that a base, a seed and an owner make. -/
def transferWithSeed (payer base : Key) (seed : String) (owner receiver : Key) (lamports : Int) :
    Except Error Instruction := do
  checkSeed seed
  instruction [.writable payer, .signer base, .writable receiver]
    (.transferWithSeed lamports seed owner)

def allocate (account : Key) (space : Int) : Except Error Instruction :=
  instruction [.writableSigner account] (.allocate space)

def allocateWithSeed (account base : Key) (seed : String) (space : Int) (owner : Key) :
    Except Error Instruction := do
  checkSeed seed
  instruction [.writable account, .signer base] (.allocateWithSeed base seed space owner)

/-- One transfer for each receiver, in order. -/
def transferMany (payer : Key) (amounts : List (Key × Int)) : Except Error (List Instruction) :=
  amounts.mapM fun (receiver, lamports) => transfer payer receiver lamports

end TokenWire.SystemProgram
