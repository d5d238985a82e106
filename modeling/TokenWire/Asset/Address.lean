import TokenWire.Address.Derived
import TokenWire.Program

/-! The accounts that belong to a mint: its metadata, its master edition, its token records. -/

namespace TokenWire.Asset

/-- The seed with which all addresses start. -/
def metadataSeed : Bytes := utf8 "metadata"

/-- The seed with which edition addresses end. -/
def editionSeed : Bytes := utf8 "edition"

/-- The seed of token records. -/
def tokenRecordSeed : Bytes := utf8 "token_record"

def metadataDerivation (mint : Key) : Derivation :=
  ⟨[metadataSeed, Program.asset.bytes, mint.bytes], Program.asset⟩

def editionDerivation (mint : Key) : Derivation :=
  ⟨[metadataSeed, Program.asset.bytes, mint.bytes, editionSeed], Program.asset⟩

/-- The record of a token account of a programmable mint. -/
def tokenRecordDerivation (mint token : Key) : Derivation :=
  ⟨[metadataSeed, Program.asset.bytes, mint.bytes, tokenRecordSeed, token.bytes], Program.asset⟩

/-- A mint with the accounts that belong to it. -/
structure Accounts where
  mint : Key
  metadata : Key
  edition : Option Key := none
deriving DecidableEq

namespace Accounts

def ofMint (mint : Key) : Except Error Accounts := do
  let metadata ← (metadataDerivation mint).address
  pure { mint, metadata }

/-- The same accounts with the master edition. -/
def withEdition (accounts : Accounts) : Except Error Accounts := do
  let edition ← (editionDerivation accounts.mint).address
  pure { accounts with edition := some edition }

def tokenRecord (accounts : Accounts) (token : Key) : Except Error Key :=
  (tokenRecordDerivation accounts.mint token).address

end Accounts
end TokenWire.Asset
