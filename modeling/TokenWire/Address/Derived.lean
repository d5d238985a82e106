import TokenWire.Curve.Edwards
import TokenWire.Error
import TokenWire.Hash.Sha256

/-!
Addresses derived from seeds: hashes that are no curve points, so that no one holds
their key.
-/

namespace TokenWire

/-- The text that ends what is hashed for a derived address. -/
def derivationMarker : Bytes :=
  utf8 "ProgramDerivedAddress"

/-- The seeds of an address, and the program that may sign for it. -/
structure Derivation where
  seeds : List Bytes
  program : Key

namespace Derivation

/-- What is hashed; the seeds stand side by side without separators. -/
def preimage (d : Derivation) (bump : UInt8) : Bytes :=
  d.seeds.flatten ++ [bump] ++ d.program.bytes ++ derivationMarker

def candidate (d : Derivation) (bump : UInt8) : Key :=
  ⟨Sha256.hash (d.preimage bump), Sha256.length_hash _⟩

/-- The first candidate off the curve, from a bump downward. -/
def search (d : Derivation) : Nat → Option (Key × UInt8)
  | 0 => none
  | n + 1 =>
    let bump := UInt8.ofNat (n + 1)
    if Edwards.isPoint (d.candidate bump) then search d n else some (d.candidate bump, bump)

/-- The address with the greatest bump, and that bump. -/
def find (d : Derivation) : Except Error (Key × UInt8) :=
  (d.search 255).elim (.error .noAddress) .ok

def address (d : Derivation) : Except Error Key :=
  d.find.map Prod.fst

end Derivation
end TokenWire
