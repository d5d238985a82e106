import TokenWire.Address.Derived

/-! Addresses made of a base key, a readable seed and an owner. -/

namespace TokenWire

/-- Refuses a seed of more than 32 bytes. -/
def checkSeed (seed : String) : Except Error Unit :=
  if seed.utf8ByteSize > maxSeedLength then .error (.seedTooLong seed) else .ok ()

/-- What is hashed for the address. -/
def seededPreimage (base : Key) (seed : String) (owner : Key) : Bytes :=
  base.bytes ++ utf8 seed ++ owner.bytes

/-- The address of a seed. An owner that ends like a derivation could forge one, and is refused. -/
def seededAddress (base : Key) (seed : String) (owner : Key) : Except Error Key := do
  checkSeed seed
  if owner.bytes.drop (32 - derivationMarker.length) = derivationMarker then .error .ownerNotAllowed
  else pure ⟨Sha256.hash (seededPreimage base seed owner), Sha256.length_hash _⟩

end TokenWire
