import TokenWire.Extension.Kind
import TokenWire.Key
import TokenWire.Layout.Fault
import TokenWire.Text.Quoted

/-! Everything that can keep an instruction, an address or a value from being made. -/

namespace TokenWire

/-- The programs that name their instructions when data is read back. -/
inductive Dialect where
  | system
  | computeBudget
deriving DecidableEq, Repr

inductive Error where
  /-- A value cannot be written. -/
  | unencodable (fault : EncodeFault)
  /-- Data of so many bytes cannot be read. -/
  | malformed (fault : DecodeFault) (size : Nat)
  /-- Data holds nothing but the number of no instruction. -/
  | unknownInstruction (dialect : Dialect) (tag : Nat)
  /-- A required account is not supplied. -/
  | missingAccount (role : String)
  /-- A required part of a staged instruction is not set. -/
  | missingField (name : String)
  /-- A text names no key. -/
  | badKey (fault : KeyFault)
  /-- An integer is the number of no alternative of an enumeration. -/
  | notMember (title : String) (n : Int)
  /-- A seed of an address is too long. -/
  | seedTooLong (seed : String)
  /-- An account has more signers than the token program admits. -/
  | tooManySigners (count : Nat)
  /-- An address with a seed cannot belong to this owner. -/
  | ownerNotAllowed
  /-- No bump leads to an address. -/
  | noAddress
  /-- The yearly rent exceeds the numbers of double precision. -/
  | rentTooLarge
  /-- The rent of all years exceeds the numbers of double precision. -/
  | rentInfinite
  /-- A request lacks an entry. -/
  | missingEntry (name : String)
  /-- An additional entry of a request is no pair, but a list of this length. -/
  | notAPair (length : Nat)
  /-- A field is to be set to nothing. -/
  | setWithoutValue
  /-- A text names no priority. -/
  | invalidPriority (text : String)
  /-- A mint has no room of fixed size for this kind of extension. -/
  | notFixedSize (kind : Extension.Kind)
  /-- A custom field is to be updated without its key. -/
  | keyExpected
  /-- A value is not of the shape that its layout gives. -/
  | wrongShape
deriving DecidableEq

def KeyFault.message : KeyFault → String
  | .wrongSize => "String is the wrong size"
  | .notBase58 => "Invalid Base58 string"

def Dialect.name : Dialect → String
  | .system => "system"
  | .computeBudget => "compute budget"

/-- The longest seed of an address, in bytes. -/
def maxSeedLength : Nat := 32

/-- The most signers of an account with several signers. -/
def maxSigners : Nat := 11

/-- The words for an error. -/
def Error.message : Error → String
  | .unencodable _ => "Cannot encode"
  | .malformed _ size => s!"Malformed payload of {size} bytes"
  | .unknownInstruction dialect tag =>
    let program := dialect.name
    s!"Unknown {program} instruction type {tag}"
  | .missingAccount role => s!"Missing required account: {role}"
  | .missingField name => s!"{name} is not set"
  | .badKey fault => fault.message
  | .notMember title n => s!"{n} is not a valid {title}"
  | .seedTooLong seed =>
    let quoted := Quoted.encode seed
    s!"Seed {quoted} is longer than {maxSeedLength} bytes"
  | .tooManySigners count => s!"At most {maxSigners} multisig signers are allowed, got {count}"
  | .ownerNotAllowed => "Provided owner is not allowed"
  | .noAddress => "Unable to find a viable program address bump seed"
  | .rentTooLarge => "int too large to convert to float"
  | .rentInfinite => "cannot convert float infinity to integer"
  | .missingEntry name => name
  | .notAPair length =>
    if length < 2 then s!"not enough values to unpack (expected 2, got {length})"
    else "too many values to unpack (expected 2)"
  | .setWithoutValue => "Toggle.set requires a value, use Toggle.clear() to reset a field"
  | .invalidPriority text =>
    let quoted := Quoted.encode text
    s!"Invalid priority: {quoted}"
  | .notFixedSize kind =>
    let name := Enumeration.name kind
    let tag := Enumeration.tag kind
    s!"<ExtensionType.{name}: {tag}> is not a fixed-size mint extension"
  | .keyExpected => "Pass the custom key itself to update a key field"
  | .wrongShape => "Unexpected shape"

/-- The alternative with an integer, or the error that there is none. -/
def Enumeration.ofInt {α : Type} [Enumeration α] (n : Int) : Except Error α :=
  match ofInt? n with
  | some a => .ok a
  | none => .error (.notMember (title α) n)

/-- The key named by a text, or the error that there is none. -/
def Key.parse (s : String) : Except Error Key :=
  (Key.ofText s).mapError .badKey

end TokenWire
