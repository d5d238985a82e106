import TokenWire.Error
import TokenWire.Token.Instruction

/-! The room that extensions of fixed size take in a mint. -/

namespace TokenWire.Extension

/-- Mints with extensions are filled up to the length of a token account. -/
def baseLength : Nat := 165

/-- One byte tells mints from token accounts. -/
def accountTypeLength : Nat := 1

/-- The bytes of an entry's kind. -/
def typeLength : Nat := 2

/-- The bytes of an entry's length. -/
def lengthLength : Nat := 2

/-- The kinds of fixed size in a mint, with the lengths of their values. -/
def valueLengths : List (Kind × Nat) := [
  (.transferFeeConfig, 108),
  (.mintCloseAuthority, 32),
  (.nonTransferable, 0),
  (.interestBearingConfig, 52),
  (.permanentDelegate, 32),
  (.transferHook, 64),
  (.metadataPointer, 64)]

/-- The bytes of an entry, its header included. -/
def entryLength (kind : Kind) : Except Error Nat :=
  match valueLengths.lookup kind with
  | some length => .ok (typeLength + lengthLength + length)
  | none => .error (.notFixedSize kind)

/-- The length of a mint with these extensions; a kind named twice counts once. -/
def mintLength (kinds : List Kind) : Except Error Nat :=
  if kinds.isEmpty then .ok Token.mintLength
  else do
    let entries ← kinds.eraseDups.mapM entryLength
    let length := baseLength + accountTypeLength + entries.foldr (· + ·) 0
    pure (if length = Token.multisigLength then length + typeLength else length)

end TokenWire.Extension
