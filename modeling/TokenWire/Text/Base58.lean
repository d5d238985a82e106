import TokenWire.Bytes

/-! Base 58 text: a change of base that keeps leading zeros, in an alphabet without look-alikes. -/

namespace TokenWire.Base58

/-- The number with these digits, most significant first. -/
def value (base : Nat) (ds : List Nat) : Nat :=
  ds.foldl (fun n d => n * base + d) 0

/-- The digits of a number, most significant first, and none for zero. -/
def digits (base n : Nat) : List Nat :=
  if _h : 1 < base ∧ 0 < n then digits base (n / base) ++ [n % base] else []
termination_by n
decreasing_by exact Nat.div_lt_self (by omega) (by omega)

/-- Writes a digit string in another base; each leading zero stays one leading zero. -/
def rebase (source target : Nat) (ds : List Nat) : List Nat :=
  ds.takeWhile (· == 0) ++ digits target (value source ds)

/-- The characters for the digits 0 to 57. -/
def alphabet : List Char :=
  "123456789ABCDEFGHJKLMNPQRSTUVWXYZabcdefghijkmnopqrstuvwxyz".toList

def encode (bs : Bytes) : String :=
  String.ofList ((rebase 256 58 (bs.map UInt8.toNat)).map fun d => alphabet.getD d '1')

/-- The bytes written by a text, unless a character lies outside the alphabet. -/
def decode? (s : String) : Option Bytes :=
  (s.toList.mapM fun c => alphabet.idxOf? c).map fun ds => (rebase 58 256 ds).map UInt8.ofNat

end TokenWire.Base58
