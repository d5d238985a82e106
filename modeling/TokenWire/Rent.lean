import TokenWire.Error

/-! The balance that frees an account from rent, in the arithmetic of double precision. -/

namespace TokenWire

/-- A number rounded to so many significant bits; of two equally near the even one. -/
def roundToBits (bits n : Nat) : Nat :=
  let unit := 1 <<< (n.log2 + 1 - bits)
  let low := n % unit
  let up := unit < 2 * low ∨ unit = 2 * low ∧ n / unit % 2 = 1
  (if up then n / unit + 1 else n / unit) * unit

/-- The bits of a significand of double precision. -/
def significandBits : Nat := 53

/-- The least power of two beyond double precision. -/
def doubleBound : Nat := 1 <<< 1024

/-- An integer rounded to double precision. -/
def roundToDouble (n : Int) : Int :=
  n.sign * roundToBits significandBits n.natAbs

namespace Rent

/-- The bytes charged for an account on top of its data. -/
def accountOverhead : Nat := 128

def lamportsPerByteYear : Nat := 3480

/-- The years of rent that an account must hold to be exempt. -/
def exemptionYears : Nat := 2

/-- The rent of an account for one year. -/
def yearly (dataLength : Int) : Int :=
  (accountOverhead + dataLength) * lamportsPerByteYear

/-- The balance that exempts an account of this size: the yearly rent, rounded, for all years. -/
def minimumBalance (dataLength : Int) : Except Error Int :=
  let rent := roundToDouble (yearly dataLength)
  if doubleBound ≤ rent.natAbs then .error .rentTooLarge
  else if doubleBound ≤ (rent * exemptionYears).natAbs then .error .rentInfinite
  else .ok (rent * exemptionYears)

end Rent
end TokenWire
