import TokenWire.Key

/-!
The twisted Edwards curve `-x² + y² = 1 + d·x²·y²` over the field of 2^255 - 19 elements, as far as
it decides which keys are compressed points.
-/

namespace TokenWire.Edwards

/-- The order of the field. -/
def p : Nat := (1 <<< 255) - 19

/-- The coefficient `-121665 / 121666` of the curve. -/
def d : Nat := 37095705934669439343138083508754565189542113879843219016388785533085940283555

/-- A power modulo `m`, by repeated squaring. -/
def powMod (b e m : Nat) : Nat :=
  if _h : e = 0 then 1 % m
  else
    let r := powMod (b * b % m) (e / 2) m
    if e % 2 = 1 then b * r % m else r
termination_by e
decreasing_by omega

/-- Whether an element has a square root: Euler's criterion, with zero counted in. -/
def isSquare (a : Nat) : Bool :=
  a % p = 0 || powMod (a % p) ((p - 1) / 2) p = 1

/-- The height of a compressed point; the top bit is the sign of the other coordinate. -/
def height (k : Key) : Nat :=
  fromLittleEndian k.bytes % (1 <<< 255) % p

/-- A key is a point if `x² = (y² - 1) / (d·y² + 1)` has a solution. -/
def isPoint (k : Key) : Bool :=
  let y := height k
  let u := y * y + (p - 1)
  let v := d * y * y + 1
  isSquare (u * v)

end TokenWire.Edwards
