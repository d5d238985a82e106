/-! Closed lists of named alternatives with numbers. -/

namespace TokenWire

/-- A closed list of alternatives, each with a number and a name. -/
class Enumeration (α : Type) where
  title : String
  all : List α
  tag : α → Nat
  name : α → String

namespace Enumeration

variable {α : Type} [Enumeration α]

/-- The alternative with a number. -/
def ofTag? (n : Nat) : Option α :=
  (all : List α).find? (tag · == n)

/-- The alternative with an integer, which may be out of range. -/
def ofInt? : Int → Option α
  | .ofNat n => ofTag? n
  | .negSucc _ => none

variable (α) in
/-- The names with their numbers. -/
def members : List (String × Nat) :=
  (all : List α).map fun a => (name a, tag a)

end Enumeration
end TokenWire
