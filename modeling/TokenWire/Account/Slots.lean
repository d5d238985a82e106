import TokenWire.Account.Role
import TokenWire.Event

/-! Account slots that are filled step by step. -/

namespace TokenWire

/-- The roles of an instruction, in the order of its slots. -/
class Schema (ρ : Type) where
  all : List ρ
  role : ρ → Role

/-- The keys supplied for roles so far, and the accounts after the slots. -/
structure Slots (ρ : Type) where
  supplied : ρ → Option Supply := fun _ => none
  remaining : List AccountMeta := []

namespace Slots

variable {ρ : Type}

/-- Fills a slot, or empties it. -/
def set [DecidableEq ρ] (slots : Slots ρ) (r : ρ) (supply : Option Supply) : Slots ρ :=
  { slots with supplied := fun s => if s = r then supply else slots.supplied s }

/-- Adds accounts after the slots. -/
def add (slots : Slots ρ) (accounts : List AccountMeta) : Slots ρ :=
  { slots with remaining := slots.remaining ++ accounts }

variable [Schema ρ]

/-- Refuses an empty slot that is required, and reports one that is left to the placeholder. -/
def check (slots : Slots ρ) (placeholder : Key) (r : ρ) : Logged Unit :=
  let role := Schema.role r
  match slots.supplied r with
  | some _ => pure ()
  | none =>
    if !role.isOptional then .ofExcept (.error (.missingField role.name))
    else if role.fallback.isNone then .emit (.placeholder role.name placeholder)
    else pure ()

/-- The instruction of a program; the program stands in for optional accounts. -/
def assemble (slots : Slots ρ) (program : Key) (data : Bytes) : Logged Instruction := do
  (Schema.all : List ρ).forM (slots.check program)
  let accounts ← .ofExcept
    ((Schema.all : List ρ).mapM fun r => (Schema.role r).fill program (slots.supplied r))
  pure ⟨program, accounts ++ slots.remaining, data⟩

end Slots
end TokenWire
