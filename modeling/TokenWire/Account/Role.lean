import TokenWire.Entries
import TokenWire.Error
import TokenWire.Instruction

/-! Positional account slots: what fills a slot, and what stands in an empty one. -/

namespace TokenWire

/-- A positional account slot of an instruction. -/
structure Role where
  name : String
  isWritable : Bool := false
  isSigner : Bool := false
  /-- Whether the slot may be left empty. -/
  isOptional : Bool := false
  /-- The key of a slot left empty; it keeps the slot's flags. -/
  fallback : Option Key := none

/-- A key for a slot, and a signer flag in place of the slot's own. -/
structure Supply where
  key : Key
  isSigner : Option Bool := none

namespace Role

/-- The account in a slot. An empty optional slot without fallback holds the bare placeholder. -/
def fill (role : Role) (placeholder : Key) : Option Supply → Except Error AccountMeta
  | some supply => .ok ⟨supply.key, supply.isSigner.getD role.isSigner, role.isWritable⟩
  | none =>
    match role.fallback with
    | some key => .ok ⟨key, role.isSigner, role.isWritable⟩
    | none =>
      if role.isOptional then .ok (.readonly placeholder) else .error (.missingAccount role.name)

/-- The accounts in all slots, in order. -/
def fillAll (schema : List Role) (supplied : Entries (Option Supply)) (placeholder : Key) :
    Except Error (List AccountMeta) :=
  schema.mapM fun role => role.fill placeholder (supplied.find? role.name).join

end Role
end TokenWire
