import TokenWire.Error

/-! What is reported while instructions are composed. -/

namespace TokenWire

inductive Event where
  /-- A mint was sized. -/
  | planned (mint : Key) (kinds : List Extension.Kind) (space metadataSize : Nat)
  /-- The amount for a mint was fixed. -/
  | funding (mint : Key) (lamports : Int)
  /-- An optional slot is left to a placeholder. -/
  | placeholder (role : String) (key : Key)
deriving DecidableEq

/-- Names in brackets, each in single quotes. -/
def bracketed (names : List String) : String :=
  "[" ++ ", ".intercalate (names.map Quoted.encode) ++ "]"

def Event.message : Event → String
  | .planned mint kinds space metadataSize =>
    let mint := mint.text
    let names := bracketed (kinds.map Enumeration.name)
    s!"Planned mint {mint} with extensions {names}, space {space}, metadata {metadataSize} bytes"
  | .funding mint lamports =>
    let mint := mint.text
    s!"Funding mint {mint} with {lamports} lamports"
  | .placeholder role key =>
    let key := key.text
    s!"{role} not set, using placeholder {key}"

/-- A result with the events on the way to it; an error keeps the events before it. -/
structure Logged (α : Type) where
  events : List Event
  result : Except Error α

namespace Logged

variable {α β : Type}

def ofExcept (r : Except Error α) : Logged α := ⟨[], r⟩

def emit (e : Event) : Logged Unit := ⟨[e], .ok ()⟩

def bind (x : Logged α) (f : α → Logged β) : Logged β :=
  match x.result with
  | .ok a => ⟨x.events ++ (f a).events, (f a).result⟩
  | .error e => ⟨x.events, .error e⟩

instance : Monad Logged where
  pure a := ⟨[], .ok a⟩
  bind := bind

end Logged
end TokenWire
