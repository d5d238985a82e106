import TokenWire.Entries
import TokenWire.Extension.Fields

/-!
Requests for a mint: named entries of plain data, with keys as texts.

An entry of another kind than its place takes is refused by `wrongShape` where it is read: a name
that is a number, a rate that is null, a pair that is one text of two letters. A reader without
types lets these pass, and some of them fail only when the instructions are made; which requests
such a reader takes is said here for entries of the kinds that their places take.
-/

namespace TokenWire.Extension

/-- Plain data. -/
inductive Item where
  | null
  | bool (b : Bool)
  | int (n : Int)
  | text (s : String)
  | list (items : List Item)
  | object (entries : List (String × Item))
deriving Inhabited

/-- A request for a mint. -/
abbrev Request := Entries Item

namespace Item

/-- Whether an item counts as given: it is neither null, false, zero nor empty. -/
def isGiven : Item → Bool
  | null => false
  | bool b => b
  | int n => n != 0
  | text s => s != ""
  | list items => !items.isEmpty
  | object entries => !entries.isEmpty

def asText : Item → Except Error String
  | text s => .ok s
  | _ => .error .wrongShape

def asInt : Item → Except Error Int
  | int n => .ok n
  | _ => .error .wrongShape

/-- The key that a text names, or none for null. -/
def asKey? : Item → Except Error (Option Key)
  | null => .ok none
  | text s => (Key.parse s).map some
  | _ => .error .wrongShape

def asPair : Item → Except Error (String × String)
  | list [text key, text value] => .ok (key, value)
  | list [_, _] => .error .wrongShape
  | list items => .error (.notAPair items.length)
  | _ => .error .wrongShape

/-- The pairs of a list, if it is given. -/
def asPairs : Item → Except Error (List (String × String))
  | list items => items.mapM asPair
  | item => if item.isGiven then .error .wrongShape else .ok []

/-- The entries of a section that is given. -/
def section? (item : Item) : Except Error (Option (List (String × Item))) :=
  match item with
  | object entries => .ok (if entries.isEmpty then none else some entries)
  | item => if item.isGiven then .error .wrongShape else .ok none

end Item

/-- The entries of a section. -/
abbrev Section := List (String × Item)

namespace Section

variable {α : Type}

/-- An entry that must be there. -/
def require (entries : Section) (name : String) (read : Item → Except Error α) : Except Error α :=
  match entries.lookup name with
  | some item => read item
  | none => .error (.missingEntry name)

/-- An entry that is null when it is not there. -/
def get (entries : Section) (name : String) (read : Item → Except Error α) : Except Error α :=
  read ((entries.lookup name).getD .null)

end Section

def MetadataConfig.ofSection (entries : Section) : Except Error MetadataConfig := do
  let name ← Section.require entries "name" Item.asText
  let symbol ← Section.require entries "symbol" Item.asText
  let uri ← Section.require entries "uri" Item.asText
  let additional ← Section.get entries "additional_metadata" Item.asPairs
  pure ⟨name, symbol, uri, additional⟩

def TransferFeeConfig.ofSection (entries : Section) : Except Error TransferFeeConfig := do
  let configAuthority ← Section.get entries "transfer_fee_config_authority" Item.asKey?
  let withdrawAuthority ← Section.get entries "withdraw_withheld_authority" Item.asKey?
  let basisPoints ← Section.require entries "fee_basis_points" Item.asInt
  let maximum ← Section.require entries "max_fee" Item.asInt
  pure ⟨configAuthority, withdrawAuthority, basisPoints, maximum⟩

def InterestConfig.ofSection (entries : Section) : Except Error InterestConfig := do
  let authority ← Section.get entries "rate_authority" Item.asKey?
  let rate ← Section.require entries "rate" Item.asInt
  pure ⟨authority, rate⟩

def TransferHookConfig.ofSection (entries : Section) : Except Error TransferHookConfig := do
  let program ← Section.get entries "program_id" Item.asKey?
  let authority ← Section.get entries "authority" Item.asKey?
  pure ⟨program, authority⟩

namespace Request

variable {α : Type}

/-- The name behind a spelling. -/
def canonicalName (name : String) : String :=
  if name = "non_transferrable" then "non_transferable" else name

/-- A section, if it is given. -/
def section? (request : Request) (name : String) (read : Section → Except Error α) :
    Except Error (Option α) := do
  match ← ((request.find? name).getD .null).section? with
  | some entries => (read entries).map some
  | none => pure none

/-- The entry for mints that cannot be transferred; the first spelling wins, whatever it holds. -/
def nonTransferable (request : Request) : Item :=
  (request.find? "non_transferable").getD ((request.find? "non_transferrable").getD .null)

/-- The extensions in the order in which their names come first. -/
def order (request : Request) : List String :=
  (request.names.map canonicalName).eraseDups.filter fieldNames.contains

/-- The extensions that a request asks for. -/
def fields (request : Request) : Except Error Fields := do
  let metadata ← section? request "metadata" MetadataConfig.ofSection
  let closeAuthority ← ((request.find? "close_authority").getD .null).asKey?
  let permanentDelegate ← ((request.find? "permanent_delegate").getD .null).asKey?
  let transferFee ← section? request "transfer_fee" TransferFeeConfig.ofSection
  let interestBearing ← section? request "interest_bearing" InterestConfig.ofSection
  let transferHook ← section? request "transfer_hook" TransferHookConfig.ofSection
  pure {
    metadata, closeAuthority, permanentDelegate, transferFee, interestBearing, transferHook,
    nonTransferable := (nonTransferable request).isGiven
    order := order request }

end Request
end TokenWire.Extension
