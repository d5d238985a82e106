import TokenWire.Layout.Codec

/-! The instruction data of the system program. -/

namespace TokenWire.SystemProgram

/-- The instructions of the system program, by number. -/
inductive Kind where
  | createAccount
  | assign
  | transfer
  | createAccountWithSeed
  | advanceNonceAccount
  | withdrawNonceAccount
  | initializeNonceAccount
  | authorizeNonceAccount
  | allocate
  | allocateWithSeed
  | assignWithSeed
  | transferWithSeed
  | upgradeNonceAccount
deriving DecidableEq, Repr

instance : Enumeration Kind where
  title := "InstructionType"
  all := [.createAccount, .assign, .transfer, .createAccountWithSeed, .advanceNonceAccount,
    .withdrawNonceAccount, .initializeNonceAccount, .authorizeNonceAccount, .allocate,
    .allocateWithSeed, .assignWithSeed, .transferWithSeed, .upgradeNonceAccount]
  tag := Kind.ctorIdx
  name
    | .createAccount => "CREATE_ACCOUNT"
    | .assign => "ASSIGN"
    | .transfer => "TRANSFER"
    | .createAccountWithSeed => "CREATE_ACCOUNT_WITH_SEED"
    | .advanceNonceAccount => "ADVANCE_NONCE_ACCOUNT"
    | .withdrawNonceAccount => "WITHDRAW_NONCE_ACCOUNT"
    | .initializeNonceAccount => "INITIALIZE_NONCE_ACCOUNT"
    | .authorizeNonceAccount => "AUTHORIZE_NONCE_ACCOUNT"
    | .allocate => "ALLOCATE"
    | .allocateWithSeed => "ALLOCATE_WITH_SEED"
    | .assignWithSeed => "ASSIGN_WITH_SEED"
    | .transferWithSeed => "TRANSFER_WITH_SEED"
    | .upgradeNonceAccount => "UPGRADE_NONCE_ACCOUNT"

/-- An instruction with the arguments in its data. -/
inductive Command where
  | createAccount (lamports space : Int) (owner : Key)
  | assign (owner : Key)
  | transfer (lamports : Int)
  | createAccountWithSeed (base : Key) (seed : String) (lamports space : Int) (owner : Key)
  | advanceNonceAccount
  | withdrawNonceAccount (lamports : Int)
  | initializeNonceAccount (authority : Key)
  | authorizeNonceAccount (authority : Key)
  | allocate (space : Int)
  | allocateWithSeed (base : Key) (seed : String) (space : Int) (owner : Key)
  | assignWithSeed (base : Key) (seed : String) (owner : Key)
  | transferWithSeed (lamports : Int) (seed : String) (owner : Key)
  | upgradeNonceAccount
deriving DecidableEq

/-- The layout of the arguments of an instruction. -/
def Kind.layout : Kind → Layout
  | .createAccount => .struct [("lamports", .u64), ("space", .u64), ("owner", .key)]
  | .assign => .struct [("owner", .key)]
  | .transfer => .struct [("lamports", .u64)]
  | .createAccountWithSeed =>
    .struct [("base", .key), ("seed", .longString), ("lamports", .u64), ("space", .u64),
      ("owner", .key)]
  | .advanceNonceAccount => .unit
  | .withdrawNonceAccount => .u64
  | .initializeNonceAccount => .key
  | .authorizeNonceAccount => .key
  | .allocate => .struct [("space", .u64)]
  | .allocateWithSeed =>
    .struct [("base", .key), ("seed", .longString), ("space", .u64), ("owner", .key)]
  | .assignWithSeed => .struct [("base", .key), ("seed", .longString), ("owner", .key)]
  | .transferWithSeed =>
    .struct [("lamports", .u64), ("from_seed", .longString), ("from_owner", .key)]
  | .upgradeNonceAccount => .unit

/-- A number of four bytes, and the arguments; the number of no instruction stands alone. -/
def layout : Layout :=
  .tagged ⟨"instruction_type", 4, "args", false, false⟩
    ((Enumeration.all : List Kind).map fun kind => (Enumeration.tag kind, kind.layout))

namespace Command

def kind : Command → Kind
  | createAccount .. => .createAccount
  | assign .. => .assign
  | transfer .. => .transfer
  | createAccountWithSeed .. => .createAccountWithSeed
  | advanceNonceAccount => .advanceNonceAccount
  | withdrawNonceAccount .. => .withdrawNonceAccount
  | initializeNonceAccount .. => .initializeNonceAccount
  | authorizeNonceAccount .. => .authorizeNonceAccount
  | allocate .. => .allocate
  | allocateWithSeed .. => .allocateWithSeed
  | assignWithSeed .. => .assignWithSeed
  | transferWithSeed .. => .transferWithSeed
  | upgradeNonceAccount => .upgradeNonceAccount

def args : Command → Value
  | createAccount lamports space owner => .seq [.int lamports, .int space, .key owner]
  | assign owner => .seq [.key owner]
  | transfer lamports => .seq [.int lamports]
  | createAccountWithSeed base seed lamports space owner =>
    .seq [.key base, .text seed, .int lamports, .int space, .key owner]
  | advanceNonceAccount => .absent
  | withdrawNonceAccount lamports => .int lamports
  | initializeNonceAccount authority => .key authority
  | authorizeNonceAccount authority => .key authority
  | allocate space => .seq [.int space]
  | allocateWithSeed base seed space owner => .seq [.key base, .text seed, .int space, .key owner]
  | assignWithSeed base seed owner => .seq [.key base, .text seed, .key owner]
  | transferWithSeed lamports seed owner => .seq [.int lamports, .text seed, .key owner]
  | upgradeNonceAccount => .absent

def toValue (c : Command) : Value :=
  .variant (Enumeration.tag c.kind) c.args

/-- The instruction with these arguments. -/
def ofArgs : Kind → Value → Except Error Command
  | .createAccount, .seq [.int lamports, .int space, .key owner] =>
    .ok (createAccount lamports space owner)
  | .assign, .seq [.key owner] => .ok (assign owner)
  | .transfer, .seq [.int lamports] => .ok (transfer lamports)
  | .createAccountWithSeed, .seq [.key base, .text seed, .int lamports, .int space, .key owner] =>
    .ok (createAccountWithSeed base seed lamports space owner)
  | .advanceNonceAccount, .absent => .ok advanceNonceAccount
  | .withdrawNonceAccount, .int lamports => .ok (withdrawNonceAccount lamports)
  | .initializeNonceAccount, .key authority => .ok (initializeNonceAccount authority)
  | .authorizeNonceAccount, .key authority => .ok (authorizeNonceAccount authority)
  | .allocate, .seq [.int space] => .ok (allocate space)
  | .allocateWithSeed, .seq [.key base, .text seed, .int space, .key owner] =>
    .ok (allocateWithSeed base seed space owner)
  | .assignWithSeed, .seq [.key base, .text seed, .key owner] =>
    .ok (assignWithSeed base seed owner)
  | .transferWithSeed, .seq [.int lamports, .text seed, .key owner] =>
    .ok (transferWithSeed lamports seed owner)
  | .upgradeNonceAccount, .absent => .ok upgradeNonceAccount
  | _, _ => .error .wrongShape

def encode (c : Command) : Except Error Bytes :=
  layout.write c.toValue

/-- The instruction that data holds. -/
def decode (data : Bytes) : Except Error Command := do
  match ← layout.parse data with
  | .variant tag args =>
    match (Enumeration.ofTag? tag : Option Kind) with
    | some kind => ofArgs kind args
    | none => .error (.unknownInstruction .system tag)
  | _ => .error .wrongShape

end Command
end TokenWire.SystemProgram
