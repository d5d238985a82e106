import Mathlib.Data.List.Basic
import TokenWire.Extension.Instruction
import TokenWire.Metadata.Instruction
import TokenWire.Proofs.Extension.Command
import TokenWire.Proofs.Instruction
import TokenWire.Proofs.Metadata.Command
import TokenWire.Proofs.Token.Command
import TokenWire.Proofs.Token.Signers
import TokenWire.Token.Instruction

/-! The data of an instruction for a token program tells how the instruction was made. -/

namespace TokenWire.Token

open Layout

/-- What the data carries: a token program takes instructions of three sets. -/
inductive Message where
  | base (c : Command)
  | extension (c : Extension.Command)
  | metadata (c : Metadata.Command)

namespace Message

/-- The layout of the set. -/
def layout : Message → Layout
  | base _ => Token.layout
  | extension _ => Extension.layout
  | metadata _ => Metadata.layout

def toValue : Message → Value
  | base c => c.toValue
  | extension c => c.toValue
  | metadata c => c.toValue

def encode (m : Message) : Except Error Bytes :=
  m.layout.write m.toValue

/-- The message as it is read back. -/
def stored : Message → Message
  | extension c => .extension c.stored
  | m => m

variable {m m' : Message} {data : Bytes}

theorem parse_of_encode (h : m.encode = .ok data) :
    m.layout.parse data = .ok m.stored.toValue := by
  cases m with
  | base c => exact Command.parse_of_encode h
  | extension c => exact Extension.Command.parse_of_encode h
  | metadata c => exact Metadata.Command.parse_of_encode h

/-- The set that a first byte selects: numbers of the base set, then those of the extensions, and
behind them both discriminators of the metadata interface. -/
def setOf (b : UInt8) : Nat :=
  if b < 25 then 0 else if b < 40 then 1 else 2

def set : Message → Nat
  | base _ => 0
  | extension _ => 1
  | metadata _ => 2

theorem head_of_encode (h : m.encode = .ok data) : data.head?.map setOf = some m.set := by
  cases m with
  | base c =>
    rw [head_of_write (by decide) h]
    cases c <;> rfl
  | extension c =>
    rw [head_of_write (by decide) h]
    cases c <;> rfl
  | metadata c =>
    cases c with
    | start name symbol uri =>
      rw [head_of_write (by decide) h]
      rfl
    | updateField field text =>
      rw [head_of_write (by decide) h]
      rfl

theorem stored_eq_of_encode (h : m.encode = .ok data) (h' : m'.encode = .ok data) :
    m.stored = m'.stored := by
  -- Equal data is of one set, and each set tells its own instructions apart.
  have hset : m.set = m'.set := by
    have hhead := head_of_encode h
    rw [head_of_encode h'] at hhead
    exact (Option.some.inj hhead).symm
  cases m with
  | base c =>
    cases m' with
    | base c' =>
      have hread := Command.parse_of_encode h
      rw [Command.parse_of_encode h'] at hread
      rw [Command.toValue_inj (Except.ok.inj hread)]
    | _ => cases hset
  | extension c =>
    cases m' with
    | extension c' =>
      have hread := Extension.Command.parse_of_encode h
      rw [Extension.Command.parse_of_encode h'] at hread
      exact congrArg extension (Extension.Command.toValue_inj (Except.ok.inj hread)).symm
    | _ => cases hset
  | metadata c =>
    cases m' with
    | metadata c' =>
      have hread := Metadata.Command.decode_of_encode h
      rw [Metadata.Command.decode_of_encode h'] at hread
      rw [Except.ok.inj hread]
    | _ => cases hset

end Message

/-- A call of one of the builders, with all that it takes. -/
inductive Call where
  | initializeMint (program mint : Key) (decimals : Int) (mintAuthority : Key)
    (freezeAuthority : Option Key)
  | initializeMint2 (program mint : Key) (decimals : Int) (mintAuthority : Key)
    (freezeAuthority : Option Key)
  | mintTo (program mint receiver authority : Key) (amount : Int) (signers : List Key)
  | closeAccount (program account receiver owner : Key) (signers : List Key)
  | freezeAccount (program account mint authority : Key) (signers : List Key)
  | thawAccount (program account mint authority : Key) (signers : List Key)
  /-- One of the builders that initialize an extension. -/
  | extension (c : Extension.Command) (mint program : Key)
  | start (metadata updateAuthority mint mintAuthority : Key) (name symbol uri : String)
    (program : Key)
  | updateField (metadata updateAuthority : Key) (field : Metadata.Field) (value : String)
    (program : Key)

namespace Call

def instruction : Call → Except Error Instruction
  | initializeMint program mint decimals mintAuthority freezeAuthority =>
    Token.initializeMint program mint decimals mintAuthority freezeAuthority
  | initializeMint2 program mint decimals mintAuthority freezeAuthority =>
    Token.initializeMint2 program mint decimals mintAuthority freezeAuthority
  | mintTo program mint receiver authority amount signers =>
    Token.mintTo program mint receiver authority amount signers
  | closeAccount program account receiver owner signers =>
    Token.closeAccount program account receiver owner signers
  | freezeAccount program account mint authority signers =>
    Token.freezeAccount program account mint authority signers
  | thawAccount program account mint authority signers =>
    Token.thawAccount program account mint authority signers
  | extension c mint program => c.instruction mint program
  | start metadata updateAuthority mint mintAuthority name symbol uri program =>
    Metadata.start metadata updateAuthority mint mintAuthority name symbol uri program
  | updateField metadata updateAuthority field value program =>
    Metadata.updateField metadata updateAuthority field value program

/-- The builder and the arguments that go into the data. -/
def message : Call → Message
  | initializeMint _ _ decimals mintAuthority freezeAuthority =>
    .base (.initializeMint decimals mintAuthority freezeAuthority)
  | initializeMint2 _ _ decimals mintAuthority freezeAuthority =>
    .base (.initializeMint2 decimals mintAuthority freezeAuthority)
  | mintTo _ _ _ _ amount _ => .base (.mintTo amount)
  | closeAccount .. => .base .closeAccount
  | freezeAccount .. => .base .freezeAccount
  | thawAccount .. => .base .thawAccount
  | extension c _ _ => .extension c
  | start _ _ _ _ name symbol uri _ => .metadata (.start name symbol uri)
  | updateField _ _ field value _ => .metadata (.updateField field value)

variable {call call' : Call} {ix : Instruction}

theorem encode_message (h : call.instruction = .ok ix) : call.message.encode = .ok ix.data := by
  cases call with
  | mintTo program mint receiver authority amount signers => exact (ownedInstruction_eq_ok.mp h).2.1
  | closeAccount program account receiver owner signers => exact (ownedInstruction_eq_ok.mp h).2.1
  | freezeAccount program account mint authority signers => exact (ownedInstruction_eq_ok.mp h).2.1
  | thawAccount program account mint authority signers => exact (ownedInstruction_eq_ok.mp h).2.1
  | _ => exact (Instruction.made_eq_ok.mp h).1

end Call

/--
Every instruction is read back from its data by the layout of its own set, where the zero key is
none in the fields without a flag. Instructions with the same data come from the same builder and
the same arguments, and no custom key stands for one of the named fields.
-/
theorem call_identified :
    (∀ (call : Call) (ix : Instruction), call.instruction = .ok ix →
      call.message.layout.parse ix.data = .ok call.message.stored.toValue) ∧
    (∀ (call call' : Call) (ix ix' : Instruction), call.instruction = .ok ix →
      call'.instruction = .ok ix' → ix.data = ix'.data →
      call.message.stored = call'.message.stored) ∧
    ∀ (metadata authority metadata' authority' program program' : Key) (key text text' : String)
      (kind : Metadata.FieldKind) (field : Metadata.Field) (ix ix' : Instruction),
      Metadata.Field.ofKind kind = .ok field →
      Metadata.updateField metadata authority (.custom key) text program = .ok ix →
      Metadata.updateField metadata' authority' field text' program' = .ok ix' →
      ix.data ≠ ix'.data := by
  have hidentified : ∀ (call call' : Call) (ix ix' : Instruction), call.instruction = .ok ix →
      call'.instruction = .ok ix' → ix.data = ix'.data →
      call.message.stored = call'.message.stored := by
    intro call call' ix ix' h h' hdata
    have hmessage := Call.encode_message h
    rw [hdata] at hmessage
    exact Message.stored_eq_of_encode hmessage (Call.encode_message h')
  refine ⟨?_, hidentified, ?_⟩
  · intro call ix h
    exact Message.parse_of_encode (Call.encode_message h)
  · intro metadata authority metadata' authority' program program' key text text' kind field ix ix'
      hkind h h' hdata
    have hsame := hidentified (.updateField metadata authority (.custom key) text program)
      (.updateField metadata' authority' field text' program') ix ix' h h' hdata
    cases hsame
    cases kind <;> cases hkind

/-- The zero key without and with a flag, and the custom key that spells the name. -/
theorem call_identified_zero :
    let k : Key := ⟨List.replicate 32 7, rfl⟩
    let hook : Call := .extension (.transferHook (some .zero) none) k k
    let empty : Call := .extension (.transferHook none none) .zero k
    let fee : Call := .extension (.transferFee (some .zero) none 5 9) k k
    let hookData : Bytes := 36 :: 0 :: List.replicate 64 0
    let feeData : Bytes := 26 :: 0 :: 1 :: List.replicate 32 0 ++ [0, 5, 0, 9, 0, 0, 0, 0, 0, 0, 0]
    let named : Instruction := ⟨k, [.writable k, .signer k],
      Metadata.updateFieldDiscriminator ++ [0, 1, 0, 0, 0, 97]⟩
    let custom : Instruction := ⟨k, [.writable k, .signer k],
      Metadata.updateFieldDiscriminator ++ [3, 4, 0, 0, 0, 110, 97, 109, 101, 1, 0, 0, 0, 97]⟩
    (hook.instruction = .ok ⟨k, [.writable k], hookData⟩ ∧
      Extension.layout.parse hookData = .ok (.variant 36 (.variant 0 (.seq [.absent, .absent])))) ∧
    (fee.instruction = .ok ⟨k, [.writable k], feeData⟩ ∧
      Extension.layout.parse feeData = .ok (.variant 26 (.variant 0
        (.seq [.key .zero, .absent, .int 5, .int 9])))) ∧
    (empty.instruction = .ok ⟨k, [.writable .zero], hookData⟩ ∧
      hook.message.stored = empty.message.stored) ∧
    Metadata.Field.ofKind .name = .ok .name ∧
      Metadata.updateField k k (.custom "name") "a" k = .ok custom ∧
      Metadata.updateField k k .name "a" k = .ok named ∧ custom.data ≠ named.data := by
  intro k hook empty fee hookData feeData named custom
  obtain ⟨hread, hidentified, hcustom⟩ := call_identified
  have hhook : hook.instruction = .ok ⟨k, [.writable k], hookData⟩ := by decide +kernel
  have hfee : fee.instruction = .ok ⟨k, [.writable k], feeData⟩ := by decide +kernel
  have hempty : empty.instruction = .ok ⟨k, [.writable .zero], hookData⟩ := by decide +kernel
  have hkey : Metadata.updateField k k (.custom "name") "a" k = .ok custom := by decide +kernel
  have hname : Metadata.updateField k k .name "a" k = .ok named := by decide +kernel
  exact ⟨⟨hhook, hread hook _ hhook⟩, ⟨hfee, hread fee _ hfee⟩,
    ⟨hempty, hidentified hook empty _ _ hhook hempty rfl⟩,
    rfl, hkey, hname, hcustom k k k k k k "name" "a" "a" .name .name _ _ rfl hkey hname⟩

end TokenWire.Token
