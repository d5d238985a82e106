import TokenWire.Asset.Action
import TokenWire.Proofs.Account.Slots
import TokenWire.Proofs.Asset.CreateArgs
import TokenWire.Proofs.Instruction
import TokenWire.Proofs.Key
import TokenWire.Proofs.Layout.Leaves

/-!
Two ways to create a fungible asset, with its mint and for a mint that exists. Both make one
instruction, apart from the decimals, the signature of the mint and the token program.
-/

namespace TokenWire.Asset

open Layout Metadata

namespace FungibleFields

variable {f : FungibleFields} {immutable : Bool} {decimals : Option Int}

/-- The texts fit the counts in front of them. -/
structure Fits (f : FungibleFields) : Prop where
  name : Short f.name
  symbol : Short f.symbol
  uri : Short f.uri

/-- The arguments of a creation that gives nothing but texts, a flag and the decimals. -/
def args (f : FungibleFields) (immutable : Bool) (decimals : Option Int) : CreateArgs where
  name := f.name
  symbol := f.symbol
  uri := f.uri
  sellerFee := 0
  tokenStandard := .fungible
  creators := none
  primarySaleHappened := false
  isMutable := !immutable
  collection := none
  uses := none
  collectionDetails := none
  ruleSet := none
  decimals := decimals
  printSupply := none

theorem fits_args : (f.args immutable decimals).Fits ↔ f.Fits ∧ ∀ n ∈ decimals, InField 1 n := by
  constructor
  · rintro ⟨⟨hname, hsymbol, huri, -, -⟩, -, -, hdecimals, -⟩
    exact ⟨⟨hname, hsymbol, huri⟩, hdecimals⟩
  · rintro ⟨⟨hname, hsymbol, huri⟩, hdecimals⟩
    have hfee : InField 2 0 := by decide
    exact ⟨⟨hname, hsymbol, huri, hfee, nofun⟩, nofun, nofun, hdecimals, nofun⟩

/-- All that stands before the decimals. -/
def front (f : FungibleFields) (immutable : Bool) : List Leaf :=
  [.unsigned 1 42, .unsigned 1 0, .unsigned 4 (utf8 f.name).length, .raw (utf8 f.name),
    .unsigned 4 (utf8 f.symbol).length, .raw (utf8 f.symbol), .unsigned 4 (utf8 f.uri).length,
    .raw (utf8 f.uri), .unsigned 2 0, .raw [0], .raw [0], .raw [if !immutable then 1 else 0],
    .unsigned 1 2, .raw [0], .raw [0], .raw [0], .raw [0]]

theorem leaves_args : Asset.layout.leaves (Command.create (f.args immutable decimals)).toValue =
    f.front immutable ++ (leaves (.option .u8) (.optional .int decimals) ++ [.raw [0]]) := by
  cases decimals <;> rfl

/-- The decimals stand between what is written of the texts and the byte for the print supply. -/
theorem encode_args {own : Bytes}
    (hown : writeLeaves (leaves (.option .u8) (.optional .int decimals)) = .ok own) :
    (Command.create (f.args immutable decimals)).encode =
      ((writeLeaves (f.front immutable)).map (· ++ (own ++ [0]))).mapError .unencodable := by
  have hshaped : Asset.layout.Shaped (Command.create (f.args immutable decimals)).toValue :=
    .known rfl (CreateArgs.shaped_toValue nofun)
  have hbehind : writeLeaves (leaves (.option .u8) (.optional .int decimals) ++ [.raw [0]]) =
      .ok (own ++ [0]) := by
    rw [writeLeaves_append, hown]
    rfl
  rw [Command.encode, write, hshaped.encode_eq, leaves_args, writeLeaves_append, hbehind]
  rfl

end FungibleFields

section Instruction

variable {mint : Key} {args : CreateArgs}

theorem CreateBuilder.result_instruction {b : CreateBuilder} (hargs : b.args = some args)
    (hcomplete : b.slots.Complete) : b.instruction.result = (do
      let data ← (Command.create args).encode
      pure ⟨Program.asset, (Schema.all : List CreateRole).map (b.slots.account Program.asset) ++
        b.slots.remaining, data⟩) := by
  unfold instruction
  rw [hargs]
  dsimp only
  rw [Logged.result_bind, Logged.result_ofExcept]
  refine congrArg ((Command.create args).encode >>= ·) (funext fun data => ?_)
  exact Slots.assemble_eq_ok.mpr ⟨hcomplete, rfl⟩

/-- A creation that is made from the accounts of a mint, with all that is required. -/
theorem result_ofMint {build : Accounts → CreateBuilder}
    (hargs : ∀ accounts, (build accounts).args = some args)
    (hcomplete : ∀ accounts, (build accounts).slots.Complete) :
    (do
      let accounts ← Logged.ofExcept (Accounts.ofMint mint)
      (build accounts).instruction).result = (do
      let metadata ← (metadataDerivation mint).address
      let data ← (Command.create args).encode
      let slots := (build { mint, metadata }).slots
      pure ⟨Program.asset, (Schema.all : List CreateRole).map (slots.account Program.asset) ++
        slots.remaining, data⟩) := by
  rw [Logged.result_bind, Logged.result_ofExcept, Accounts.ofMint, bind_assoc]
  refine congrArg ((metadataDerivation mint).address >>= ·) (funext fun metadata => ?_)
  exact CreateBuilder.result_instruction (hargs _) (hcomplete _)

end Instruction

section Creation

variable {mint payer : Key} {f : FungibleFields} {immutable : Bool} {decimals : Option Int}
  {own : Bytes} {tokenProgram : Key} {ix : Instruction} {e : Error}

/-- The accounts of a creation in which the payer is every authority. -/
def creationAccounts (mint metadata payer : Key) (mintSigns : Bool) (tokenProgram : Key) :
    List AccountMeta :=
  [.writable metadata, .readonly Program.asset, ⟨mint, mintSigns, true⟩, .signer payer,
    .writableSigner payer, .signer payer, .readonly Program.system, .readonly Sysvar.instructions,
    .readonly tokenProgram]

/-- The creation of a fungible asset. Its mint signs if it is created as well, with decimals. -/
def creation (mint payer : Key) (f : FungibleFields) (immutable : Bool) (decimals : Option Int)
    (tokenProgram : Key) : Except Error Instruction := do
  let metadata ← (metadataDerivation mint).address
  let data ← (Command.create (f.args immutable decimals)).encode
  pure ⟨Program.asset, creationAccounts mint metadata payer decimals.isSome tokenProgram, data⟩

theorem result_createFungible (decimals : Int) :
    (createFungible mint f decimals immutable payer).result =
      creation mint payer f immutable (some decimals) Program.token := by
  unfold createFungible
  rw [result_ofMint fun _ => rfl]
  · rfl
  · intro accounts r _ hempty
    cases r <;> first | rfl | cases hempty

theorem result_createMetadata (text : String) :
    (createMetadata text f immutable payer).result = (do
      let mint ← Key.parse text
      creation mint payer f immutable none Program.asset) := by
  rw [createMetadata, Logged.result_bind, Logged.result_ofExcept]
  refine congrArg (Key.parse text >>= ·) (funext fun mint => ?_)
  rw [result_ofMint fun _ => rfl]
  · rfl
  · intro accounts r _ hempty
    cases r <;> first | rfl | cases hempty

theorem exists_creation : (∃ ix, creation mint payer f immutable decimals tokenProgram = .ok ix) ↔
    (f.Fits ∧ ∀ n ∈ decimals, InField 1 n) ∧
      ∃ metadata, (metadataDerivation mint).address = .ok metadata := by
  rw [← FungibleFields.fits_args, ← Command.create_encode_iff]
  constructor
  · rintro ⟨ix, h⟩
    obtain ⟨metadata, hmetadata, h⟩ := Checked.bind_eq_ok.mp h
    obtain ⟨data, hdata, -⟩ := Checked.bind_eq_ok.mp h
    exact ⟨⟨data, hdata⟩, metadata, hmetadata⟩
  · rintro ⟨⟨data, hdata⟩, metadata, hmetadata⟩
    let accounts := creationAccounts mint metadata payer decimals.isSome tokenProgram
    refine ⟨⟨Program.asset, accounts, data⟩, Checked.bind_eq_ok.mpr ⟨metadata, hmetadata, ?_⟩⟩
    exact Instruction.made_eq_ok.mpr ⟨hdata, rfl, rfl⟩

theorem creation_eq_ok
    (hown : writeLeaves (leaves (.option .u8) (.optional .int decimals)) = .ok own) :
    creation mint payer f immutable decimals tokenProgram = .ok ix ↔
      ∃ metadata front, (metadataDerivation mint).address = .ok metadata ∧
        writeLeaves (f.front immutable) = .ok front ∧ ix = ⟨Program.asset,
          creationAccounts mint metadata payer decimals.isSome tokenProgram,
          front ++ (own ++ [0])⟩ := by
  unfold creation
  simp only [Checked.bind_eq_ok, FungibleFields.encode_args hown, Checked.mapError_eq_ok,
    Checked.map_eq_ok]
  constructor
  · rintro ⟨metadata, hmetadata, _, ⟨front, hfront, rfl⟩, hix⟩
    exact ⟨metadata, front, hmetadata, hfront, (Except.ok.inj hix).symm⟩
  · rintro ⟨metadata, front, hmetadata, hfront, rfl⟩
    exact ⟨metadata, hmetadata, _, ⟨front, hfront, rfl⟩, rfl⟩

/-- Decimals that can be written are no reason to fail. -/
theorem creation_eq_error
    (hown : writeLeaves (leaves (.option .u8) (.optional .int decimals)) = .ok own) :
    creation mint payer f immutable decimals tokenProgram = .error e ↔
      (metadataDerivation mint).address = .error e ∨
        ∃ metadata, (metadataDerivation mint).address = .ok metadata ∧
          ∃ fault, writeLeaves (f.front immutable) = .error fault ∧ .unencodable fault = e := by
  unfold creation
  rw [Checked.bind_eq_error]
  simp only [FungibleFields.encode_args hown]
  refine or_congr_right (exists_congr fun metadata => and_congr_right fun _ => ?_)
  rw [Instruction.made_eq_error, Checked.mapError_eq_error]
  simp only [Checked.map_eq_error]

theorem creation_read (h : creation mint payer f immutable decimals tokenProgram = .ok ix) :
    ∃ v, layout.parse ix.data = .ok (.variant 42 v) ∧
      CreateArgs.ofValue v = .ok (f.args immutable decimals) := by
  obtain ⟨metadata, -, h⟩ := Checked.bind_eq_ok.mp h
  obtain ⟨hdata, -⟩ := Instruction.made_eq_ok.mp h
  have hfits := Command.create_encode_iff.mp ⟨_, hdata⟩
  exact ⟨_, Command.create_parse hdata, CreateArgs.ofValue_toValue hfits⟩

end Creation

/--
A fungible asset is created with its mint just when it is for a mint that exists, named by its text,
and fails for the same reason. The two instructions differ in the signature of the mint, in the
token program, for which the placeholder stands, and in the decimals before the last byte. Each is
read back to the texts, the flag and its decimals, and to nothing else.
-/
theorem creations_agree (mint payer : Key) (f : FungibleFields) (immutable : Bool)
    (decimals : UInt8) :
    ((∃ ix, (createFungible mint f decimals.toNat immutable payer).result = .ok ix) ↔
      f.Fits ∧ ∃ metadata, (metadataDerivation mint).address = .ok metadata) ∧
    (∀ e, (createFungible mint f decimals.toNat immutable payer).result = .error e ↔
      (createMetadata mint.text f immutable payer).result = .error e) ∧
    ∀ ix, (createFungible mint f decimals.toNat immutable payer).result = .ok ix →
      ∃ ix' front last, (createMetadata mint.text f immutable payer).result = .ok ix' ∧
        ix.program = Program.asset ∧ ix'.program = Program.asset ∧
        (ix.accounts.length = 9 ∧ ix.accounts[2]? = some (.writableSigner mint) ∧
          ix.accounts[8]? = some (.readonly Program.token) ∧ ix'.accounts =
            (ix.accounts.set 2 (.writable mint)).set 8 (.readonly Program.asset)) ∧
        ix.data = front ++ [1, decimals, last] ∧ ix'.data = front ++ [0, last] ∧
        (∃ v, layout.parse ix.data = .ok (.variant 42 v) ∧
          CreateArgs.ofValue v = .ok (f.args immutable (some decimals.toNat))) ∧
        ∃ v, layout.parse ix'.data = .ok (.variant 42 v) ∧
          CreateArgs.ofValue v = .ok (f.args immutable none) := by
  -- The two are one creation, in which only the leaves of the decimals differ.
  have hsome : writeLeaves (leaves (.option .u8) (.optional .int (some (decimals.toNat : Int)))) =
      .ok [1, decimals] := by
    have hbyte : littleEndian 1 decimals.toNat = [decimals] := by simp [littleEndian]
    change writeLeaves [.raw [1], .unsigned 1 decimals.toNat] = _
    rw [writeLeaves, writeLeaves_singleton, Leaf.write, writeUnsigned_natCast decimals.toNat_lt,
      hbyte]
    rfl
  have hnone : writeLeaves (leaves (.option .u8) (.optional .int none)) = .ok [0] := rfl
  have hbare : (createMetadata mint.text f immutable payer).result =
      creation mint payer f immutable none Program.asset := by
    rw [result_createMetadata, Key.parse_eq_ok.mpr rfl]
    exact pure_bind mint _
  rw [result_createFungible, hbare]
  refine ⟨?_, ?_, ?_⟩
  · rw [exists_creation]
    refine and_congr_left' (and_iff_left ?_)
    rintro _ ⟨⟩
    exact inField_natCast.mpr decimals.toNat_lt
  · intro e
    rw [creation_eq_error hsome, creation_eq_error hnone]
  · intro ix h
    obtain ⟨metadata, front, hmetadata, hfront, rfl⟩ := (creation_eq_ok hsome).mp h
    have h' : creation mint payer f immutable none Program.asset = .ok _ :=
      (creation_eq_ok hnone).mpr ⟨metadata, front, hmetadata, hfront, rfl⟩
    exact ⟨_, front, 0, h', rfl, rfl, ⟨rfl, rfl, rfl, rfl⟩, rfl, rfl, creation_read h,
      creation_read h'⟩

/-- A text of two bytes, an empty one, and the greatest number of decimals. -/
theorem creations_agree_accented :
    let k : Key := ⟨List.replicate 32 7, rfl⟩
    let f : FungibleFields := ⟨"é", "", "u"⟩
    let metadata := (metadataDerivation k).candidate 255
    let front : Bytes := [42, 0, 2, 0, 0, 0, 195, 169, 0, 0, 0, 0, 1, 0, 0, 0, 117, 0, 0, 0, 0, 1,
      2, 0, 0, 0, 0]
    let ix : Instruction := ⟨Program.asset,
      [.writable metadata, .readonly Program.asset, .writableSigner k, .signer .zero,
        .writableSigner .zero, .signer .zero, .readonly Program.system,
        .readonly Sysvar.instructions, .readonly Program.token], front ++ [1, 255, 0]⟩
    (createFungible k f 255 false .zero).result = .ok ix ∧
      ∃ ix', (createMetadata k.text f false .zero).result = .ok ix' ∧
        ix'.accounts = (ix.accounts.set 2 (.writable k)).set 8 (.readonly Program.asset) ∧
        ix'.data = front ++ [0, 0] ∧
        ∃ v, layout.parse ix'.data = .ok (.variant 42 v) ∧
          CreateArgs.ofValue v = .ok (f.args false none) := by
  intro k f metadata front ix
  have hmetadata : (metadataDerivation k).address = .ok metadata := by decide +kernel
  have hwritten : (Command.create (f.args false (some 255))).encode =
      .ok (front ++ [1, 255, 0]) := by decide +kernel
  have hix : (createFungible k f 255 false .zero).result = .ok ix := by
    rw [result_createFungible, creation, hmetadata, hwritten]
    rfl
  obtain ⟨-, -, hagree⟩ := creations_agree k .zero f false 255
  obtain ⟨ix', front', last, h', -, -, ⟨-, -, -, haccounts⟩, hdata, hdata', -, hread⟩ :=
    hagree ix hix
  obtain ⟨rfl, hlast⟩ := List.append_inj' hdata rfl
  cases hlast
  exact ⟨hix, ix', h', haccounts, hdata', hread⟩

end TokenWire.Asset
