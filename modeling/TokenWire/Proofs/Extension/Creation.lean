import TokenWire.Proofs.Extension.Command
import TokenWire.Proofs.Extension.Plan
import TokenWire.Proofs.Instruction
import TokenWire.Proofs.Metadata.Command
import TokenWire.Proofs.SystemProgram.Command
import TokenWire.Proofs.Token.Command

/-! The instructions that create a mint, in their order, as they are read from their data. -/

namespace TokenWire

theorem SystemProgram.createAccount_eq_ok {payer account owner : Key} {lamports space : Int}
    {ix : Instruction} (h : createAccount payer account lamports space owner = .ok ix) :
    ix.program = Program.system ∧ ix.accounts = [.writableSigner payer, .writableSigner account] ∧
      Command.decode ix.data = .ok (.createAccount lamports space owner) := by
  obtain ⟨hdata, hprogram, haccounts⟩ := Instruction.made_eq_ok.mp h
  exact ⟨hprogram, haccounts, Command.decode_of_encode hdata⟩

theorem Token.initializeMint2_eq_ok {program mint authority : Key} {decimals : Int}
    {freezeAuthority : Option Key} {ix : Instruction}
    (h : initializeMint2 program mint decimals authority freezeAuthority = .ok ix) :
    ix.program = program ∧ ix.accounts = [.writable mint] ∧
      layout.parse ix.data = .ok (.variant 20
        (.seq [.int decimals, .key authority, .optional .key freezeAuthority])) := by
  obtain ⟨hdata, hprogram, haccounts⟩ := Instruction.made_eq_ok.mp h
  exact ⟨hprogram, haccounts, Command.parse_of_encode hdata⟩

theorem Metadata.start_eq_ok {metadata updateAuthority mint mintAuthority program : Key}
    {name symbol uri : String} {ix : Instruction}
    (h : start metadata updateAuthority mint mintAuthority name symbol uri program = .ok ix) :
    ix.program = program ∧ ix.accounts = [.writable metadata, .readonly updateAuthority,
      .readonly mint, .signer mintAuthority] ∧
      Command.decode ix.data = .ok (.start name symbol uri) := by
  obtain ⟨hdata, hprogram, haccounts⟩ := Instruction.made_eq_ok.mp h
  exact ⟨hprogram, haccounts, Command.decode_of_encode hdata⟩

theorem Metadata.updateField_eq_ok {metadata updateAuthority program : Key} {field : Field}
    {text : String} {ix : Instruction}
    (h : updateField metadata updateAuthority field text program = .ok ix) :
    ix.program = program ∧ ix.accounts = [.writable metadata, .signer updateAuthority] ∧
      Command.decode ix.data = .ok (.updateField field text) := by
  obtain ⟨hdata, hprogram, haccounts⟩ := Instruction.made_eq_ok.mp h
  exact ⟨hprogram, haccounts, Command.decode_of_encode hdata⟩

namespace Extension

variable (mint payer : Key)

/-- What the data that initializes an extension reads as: its numbers and arguments. Where no flag
tells keys from none, the zero key is none. -/
def Descriptor.reading : Descriptor → Value
  | closeAuthority authority => .variant 25 (.seq [.key authority])
  | transferFee c => .variant 26 (.variant 0 (.seq [.optional .key c.configAuthority,
      .optional .key c.withdrawAuthority, .int c.basisPoints, .int c.maximum]))
  | nonTransferable => .variant 32 .absent
  | interestBearing c => .variant 33 (.variant 0 (.seq [nonZero c.authority, .int c.rate]))
  | permanentDelegate delegate => .variant 35 (.seq [.key delegate])
  | transferHook c => .variant 36 (.variant 0 (.seq [nonZero c.authority, nonZero c.program]))
  | metadata _ => .variant 39 (.variant 0 (.seq [nonZero (some payer), nonZero (some mint)]))
where
  nonZero (k? : Option Key) : Value :=
    .optional .key (k?.filter (· ≠ .zero))

/-- The instruction initializes an extension of the mint. -/
def Initializes (d : Descriptor) (ix : Instruction) : Prop :=
  ix.program = Program.extendedToken ∧ ix.accounts = [.writable mint] ∧
    layout.parse ix.data = .ok (d.reading mint payer)

/-- The instruction initializes the mint itself, with the payer as its authority for both. -/
def InitializesMint (decimals : Int) (ix : Instruction) : Prop :=
  ix.program = Program.extendedToken ∧ ix.accounts = [.writable mint] ∧
    Token.layout.parse ix.data = .ok (.variant 20 (.seq [.int decimals, .key payer, .key payer]))

/-- The instructions write metadata into the mint: its start, and each further pair in order. -/
def WritesMetadata (c : MetadataConfig) (ixs : List Instruction) : Prop :=
  ∃ start updates, ixs = start :: updates ∧
    (start.program = Program.extendedToken ∧ start.accounts = [.writable mint, .readonly payer,
      .readonly mint, .signer payer] ∧
      Metadata.Command.decode start.data = .ok (.start c.name c.symbol c.uri)) ∧
    List.Forall₂ (fun pair ix => ix.program = Program.extendedToken ∧
      ix.accounts = [.writable mint, .signer payer] ∧
      Metadata.Command.decode ix.data = .ok (.updateField (.custom pair.1) pair.2))
      c.additional updates

/-- The lamports of a mint: those given, or the rent of the mint with all its metadata. -/
def Funding (ds : List Descriptor) (space : Nat) (lamports : Int) : Option Int → Prop
  | some given => lamports = given
  | none => ∃ sizes,
      List.Forall₂ (fun c n => (c.state mint payer).entryLength = .ok n)
        (ds.filterMap Descriptor.metadata?) sizes ∧
      Rent.minimumBalance ((space + total sizes : Nat) : Int) = .ok lamports

/-- The instruction creates the account of the mint, without room for metadata. -/
def CreatesAccount (funds : Option Int) (ds : List Descriptor) (ix : Instruction) : Prop :=
  ∃ (space : Nat) (lamports : Int), ix.program = Program.system ∧
    ix.accounts = [.writableSigner payer, .writableSigner mint] ∧
    SystemProgram.Command.decode ix.data =
      .ok (.createAccount lamports space Program.extendedToken) ∧
    mintLength (ds.map Descriptor.kind) = .ok space ∧
    Funding mint payer ds space lamports funds

variable {mint payer : Key}

theorem Descriptor.reading_eq (d : Descriptor) :
    d.reading mint payer = (d.command mint payer).stored.toValue := by
  cases d <;> rfl

theorem Descriptor.initializes {d : Descriptor} {ix : Instruction}
    (h : d.initialization mint payer = .ok ix) : Initializes mint payer d ix := by
  obtain ⟨hdata, hprogram, haccounts⟩ := Instruction.made_eq_ok.mp h
  refine ⟨hprogram, haccounts, ?_⟩
  rw [d.reading_eq]
  exact Command.parse_of_encode hdata

theorem MetadataConfig.instructions_eq_ok {c : MetadataConfig} {ixs : List Instruction} :
    c.instructions mint payer = .ok ixs ↔ ∃ start updates, ixs = start :: updates ∧
      Metadata.start mint payer mint payer c.name c.symbol c.uri = .ok start ∧
      List.Forall₂ (fun pair ix => Metadata.updateField mint payer (.custom pair.1) pair.2 = .ok ix)
        c.additional updates := by
  simp only [instructions, Checked.bind_eq_ok, Checked.mapM_eq_ok]
  constructor
  · rintro ⟨start, hstart, updates, hupdates, h⟩
    cases h
    exact ⟨start, updates, rfl, hstart, hupdates⟩
  · rintro ⟨start, updates, rfl, hstart, hupdates⟩
    exact ⟨start, hstart, updates, hupdates, rfl⟩

theorem MetadataConfig.writesMetadata {c : MetadataConfig} {ixs : List Instruction}
    (h : c.instructions mint payer = .ok ixs) : WritesMetadata mint payer c ixs := by
  obtain ⟨start, updates, rfl, hstart, hupdates⟩ := instructions_eq_ok.mp h
  exact ⟨start, updates, rfl, Metadata.start_eq_ok hstart,
    hupdates.imp fun _ _ h => Metadata.updateField_eq_ok h⟩

/--
A mint that can be created is created by one instruction for its account, one for each extension in
order, one for the mint itself, and then those that write its metadata, in order as well.
-/
theorem createMint_sequence {decimals : Int} {funds : Option Int} {ds : List Descriptor}
    {ixs : List Instruction} (h : (createMint mint payer decimals funds ds).result = .ok ixs) :
    ∃ account before start blocks,
      ixs = account :: before ++ start :: blocks.flatten ∧
      CreatesAccount mint payer funds ds account ∧
      List.Forall₂ (Initializes mint payer) ds before ∧
      InitializesMint mint payer decimals start ∧
      List.Forall₂ (WritesMetadata mint payer) (ds.filterMap Descriptor.metadata?) blocks := by
  obtain ⟨p, lamports, account, start, hp, hlamports, haccount, hstart, rfl⟩ :=
    createMint_eq_ok.mp h
  obtain ⟨-, hspace, hinits, sizes, blocks, hsizes, hblocks, hsize, hafter⟩ := plan_eq_ok.mp hp
  have hfunding : Funding mint payer ds p.space lamports funds := by
    rcases Plan.funds_eq_ok.mp hlamports with rfl | ⟨rfl, hrent⟩
    · rfl
    · rw [hsize] at hrent
      exact ⟨sizes, hsizes, hrent⟩
  obtain ⟨hprogram, haccounts, hdata⟩ := SystemProgram.createAccount_eq_ok haccount
  refine ⟨account, p.before, start, blocks, by rw [hafter], ?_, ?_, ?_, ?_⟩
  · exact ⟨p.space, lamports, hprogram, haccounts, hdata, hspace, hfunding⟩
  · exact hinits.imp fun _ _ hinit => Descriptor.initializes hinit
  · exact Token.initializeMint2_eq_ok hstart
  · exact hblocks.imp fun _ _ hblock => MetadataConfig.writesMetadata hblock

/-- The payer is the zero key, and the hook and the further pair are asked for by name. -/
theorem createMint_sequence_fields :
    let fields : Fields := {
      metadata := some ⟨"é", "", "u", [("k", "v")]⟩
      closeAuthority := some .zero
      transferHook := some ⟨some .zero, some Program.memo⟩
      order := ["transfer_hook", "none", "metadata"] }
    ∃ ixs, (createMint Program.token .zero 0 none fields.descriptors).result = .ok ixs ∧
      ∃ account before start blocks,
        ixs = account :: before ++ start :: blocks.flatten ∧
        CreatesAccount Program.token .zero none fields.descriptors account ∧
        List.Forall₂ (Initializes Program.token .zero) fields.descriptors before ∧
        InitializesMint Program.token .zero 0 start ∧
        List.Forall₂ (WritesMetadata Program.token .zero)
          (fields.descriptors.filterMap Descriptor.metadata?) blocks := by
  intro fields
  have horder : fields.descriptors = [.transferHook ⟨some .zero, some Program.memo⟩,
      .metadata ⟨"é", "", "u", [("k", "v")]⟩, .closeAuthority .zero] := by
    decide +kernel
  obtain ⟨ixs, h⟩ : ∃ ixs,
      (createMint Program.token .zero 0 none fields.descriptors).result = .ok ixs := by
    rw [horder]
    exact ⟨_, rfl⟩
  exact ⟨ixs, h, createMint_sequence h⟩

end Extension
end TokenWire
