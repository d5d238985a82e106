import TokenWire.Proofs.Address.Seeded
import TokenWire.Proofs.ComputeBudget
import TokenWire.Proofs.Instruction
import TokenWire.Proofs.SystemProgram.Command
import TokenWire.Proofs.Traversal
import TokenWire.SystemProgram.Instruction

/-! When instructions of the system program and about compute units are refused, and how those
that are made are read. -/

namespace TokenWire

namespace SystemProgram

/-- A call of one of the builders, with all that it takes. -/
inductive Call where
  | createAccount (payer account : Key) (lamports space : Int) (owner : Key)
  | createAccountWithSeed (payer account base : Key) (seed : String) (lamports space : Int)
    (owner : Key)
  | assign (account owner : Key)
  | assignWithSeed (account base : Key) (seed : String) (owner : Key)
  | transfer (payer receiver : Key) (lamports : Int)
  | transferWithSeed (payer base : Key) (seed : String) (owner receiver : Key) (lamports : Int)
  | allocate (account : Key) (space : Int)
  | allocateWithSeed (account base : Key) (seed : String) (space : Int) (owner : Key)

namespace Call

def instruction : Call → Except Error Instruction
  | createAccount payer account lamports space owner =>
    SystemProgram.createAccount payer account lamports space owner
  | createAccountWithSeed payer account base seed lamports space owner =>
    SystemProgram.createAccountWithSeed payer account base seed lamports space owner
  | assign account owner => SystemProgram.assign account owner
  | assignWithSeed account base seed owner => SystemProgram.assignWithSeed account base seed owner
  | transfer payer receiver lamports => SystemProgram.transfer payer receiver lamports
  | transferWithSeed payer base seed owner receiver lamports =>
    SystemProgram.transferWithSeed payer base seed owner receiver lamports
  | allocate account space => SystemProgram.allocate account space
  | allocateWithSeed account base seed space owner =>
    SystemProgram.allocateWithSeed account base seed space owner

/-- The builder and the arguments that go into the data. -/
def command : Call → Command
  | createAccount _ _ lamports space owner => .createAccount lamports space owner
  | createAccountWithSeed _ _ base seed lamports space owner =>
    .createAccountWithSeed base seed lamports space owner
  | assign _ owner => .assign owner
  | assignWithSeed _ base seed owner => .assignWithSeed base seed owner
  | transfer _ _ lamports => .transfer lamports
  | transferWithSeed _ _ seed owner _ lamports => .transferWithSeed lamports seed owner
  | allocate _ space => .allocate space
  | allocateWithSeed _ base seed space owner => .allocateWithSeed base seed space owner

/-- Refuses a seed that is too long. -/
def check (call : Call) : Except Error Unit :=
  match call.command.seed? with
  | some seed => checkSeed seed
  | none => .ok ()

variable {call : Call} {e : Error}

theorem check_eq_error : call.check = .error e ↔
    ∃ s ∈ call.command.seed?, 32 < (utf8 s).length ∧ e = .seedTooLong s := by
  rw [check]
  cases call.command.seed? with
  | none => exact iff_of_false nofun nofun
  | some seed => simp [checkSeed_eq_error]

theorem check_eq_ok :
    call.check = .ok () ↔ ∀ s ∈ call.command.seed?, (utf8 s).length ≤ 32 := by
  rw [check]
  cases call.command.seed? with
  | none => exact iff_of_true rfl nofun
  | some seed => simp [checkSeed_eq_ok]

/-- The seed is checked before anything is written. -/
theorem exists_accounts (call : Call) : ∃ accounts,
    call.instruction = call.check >>= fun _ => SystemProgram.instruction accounts call.command := by
  cases call <;> exact ⟨_, rfl⟩

theorem instruction_eq_error : call.instruction = .error e ↔
    (∃ s ∈ call.command.seed?, 32 < (utf8 s).length ∧ e = .seedTooLong s) ∨
      (∀ s ∈ call.command.seed?, (utf8 s).length ≤ 32) ∧ ¬ call.command.Fits ∧
        e = .unencodable .outOfRange := by
  obtain ⟨accounts, haccounts⟩ := call.exists_accounts
  rw [haccounts, Checked.bind_eq_error, check_eq_error]
  refine or_congr_right ⟨?_, ?_⟩
  · rintro ⟨⟨⟩, hcheck, h⟩
    have hshort := check_eq_ok.mp hcheck
    exact ⟨hshort, (Command.encode_eq_error hshort).mp (Instruction.made_eq_error.mp h)⟩
  · rintro ⟨hshort, hrange⟩
    have hencode := (Command.encode_eq_error hshort).mpr hrange
    exact ⟨(), check_eq_ok.mpr hshort, Instruction.made_eq_error.mpr hencode⟩

theorem exists_instruction (hshort : ∀ s ∈ call.command.seed?, (utf8 s).length ≤ 32)
    (hfits : call.command.Fits) :
    ∃ ix, call.instruction = .ok ix ∧ Command.decode ix.data = .ok call.command := by
  obtain ⟨accounts, haccounts⟩ := call.exists_accounts
  obtain ⟨data, hdata⟩ : ∃ data, call.command.encode = .ok data :=
    Layout.writable_iff_write.mp ((Command.writable_toValue hshort).mpr hfits)
  have hmade : SystemProgram.instruction accounts call.command =
      .ok ⟨Program.system, accounts, data⟩ := Instruction.made_eq_ok.mpr ⟨hdata, rfl, rfl⟩
  rw [haccounts]
  exact ⟨_, Checked.bind_eq_ok.mpr ⟨(), check_eq_ok.mpr hshort, hmade⟩,
    Command.decode_of_encode hdata⟩

end Call

variable {payer : Key} {amounts : List (Key × Int)} {e : Error}

theorem transfer_eq_error {receiver : Key} {lamports : Int} :
    transfer payer receiver lamports = .error e ↔
      ¬ InField 8 lamports ∧ e = .unencodable .outOfRange := by
  have hfits : (Command.transfer lamports).Fits ↔ InField 8 lamports := List.forall_mem_singleton
  have hseed : ∀ s ∈ (Command.transfer lamports).seed?, (utf8 s).length ≤ 32 := by
    rintro s ⟨⟩
  rw [← hfits, ← Command.encode_eq_error hseed]
  exact Instruction.made_eq_error

theorem transfer_eq_ok {receiver : Key} {lamports : Int} {ix : Instruction}
    (h : transfer payer receiver lamports = .ok ix) :
    ix.accounts = [.writableSigner payer, .writable receiver] ∧
      Command.decode ix.data = .ok (.transfer lamports) := by
  obtain ⟨hdata, -, haccounts⟩ := Instruction.made_eq_ok.mp h
  exact ⟨haccounts, Command.decode_of_encode hdata⟩

theorem transferMany_eq : transferMany payer amounts =
    amounts.mapM fun amount => transfer payer amount.1 amount.2 := rfl

theorem exists_transferMany (h : ∀ amount ∈ amounts, InField 8 amount.2) :
    ∃ ixs, transferMany payer amounts = .ok ixs ∧
      List.Forall₂ (fun amount ix =>
        ix.accounts = [.writableSigner payer, .writable amount.1] ∧
          Command.decode ix.data = .ok (.transfer amount.2)) amounts ixs := by
  have heach : ∀ amount ∈ amounts, ∃ ix, transfer payer amount.1 amount.2 = .ok ix := by
    intro amount hamount
    cases hresult : transfer payer amount.1 amount.2 with
    | ok ix => exact ⟨ix, rfl⟩
    | error e => exact absurd (h amount hamount) (transfer_eq_error.mp hresult).1
  obtain ⟨ixs, hixs⟩ := Checked.exists_mapM_eq_ok.mpr heach
  exact ⟨ixs, hixs, (Checked.mapM_eq_ok.mp hixs).imp fun _ _ hix => transfer_eq_ok hix⟩

theorem transferMany_eq_error : transferMany payer amounts = .error e ↔
    (∃ amount ∈ amounts, ¬ InField 8 amount.2) ∧ e = .unencodable .outOfRange := by
  rw [transferMany_eq]
  -- No transfer fails in another way, so whichever fails first tells the same.
  have hrange : ∀ e, (amounts.mapM fun amount => transfer payer amount.1 amount.2) = .error e →
      (∃ amount ∈ amounts, ¬ InField 8 amount.2) ∧ e = .unencodable .outOfRange := by
    intro e h
    obtain ⟨amount, hamount, hfail⟩ := Checked.exists_of_mapM_eq_error h
    obtain ⟨hwide, he⟩ := transfer_eq_error.mp hfail
    exact ⟨⟨amount, hamount, hwide⟩, he⟩
  constructor
  · exact hrange e
  · rintro ⟨⟨amount, hamount, hwide⟩, rfl⟩
    cases hresult : amounts.mapM fun amount => transfer payer amount.1 amount.2 with
    | ok ixs =>
      obtain ⟨ix, hix⟩ := Checked.exists_mapM_eq_ok.mp ⟨ixs, hresult⟩ amount hamount
      rw [transfer_eq_error.mpr ⟨hwide, rfl⟩] at hix
      cases hix
    | error e => rw [(hrange e hresult).2]

end SystemProgram

/--
A call is refused for a seed of more than 32 bytes, which no address takes either, and only then
for an integer that does not fit its field. What is made otherwise is read as it was given. A list
of transfers is refused as a whole.
-/
theorem builders_decoded :
    (∀ call : SystemProgram.Call,
      (∀ e, call.instruction = .error e ↔
        (∃ s ∈ call.command.seed?, 32 < (utf8 s).length ∧ e = .seedTooLong s) ∨
        (∀ s ∈ call.command.seed?, (utf8 s).length ≤ 32) ∧ ¬ call.command.Fits ∧
          e = .unencodable .outOfRange) ∧
      ((∀ s ∈ call.command.seed?, (utf8 s).length ≤ 32) → call.command.Fits →
        ∃ ix, call.instruction = .ok ix ∧
          SystemProgram.Command.decode ix.data = .ok call.command)) ∧
    (∀ (base owner : Key) (seed s : String),
      seededAddress base seed owner = .error (.seedTooLong s) ↔
        s = seed ∧ 32 < (utf8 seed).length) ∧
    (∀ c : ComputeBudget.Command,
      (∀ e, c.instruction = .error e ↔ ¬ c.Fits ∧ e = .unencodable .outOfRange) ∧
      (c.Fits → ∃ ix, c.instruction = .ok ix ∧ ComputeBudget.Command.decode ix.data = .ok c)) ∧
    ∀ (payer : Key) (amounts : List (Key × Int)),
      (∀ e, SystemProgram.transferMany payer amounts = .error e ↔
        (∃ amount ∈ amounts, ¬ InField 8 amount.2) ∧ e = .unencodable .outOfRange) ∧
      ((∀ amount ∈ amounts, InField 8 amount.2) →
        ∃ ixs, SystemProgram.transferMany payer amounts = .ok ixs ∧
          List.Forall₂ (fun amount ix =>
            ix.accounts = [.writableSigner payer, .writable amount.1] ∧
              SystemProgram.Command.decode ix.data = .ok (.transfer amount.2)) amounts ixs) := by
  refine ⟨?_, ?_, ?_, ?_⟩
  · intro call
    exact ⟨fun _ => SystemProgram.Call.instruction_eq_error, SystemProgram.Call.exists_instruction⟩
  · intro base owner seed s
    exact seededAddress_eq_seedTooLong
  · intro c
    exact ⟨fun _ => ComputeBudget.Command.instruction_eq_error,
      ComputeBudget.Command.exists_instruction⟩
  · intro payer amounts
    exact ⟨fun _ => SystemProgram.transferMany_eq_error, SystemProgram.exists_transferMany⟩

/-- Seeds of 34 and of 32 bytes, with fewer letters, and integers at the ends of their fields. -/
theorem builders_decoded_edges :
    let k : Key := ⟨List.replicate 32 7, rfl⟩
    let long := "ééééééééééééééééé"
    let short := "éééééééééééééééé"
    let call : String → Int → SystemProgram.Call := fun seed lamports =>
      .createAccountWithSeed k k k seed lamports 0 k
    let transfers : List (Key × Int) := [(k, 1), (.zero, 2)]
    (call long (-1)).instruction = .error (.seedTooLong long) ∧
      seededAddress k long k = .error (.seedTooLong long) ∧
      (call short (-1)).instruction = .error (.unencodable .outOfRange) ∧
      (∃ ix, (call short 18446744073709551615).instruction = .ok ix ∧
        SystemProgram.Command.decode ix.data =
          .ok (.createAccountWithSeed k short 18446744073709551615 0 k)) ∧
      (ComputeBudget.Command.setUnitLimit 4294967296).instruction =
        .error (.unencodable .outOfRange) ∧
      (∃ ix, (ComputeBudget.Command.setUnitPrice 4294967296).instruction = .ok ix ∧
        ComputeBudget.Command.decode ix.data = .ok (.setUnitPrice 4294967296)) ∧
      SystemProgram.transferMany k (transfers ++ [(k, -1)]) = .error (.unencodable .outOfRange) ∧
      ∃ ixs, SystemProgram.transferMany k transfers = .ok ixs ∧
        List.Forall₂ (fun amount ix =>
          ix.accounts = [.writableSigner k, .writable amount.1] ∧
            SystemProgram.Command.decode ix.data = .ok (.transfer amount.2)) transfers ixs := by
  intro k long short call transfers
  obtain ⟨hcalls, haddress, hunits, htransfers⟩ := builders_decoded
  have hlong : 32 < (utf8 long).length := by decide +kernel
  have hshort : ∀ s ∈ some short, (utf8 s).length ≤ 32 := by
    rintro _ ⟨⟩
    decide +kernel
  have hnegative : ¬ (call short (-1)).command.Fits :=
    fun h => absurd (h (-1) (by decide)) (by decide)
  have hgreatest : (call short 18446744073709551615).command.Fits := by
    change ∀ n ∈ [18446744073709551615, 0], InField 8 n
    decide
  have hwide : ¬ (ComputeBudget.Command.setUnitLimit 4294967296).Fits :=
    fun h => absurd (h (4, 4294967296) (by decide)) (by decide)
  have hprice : (ComputeBudget.Command.setUnitPrice 4294967296).Fits := by
    change ∀ field ∈ [((8, 4294967296) : Nat × Int)], InField field.1 field.2
    decide
  have hamounts : ∀ amount ∈ transfers, InField 8 amount.2 := by decide
  have hdebt : ∃ amount ∈ transfers ++ [(k, -1)], ¬ InField 8 amount.2 :=
    ⟨(k, -1), by decide, by decide⟩
  exact ⟨((hcalls (call long (-1))).1 _).mpr (Or.inl ⟨long, rfl, hlong, rfl⟩),
    (haddress k k long long).mpr ⟨rfl, hlong⟩,
    ((hcalls (call short (-1))).1 _).mpr (Or.inr ⟨hshort, hnegative, rfl⟩),
    (hcalls (call short 18446744073709551615)).2 hshort hgreatest,
    ((hunits _).1 _).mpr ⟨hwide, rfl⟩, (hunits _).2 hprice,
    ((htransfers k _).1 _).mpr ⟨hdebt, rfl⟩, (htransfers k transfers).2 hamounts⟩

end TokenWire
