import TokenWire.Proofs.Instruction
import TokenWire.Proofs.Range
import TokenWire.Proofs.Token.Command
import TokenWire.Token.Instruction

/-! Who signs for an account: its owner, or in the place of the owner the signers that are listed. -/

namespace TokenWire.Token

variable {program owner : Key} {signers : List Key} {accounts owners : List AccountMeta}
  {c : Command} {ix : Instruction}

/-- The owner, which signs if no others are listed, and the others behind it. -/
def party (owner : Key) (signers : List Key) : List AccountMeta :=
  ⟨owner, signers.isEmpty, false⟩ :: signers.map fun k => ⟨k, true, false⟩

theorem exists_isSigner (owner : Key) (signers : List Key) :
    ∃ m ∈ party owner signers, m.isSigner := by
  cases signers with
  | nil => exact ⟨_, List.mem_cons_self, rfl⟩
  | cons k signers => exact ⟨_, List.mem_cons_of_mem _ List.mem_cons_self, rfl⟩

theorem length_party (owner : Key) (signers : List Key) :
    (party owner signers).length = 1 + signers.length := by
  rw [party, List.length_cons, List.length_map, Nat.add_comm]

theorem signed_eq_ok : signed owner signers = .ok owners ↔
    signers.length ≤ 11 ∧ owners = party owner signers := by
  unfold signed
  split
  · next hmany => exact iff_of_false nofun fun h => Nat.not_lt_of_ge h.1 hmany
  · next hfew =>
    rw [Except.ok.injEq, eq_comm]
    exact (and_iff_right (Nat.le_of_not_gt hfew)).symm

theorem signed_of_many (h : 11 < signers.length) :
    signed owner signers = .error (.tooManySigners signers.length) :=
  if_pos h

theorem ownedInstruction_eq_ok : ownedInstruction program accounts owner signers c = .ok ix ↔
    signers.length ≤ 11 ∧ c.encode = .ok ix.data ∧ ix.program = program ∧
      ix.accounts = accounts ++ party owner signers := by
  rw [ownedInstruction, Checked.bind_eq_ok]
  constructor
  · rintro ⟨owners, howners, h⟩
    obtain ⟨hfew, rfl⟩ := signed_eq_ok.mp howners
    exact ⟨hfew, Instruction.made_eq_ok.mp h⟩
  · rintro ⟨hfew, h⟩
    exact ⟨_, signed_eq_ok.mpr ⟨hfew, rfl⟩, Instruction.made_eq_ok.mpr h⟩

/-- An instruction that an owner, or signers in its place, have to sign. -/
inductive OwnedCall where
  | mintTo (mint receiver : Key) (amount : Int)
  | closeAccount (account receiver : Key)
  | freezeAccount (account mint : Key)
  | thawAccount (account mint : Key)

namespace OwnedCall

def instruction (program owner : Key) (signers : List Key) : OwnedCall → Except Error Instruction
  | mintTo mint receiver amount => Token.mintTo program mint receiver owner amount signers
  | closeAccount account receiver => Token.closeAccount program account receiver owner signers
  | freezeAccount account mint => Token.freezeAccount program account mint owner signers
  | thawAccount account mint => Token.thawAccount program account mint owner signers

/-- What goes into the data. -/
def command : OwnedCall → Command
  | mintTo _ _ amount => .mintTo amount
  | closeAccount .. => .closeAccount
  | freezeAccount .. => .freezeAccount
  | thawAccount .. => .thawAccount

/-- The two accounts in front of the owner. -/
def front : OwnedCall → List AccountMeta
  | mintTo mint receiver _ => [⟨mint, false, true⟩, ⟨receiver, false, true⟩]
  | closeAccount account receiver => [⟨account, false, true⟩, ⟨receiver, false, true⟩]
  | freezeAccount account mint | thawAccount account mint =>
    [⟨account, false, true⟩, ⟨mint, false, false⟩]

/-- The amount fits its field. -/
def Fits : OwnedCall → Prop
  | mintTo _ _ amount => InField 8 amount
  | _ => True

variable {call : OwnedCall}

theorem instruction_eq : call.instruction program owner signers =
    ownedInstruction program call.front owner signers call.command := by
  cases call <;> rfl

theorem length_front (call : OwnedCall) : call.front.length = 2 := by
  cases call <;> rfl

theorem not_isSigner (call : OwnedCall) : ∀ m ∈ call.front, m.isSigner = false := by
  cases call <;> simp [front]

theorem encode_failsUnless (call : OwnedCall) : FailsUnless call.command.encode call.Fits := by
  refine (FailsUnless.write call.command.shaped_toValue (by decide)).congr ?_
  cases call with
  | mintTo mint receiver amount =>
    change Token.layout.Writable (.variant 7 _) ↔ _
    rw [Token.layout, Layout.writable_known (by decide) rfl]
    simp [command, Command.args, Fits]
  | _ => exact iff_of_true ⟨_, rfl⟩ trivial

theorem instruction_eq_ok : call.instruction program owner signers = .ok ix ↔
    signers.length ≤ 11 ∧ call.command.encode = .ok ix.data ∧ ix.program = program ∧
      ix.accounts = call.front ++ party owner signers := by
  rw [instruction_eq, ownedInstruction_eq_ok]

/-- The signers are counted before anything is written. -/
theorem instruction_of_many (h : 11 < signers.length) :
    call.instruction program owner signers = .error (.tooManySigners signers.length) := by
  rw [instruction_eq, ownedInstruction, signed_of_many h]
  rfl

theorem instruction_failsUnless (call : OwnedCall) (program owner : Key)
    (h : signers.length ≤ 11) : FailsUnless (call.instruction program owner signers) call.Fits := by
  have hsigned := signed_eq_ok.mpr ⟨h, Eq.refl (party owner signers)⟩
  rw [instruction_eq, ownedInstruction, hsigned]
  exact call.encode_failsUnless.map _

/-- The owner is the third account, and signs if it stands alone. -/
theorem owner_of_instruction (h : call.instruction program owner signers = .ok ix) :
    ix.accounts[2]? = some ⟨owner, signers.isEmpty, false⟩ := by
  obtain ⟨-, -, -, haccounts⟩ := instruction_eq_ok.mp h
  have hfront := call.length_front
  rw [haccounts, List.getElem?_append_right (Nat.le_of_eq hfront), hfront]
  rfl

end OwnedCall

/--
More than eleven signers are refused before an amount out of range is. Else the owner, which signs
only where no signers are listed, stands behind the two accounts of the instruction, and behind it
the listed signers sign. The data does not depend on the signers.
-/
theorem signers_exclusive (call : OwnedCall) (program owner : Key) (listed : Option (List Key)) :
    let signers := listed.getD []
    let result := call.instruction program owner signers
    (11 < signers.length → result = .error (.tooManySigners signers.length)) ∧
    (signers.length ≤ 11 → ¬ call.Fits → result = .error (.unencodable .outOfRange)) ∧
    (signers.length ≤ 11 → call.Fits → ∃ ix, result = .ok ix) ∧
    ∀ ix, result = .ok ix →
      ix.program = program ∧
      (call.front.length = 2 ∧ ∀ m ∈ call.front, m.isSigner = false) ∧
      ix.accounts = call.front ++ ⟨owner, decide (listed = none ∨ listed = some []), false⟩ ::
        signers.map (fun k => ⟨k, true, false⟩) ∧
      (∃ m ∈ ix.accounts, m.isSigner) ∧
      (signers ≠ [] → ix.accounts[2]? = some ⟨owner, false, false⟩) ∧
      ix.accounts.length = 3 + signers.length ∧
      ∀ signers' ix', call.instruction program owner signers' = .ok ix' → ix'.data = ix.data := by
  intro signers result
  refine ⟨OwnedCall.instruction_of_many, ?_, ?_, ?_⟩
  · intro hfew
    exact (call.instruction_failsUnless program owner hfew).2
  · intro hfew
    exact (call.instruction_failsUnless program owner hfew).1
  · intro ix hix
    obtain ⟨-, hdata, hprogram, haccounts⟩ := OwnedCall.instruction_eq_ok.mp hix
    have hparty : party owner signers =
        ⟨owner, decide (listed = none ∨ listed = some []), false⟩ ::
          signers.map (fun k => ⟨k, true, false⟩) := by
      rw [party]
      rcases listed with _ | _ | ⟨k, ks⟩ <;> rfl
    obtain ⟨m, hm, hsigns⟩ := exists_isSigner owner signers
    refine ⟨hprogram, ⟨call.length_front, call.not_isSigner⟩, ?_, ?_, ?_, ?_, ?_⟩
    · rw [haccounts, hparty]
    · rw [haccounts]
      exact ⟨m, List.mem_append_right _ hm, hsigns⟩
    · intro hlisted
      rw [OwnedCall.owner_of_instruction hix, List.isEmpty_eq_false_iff.mpr hlisted]
    · rw [haccounts, List.length_append, call.length_front, length_party]
      omega
    · intro signers' ix' hix'
      have hdata' := (OwnedCall.instruction_eq_ok.mp hix').2.1
      rw [hdata] at hdata'
      exact (Except.ok.inj hdata').symm

/-- An owner that is listed itself, twice, and twelve signers with an amount out of range. -/
theorem signers_exclusive_listed :
    let k : Key := ⟨List.replicate 32 7, rfl⟩
    let mint : Int → OwnedCall := .mintTo .zero k
    let twelve := List.replicate 12 k
    (mint (-1)).instruction Program.token k twelve = .error (.tooManySigners 12) ∧
      (mint (-1)).instruction Program.token k [k, k] = .error (.unencodable .outOfRange) ∧
      ∃ ix, (mint 5).instruction Program.token k [k, k] = .ok ix ∧
        ix.accounts = [⟨.zero, false, true⟩, ⟨k, false, true⟩, ⟨k, false, false⟩,
          ⟨k, true, false⟩, ⟨k, true, false⟩] ∧
        ix.accounts.length = 5 ∧
        ∀ ix', (mint 5).instruction Program.token k [] = .ok ix' → ix'.data = ix.data := by
  intro k mint twelve
  have hfits : (mint 5).Fits := (by decide : InField 8 5)
  have hdebt : ¬ (mint (-1)).Fits := (by decide : ¬ InField 8 (-1))
  obtain ⟨hmany, -, -, -⟩ := signers_exclusive (mint (-1)) Program.token k (some twelve)
  obtain ⟨-, hrange, -, -⟩ := signers_exclusive (mint (-1)) Program.token k (some [k, k])
  obtain ⟨-, -, hmade, hshape⟩ := signers_exclusive (mint 5) Program.token k (some [k, k])
  obtain ⟨ix, hix⟩ := hmade (by decide) hfits
  obtain ⟨-, -, haccounts, -, -, hlength, hdata⟩ := hshape ix hix
  exact ⟨hmany (by decide), hrange (by decide) hdebt, ix, hix, haccounts, hlength, hdata []⟩

end TokenWire.Token
