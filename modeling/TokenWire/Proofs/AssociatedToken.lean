import TokenWire.Proofs.Address.Separation
import TokenWire.Proofs.Instruction

/-!
Tokens that are recovered from a nested account: the accounts of the recovery are those that the
creations make, and no two of them are one.
-/

namespace TokenWire.AssociatedToken

variable {payer wallet mint ownerMint nestedMint tokenProgram k : Key} {kind : Kind}
  {ix : Instruction}

/-- An instruction is made, with the account in the second slot, where the new account stands. -/
def Makes (made : Except Error Instruction) (k : Key) : Prop :=
  ∃ ix, made = .ok ix ∧ ix.accounts[1]? = some (.writable k)

theorem encode_eq_ok (kind : Kind) : ∃ data, kind.encode = .ok data := by
  cases kind <;> exact ⟨_, rfl⟩

theorem createOf_eq_ok : createOf kind payer wallet mint tokenProgram = .ok ix ↔
    ∃ account data, address wallet mint tokenProgram = .ok account ∧ kind.encode = .ok data ∧
      ix = ⟨Program.associatedToken,
        [.writableSigner payer, .writable account, .readonly wallet, .readonly mint,
          .readonly Program.system, .readonly tokenProgram], data⟩ := by
  simp only [createOf, Checked.bind_eq_ok]
  constructor
  · rintro ⟨account, haccount, data, hdata, hix⟩
    exact ⟨account, data, haccount, hdata, (Except.ok.inj hix).symm⟩
  · rintro ⟨account, data, haccount, hdata, rfl⟩
    exact ⟨account, haccount, data, hdata, rfl⟩

theorem makes_createOf : Makes (createOf kind payer wallet mint tokenProgram) k ↔
    address wallet mint tokenProgram = .ok k := by
  unfold Makes
  simp only [createOf_eq_ok]
  constructor
  · rintro ⟨_, ⟨account, data, haccount, -, rfl⟩, hslot⟩
    cases hslot
    exact haccount
  · intro haccount
    obtain ⟨data, hdata⟩ := encode_eq_ok kind
    exact ⟨_, ⟨k, data, haccount, hdata, rfl⟩, rfl⟩

theorem recoverNested_eq_ok : recoverNested wallet ownerMint nestedMint tokenProgram = .ok ix ↔
    ∃ owner destination nested, address wallet ownerMint tokenProgram = .ok owner ∧
      address wallet nestedMint tokenProgram = .ok destination ∧
      address owner nestedMint tokenProgram = .ok nested ∧
      ix = ⟨Program.associatedToken,
        [.writable nested, .readonly nestedMint, .writable destination, .readonly owner,
          .readonly ownerMint, .writableSigner wallet, .readonly tokenProgram], [2]⟩ := by
  have hencode : Kind.recoverNested.encode = .ok [2] := rfl
  simp only [recoverNested, Checked.bind_eq_ok, hencode]
  constructor
  · rintro ⟨owner, howner, destination, hdestination, nested, hnested, data, hdata, hix⟩
    cases hdata
    cases hix
    exact ⟨owner, destination, nested, howner, hdestination, hnested, rfl⟩
  · rintro ⟨owner, destination, nested, howner, hdestination, hnested, rfl⟩
    exact ⟨owner, howner, destination, hdestination, nested, hnested, [2], rfl, rfl⟩

theorem exists_yields (h : address wallet mint tokenProgram = .ok k) :
    ∃ message, (Origin.associatedToken wallet mint tokenProgram).Yields k message := by
  unfold address Derivation.address at h
  obtain ⟨⟨_, bump⟩, hfound, rfl⟩ := Checked.map_eq_ok.mp h
  exact ⟨_, .associatedToken hfound⟩

/--
Nested tokens are recovered just if the three creations succeed: of the account of the owner, of the
destination, which may be created in either way, and of the account that the owner's account owns.
These are the accounts of the recovery, which the wallet alone signs. They are three, unless the
owner's account is the wallet, or the mints are one, or what is hashed for two of them collides.
-/
theorem recoverNested_accounts (payer wallet ownerMint nestedMint tokenProgram : Key) :
    ((∃ ix, recoverNested wallet ownerMint nestedMint tokenProgram = .ok ix) ↔
      ∃ owner, Makes (create payer wallet ownerMint tokenProgram) owner ∧
        (∃ destination, Makes (create payer wallet nestedMint tokenProgram) destination) ∧
        ∃ nested, Makes (create payer owner nestedMint tokenProgram) nested) ∧
    ∀ ix, recoverNested wallet ownerMint nestedMint tokenProgram = .ok ix →
      ∃ owner destination nested,
        (Makes (create payer wallet ownerMint tokenProgram) owner ∧
          ix.accounts[3]? = some (.readonly owner)) ∧
        (Makes (create payer wallet nestedMint tokenProgram) destination ∧
          Makes (createIdempotent payer wallet nestedMint tokenProgram) destination ∧
          ix.accounts[2]? = some (.writable destination)) ∧
        (Makes (create payer owner nestedMint tokenProgram) nested ∧
          ix.accounts[0]? = some (.writable nested)) ∧
        ix.accounts.filter (·.isSigner) = [.writableSigner wallet] ∧
        ∃ m m' m'', (Origin.associatedToken wallet ownerMint tokenProgram).Yields owner m ∧
          (Origin.associatedToken wallet nestedMint tokenProgram).Yields destination m' ∧
          (Origin.associatedToken owner nestedMint tokenProgram).Yields nested m'' ∧
          (owner ≠ wallet → ownerMint ≠ nestedMint →
            [nested, destination, owner].Nodup ∨ Collide [m'', m', m]) := by
  simp only [recoverNested_eq_ok, create, createIdempotent, makes_createOf]
  constructor
  · constructor
    · rintro ⟨_, owner, destination, nested, howner, hdestination, hnested, -⟩
      exact ⟨owner, howner, ⟨destination, hdestination⟩, nested, hnested⟩
    · rintro ⟨owner, howner, ⟨destination, hdestination⟩, nested, hnested⟩
      exact ⟨_, owner, destination, nested, howner, hdestination, hnested, rfl⟩
  · rintro _ ⟨owner, destination, nested, howner, hdestination, hnested, rfl⟩
    obtain ⟨m, hm⟩ := exists_yields howner
    obtain ⟨m', hm'⟩ := exists_yields hdestination
    obtain ⟨m'', hm''⟩ := exists_yields hnested
    refine ⟨owner, destination, nested, ⟨howner, rfl⟩, ⟨hdestination, hdestination, rfl⟩,
      ⟨hnested, rfl⟩, rfl, m, m', m'', hm, hm', hm'', ?_⟩
    intro hwallet hmints
    have horigins :
        ([⟨_, _, _, hm''⟩, ⟨_, _, _, hm'⟩, ⟨_, _, _, hm⟩].map Derived.origin).Nodup := by
      simp [hwallet, hmints.symm]
    exact Derived.nodup_or_collide horigins

/-- Two mints of one wallet; each of the three addresses is found at the first bump. -/
theorem recoverNested_accounts_found :
    let wallet : Key := ⟨List.replicate 32 1, rfl⟩
    let ownerMint : Key := ⟨List.replicate 32 2, rfl⟩
    let nestedMint : Key := ⟨List.replicate 32 7, rfl⟩
    let owner := (derivation wallet ownerMint Program.token).candidate 255
    let destination := (derivation wallet nestedMint Program.token).candidate 255
    let nested := (derivation owner nestedMint Program.token).candidate 255
    let ix : Instruction := ⟨Program.associatedToken,
      [.writable nested, .readonly nestedMint, .writable destination, .readonly owner,
        .readonly ownerMint, .writableSigner wallet, .readonly Program.token], [2]⟩
    recoverNested wallet ownerMint nestedMint Program.token = .ok ix ∧
      (owner ≠ wallet ∧ ownerMint ≠ nestedMint) ∧
      Makes (create .zero wallet ownerMint Program.token) owner ∧
      Makes (createIdempotent .zero wallet nestedMint Program.token) destination ∧
      Makes (create .zero owner nestedMint Program.token) nested ∧
      ∃ m m' m'', (Origin.associatedToken wallet ownerMint Program.token).Yields owner m ∧
        (Origin.associatedToken wallet nestedMint Program.token).Yields destination m' ∧
        (Origin.associatedToken owner nestedMint Program.token).Yields nested m'' ∧
        ([nested, destination, owner].Nodup ∨ Collide [m'', m', m]) := by
  intro wallet ownerMint nestedMint owner destination nested ix
  have howner : address wallet ownerMint Program.token = .ok owner := by decide +kernel
  have hdestination : address wallet nestedMint Program.token = .ok destination := by
    decide +kernel
  have hnested : address owner nestedMint Program.token = .ok nested := by decide +kernel
  have hix : recoverNested wallet ownerMint nestedMint Program.token = .ok ix :=
    recoverNested_eq_ok.mpr ⟨owner, destination, nested, howner, hdestination, hnested, rfl⟩
  have hwallet : owner ≠ wallet := by decide +kernel
  have hmints : ownerMint ≠ nestedMint := by decide
  obtain ⟨-, haccounts⟩ := recoverNested_accounts .zero wallet ownerMint nestedMint Program.token
  obtain ⟨owner', destination', nested', ⟨hmade, howner'⟩, ⟨-, hmade', hdestination'⟩,
    ⟨hmade'', hnested'⟩, -, m, m', m'', hm, hm', hm'', hdistinct⟩ := haccounts ix hix
  cases howner'
  cases hdestination'
  cases hnested'
  exact ⟨hix, ⟨hwallet, hmints⟩, hmade, hmade', hmade'', m, m', m'', hm, hm', hm'',
    hdistinct hwallet hmints⟩

end TokenWire.AssociatedToken
