import TokenWire.Proofs.Extension.Creation
import TokenWire.Proofs.Extension.Range
import TokenWire.Proofs.Refusal
import TokenWire.Proofs.Rent

/-! Which mints cannot be created, and what has been reported by then. -/

namespace TokenWire.Extension

variable {mint payer : Key} {ds : List Descriptor}

/-- The name under which an extension is reported. -/
def Descriptor.reportedName : Descriptor → String
  | metadata _ => "METADATA_POINTER"
  | closeAuthority _ => "MINT_CLOSE_AUTHORITY"
  | permanentDelegate _ => "PERMANENT_DELEGATE"
  | nonTransferable => "NON_TRANSFERABLE"
  | transferFee _ => "TRANSFER_FEE_CONFIG"
  | interestBearing _ => "INTEREST_BEARING_CONFIG"
  | transferHook _ => "TRANSFER_HOOK"

/-- The line about the plan of a mint, with the names of its extensions in order. -/
def plannedLine (mint : Key) (ds : List Descriptor) (space metadataSize : Nat) : String :=
  let names := ", ".intercalate (ds.map fun d => "'" ++ d.reportedName ++ "'")
  "Planned mint " ++ mint.text ++ " with extensions " ++ ("[" ++ names ++ "]") ++ ", space " ++
    toString space ++ ", metadata " ++ toString metadataSize ++ " bytes"

/-- The line about the amount for a mint. -/
def fundingLine (mint : Key) (lamports : Int) : String :=
  "Funding mint " ++ mint.text ++ " with " ++ toString lamports ++ " lamports"

/-- No name holds a character that is escaped between quotes. -/
theorem Kind.encode_name (kind : Kind) :
    Quoted.encode (Enumeration.name kind) = "'" ++ Enumeration.name kind ++ "'" := by
  cases kind <;> decide +kernel

theorem Descriptor.name_kind (d : Descriptor) : Enumeration.name d.kind = d.reportedName := by
  cases d <;> rfl

theorem message_planned (mint : Key) (ds : List Descriptor) (space metadataSize : Nat) :
    (Event.planned mint (ds.map Descriptor.kind) space metadataSize).message =
      plannedLine mint ds space metadataSize := by
  have hnames : ((ds.map Descriptor.kind).map Enumeration.name).map Quoted.encode =
      ds.map fun d => "'" ++ d.reportedName ++ "'" := by
    rw [List.map_map, List.map_map]
    apply List.map_congr_left
    intro d _
    rw [Function.comp_apply, Function.comp_apply, d.kind.encode_name, d.name_kind]
  unfold plannedLine
  rw [← hnames]
  rfl

theorem Descriptor.kind_mem (d : Descriptor) : d.kind ∈ valueLengths.map Prod.fst := by
  cases d <;> exact of_decide_eq_true rfl

/-- The sizing of a mint never fails. -/
theorem exists_mintLength_kinds (ds : List Descriptor) :
    ∃ space, mintLength (ds.map Descriptor.kind) = .ok space ∧ space < capacity 2 := by
  apply exists_mintLength
  intro kind hkind
  obtain ⟨d, -, rfl⟩ := List.mem_map.mp hkind
  exact d.kind_mem

/-- An extension that does not fit fails the plan before it is reported. -/
theorem plan_of_not_fits (h : ∃ d ∈ ds, ¬ d.Fits) :
    plan mint payer ds = ⟨[], .error (.unencodable .outOfRange)⟩ := by
  have hparts := (FailsUnless.mapM (Descriptor.part_failsUnless mint payer) ds).2
    (by simpa using h)
  unfold plan
  rw [hparts]
  rfl

theorem plan_of_fits (mint payer : Key) (h : ∀ d ∈ ds, d.Fits) : ∃ p sizes,
    plan mint payer ds =
      ⟨[.planned mint (ds.map Descriptor.kind) p.space (total sizes)], .ok p⟩ ∧
    mintLength (ds.map Descriptor.kind) = .ok p.space ∧ p.space < capacity 2 ∧
    p.metadataSize = total sizes ∧
    List.Forall₂ (fun c n => (c.state mint payer).entryLength = .ok n)
      (ds.filterMap Descriptor.metadata?) sizes := by
  obtain ⟨parts, hparts⟩ := (FailsUnless.mapM (Descriptor.part_failsUnless mint payer) ds).1 h
  obtain ⟨space, hspace, hlt⟩ := exists_mintLength_kinds ds
  obtain ⟨-, sizes, -, hsizes, -, hsize, -⟩ := exists_blocks_of_parts (Checked.mapM_eq_ok.mp hparts)
  refine ⟨⟨ds.map Descriptor.kind, space, total sizes, parts.map Part.before,
    parts.flatMap Part.after⟩, sizes, ?_, hspace, hlt, rfl, hsizes⟩
  rw [← hsize]
  simp only [plan, hparts, hspace]
  rfl

section Funds

variable {p : Plan} {sizes : List Nat} (hsize : p.metadataSize = total sizes)
  (hsizes : List.Forall₂ (fun c n => (c.state mint payer).entryLength = .ok n)
    (ds.filterMap Descriptor.metadata?) sizes)

include hsize hsizes

/-- The rent of a mint with one metadata is far below the largest number of double precision. -/
theorem exists_funds (funds : Option Int) (hspace : p.space < capacity 2)
    (hone : (ds.filterMap Descriptor.metadata?).length ≤ 1) :
    ∃ lamports, p.funds funds = .ok lamports := by
  cases funds with
  | some lamports => exact ⟨lamports, rfl⟩
  | none =>
    have htotal := total_le hsizes fun c n hn => by
      obtain ⟨hfits, rfl⟩ := Metadata.State.entryLength_eq_ok.mp hn
      exact Nat.le_of_lt hfits.size_lt
    have hmul : (ds.filterMap Descriptor.metadata?).length * capacity 9 ≤ 1 * capacity 9 :=
      Nat.mul_le_mul_right _ hone
    have hbound : (128 + capacity 2 + capacity 9) * 3480 < 2 ^ 1023 - 2 ^ 969 := by decide +kernel
    refine ⟨_, Rent.minimumBalance_eq_ok (lt_of_le_of_lt ?_ hbound)⟩
    unfold Rent.yearly Rent.accountOverhead Rent.lamportsPerByteYear
    omega

/-- The amount that the plan of a mint comes to is that of its funding. -/
theorem funding_iff {funds : Option Int} {lamports : Int} :
    Funding mint payer ds p.space lamports funds ↔ p.funds funds = .ok lamports := by
  cases funds with
  | some given => exact eq_comm.trans (Except.ok.injEq given lamports).to_iff.symm
  | none =>
    change (∃ sizes', _ ∧ _) ↔ Rent.minimumBalance _ = _
    rw [hsize]
    constructor
    · rintro ⟨sizes', hsizes', hrent⟩
      have hsame := Checked.mapM_eq_ok.mpr hsizes'
      rw [Checked.mapM_eq_ok.mpr hsizes] at hsame
      obtain rfl := Except.ok.inj hsame
      exact hrent
    · intro hrent
      exact ⟨sizes, hsizes, hrent⟩

end Funds

variable {funds : Option Int} {lamports : Int}

/-- Once a mint is planned and its amount is fixed, only this amount and the decimals can fail. -/
theorem createMint_of_plan {p : Plan} {events : List Event} (decimals : Int)
    (hp : plan mint payer ds = ⟨events, .ok p⟩) (hspace : p.space < capacity 2)
    (hfunds : p.funds funds = .ok lamports) :
    (createMint mint payer decimals funds ds).events = events ++ [.funding mint lamports] ∧
      FailsUnless (createMint mint payer decimals funds ds).result
        (InField 8 lamports ∧ InField 1 decimals) := by
  have hrest := (SystemProgram.createAccount_failsUnless payer mint Program.extendedToken lamports
    p.space).bind fun account _ => (Token.initializeMint2_failsUnless Program.extendedToken mint
      payer decimals (some payer)).map fun start => account :: p.before ++ start :: p.after
  have hspace' : InField 8 (p.space : Int) :=
    inField_natCast.mpr (Nat.lt_of_lt_of_le hspace (by decide))
  unfold createMint
  rw [Logged.bind_of_ok hp, hfunds]
  constructor
  · refine congrArg (events ++ Event.funding mint lamports :: ·) ?_
    exact Logged.events_ofExcept_bind fun account => Logged.events_ofExcept_bind fun start => rfl
  · simp only [Logged.result_bind, Logged.result_ofExcept, Logged.result_emit, Logged.result_pure]
    refine FailsUnless.congr hrest ?_
    rw [and_iff_left hspace']

/-- Where all extensions fit, a mint is planned and funded, and this is reported. -/
theorem createMint_of_fits (mint payer : Key) (decimals : Int) (funds : Option Int)
    (hone : (ds.filterMap Descriptor.metadata?).length ≤ 1) (hfits : ∀ d ∈ ds, d.Fits) :
    ∃ space sizes lamports, mintLength (ds.map Descriptor.kind) = .ok space ∧
      List.Forall₂ (fun c n => (c.state mint payer).entryLength = .ok n)
        (ds.filterMap Descriptor.metadata?) sizes ∧
      (∀ given, Funding mint payer ds space given funds ↔ given = lamports) ∧
      (createMint mint payer decimals funds ds).events =
        [.planned mint (ds.map Descriptor.kind) space (total sizes), .funding mint lamports] ∧
      FailsUnless (createMint mint payer decimals funds ds).result
        (InField 8 lamports ∧ InField 1 decimals) := by
  obtain ⟨p, sizes, hp, hspace, hlt, hsize, hsizes⟩ := plan_of_fits mint payer hfits
  obtain ⟨lamports, hlamports⟩ := exists_funds hsize hsizes funds hlt hone
  obtain ⟨hevents, hresult⟩ := createMint_of_plan decimals hp hlt hlamports
  have hfunding : ∀ given, Funding mint payer ds p.space given funds ↔ given = lamports := by
    intro given
    rw [funding_iff hsize hsizes, hlamports, Except.ok.injEq, eq_comm]
  exact ⟨p.space, sizes, lamports, hspace, hsizes, hfunding, hevents, hresult⟩

/--
With at most one metadata among its extensions, a mint cannot be created just if a number, a text
or a number of pairs of an extension, the amount, or the decimals are out of range; sizing never
fails. Nothing is reported where an extension fails, and else two lines, about the plan and about
the amount, whatever fails later.
-/
theorem createMint_fails :
    (∀ ds : List Descriptor, ∃ space, mintLength (ds.map Descriptor.kind) = .ok space) ∧
    ∀ (mint payer : Key) (decimals : Int) (funds : Option Int) (ds : List Descriptor),
      (ds.filterMap Descriptor.metadata?).length ≤ 1 →
      let made := createMint mint payer decimals funds ds
      ((∃ e, made.result = .error e) ↔
        (∃ d ∈ ds, ¬ d.Fits) ∨
        (∃ space lamports, mintLength (ds.map Descriptor.kind) = .ok space ∧
          Funding mint payer ds space lamports funds ∧ ¬ InField 8 lamports) ∨
        ¬ InField 1 decimals) ∧
      (∀ e, made.result = .error e → e.isCodec) ∧
      ((∃ d ∈ ds, ¬ d.Fits) → made.events = []) ∧
      ((∀ d ∈ ds, d.Fits) → ∃ space sizes lamports,
        mintLength (ds.map Descriptor.kind) = .ok space ∧
        List.Forall₂ (fun c n => (c.state mint payer).entryLength = .ok n)
          (ds.filterMap Descriptor.metadata?) sizes ∧
        Funding mint payer ds space lamports funds ∧
        made.events = [.planned mint (ds.map Descriptor.kind) space (total sizes),
          .funding mint lamports] ∧
        made.events.map Event.message =
          [plannedLine mint ds space (total sizes), fundingLine mint lamports]) := by
  refine ⟨?_, ?_⟩
  · intro ds
    obtain ⟨space, hspace, -⟩ := exists_mintLength_kinds ds
    exact ⟨space, hspace⟩
  · intro mint payer decimals funds ds hone made
    by_cases hfits : ∀ d ∈ ds, d.Fits
    · obtain ⟨space, sizes, lamports, hspace, hsizes, hfunding, hevents, hresult⟩ :=
        createMint_of_fits mint payer decimals funds hone hfits
      have hnone : ¬ ∃ d ∈ ds, ¬ d.Fits := by
        rintro ⟨d, hd, hn⟩
        exact hn (hfits d hd)
      have hfunded := (hfunding lamports).mpr rfl
      refine ⟨?_, ?_, fun h => absurd h hnone, ?_⟩
      · rw [hresult.exists_error_iff, not_and_or]
        constructor
        · rintro (hamount | hdecimals)
          · exact Or.inr (Or.inl ⟨space, lamports, hspace, hfunded, hamount⟩)
          · exact Or.inr (Or.inr hdecimals)
        · rintro (hsome | ⟨space', given, hspace', hgiven, hamount⟩ | hdecimals)
          · exact absurd hsome hnone
          · obtain rfl := Except.ok.inj (hspace.symm.trans hspace')
            obtain rfl := (hfunding given).mp hgiven
            exact Or.inl hamount
          · exact Or.inr hdecimals
      · intro e he
        rw [(hresult.eq_error_iff.mp he).2]
        rfl
      · intro _
        have hlines : made.events.map Event.message =
            [plannedLine mint ds space (total sizes), fundingLine mint lamports] := by
          rw [hevents, List.map_cons, message_planned]
          rfl
        exact ⟨space, sizes, lamports, hspace, hsizes, hfunded, hevents, hlines⟩
    · have hsome : ∃ d ∈ ds, ¬ d.Fits := by simpa using hfits
      have hmade : made = ⟨[], .error (.unencodable .outOfRange)⟩ :=
        Logged.bind_of_error (plan_of_not_fits hsome)
      rw [hmade]
      refine ⟨iff_of_true ⟨_, rfl⟩ (Or.inl hsome), ?_, fun _ => rfl, fun h => absurd h hfits⟩
      rintro e ⟨⟩
      rfl

/-- One decimal too many fails after both reports, one rate too high before them. -/
theorem createMint_fails_late :
    let ds : List Descriptor := [.metadata ⟨"é", "", "u", [("k", "v")]⟩,
      .transferFee ⟨none, some .zero, 65535, 0⟩, .interestBearing ⟨none, 32767⟩]
    let late := createMint Program.token .zero 256 none ds
    let early := createMint Program.token .zero 255 none (.interestBearing ⟨none, 32768⟩ :: ds)
    (∃ e, late.result = .error e ∧ e.isCodec) ∧ late.events.length = 2 ∧
      late.events.map Event.message = [
        "Planned mint TokenkegQfeZyiNwAJbNbGKPFXCWuBvf9Ss623VQ5DA with extensions " ++
          "['METADATA_POINTER', 'TRANSFER_FEE_CONFIG', 'INTEREST_BEARING_CONFIG'], space 402, " ++
          "metadata 103 bytes",
        "Funding mint TokenkegQfeZyiNwAJbNbGKPFXCWuBvf9Ss623VQ5DA with 4405680 lamports"] ∧
      (∃ e, early.result = .error e ∧ e.isCodec) ∧ early.events = [] := by
  intro ds late early
  obtain ⟨hlate, hlateCodec, -, hevents⟩ :=
    createMint_fails.2 Program.token .zero 256 none ds (by decide)
  obtain ⟨hearly, hearlyCodec, hempty, -⟩ := createMint_fails.2 Program.token .zero 255 none
    (.interestBearing ⟨none, 32768⟩ :: ds) (by decide)
  have hfits : ∀ d ∈ ds, d.Fits := by
    simp only [ds, List.forall_mem_cons]
    refine ⟨⟨by decide, by decide, by decide, by decide, by decide⟩, ?_, ?_, nofun⟩
    · exact (⟨by decide, by decide⟩ : InField 2 65535 ∧ InField 8 0)
    · exact (by decide : InSignedField 2 32767)
  have hunfit : ∃ d ∈ Descriptor.interestBearing ⟨none, 32768⟩ :: ds, ¬ d.Fits :=
    ⟨_, List.mem_cons_self, (by decide : ¬ InSignedField 2 32768)⟩
  obtain ⟨e, he⟩ := hlate.mpr (Or.inr (Or.inr (by decide)))
  obtain ⟨e', he'⟩ := hearly.mpr (Or.inl hunfit)
  obtain ⟨space, sizes, lamports, -, -, -, hreports, -⟩ := hevents hfits
  refine ⟨⟨e, he, hlateCodec e he⟩, ?_, ?_, ⟨e', he', hearlyCodec e' he'⟩, hempty hunfit⟩
  · exact congrArg List.length hreports
  · decide +kernel

end TokenWire.Extension
