import TokenWire.Extension.Plan
import TokenWire.Proofs.Extension.Size
import TokenWire.Proofs.Logged

/-! When a mint is planned and created, and what the plan and the instructions then hold. -/

namespace TokenWire.Extension

variable {mint payer : Key} {ds : List Descriptor}

namespace Descriptor

/-- The metadata that an extension asks for. -/
def metadata? : Descriptor → Option MetadataConfig
  | metadata c => some c
  | _ => none

/-- The instruction that initializes an extension. -/
def initialization (mint payer : Key) (d : Descriptor) : Except Error Instruction :=
  (d.command mint payer).instruction mint

theorem part_eq_ok {d : Descriptor} {part : Part} :
    d.part mint payer = .ok part ↔ d.initialization mint payer = .ok part.before ∧
      match d.metadata? with
      | some c => (c.state mint payer).entryLength = .ok part.metadataSize ∧
          c.instructions mint payer = .ok part.after
      | none => part.metadataSize = 0 ∧ part.after = [] := by
  obtain ⟨before, size, after⟩ := part
  rw [Descriptor.part, Checked.bind_eq_ok]
  cases d with
  | metadata c =>
    simp only [metadata?, Checked.bind_eq_ok]
    constructor
    · rintro ⟨b, hb, n, hn, ixs, hixs, h⟩
      cases h
      exact ⟨hb, hn, hixs⟩
    · rintro ⟨hb, hn, hixs⟩
      exact ⟨before, hb, size, hn, after, hixs, rfl⟩
  | _ =>
    constructor
    · rintro ⟨b, hb, h⟩
      cases h
      exact ⟨hb, rfl, rfl⟩
    · rintro ⟨hb, rfl, rfl⟩
      exact ⟨before, hb, rfl⟩

end Descriptor

section Parts

variable {before : List Instruction} {parts : List Part} {sizes : List Nat}
  {blocks : List (List Instruction)}

/-- Sizes and further instructions come from the metadata among the extensions only. -/
theorem exists_blocks_of_parts
    (h : List.Forall₂ (fun d part => d.part mint payer = .ok part) ds parts) :
    List.Forall₂ (fun d ix => d.initialization mint payer = .ok ix) ds (parts.map Part.before) ∧
      ∃ sizes blocks,
        List.Forall₂ (fun c n => (c.state mint payer).entryLength = .ok n)
          (ds.filterMap Descriptor.metadata?) sizes ∧
        List.Forall₂ (fun c ixs => c.instructions mint payer = .ok ixs)
          (ds.filterMap Descriptor.metadata?) blocks ∧
        parts.foldr (·.metadataSize + ·) 0 = total sizes ∧
        parts.flatMap Part.after = blocks.flatten := by
  induction h with
  | nil => exact ⟨.nil, [], [], .nil, .nil, rfl, rfl⟩
  | @cons d part ds parts hpart _ ih =>
    obtain ⟨hinits, sizes, blocks, hsizes, hblocks, hsize, hafter⟩ := ih
    obtain ⟨hinit, hwrites⟩ := Descriptor.part_eq_ok.mp hpart
    refine ⟨.cons hinit hinits, ?_⟩
    rw [List.filterMap_cons]
    cases hm : d.metadata? with
    | some c =>
      rw [hm] at hwrites
      refine ⟨part.metadataSize :: sizes, part.after :: blocks, .cons hwrites.1 hsizes,
        .cons hwrites.2 hblocks, ?_, ?_⟩
      · exact congrArg (part.metadataSize + ·) hsize
      · exact congrArg (part.after ++ ·) hafter
    | none =>
      rw [hm] at hwrites
      refine ⟨sizes, blocks, hsizes, hblocks, ?_, ?_⟩
      · rw [List.foldr_cons, hwrites.1, Nat.zero_add, hsize]
      · rw [List.flatMap_cons, hwrites.2, List.nil_append, hafter]

theorem exists_parts_of_blocks
    (hinits : List.Forall₂ (fun d ix => d.initialization mint payer = .ok ix) ds before)
    (hsizes : List.Forall₂ (fun c n => (c.state mint payer).entryLength = .ok n)
      (ds.filterMap Descriptor.metadata?) sizes)
    (hblocks : List.Forall₂ (fun c ixs => c.instructions mint payer = .ok ixs)
      (ds.filterMap Descriptor.metadata?) blocks) :
    ∃ parts, List.Forall₂ (fun d part => d.part mint payer = .ok part) ds parts ∧
      parts.map Part.before = before ∧ parts.foldr (·.metadataSize + ·) 0 = total sizes ∧
      parts.flatMap Part.after = blocks.flatten := by
  induction hinits generalizing sizes blocks with
  | nil =>
    cases hsizes
    cases hblocks
    exact ⟨[], .nil, rfl, rfl, rfl⟩
  | @cons d ix ds before hinit _ ih =>
    rw [List.filterMap_cons] at hsizes hblocks
    cases hm : d.metadata? with
    | some c =>
      rw [hm] at hsizes hblocks
      cases hsizes with
      | @cons _ n _ sizes hn hsizes =>
      cases hblocks with
      | @cons _ ixs _ blocks hixs hblocks =>
      obtain ⟨parts, hparts, rfl, hsize, hafter⟩ := ih hsizes hblocks
      have hpart : d.part mint payer = .ok ⟨ix, n, ixs⟩ := by
        rw [Descriptor.part_eq_ok, hm]
        exact ⟨hinit, hn, hixs⟩
      refine ⟨⟨ix, n, ixs⟩ :: parts, .cons hpart hparts, rfl, ?_, ?_⟩
      · exact congrArg (n + ·) hsize
      · exact congrArg (ixs ++ ·) hafter
    | none =>
      rw [hm] at hsizes hblocks
      obtain ⟨parts, hparts, rfl, hsize, hafter⟩ := ih hsizes hblocks
      have hpart : d.part mint payer = .ok ⟨ix, 0, []⟩ := by
        rw [Descriptor.part_eq_ok, hm]
        exact ⟨hinit, rfl, rfl⟩
      refine ⟨⟨ix, 0, []⟩ :: parts, .cons hpart hparts, rfl, ?_, hafter⟩
      rw [List.foldr_cons, Nat.zero_add, hsize]

end Parts

theorem plan_eq_ok {p : Plan} :
    (plan mint payer ds).result = .ok p ↔
      p.kinds = ds.map Descriptor.kind ∧ mintLength (ds.map Descriptor.kind) = .ok p.space ∧
      List.Forall₂ (fun d ix => d.initialization mint payer = .ok ix) ds p.before ∧
      ∃ sizes blocks,
        List.Forall₂ (fun c n => (c.state mint payer).entryLength = .ok n)
          (ds.filterMap Descriptor.metadata?) sizes ∧
        List.Forall₂ (fun c ixs => c.instructions mint payer = .ok ixs)
          (ds.filterMap Descriptor.metadata?) blocks ∧
        p.metadataSize = total sizes ∧ p.after = blocks.flatten := by
  obtain ⟨kinds, space, size, before, after⟩ := p
  simp only [plan, Logged.result_bind, Logged.result_ofExcept, Logged.result_emit,
    Logged.result_pure, Checked.bind_eq_ok, Checked.mapM_eq_ok]
  constructor
  · rintro ⟨parts, hparts, space', hspace, -, -, h⟩
    cases h
    obtain ⟨hinits, sizes, blocks, hsizes, hblocks, hsize, hafter⟩ :=
      exists_blocks_of_parts hparts
    exact ⟨rfl, hspace, hinits, sizes, blocks, hsizes, hblocks, hsize, hafter⟩
  · rintro ⟨rfl, hspace, hinits, sizes, blocks, hsizes, hblocks, rfl, rfl⟩
    obtain ⟨parts, hparts, rfl, hsize, hafter⟩ := exists_parts_of_blocks hinits hsizes hblocks
    refine ⟨parts, hparts, space, hspace, (), trivial, ?_⟩
    rw [hsize, hafter]

theorem Plan.funds_eq_ok {p : Plan} {funds : Option Int} {lamports : Int} :
    p.funds funds = .ok lamports ↔ funds = some lamports ∨
      funds = none ∧ Rent.minimumBalance ((p.space + p.metadataSize : Nat) : Int) = .ok lamports := by
  cases funds with
  | none => simp [Plan.funds]
  | some n => simp [Plan.funds]

theorem createMint_eq_ok {decimals : Int} {funds : Option Int} {ixs : List Instruction} :
    (createMint mint payer decimals funds ds).result = .ok ixs ↔
      ∃ p lamports account start, (plan mint payer ds).result = .ok p ∧
        p.funds funds = .ok lamports ∧
        SystemProgram.createAccount payer mint lamports p.space Program.extendedToken =
          .ok account ∧
        Token.initializeMint2 Program.extendedToken mint decimals payer (some payer) = .ok start ∧
        ixs = account :: p.before ++ start :: p.after := by
  simp only [createMint, Logged.result_bind, Logged.result_ofExcept, Logged.result_emit,
    Logged.result_pure, Checked.bind_eq_ok]
  constructor
  · rintro ⟨p, hp, lamports, hlamports, -, -, account, haccount, start, hstart, h⟩
    cases h
    exact ⟨p, lamports, account, start, hp, hlamports, haccount, hstart, rfl⟩
  · rintro ⟨p, lamports, account, start, hp, hlamports, haccount, hstart, rfl⟩
    exact ⟨p, hp, lamports, hlamports, (), trivial, account, haccount, start, hstart, rfl⟩

end TokenWire.Extension
