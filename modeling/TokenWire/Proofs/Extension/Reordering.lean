import TokenWire.Proofs.Extension.Fields
import TokenWire.Proofs.Extension.Plan
import TokenWire.Proofs.Extension.Request

/-! Mints with the same extensions in another order, given as a list or asked for by name. -/

namespace TokenWire.Extension

variable {mint payer : Key} {decimals : Int} {funds : Option Int} {ds ds' : List Descriptor}

/-- Neither mint can be created, or both are: by the same instruction for the account, the same for
the mint itself and the same after it, with one instruction for each extension in its place. -/
def Reordered (mint payer : Key) (decimals : Int) (funds : Option Int)
    (ds ds' : List Descriptor) : Prop :=
  ((∃ e, (createMint mint payer decimals funds ds).result = .error e) ∧
    ∃ e, (createMint mint payer decimals funds ds').result = .error e) ∨
  ∃ (account start : Instruction) (ixOf : Descriptor → Instruction) (after : List Instruction),
    (createMint mint payer decimals funds ds).result =
      .ok (account :: ds.map ixOf ++ start :: after) ∧
    (createMint mint payer decimals funds ds').result =
      .ok (account :: ds'.map ixOf ++ start :: after) ∧
    ∀ d ∈ ds, d.initialization mint payer = .ok (ixOf d)

/-- Neither request can be read, for the same reason, or both ask for the same but for the order. -/
def ReadAlike (r r' : Request) : Prop :=
  (∃ e, r.fields = .error e ∧ r'.fields = .error e) ∨
  ∃ f f', r.fields = .ok f ∧ r'.fields = .ok f' ∧ f' = { f with order := f'.order } ∧
    f.descriptors.Perm f'.descriptors ∧
    ∀ (mint payer : Key) (decimals : Int) (funds : Option Int),
      Reordered mint payer decimals funds f.descriptors f'.descriptors

theorem metadata_eq_of_perm (h : ds.Perm ds')
    (hone : (ds.filterMap Descriptor.metadata?).length ≤ 1) :
    ds.filterMap Descriptor.metadata? = ds'.filterMap Descriptor.metadata? := by
  have hperm := h.filterMap Descriptor.metadata?
  generalize ds.filterMap Descriptor.metadata? = cs at hone hperm ⊢
  match cs with
  | [] => exact hperm.nil_eq
  | [_] => exact List.singleton_perm.mp hperm
  | _ :: _ :: _ => exact absurd hone (by simp)

/-- A plan only puts its instructions for extensions into another order. -/
theorem plan_of_perm (h : ds.Perm ds') (hone : (ds.filterMap Descriptor.metadata?).length ≤ 1)
    {ixOf : Descriptor → Instruction} {p : Plan} (hp : (plan mint payer ds).result = .ok p)
    (hbefore : p.before = ds.map ixOf) :
    (plan mint payer ds').result =
      .ok { p with kinds := ds'.map Descriptor.kind, before := ds'.map ixOf } := by
  obtain ⟨-, hspace, hinits, sizes, blocks, hsizes, hblocks, hsize, hafter⟩ := plan_eq_ok.mp hp
  rw [metadata_eq_of_perm h hone] at hsizes hblocks
  rw [hbefore, List.forall₂_map_right_iff, List.forall₂_same] at hinits
  apply plan_eq_ok.mpr
  refine ⟨rfl, mintLength_perm (h.map _) hspace, ?_, sizes, blocks, hsizes, hblocks, hsize, hafter⟩
  rw [List.forall₂_map_right_iff, List.forall₂_same]
  exact fun d hd => hinits d (h.mem_iff.mpr hd)

theorem createMint_of_perm (h : ds.Perm ds')
    (hone : (ds.filterMap Descriptor.metadata?).length ≤ 1) {ixs : List Instruction}
    (hixs : (createMint mint payer decimals funds ds).result = .ok ixs) :
    Reordered mint payer decimals funds ds ds' := by
  obtain ⟨p, lamports, account, start, hp, hlamports, haccount, hstart, rfl⟩ :=
    createMint_eq_ok.mp hixs
  have hinits := (plan_eq_ok.mp hp).2.2.1
  have hbefore := Checked.map_getD_eq account hinits
  have hp' := plan_of_perm h hone hp hbefore.symm
  rw [← hbefore] at hinits hixs
  rw [List.forall₂_map_right_iff, List.forall₂_same] at hinits
  refine Or.inr ⟨account, start, _, p.after, hixs, ?_, hinits⟩
  exact createMint_eq_ok.mpr ⟨_, lamports, account, start, hp', hlamports, haccount, hstart, rfl⟩

theorem reordered_of_perm (h : ds.Perm ds')
    (hone : (ds.filterMap Descriptor.metadata?).length ≤ 1) :
    Reordered mint payer decimals funds ds ds' := by
  have hone' : (ds'.filterMap Descriptor.metadata?).length ≤ 1 := by
    rwa [← metadata_eq_of_perm h hone]
  cases hds : (createMint mint payer decimals funds ds).result with
  | ok ixs => exact createMint_of_perm h hone hds
  | error e =>
    cases hds' : (createMint mint payer decimals funds ds').result with
    | error e' => exact Or.inl ⟨⟨e, hds⟩, e', hds'⟩
    | ok ixs =>
      -- Going back from the mint that is created creates the one that is not.
      obtain ⟨⟨e', he⟩, -⟩ | ⟨_, _, _, _, -, hback, -⟩ := createMint_of_perm h.symm hone' hds'
      · rw [hds'] at he
        cases he
      · rw [hds] at hback
        cases hback

/-- At most one of the extensions asked for by name is metadata. -/
theorem Fields.length_metadata_le (f : Fields) :
    (f.descriptors.filterMap Descriptor.metadata?).length ≤ 1 := by
  have hname : (fun d : Descriptor => d.metadata?.isSome) =
      (fun name => name == "metadata") ∘ Descriptor.fieldName := by
    funext d
    cases d <;> rfl
  rw [List.length_filterMap_eq_countP, hname, ← List.countP_map, map_fieldName_descriptors]
  exact List.nodup_iff_count.mp f.nodup_askedNames "metadata"

theorem readAlike_of_same {r r' : Request} (h : r.Same r') : ReadAlike r r' := by
  have hvalues := Request.values_congr h.entry
  cases hr : r.values with
  | error e =>
    rw [hr] at hvalues
    exact Or.inl ⟨e, Request.fields_eq_error.mpr hr, Request.fields_eq_error.mpr hvalues.symm⟩
  | ok v =>
    rw [hr] at hvalues
    let f : Fields := { v with nonTransferable := r.nonTransferable.isGiven, order := r.order }
    have hf : r.fields = .ok f := Request.fields_eq_ok.mpr ⟨v, hr, rfl⟩
    have hf' : r'.fields = .ok { f with order := r'.order } := by
      apply Request.fields_eq_ok.mpr
      exact ⟨v, hvalues.symm, by rw [← h.nonTransferable.isGiven_eq]⟩
    have hperm := f.descriptors_perm_of_order r'.order
    exact Or.inr ⟨f, _, hf, hf', rfl, hperm, fun _ _ _ _ =>
      reordered_of_perm hperm f.length_metadata_le⟩

/--
The order of extensions decides only the order of the instructions that initialize them. The order
of the entries of a request decides neither whether it is read, nor what it asks for but the order.
-/
theorem createMint_reordered :
    (∀ (mint payer : Key) (decimals : Int) (funds : Option Int) (ds ds' : List Descriptor),
      ds.Perm ds' → (ds.filterMap Descriptor.metadata?).length ≤ 1 →
        Reordered mint payer decimals funds ds ds') ∧
    ∀ r r' : Request, r.Same r' → ReadAlike r r' := by
  constructor
  · intro mint payer decimals funds ds ds' h hone
    exact reordered_of_perm h hone
  · intro r r' h
    exact readAlike_of_same h

/-- The entries of the metadata change places as well. -/
theorem createMint_reordered_section :
    let name := ("name", Item.text "é")
    let symbol := ("symbol", Item.text "")
    let uri := ("uri", Item.text "u")
    let locked := ("non_transferrable", Item.bool true)
    let r : Request := ⟨[("metadata", .object [name, symbol, uri]), locked], by decide⟩
    let r' : Request := ⟨[locked, ("metadata", .object [uri, name, symbol])], by decide⟩
    let config : MetadataConfig := ⟨"é", "", "u", []⟩
    ((∃ ixs, (createMint Program.token .zero 0 none [.metadata config, .nonTransferable]).result =
        .ok ixs) ∧
      Reordered Program.token .zero 0 none [.metadata config, .nonTransferable]
        [.nonTransferable, .metadata config]) ∧
    r.Same r' ∧ r.fields = .ok {
      metadata := some config
      nonTransferable := true
      order := ["metadata", "non_transferable"] } ∧ ReadAlike r r' := by
  intro name symbol uri locked r r' config
  have hrotate : [name, symbol, uri].Perm [uri, name, symbol] :=
    List.perm_append_singleton uri [name, symbol]
  have hsame : r.Same r' := by
    intro key
    by_cases hmetadata : key = "metadata"
    · subst hmetadata
      exact .some (.object (Section.same_of_perm (by decide) hrotate))
    · by_cases hlocked : key = "non_transferrable"
      · subst hlocked
        exact .some (.refl _)
      · have hr : r.toList.lookup key = none :=
          List.lookup_eq_none_iff.mpr (by simp [r, locked, hmetadata, hlocked])
        have hr' : r'.toList.lookup key = none :=
          List.lookup_eq_none_iff.mpr (by simp [r', locked, hmetadata, hlocked])
        rw [hr, hr']
        exact .none
  obtain ⟨ixs, h⟩ : ∃ ixs, (createMint Program.token .zero 0 none
      [.metadata ⟨"é", "", "u", []⟩, .nonTransferable]).result = .ok ixs := ⟨_, rfl⟩
  refine ⟨⟨⟨ixs, h⟩, ?_⟩, hsame, rfl, createMint_reordered.2 r r' hsame⟩
  exact createMint_reordered.1 _ _ _ _ _ _ (List.Perm.swap ..) (by decide)

end TokenWire.Extension
