import TokenWire.Instruction
import TokenWire.Proofs.Entries
import TokenWire.Proofs.Extension.Creation
import TokenWire.Proofs.Metadata.Size

/-!
Metadata as it is written by instructions one after the other, and that the bytes planned for it
are enough for every record on the way.
-/

namespace TokenWire.Metadata

namespace State

/-- Metadata of which nothing is written. -/
def empty : State :=
  ⟨none, .zero, "", "", "", []⟩

/-- Sets one field; a pair that is missing is added. -/
def set (s : State) : Field → String → State
  | .name, text => { s with name := text }
  | .symbol, text => { s with symbol := text }
  | .uri, text => { s with uri := text }
  | .custom key, text => { s with additional := Entries.putList key text s.additional }

/-- The metadata after an instruction. A start takes the authority and the mint from its second and
third account. -/
def apply (s : State) (ix : Instruction) : Except Error State := do
  match ← Command.decode ix.data, ix.accounts with
  | .start name symbol uri, _ :: authority :: mint :: _ =>
    pure { s with updateAuthority := some authority.key, mint := mint.key, name, symbol, uri }
  | .updateField field text, _ => pure (s.set field text)
  | _, _ => .error .wrongShape

/-- The metadata after instructions one after the other. -/
def replay (s : State) (ixs : List Instruction) : Except Error State :=
  ixs.foldlM apply s

theorem replay_nil (s : State) : s.replay [] = .ok s := rfl

theorem replay_cons {s t : State} {ix : Instruction} (h : s.apply ix = .ok t)
    (ixs : List Instruction) : s.replay (ix :: ixs) = t.replay ixs := by
  rw [replay, List.foldlM_cons, h]
  rfl

variable {mint payer : Key}

theorem apply_start {s : State} {metadata authority mintAuthority program : Key}
    {name symbol uri : String} {ix : Instruction}
    (h : start metadata authority mint mintAuthority name symbol uri program = .ok ix) :
    s.apply ix = .ok { s with updateAuthority := some authority, mint, name, symbol, uri } := by
  obtain ⟨-, haccounts, hdata⟩ := start_eq_ok h
  rw [apply, hdata, haccounts]
  rfl

theorem apply_updateField {s : State} {metadata authority program : Key} {field : Field}
    {text : String} {ix : Instruction}
    (h : updateField metadata authority field text program = .ok ix) :
    s.apply ix = .ok (s.set field text) := by
  obtain ⟨-, -, hdata⟩ := updateField_eq_ok h
  rw [apply, hdata]
  rfl

/-- Updates put their pairs one after the other and change nothing else. -/
theorem replay_updates {pairs : List (String × String)} {ixs : List Instruction}
    (h : List.Forall₂ (fun pair ix => updateField mint payer (.custom pair.1) pair.2 = .ok ix)
      pairs ixs) (s : State) :
    s.replay ixs = .ok { s with additional := Entries.putAll s.additional pairs } := by
  induction h generalizing s with
  | nil => rfl
  | cons hix _ ih => rw [replay_cons (apply_updateField hix), ih]; rfl

section Size

variable {s : State} {pairs : List (String × String)}

theorem Fits.of_subperm (h : s.Fits) (hpairs : pairs.Subperm s.additional) :
    ({ s with additional := pairs } : State).Fits where
  name := h.name
  symbol := h.symbol
  uri := h.uri
  pairs pair hmem := h.pairs pair (hpairs.subset hmem)
  count := Nat.lt_of_le_of_lt hpairs.length_le h.count

theorem size_le_of_subperm (hpairs : pairs.Subperm s.additional) :
    ({ s with additional := pairs } : State).size ≤ s.size := by
  have hle := pairsLength_subperm hpairs
  simp only [size]
  omega

theorem fits_empty : empty.Fits where
  name := by decide
  symbol := by decide
  uri := by decide
  pairs := nofun
  count := by decide

theorem size_empty_le (s : State) : empty.size ≤ s.size := by
  have htext : textLength "" = 4 := by decide
  have hpairs : pairsLength empty.additional = 0 := rfl
  simp only [size, empty, textLength] at htext hpairs ⊢
  omega

end Size
end State
end TokenWire.Metadata

namespace TokenWire.Extension

open Metadata

variable {mint payer : Key} {c : MetadataConfig}

/-- After its start and some updates the metadata holds what is asked for but for its pairs. -/
theorem MetadataConfig.replay_take {ixs : List Instruction}
    (h : c.instructions mint payer = .ok ixs) (n : Nat) :
    State.empty.replay (ixs.take (n + 1)) = .ok { c.state mint payer with
      additional := Entries.putAll [] (c.additional.take n) } := by
  obtain ⟨start, updates, rfl, hstart, hupdates⟩ := instructions_eq_ok.mp h
  have hreplay := State.replay_updates (List.forall₂_take n hupdates)
  rw [List.take_succ_cons, State.replay_cons (State.apply_start hstart), hreplay]
  rfl

theorem MetadataConfig.replay_eq_of_nodup {ixs : List Instruction}
    (h : c.instructions mint payer = .ok ixs) (hkeys : (c.additional.map Prod.fst).Nodup) :
    State.empty.replay ixs = .ok (c.state mint payer) := by
  obtain ⟨start, updates, rfl, -, hupdates⟩ := instructions_eq_ok.mp h
  have hall : (start :: updates).take (updates.length + 1) = start :: updates :=
    List.take_of_length_le (Nat.le_refl _)
  have hreplay := replay_take h updates.length
  rwa [hall, ← hupdates.length_eq, List.take_length,
    Entries.putAll_of_nodup (by simpa using hkeys)] at hreplay

/-- No record on the way is larger than the whole metadata. -/
theorem MetadataConfig.exists_entryLength_le {ixs : List Instruction} {size : Nat}
    (h : c.instructions mint payer = .ok ixs)
    (hsize : (c.state mint payer).entryLength = .ok size) (n : Nat) :
    ∃ s m, State.empty.replay (ixs.take n) = .ok s ∧ s.entryLength = .ok m ∧ m ≤ size := by
  obtain ⟨hfits, rfl⟩ := State.entryLength_eq_ok.mp hsize
  cases n with
  | zero =>
    exact ⟨_, _, State.replay_nil _, State.entryLength_eq_ok.mpr ⟨State.fits_empty, rfl⟩,
      State.size_empty_le _⟩
  | succ n =>
    have hpairs : (Entries.putAll [] (c.additional.take n)).Subperm c.additional :=
      (Entries.putAll_subperm [] _).trans (List.take_sublist n _).subperm
    exact ⟨_, _, replay_take h n, State.entryLength_eq_ok.mpr ⟨hfits.of_subperm hpairs, rfl⟩,
      State.size_le_of_subperm hpairs⟩

/--
The bytes planned for the one metadata of a mint cover it after each of the instructions that write
it. If no key comes twice, these write just what is asked for, and the bytes are as many as it takes.
-/
theorem plan_covers_replay {ds : List Descriptor} {p : Plan}
    (hp : (plan mint payer ds).result = .ok p) (hc : ds.filterMap Descriptor.metadata? = [c]) :
    WritesMetadata mint payer c p.after ∧
    (∀ n, ∃ s size, State.empty.replay (p.after.take n) = .ok s ∧ s.entryLength = .ok size ∧
      size ≤ p.metadataSize) ∧
    ((c.additional.map Prod.fst).Nodup →
      State.empty.replay p.after =
        .ok ⟨some payer, mint, c.name, c.symbol, c.uri, c.additional⟩ ∧
      State.entryLength ⟨some payer, mint, c.name, c.symbol, c.uri, c.additional⟩ =
        .ok p.metadataSize) := by
  obtain ⟨-, -, -, sizes, blocks, hsizes, hblocks, hsize, hafter⟩ := plan_eq_ok.mp hp
  rw [hc] at hsizes hblocks
  obtain ⟨size, _, hlength, ⟨⟩, rfl⟩ := List.forall₂_cons_left_iff.mp hsizes
  obtain ⟨ixs, _, hixs, ⟨⟩, rfl⟩ := List.forall₂_cons_left_iff.mp hblocks
  replace hsize : p.metadataSize = size := hsize
  replace hafter : p.after = ixs := hafter.trans (List.append_nil ixs)
  rw [hsize, hafter]
  refine ⟨MetadataConfig.writesMetadata hixs, ?_, ?_⟩
  · exact MetadataConfig.exists_entryLength_le hixs hlength
  · intro hkeys
    exact ⟨MetadataConfig.replay_eq_of_nodup hixs hkeys, hlength⟩

/-- Two pairs with an extension before the metadata. -/
theorem plan_covers_replay_pairs :
    let c : MetadataConfig := ⟨"é", "s", "", [("k", "long"), ("l", "")]⟩
    let s : State := ⟨some .zero, Program.token, "é", "s", "", [("k", "long"), ("l", "")]⟩
    ∃ p, (plan Program.token .zero [.nonTransferable, .metadata c]).result = .ok p ∧
      [Descriptor.nonTransferable, .metadata c].filterMap Descriptor.metadata? = [c] ∧
      (c.additional.map Prod.fst).Nodup ∧ WritesMetadata Program.token .zero c p.after ∧
      (∀ n, ∃ s size, State.empty.replay (p.after.take n) = .ok s ∧ s.entryLength = .ok size ∧
        size ≤ p.metadataSize) ∧
      State.empty.replay p.after = .ok s ∧ s.entryLength = .ok p.metadataSize := by
  intro c s
  obtain ⟨p, hp⟩ : ∃ p,
      (plan Program.token .zero [.nonTransferable, .metadata c]).result = .ok p := ⟨_, rfl⟩
  have hkeys : (c.additional.map Prod.fst).Nodup := by decide
  have hcovers := plan_covers_replay (c := c) hp rfl
  exact ⟨p, hp, rfl, hkeys, hcovers.1, hcovers.2.1, hcovers.2.2 hkeys⟩

end TokenWire.Extension
