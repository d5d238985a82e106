import TokenWire.Proofs.Asset.Action
import TokenWire.Proofs.Extension.Address
import TokenWire.Proofs.Refusal

/-!
Addresses that are given as texts, for the mint of an asset and in a request for a mint. No text is
taken for another one: the key that is used has that very text, and other texts are refused.
-/

namespace TokenWire

open Asset Extension

theorem Derivation.error_eq_noAddress {d : Derivation} {e : Error} (h : d.address = .error e) :
    e = .noAddress := by
  rw [address, Checked.map_eq_error, find] at h
  cases hsearch : d.search 255 with
  | none =>
    rw [hsearch] at h
    exact (Except.error.inj h).symm
  | some found =>
    rw [hsearch] at h
    cases h

section Mint

variable {t : String} {f : FungibleFields} {immutable : Bool} {payer : Key} {ix : Instruction}

/-- Once the mint is known, only a search without end or a text that is too long can fail. -/
theorem Asset.error_of_creation {mint : Key} {e : Error}
    (h : creation mint payer f immutable none Program.asset = .error e) :
    e = .noAddress ∨ e.isCodec ∧ ¬ f.Fits := by
  obtain haddress | ⟨metadata, hmetadata, fault, -, rfl⟩ := (creation_eq_error rfl).mp h
  · exact Or.inl (Derivation.error_eq_noAddress haddress)
  · refine Or.inr ⟨rfl, fun hfits => ?_⟩
    obtain ⟨ix, hix⟩ : ∃ ix, creation mint payer f immutable none Program.asset = .ok ix :=
      exists_creation.mpr ⟨⟨hfits, nofun⟩, metadata, hmetadata⟩
    rw [h] at hix
    cases hix

theorem Asset.createMetadata_eq_badKey :
    (∃ fault, (createMetadata t f immutable payer).result = .error (.badKey fault)) ↔
      ∀ k : Key, k.text ≠ t := by
  rw [result_createMetadata, ← Key.exists_parse_eq_error]
  constructor
  · rintro ⟨fault, h⟩
    obtain h | ⟨mint, -, h⟩ := Checked.bind_eq_error.mp h
    · exact ⟨_, h⟩
    · obtain h | ⟨h, -⟩ := error_of_creation h <;> cases h
  · rintro ⟨e, he⟩
    obtain ⟨fault, rfl⟩ := Key.exists_badKey_of_parse he
    exact ⟨fault, Checked.bind_eq_error.mpr (Or.inl he)⟩

theorem Asset.error_of_createMetadata {e : Error}
    (h : (createMetadata t f immutable payer).result = .error e) :
    (∃ fault, e = .badKey fault) ∨ e = .noAddress ∨ e.isCodec ∧ ¬ f.Fits := by
  rw [result_createMetadata] at h
  obtain hparse | ⟨mint, -, hcreation⟩ := Checked.bind_eq_error.mp h
  · exact Or.inl (Key.exists_badKey_of_parse hparse)
  · exact Or.inr (error_of_creation hcreation)

theorem Asset.createMetadata_eq_ok : (createMetadata t f immutable payer).result = .ok ix ↔
    ∃ k : Key, k.text = t ∧ creation k payer f immutable none Program.asset = .ok ix := by
  rw [result_createMetadata, Checked.bind_eq_ok]
  exact exists_congr fun k => and_congr_left' Key.parse_eq_ok

theorem Asset.exists_createMetadata :
    (∃ ix, (createMetadata t f immutable payer).result = .ok ix) ↔ ∃ k : Key, k.text = t ∧ f.Fits ∧
      ∃ metadata, (metadataDerivation k).address = .ok metadata := by
  simp only [createMetadata_eq_ok]
  rw [exists_comm]
  refine exists_congr fun k => ?_
  rw [exists_and_left, exists_creation, and_iff_left (a := f.Fits) nofun]

theorem Asset.mint_of_createMetadata (h : (createMetadata t f immutable payer).result = .ok ix) :
    ∃ k : Key, k.text = t ∧ ix.accounts[2]? = some (.writable k) := by
  obtain ⟨k, hk, h⟩ := createMetadata_eq_ok.mp h
  obtain ⟨metadata, front, -, -, rfl⟩ := (creation_eq_ok rfl).mp h
  exact ⟨k, hk, rfl⟩

theorem Asset.mints_eq_iff {t' : String} {f' : FungibleFields} {immutable' : Bool} {payer' : Key}
    {ix' : Instruction} (h : (createMetadata t f immutable payer).result = .ok ix)
    (h' : (createMetadata t' f' immutable' payer').result = .ok ix') :
    ix.accounts[2]? = ix'.accounts[2]? ↔ t = t' := by
  obtain ⟨k, rfl, hk⟩ := mint_of_createMetadata h
  obtain ⟨k', rfl, hk'⟩ := mint_of_createMetadata h'
  rw [hk, hk', Key.text_inj]
  constructor
  · intro heq
    cases heq
    rfl
  · rintro rfl
    rfl

end Mint

theorem Extension.Place.key?_eq_iff {r r' : Request} {f f' : Fields} (h : r.fields = .ok f)
    (h' : r'.fields = .ok f') (p : Place) :
    p.key? f = p.key? f' ↔ (p.item r).text? = (p.item r').text? := by
  have htext : Function.Injective Key.text := fun _ _ => Key.text_inj.mp
  rw [← Request.map_text_key? h, ← Request.map_text_key? h', (Option.map_injective htext).eq_iff]

/--
The text of each key is accepted and names that key. The text of a mint is refused just if no key
has it; the mint of an instruction that is made is the key that has it. All else that can fail there
is that no bump leads to the address of the metadata, or, by an error of the codec, that a name,
symbol or address of a description is too long. A request is accepted just if it is without these
texts, and each of them is that of a key; if only some of them are not, it is refused for one of
those. An accepted request uses, in each place, the key with the text that it gives there. So
different texts that are accepted stand for different keys.
-/
theorem texts_name_keys :
    (∀ k : Key, Key.parse k.text = .ok k) ∧
    (∀ (t : String) (f : FungibleFields) (immutable : Bool) (payer : Key),
      ((∃ fault, (createMetadata t f immutable payer).result = .error (.badKey fault)) ↔
        ∀ k : Key, k.text ≠ t) ∧
      ((∃ ix, (createMetadata t f immutable payer).result = .ok ix) ↔
        ∃ k : Key, k.text = t ∧ f.Fits ∧
          ∃ metadata, (metadataDerivation k).address = .ok metadata) ∧
      (∀ e, (createMetadata t f immutable payer).result = .error e →
        (∃ fault, e = .badKey fault) ∨ e = .noAddress ∨ e.isCodec ∧ ¬ f.Fits) ∧
      ∀ ix, (createMetadata t f immutable payer).result = .ok ix →
        (∃ k : Key, k.text = t ∧ ix.accounts[2]? = some (.writable k)) ∧
        ∀ t' f' immutable' payer' ix',
          (createMetadata t' f' immutable' payer').result = .ok ix' →
          (ix.accounts[2]? = ix'.accounts[2]? ↔ t = t')) ∧
    ∀ r : Request,
      ((∃ f, r.fields = .ok f) ↔ (∃ f, r.withoutAddresses.fields = .ok f) ∧
        ∀ p : Place, ∀ t ∈ (p.item r).text?, NamesKey t) ∧
      ((∃ f, r.withoutAddresses.fields = .ok f) →
        (¬ ∀ p : Place, ∀ t ∈ (p.item r).text?, NamesKey t) →
        ∃ fault, r.fields = .error (.badKey fault)) ∧
      ∀ f, r.fields = .ok f → ∀ p : Place, (p.key? f).map Key.text = (p.item r).text? ∧
        ∀ (r' : Request) (f' : Fields), r'.fields = .ok f' →
          (p.key? f = p.key? f' ↔ (p.item r).text? = (p.item r').text?) := by
  refine ⟨fun _ => Key.parse_eq_ok.mpr rfl, ?_, ?_⟩
  · intro t f immutable payer
    refine ⟨createMetadata_eq_badKey, exists_createMetadata, fun _ => error_of_createMetadata, ?_⟩
    intro ix h
    exact ⟨mint_of_createMetadata h, fun _ _ _ _ _ h' => mints_eq_iff h h'⟩
  · intro r
    have hacceptance := Request.succeedsIf_fields r
    refine ⟨hacceptance.exists_ok_iff, hacceptance.exists_badKey, ?_⟩
    intro f h p
    exact ⟨Request.map_text_key? h p, fun _ _ h' => Place.key?_eq_iff h h' p⟩

/-- Two keys that begin with zero bytes, and a text with a one too many in front. -/
theorem texts_name_keys_leading_ones :
    let k : Key := ⟨0 :: 0 :: List.replicate 30 3, rfl⟩
    let t := "11c16VGevZXBEuhWKAcPPuFGHJHWz3CzTka18JBDNJ"
    let ones := "11111111111111111111111111111111"
    let f : FungibleFields := ⟨"é", "", "u"⟩
    let request (hook : String) : Request := .ofList [("close_authority", .text ones),
      ("transfer_hook", .object [("program_id", .text hook)])]
    (∃ ix, (createMetadata t f false .zero).result = .ok ix ∧
      ix.accounts[2]? = some (.writable k)) ∧
    (∃ fault, (createMetadata ("1" ++ t) f false .zero).result = .error (.badKey fault)) ∧
    (∃ x y, (request t).fields = .ok x ∧ (request ones).fields = .ok y ∧
      Place.hookProgram.key? x = some k ∧ Place.hookProgram.key? x ≠ Place.hookProgram.key? y) ∧
    ∃ fault, (request ("1" ++ t)).fields = .error (.badKey fault) := by
  intro k t ones f request
  have ht : k.text = t := by decide +kernel
  have hno : ∀ k : Key, k.text ≠ "1" ++ t :=
    Key.exists_parse_eq_error.mp ⟨.badKey .notBase58, by decide +kernel⟩
  obtain ⟨-, hmint, hrequest⟩ := texts_name_keys
  refine ⟨?_, (hmint ("1" ++ t) f false .zero).1.mpr hno, ?_, ?_⟩
  · have hfits : f.Fits := ⟨by decide, by decide, by decide⟩
    have hmetadata : (metadataDerivation k).address =
        .ok ((metadataDerivation k).candidate 255) := by decide +kernel
    obtain ⟨-, hok, -, hkey⟩ := hmint t f false .zero
    obtain ⟨ix, hix⟩ := hok.mpr ⟨k, ht, hfits, _, hmetadata⟩
    obtain ⟨k', hk', haccount⟩ := (hkey ix hix).1
    rw [Key.text_inj.mp (hk'.trans ht.symm)] at haccount
    exact ⟨ix, hix, haccount⟩
  · let fields (hook? : Option Key) : Fields := {
      closeAuthority := some .zero
      transferHook := some ⟨hook?, none⟩
      order := ["close_authority", "transfer_hook"] }
    have hx : (request t).fields = .ok (fields k) := by decide +kernel
    have hy : (request ones).fields = .ok (fields Key.zero) := by decide +kernel
    obtain ⟨-, -, hplaces⟩ := hrequest (request t)
    have hne := (hplaces _ hx .hookProgram).2 _ _ hy
    have htexts : (Place.hookProgram.item (request t)).text? ≠
        (Place.hookProgram.item (request ones)).text? := by decide +kernel
    exact ⟨_, _, hx, hy, rfl, fun heq => htexts (hne.mp heq)⟩
  · obtain ⟨-, hrefused, -⟩ := hrequest (request ("1" ++ t))
    have hwithout : ∃ x, (request ("1" ++ t)).withoutAddresses.fields = .ok x :=
      ⟨{ transferHook := some ⟨none, none⟩, order := ["close_authority", "transfer_hook"] }, by
        decide +kernel⟩
    refine hrefused hwithout fun hall => ?_
    obtain ⟨k', hk'⟩ := hall .hookProgram ("1" ++ t) (by decide +kernel)
    exact hno k' hk'

end TokenWire
