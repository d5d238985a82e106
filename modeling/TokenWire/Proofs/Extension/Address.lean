import TokenWire.Proofs.Extension.Request
import TokenWire.Proofs.Key

/-!
Addresses in a request for a mint. The key that is used has the very text that is given, and of two
requests that differ in such texts only, one may be refused for a text that no key has.
-/

namespace TokenWire

/-- The first of two computations succeeds where the second does and a condition on keys holds;
where only the condition fails, it is refused for a text that names no key. -/
structure SucceedsIf {α : Type} (x x₀ : Except Error α) (p : Prop) : Prop where
  exists_ok_iff : (∃ a, x = .ok a) ↔ (∃ a, x₀ = .ok a) ∧ p
  exists_badKey : (∃ a, x₀ = .ok a) → ¬ p → ∃ fault, x = .error (.badKey fault)

namespace SucceedsIf

variable {α β : Type} {x x₀ : Except Error α} {p q : Prop}

theorem refl (x : Except Error α) : SucceedsIf x x True :=
  ⟨(and_iff_left trivial).symm, fun _ h => absurd trivial h⟩

theorem ok (a a₀ : α) : SucceedsIf (.ok a) (.ok a₀) True :=
  ⟨iff_of_true ⟨a, rfl⟩ ⟨⟨a₀, rfl⟩, trivial⟩, fun _ h => absurd trivial h⟩

theorem congr (h : SucceedsIf x x₀ p) (hpq : p ↔ q) : SucceedsIf x x₀ q :=
  propext hpq ▸ h

theorem map (h : SucceedsIf x x₀ p) (g g₀ : α → β) : SucceedsIf (x.map g) (x₀.map g₀) p := by
  constructor
  · rw [Checked.exists_map_eq_ok, Checked.exists_map_eq_ok]
    exact h.exists_ok_iff
  · intro hok hp
    obtain ⟨fault, hfault⟩ := h.exists_badKey (Checked.exists_map_eq_ok.mp hok) hp
    exact ⟨fault, Checked.map_eq_error.mpr hfault⟩

/-- The results may differ in their keys, so what comes next must not depend on them. -/
theorem bind {f f₀ : α → Except Error β} (h : SucceedsIf x x₀ p)
    (hf : ∀ a a₀, SucceedsIf (f a) (f₀ a₀) q) : SucceedsIf (x >>= f) (x₀ >>= f₀) (p ∧ q) := by
  constructor
  · constructor
    · rintro ⟨b, hb⟩
      obtain ⟨a, ha, hb⟩ := Checked.bind_eq_ok.mp hb
      obtain ⟨⟨a₀, ha₀⟩, hp⟩ := h.exists_ok_iff.mp ⟨a, ha⟩
      obtain ⟨⟨b₀, hb₀⟩, hq⟩ := (hf a a₀).exists_ok_iff.mp ⟨b, hb⟩
      exact ⟨⟨b₀, Checked.bind_eq_ok.mpr ⟨a₀, ha₀, hb₀⟩⟩, hp, hq⟩
    · rintro ⟨⟨b₀, hb₀⟩, hp, hq⟩
      obtain ⟨a₀, ha₀, hb₀⟩ := Checked.bind_eq_ok.mp hb₀
      obtain ⟨a, ha⟩ := h.exists_ok_iff.mpr ⟨⟨a₀, ha₀⟩, hp⟩
      obtain ⟨b, hb⟩ := (hf a a₀).exists_ok_iff.mpr ⟨⟨b₀, hb₀⟩, hq⟩
      exact ⟨b, Checked.bind_eq_ok.mpr ⟨a, ha, hb⟩⟩
  · rintro ⟨b₀, hb₀⟩ hpq
    obtain ⟨a₀, ha₀, hb₀⟩ := Checked.bind_eq_ok.mp hb₀
    by_cases hp : p
    · obtain ⟨a, ha⟩ := h.exists_ok_iff.mpr ⟨⟨a₀, ha₀⟩, hp⟩
      obtain ⟨fault, hfault⟩ := (hf a a₀).exists_badKey ⟨b₀, hb₀⟩ fun hq => hpq ⟨hp, hq⟩
      exact ⟨fault, Checked.bind_eq_error.mpr (Or.inr ⟨a, ha, hfault⟩)⟩
    · obtain ⟨fault, hfault⟩ := h.exists_badKey ⟨a₀, ha₀⟩ hp
      exact ⟨fault, Checked.bind_eq_error.mpr (Or.inl hfault)⟩

end SucceedsIf

namespace Extension

/-- A text that some key has. -/
def NamesKey (t : String) : Prop :=
  ∃ k : Key, k.text = t

/-- Where the text of a key may stand in a request. -/
inductive Place where
  | closeAuthority
  | permanentDelegate
  | feeConfigAuthority
  | feeWithdrawAuthority
  | interestAuthority
  | hookProgram
  | hookAuthority

namespace Item

variable {item : Item} {k? : Option Key}

/-- The text that an item is. -/
def text? : Item → Option String
  | text s => some s
  | _ => none

/-- The item, or null instead of a text. -/
def withoutText : Item → Item
  | text _ => null
  | item => item

/-- The item under a name in a section, or null. -/
def entry (name : String) : Item → Item
  | object entries => (entries.lookup name).getD null
  | _ => null

/-- The key that is used has the text that is given. -/
theorem map_text_asKey? (h : item.asKey? = .ok k?) : k?.map Key.text = item.text? := by
  cases item with
  | null =>
    cases h
    rfl
  | text s =>
    obtain ⟨k, hk, rfl⟩ := Checked.map_eq_ok.mp h
    exact congrArg some (Key.parse_eq_ok.mp hk)
  | _ => cases h

/-- A section that is not given has no entries. -/
theorem section?_eq_ok {entries? : Option Section} (h : item.section? = .ok entries?) :
    (entries? = none ∧ ∀ name, item.entry name = null) ∨
      ∃ entries, entries? = some entries ∧ item = object entries := by
  cases item with
  | object entries =>
    cases entries with
    | nil =>
      cases h
      exact Or.inl ⟨rfl, fun _ => rfl⟩
    | cons x entries =>
      cases h
      exact Or.inr ⟨_, rfl, rfl⟩
  | _ =>
    refine Or.inl ⟨?_, fun _ => rfl⟩
    unfold section? at h
    dsimp only at h
    split at h <;> cases h
    rfl

theorem succeedsIf_asKey? (item : Item) :
    SucceedsIf item.asKey? item.withoutText.asKey? (∀ t ∈ item.text?, NamesKey t) := by
  cases item with
  | text s =>
    have hnames : (∀ t ∈ (text s).text?, NamesKey t) ↔ NamesKey s := by simp [text?]
    refine SucceedsIf.congr ⟨?_, ?_⟩ hnames.symm
    · constructor
      · rintro ⟨k?, h⟩
        obtain ⟨k, hk, -⟩ := Checked.map_eq_ok.mp h
        exact ⟨⟨none, rfl⟩, k, Key.parse_eq_ok.mp hk⟩
      · rintro ⟨-, k, hk⟩
        exact ⟨some k, Checked.map_eq_ok.mpr ⟨k, Key.parse_eq_ok.mpr hk, rfl⟩⟩
    · intro _ hno
      obtain ⟨e, he⟩ := Key.exists_parse_eq_error.mpr (not_exists.mp hno)
      obtain ⟨fault, rfl⟩ := Key.exists_badKey_of_parse he
      exact ⟨fault, Checked.map_eq_error.mpr he⟩
  | _ => exact (SucceedsIf.refl _).congr (iff_of_true trivial nofun)

end Item

namespace Section

variable {α : Type} {entries : Section} {names : List String} {name : String}

/-- The entries with null instead of texts under these names. -/
def withoutTexts (names : List String) (entries : Section) : Section :=
  entries.map fun (name, item) => (name, if name ∈ names then item.withoutText else item)

theorem withoutTexts_nil (entries : Section) : withoutTexts [] entries = entries := by
  simp [withoutTexts]

theorem lookup_withoutTexts (names : List String) (entries : Section) (name : String) :
    (withoutTexts names entries).lookup name =
      (entries.lookup name).map fun item => if name ∈ names then item.withoutText else item :=
  Entries.lookup_map (fun n item => if n ∈ names then Item.withoutText item else item) entries name

theorem succeedsIf_get (h : name ∈ names) :
    SucceedsIf (get entries name Item.asKey?) (get (withoutTexts names entries) name Item.asKey?)
      (∀ t ∈ ((Item.object entries).entry name).text?, NamesKey t) := by
  have hitem : ((withoutTexts names entries).lookup name).getD .null =
      ((entries.lookup name).getD .null).withoutText := by
    rw [lookup_withoutTexts]
    simp only [if_pos h]
    cases entries.lookup name <;> rfl
  rw [get, get, hitem]
  exact Item.succeedsIf_asKey? _

theorem succeedsIf_require {read : Item → Except Error α} (h : name ∉ names) :
    SucceedsIf (require entries name read) (require (withoutTexts names entries) name read)
      True := by
  have hlookup : (withoutTexts names entries).lookup name = entries.lookup name := by
    rw [lookup_withoutTexts]
    simp only [if_neg h]
    exact Option.map_id'
  rw [require, require, hlookup]
  exact SucceedsIf.refl _

end Section

namespace Request

/-- The names in a section under which the text of a key may stand. -/
def addressNames : String → List String
  | "transfer_fee" => ["transfer_fee_config_authority", "withdraw_withheld_authority"]
  | "interest_bearing" => ["rate_authority"]
  | "transfer_hook" => ["program_id", "authority"]
  | _ => []

end Request

section OfSection

variable {entries : Section}

/-- The texts under these names are those of keys. -/
def Section.NameKeys (names : List String) (entries : Section) : Prop :=
  ∀ name ∈ names, ∀ t ∈ ((Item.object entries).entry name).text?, NamesKey t

theorem MetadataConfig.succeedsIf_ofSection (entries : Section) : SucceedsIf (ofSection entries)
    (ofSection (entries.withoutTexts (Request.addressNames "metadata")))
    (entries.NameKeys (Request.addressNames "metadata")) := by
  change SucceedsIf _ (ofSection (entries.withoutTexts [])) (entries.NameKeys [])
  rw [Section.withoutTexts_nil]
  exact (SucceedsIf.refl _).congr (iff_of_true trivial nofun)

theorem TransferFeeConfig.succeedsIf_ofSection (entries : Section) : SucceedsIf (ofSection entries)
    (ofSection (entries.withoutTexts (Request.addressNames "transfer_fee")))
    (entries.NameKeys (Request.addressNames "transfer_fee")) := by
  refine SucceedsIf.congr (.bind (Section.succeedsIf_get (by decide)) fun _ _ =>
    .bind (Section.succeedsIf_get (by decide)) fun _ _ =>
      .bind (Section.succeedsIf_require (by decide)) fun _ _ =>
        .bind (Section.succeedsIf_require (by decide)) fun _ _ => .ok _ _) ?_
  simp [Section.NameKeys, Request.addressNames]

theorem TransferFeeConfig.map_text {c : TransferFeeConfig} (h : ofSection entries = .ok c) :
    c.configAuthority.map Key.text =
        ((Item.object entries).entry "transfer_fee_config_authority").text? ∧
      c.withdrawAuthority.map Key.text =
        ((Item.object entries).entry "withdraw_withheld_authority").text? := by
  obtain ⟨configAuthority, hconfig, h⟩ := Checked.bind_eq_ok.mp h
  obtain ⟨withdrawAuthority, hwithdraw, h⟩ := Checked.bind_eq_ok.mp h
  obtain ⟨_, -, h⟩ := Checked.bind_eq_ok.mp h
  obtain ⟨_, -, h⟩ := Checked.bind_eq_ok.mp h
  cases h
  exact ⟨Item.map_text_asKey? hconfig, Item.map_text_asKey? hwithdraw⟩

theorem InterestConfig.succeedsIf_ofSection (entries : Section) : SucceedsIf (ofSection entries)
    (ofSection (entries.withoutTexts (Request.addressNames "interest_bearing")))
    (entries.NameKeys (Request.addressNames "interest_bearing")) := by
  refine SucceedsIf.congr (.bind (Section.succeedsIf_get (by decide)) fun _ _ =>
    .bind (Section.succeedsIf_require (by decide)) fun _ _ => .ok _ _) ?_
  simp [Section.NameKeys, Request.addressNames]

theorem InterestConfig.map_text {c : InterestConfig} (h : ofSection entries = .ok c) :
    c.authority.map Key.text = ((Item.object entries).entry "rate_authority").text? := by
  obtain ⟨authority, hauthority, h⟩ := Checked.bind_eq_ok.mp h
  obtain ⟨_, -, h⟩ := Checked.bind_eq_ok.mp h
  cases h
  exact Item.map_text_asKey? hauthority

theorem TransferHookConfig.succeedsIf_ofSection (entries : Section) : SucceedsIf (ofSection entries)
    (ofSection (entries.withoutTexts (Request.addressNames "transfer_hook")))
    (entries.NameKeys (Request.addressNames "transfer_hook")) := by
  refine SucceedsIf.congr (.bind (Section.succeedsIf_get (by decide)) fun _ _ =>
    .bind (Section.succeedsIf_get (by decide)) fun _ _ => .ok _ _) ?_
  simp [Section.NameKeys, Request.addressNames]

theorem TransferHookConfig.map_text {c : TransferHookConfig} (h : ofSection entries = .ok c) :
    c.program.map Key.text = ((Item.object entries).entry "program_id").text? ∧
      c.authority.map Key.text = ((Item.object entries).entry "authority").text? := by
  obtain ⟨program, hprogram, h⟩ := Checked.bind_eq_ok.mp h
  obtain ⟨authority, hauthority, h⟩ := Checked.bind_eq_ok.mp h
  cases h
  exact ⟨Item.map_text_asKey? hprogram, Item.map_text_asKey? hauthority⟩

end OfSection

/-- What stands under a name in a request, with null instead of the texts of keys. -/
def Item.withoutAddresses (name : String) (item : Item) : Item :=
  if name = "close_authority" ∨ name = "permanent_delegate" then item.withoutText
  else match item with
    | object entries => object (Section.withoutTexts (Request.addressNames name) entries)
    | item => item

namespace Place

/-- What stands in a place of a request, or null. -/
def item (r : Request) : Place → Item
  | closeAuthority => r.entry "close_authority"
  | permanentDelegate => r.entry "permanent_delegate"
  | feeConfigAuthority => (r.entry "transfer_fee").entry "transfer_fee_config_authority"
  | feeWithdrawAuthority => (r.entry "transfer_fee").entry "withdraw_withheld_authority"
  | interestAuthority => (r.entry "interest_bearing").entry "rate_authority"
  | hookProgram => (r.entry "transfer_hook").entry "program_id"
  | hookAuthority => (r.entry "transfer_hook").entry "authority"

/-- The key that is used for what stands in a place of a request. -/
def key? (f : Fields) : Place → Option Key
  | closeAuthority => f.closeAuthority
  | permanentDelegate => f.permanentDelegate
  | feeConfigAuthority => f.transferFee.bind (·.configAuthority)
  | feeWithdrawAuthority => f.transferFee.bind (·.withdrawAuthority)
  | interestAuthority => f.interestBearing.bind (·.authority)
  | hookProgram => f.transferHook.bind (·.program)
  | hookAuthority => f.transferHook.bind (·.authority)

end Place

namespace Request

variable {α : Type} {r : Request} {name : String} {read : Section → Except Error α} {c? : Option α}
  {f : Fields}

/-- The request with null instead of the texts of keys. -/
def withoutAddresses (r : Request) : Request where
  toList := r.toList.map fun (name, item) => (name, item.withoutAddresses name)
  nodup_names := by
    rw [List.map_map]
    exact r.nodup_names

theorem entry_withoutAddresses (r : Request) (name : String) :
    r.withoutAddresses.entry name = (r.entry name).withoutAddresses name := by
  have hnull : Item.null.withoutAddresses name = .null := by
    change (if _ then Item.null else Item.null) = _
    rw [ite_self]
  have hlookup : r.withoutAddresses.find? name = (r.find? name).map (Item.withoutAddresses name) :=
    Entries.lookup_map Item.withoutAddresses r.toList name
  rw [entry, entry, hlookup]
  cases r.find? name with
  | none => exact hnull.symm
  | some item => rfl

theorem succeedsIf_section? (hname : ¬ (name = "close_authority" ∨ name = "permanent_delegate"))
    (h : ∀ entries : Section, SucceedsIf (read entries)
      (read (entries.withoutTexts (addressNames name))) (entries.NameKeys (addressNames name))) :
    SucceedsIf (r.section? name read) (r.withoutAddresses.section? name read)
      (∀ n ∈ addressNames name, ∀ t ∈ ((r.entry name).entry n).text?, NamesKey t) := by
  unfold section?
  change SucceedsIf ((r.entry name).section? >>= _)
    ((r.withoutAddresses.entry name).section? >>= _) _
  rw [entry_withoutAddresses]
  unfold Item.withoutAddresses
  rw [if_neg hname]
  cases r.entry name with
  | object entries =>
    cases entries with
    | nil => exact (SucceedsIf.refl _).congr (iff_of_true trivial fun _ _ => nofun)
    | cons x entries => exact (h (x :: entries)).map some some
  | _ => exact (SucceedsIf.refl _).congr (iff_of_true trivial fun _ _ => nofun)

theorem succeedsIf_fields (r : Request) : SucceedsIf r.fields r.withoutAddresses.fields
    (∀ p : Place, ∀ t ∈ (p.item r).text?, NamesKey t) := by
  rw [fields_eq_map, fields_eq_map]
  have hitem : ∀ name, (name = "close_authority" ∨ name = "permanent_delegate") →
      SucceedsIf (r.entry name).asKey? (r.withoutAddresses.entry name).asKey?
        (∀ t ∈ (r.entry name).text?, NamesKey t) := by
    intro name hname
    rw [entry_withoutAddresses]
    unfold Item.withoutAddresses
    rw [if_pos hname]
    exact Item.succeedsIf_asKey? _
  have hmetadata := succeedsIf_section? (r := r) (by decide) MetadataConfig.succeedsIf_ofSection
  have hclose := hitem "close_authority" (Or.inl rfl)
  have hdelegate := hitem "permanent_delegate" (Or.inr rfl)
  have hfee := succeedsIf_section? (r := r) (by decide) TransferFeeConfig.succeedsIf_ofSection
  have hinterest := succeedsIf_section? (r := r) (by decide) InterestConfig.succeedsIf_ofSection
  have hhook := succeedsIf_section? (r := r) (by decide) TransferHookConfig.succeedsIf_ofSection
  refine SucceedsIf.congr (.map (hmetadata.bind fun _ _ => hclose.bind fun _ _ =>
    hdelegate.bind fun _ _ => hfee.bind fun _ _ => hinterest.bind fun _ _ =>
      hhook.bind fun _ _ => .ok _ _) _ _) ?_
  constructor
  · rintro ⟨-, hclose, hdelegate, hfee, hinterest, hhook, -⟩ p
    cases p with
    | closeAuthority => exact hclose
    | permanentDelegate => exact hdelegate
    | feeConfigAuthority => exact hfee _ (by decide)
    | feeWithdrawAuthority => exact hfee _ (by decide)
    | interestAuthority => exact hinterest _ (by decide)
    | hookProgram => exact hhook _ (by decide)
    | hookAuthority => exact hhook _ (by decide)
  · intro h
    refine ⟨nofun, h .closeAuthority, h .permanentDelegate, ?_, ?_, ?_, trivial⟩
    · exact List.forall_mem_cons.mpr ⟨h .feeConfigAuthority,
        List.forall_mem_singleton.mpr (h .feeWithdrawAuthority)⟩
    · exact List.forall_mem_singleton.mpr (h .interestAuthority)
    · exact List.forall_mem_cons.mpr ⟨h .hookProgram,
        List.forall_mem_singleton.mpr (h .hookAuthority)⟩

theorem map_text_section? {n : String} {key? : α → Option Key}
    (hread : ∀ {entries : Section} {c : α}, read entries = .ok c →
      (key? c).map Key.text = ((Item.object entries).entry n).text?)
    (h : r.section? name read = .ok c?) :
    (c?.bind key?).map Key.text = ((r.entry name).entry n).text? := by
  unfold section? at h
  change (r.entry name).section? >>= _ = _ at h
  obtain ⟨entries?, hentries, h⟩ := Checked.bind_eq_ok.mp h
  obtain ⟨rfl, hnull⟩ | ⟨entries, rfl, hentry⟩ := Item.section?_eq_ok hentries
  · cases h
    rw [hnull]
    rfl
  · rw [hentry]
    obtain ⟨c, hc, rfl⟩ := Checked.map_eq_ok.mp h
    exact hread hc

theorem map_text_key? (h : r.fields = .ok f) (p : Place) :
    (p.key? f).map Key.text = (p.item r).text? := by
  obtain ⟨v, hv, rfl⟩ := fields_eq_ok.mp h
  obtain ⟨metadata, -, hv⟩ := Checked.bind_eq_ok.mp hv
  obtain ⟨closeAuthority, hclose, hv⟩ := Checked.bind_eq_ok.mp hv
  obtain ⟨permanentDelegate, hdelegate, hv⟩ := Checked.bind_eq_ok.mp hv
  obtain ⟨transferFee, hfee, hv⟩ := Checked.bind_eq_ok.mp hv
  obtain ⟨interestBearing, hinterest, hv⟩ := Checked.bind_eq_ok.mp hv
  obtain ⟨transferHook, hhook, hv⟩ := Checked.bind_eq_ok.mp hv
  cases hv
  cases p with
  | closeAuthority => exact Item.map_text_asKey? hclose
  | permanentDelegate => exact Item.map_text_asKey? hdelegate
  | feeConfigAuthority => exact map_text_section? (fun h => (TransferFeeConfig.map_text h).1) hfee
  | feeWithdrawAuthority => exact map_text_section? (fun h => (TransferFeeConfig.map_text h).2) hfee
  | interestAuthority => exact map_text_section? InterestConfig.map_text hinterest
  | hookProgram => exact map_text_section? (fun h => (TransferHookConfig.map_text h).1) hhook
  | hookAuthority => exact map_text_section? (fun h => (TransferHookConfig.map_text h).2) hhook

end Request

end Extension
end TokenWire
