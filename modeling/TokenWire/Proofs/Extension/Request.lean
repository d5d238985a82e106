import Mathlib.Data.List.Forall2
import TokenWire.Extension.Request
import TokenWire.Proofs.Checked
import TokenWire.Proofs.Entries

/-! What a request for a mint asks for, apart from the order in which it does. -/

namespace TokenWire.Extension

/-- The same data; in objects only what stands under each name counts, not the order of names. -/
inductive Item.Same : Item → Item → Prop
  | refl (item : Item) : Same item item
  | list {xs ys : List Item} (h : List.Forall₂ Same xs ys) : Same (.list xs) (.list ys)
  | object {xs ys : Section} (h : ∀ name, Option.Rel Same (xs.lookup name) (ys.lookup name)) :
      Same (.object xs) (.object ys)

/-- The same items under the same names. -/
def Section.Same (xs ys : Section) : Prop :=
  ∀ name, Option.Rel Item.Same (xs.lookup name) (ys.lookup name)

/-- The same items under the same names, whatever their order. -/
def Request.Same (r₁ r₂ : Request) : Prop :=
  Section.Same r₁.toList r₂.toList

namespace Section

variable {α : Type} {xs ys : Section} {read : Item → Except Error α}

theorem eq_nil_of_lookup (h : ∀ name, xs.lookup name = none) : xs = [] := by
  cases xs with
  | nil => rfl
  | cons x xs => simpa using h x.1

/-- Entries with each name once are the same in any order. -/
theorem same_of_perm (hnames : (xs.map Prod.fst).Nodup) (h : xs.Perm ys) : Same xs ys := by
  intro name
  let r : Request := ⟨xs, hnames⟩
  let r' : Request := ⟨ys, (h.map Prod.fst).nodup_iff.mp hnames⟩
  have hfind : r.find? name = r'.find? name := Entries.find?_eq_of_perm h name
  change Option.Rel Item.Same (r.find? name) (r'.find? name)
  rw [hfind]
  cases r'.find? name with
  | none => exact .none
  | some item => exact .some (.refl item)

theorem Same.isEmpty_eq (h : Same xs ys) : xs.isEmpty = ys.isEmpty := by
  have hnone : (∀ name, xs.lookup name = none) ↔ ∀ name, ys.lookup name = none := by
    apply forall_congr'
    intro name
    have hname := h name
    generalize xs.lookup name = a, ys.lookup name = b at hname ⊢
    cases hname <;> simp
  have hnil : xs = [] ↔ ys = [] := by
    constructor
    · rintro rfl
      exact eq_nil_of_lookup (hnone.mp fun _ => rfl)
    · rintro rfl
      exact eq_nil_of_lookup (hnone.mpr fun _ => rfl)
  rw [Bool.eq_iff_iff, List.isEmpty_iff, List.isEmpty_iff, hnil]

theorem Same.require_eq (h : Same xs ys) (hread : ∀ {a b : Item}, a.Same b → read a = read b)
    (name : String) : require xs name read = require ys name read := by
  have hname := h name
  unfold require
  generalize xs.lookup name = a, ys.lookup name = b at hname ⊢
  cases hname with
  | none => rfl
  | some hab => exact hread hab

theorem Same.getD (h : Same xs ys) (name : String) :
    ((xs.lookup name).getD .null).Same ((ys.lookup name).getD .null) := by
  have hname := h name
  generalize xs.lookup name = a, ys.lookup name = b at hname ⊢
  cases hname with
  | none => exact .refl _
  | some hab => exact hab

theorem Same.get_eq (h : Same xs ys) (hread : ∀ {a b : Item}, a.Same b → read a = read b)
    (name : String) : get xs name read = get ys name read :=
  hread (h.getD name)

end Section

namespace Item

variable {a b : Item}

theorem Same.isGiven_eq (h : a.Same b) : a.isGiven = b.isGiven := by
  cases h with
  | refl => rfl
  | list h => cases h <;> rfl
  | object h => exact congrArg (!·) (Section.Same.isEmpty_eq h)

theorem Same.asText_eq (h : a.Same b) : a.asText = b.asText := by
  cases h <;> rfl

theorem Same.asInt_eq (h : a.Same b) : a.asInt = b.asInt := by
  cases h <;> rfl

theorem Same.asKey?_eq (h : a.Same b) : a.asKey? = b.asKey? := by
  cases h <;> rfl

theorem asPair_pair (a b : Item) : (list [a, b]).asPair = (do
    let key ← a.asText
    let text ← b.asText
    pure (key, text)) := by
  cases a <;> cases b <;> rfl

theorem asPair_of_length_ne {items : List Item} (h : items.length ≠ 2) :
    (list items).asPair = .error (.notAPair items.length) := by
  match items with
  | [] => rfl
  | [x] => cases x <;> rfl
  | [_, _] => exact absurd rfl h
  | x :: y :: _ :: _ => cases x <;> cases y <;> rfl

theorem Same.asPair_eq (h : a.Same b) : a.asPair = b.asPair := by
  cases h with
  | refl => rfl
  | object => rfl
  | @list xs ys h =>
    by_cases hlength : xs.length = 2
    · obtain ⟨x₁, x₂, rfl⟩ := List.length_eq_two.mp hlength
      obtain ⟨y₁, _, h₁, htail, rfl⟩ := List.forall₂_cons_left_iff.mp h
      obtain ⟨y₂, _, h₂, hnil, rfl⟩ := List.forall₂_cons_left_iff.mp htail
      rw [List.forall₂_nil_left_iff] at hnil
      subst hnil
      rw [asPair_pair, asPair_pair, h₁.asText_eq, h₂.asText_eq]
    · rw [asPair_of_length_ne hlength, asPair_of_length_ne (h.length_eq ▸ hlength), h.length_eq]

theorem Same.asPairs_eq (h : a.Same b) : a.asPairs = b.asPairs := by
  cases h with
  | refl => rfl
  | list h =>
    change List.mapM asPair _ = List.mapM asPair _
    induction h with
    | nil => rfl
    | cons hab _ ih => rw [List.mapM_cons, List.mapM_cons, hab.asPair_eq, ih]
  | object h =>
    have hgiven := (Same.object h).isGiven_eq
    change (if isGiven _ then _ else _) = if isGiven _ then _ else _
    rw [hgiven]

/-- The same data are given as sections by the same entries. -/
theorem Same.section? (h : a.Same b) : a.section? = b.section? ∨ ∃ xs ys, Section.Same xs ys ∧
    a.section? = .ok (some xs) ∧ b.section? = .ok (some ys) := by
  cases h with
  | refl => exact Or.inl rfl
  | list h =>
    have hgiven := (Same.list h).isGiven_eq
    left
    change (if isGiven _ then _ else _) = if isGiven _ then _ else _
    rw [hgiven]
  | @object xs ys h =>
    have hempty : xs.isEmpty = ys.isEmpty := Section.Same.isEmpty_eq h
    cases hxs : xs.isEmpty with
    | true =>
      left
      rw [Item.section?, Item.section?, ← hempty, hxs]
      rfl
    | false =>
      right
      refine ⟨xs, ys, h, ?_, ?_⟩
      · rw [Item.section?, hxs]
        rfl
      · rw [Item.section?, ← hempty, hxs]
        rfl

end Item

section OfSection

variable {xs ys : Section}

theorem MetadataConfig.ofSection_congr (h : Section.Same xs ys) : ofSection xs = ofSection ys := by
  simp only [ofSection, h.require_eq Item.Same.asText_eq, h.get_eq Item.Same.asPairs_eq]

theorem TransferFeeConfig.ofSection_congr (h : Section.Same xs ys) :
    ofSection xs = ofSection ys := by
  simp only [ofSection, h.get_eq Item.Same.asKey?_eq, h.require_eq Item.Same.asInt_eq]

theorem InterestConfig.ofSection_congr (h : Section.Same xs ys) : ofSection xs = ofSection ys := by
  simp only [ofSection, h.get_eq Item.Same.asKey?_eq, h.require_eq Item.Same.asInt_eq]

theorem TransferHookConfig.ofSection_congr (h : Section.Same xs ys) :
    ofSection xs = ofSection ys := by
  simp only [ofSection, h.get_eq Item.Same.asKey?_eq]

end OfSection

namespace Request

variable {α : Type} {r r₁ r₂ : Request} {name : String} {f : Fields} {e : Error}

/-- The item under a name, or null. -/
def entry (r : Request) (name : String) : Item :=
  (r.find? name).getD .null

theorem Same.entry (h : r₁.Same r₂) (name : String) : (r₁.entry name).Same (r₂.entry name) :=
  h.getD name

theorem Same.nonTransferable (h : r₁.Same r₂) : r₁.nonTransferable.Same r₂.nonTransferable := by
  have hname := h "non_transferable"
  change ((r₁.toList.lookup _).getD (r₁.entry _)).Same ((r₂.toList.lookup _).getD (r₂.entry _))
  generalize r₁.toList.lookup "non_transferable" = a,
    r₂.toList.lookup "non_transferable" = b at hname ⊢
  cases hname with
  | none => exact h.entry _
  | some hab => exact hab

/-- All that a request asks for by the value of one entry: not the order, and not whether the mint
cannot be transferred, which has two spellings. -/
def values (r : Request) : Except Error Fields := do
  let metadata ← r.section? "metadata" MetadataConfig.ofSection
  let closeAuthority ← (r.entry "close_authority").asKey?
  let permanentDelegate ← (r.entry "permanent_delegate").asKey?
  let transferFee ← r.section? "transfer_fee" TransferFeeConfig.ofSection
  let interestBearing ← r.section? "interest_bearing" InterestConfig.ofSection
  let transferHook ← r.section? "transfer_hook" TransferHookConfig.ofSection
  pure { metadata, closeAuthority, permanentDelegate, transferFee, interestBearing, transferHook }

theorem fields_eq_map (r : Request) : r.fields = r.values.map fun v =>
    { v with nonTransferable := r.nonTransferable.isGiven, order := r.order } := by
  change _ = (fun v : Fields => { v with
    nonTransferable := r.nonTransferable.isGiven, order := r.order }) <$> r.values
  simp only [fields, values, entry, map_bind, map_pure]

theorem fields_eq_ok : r.fields = .ok f ↔ ∃ v, r.values = .ok v ∧
    f = { v with nonTransferable := r.nonTransferable.isGiven, order := r.order } := by
  rw [fields_eq_map, Checked.map_eq_ok]

theorem fields_eq_error : r.fields = .error e ↔ r.values = .error e := by
  rw [fields_eq_map, Checked.map_eq_error]

theorem congr_section? {read : Section → Except Error α}
    (h : (r₁.entry name).Same (r₂.entry name))
    (hread : ∀ {xs ys : Section}, xs.Same ys → read xs = read ys) :
    r₁.section? name read = r₂.section? name read := by
  unfold section?
  change (r₁.entry name).section? >>= _ = (r₂.entry name).section? >>= _
  obtain heq | ⟨xs, ys, hsame, hxs, hys⟩ := h.section?
  · rw [heq]
  · rw [hxs, hys]
    exact congrArg (·.map some) (hread hsame)

theorem values_congr (h : ∀ name, (r₁.entry name).Same (r₂.entry name)) :
    r₁.values = r₂.values := by
  simp only [values, congr_section? (h _) MetadataConfig.ofSection_congr,
    congr_section? (h _) TransferFeeConfig.ofSection_congr,
    congr_section? (h _) InterestConfig.ofSection_congr,
    congr_section? (h _) TransferHookConfig.ofSection_congr, (h _).asKey?_eq]

end Request
end TokenWire.Extension
