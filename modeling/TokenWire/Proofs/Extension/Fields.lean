import TokenWire.Extension.Fields
import TokenWire.Proofs.Distinct

/-! Which extensions are asked for by name, and in which order. -/

namespace TokenWire.Extension

/-- The name by which an extension is asked for. -/
def Descriptor.fieldName : Descriptor → String
  | metadata _ => "metadata"
  | closeAuthority _ => "close_authority"
  | permanentDelegate _ => "permanent_delegate"
  | nonTransferable => "non_transferable"
  | transferFee _ => "transfer_fee"
  | interestBearing _ => "interest_bearing"
  | transferHook _ => "transfer_hook"

namespace Fields

variable {f g : Fields} {name : String} {d : Descriptor}

/-- Whether the extension of a name is asked for. -/
def asks (f : Fields) (name : String) : Bool :=
  (f.descriptor? name).isSome

theorem fieldName_eq (h : f.descriptor? name = some d) : d.fieldName = name := by
  unfold descriptor? at h
  split at h
  case h_4 =>
    split at h <;> cases h
    rfl
  case h_8 => cases h
  all_goals
    obtain ⟨_, _, rfl⟩ := Option.map_eq_some_iff.mp h
    rfl

theorem mem_fieldNames (h : f.asks name) : name ∈ fieldNames := by
  obtain ⟨d, hd⟩ := Option.isSome_iff_exists.mp h
  rw [← fieldName_eq hd]
  cases d <;> simp [Descriptor.fieldName, fieldNames]

theorem filterMap_filter_asks (f : Fields) (names : List String) :
    (names.filter f.asks).filterMap f.descriptor? = names.filterMap f.descriptor? := by
  rw [List.filterMap_filter]
  congr 1
  funext name
  unfold asks
  cases f.descriptor? name with
  | none => rfl
  | some d => rfl

theorem map_fieldName_filterMap (f : Fields) (names : List String) :
    (names.filterMap f.descriptor?).map Descriptor.fieldName = names.filter f.asks := by
  induction names with
  | nil => rfl
  | cons name names ih =>
    cases h : f.descriptor? name with
    | none =>
      have hasks : ¬ f.asks name := by simp [asks, h]
      rw [List.filterMap_cons_none h, List.filter_cons_of_neg hasks, ih]
    | some d =>
      have hasks : f.asks name := by simp [asks, h]
      rw [List.filterMap_cons_some h, List.filter_cons_of_pos hasks, List.map_cons, ih,
        fieldName_eq h]

/-- The names of the extensions asked for, in the order of their instructions. -/
def askedNames (f : Fields) : List String :=
  (f.order ++ fieldNames).eraseDups.filter f.asks

theorem descriptors_eq (f : Fields) : f.descriptors = f.askedNames.filterMap f.descriptor? :=
  (f.filterMap_filter_asks _).symm

theorem map_fieldName_descriptors (f : Fields) :
    f.descriptors.map Descriptor.fieldName = f.askedNames :=
  f.map_fieldName_filterMap _

/-- The order of the names is all that tells two lists of the same extensions apart. -/
theorem descriptors_eq_iff (h : f.descriptor? = g.descriptor?) :
    f.descriptors = g.descriptors ↔ f.askedNames = g.askedNames := by
  constructor
  · intro he
    rw [← map_fieldName_descriptors, he, map_fieldName_descriptors]
  · intro he
    rw [descriptors_eq, descriptors_eq, he, h]

theorem nodup_askedNames (f : Fields) : f.askedNames.Nodup :=
  (nodup_eraseDups _).sublist List.filter_sublist

theorem askedNames_perm (f : Fields) : f.askedNames.Perm (fieldNames.filter f.asks) := by
  have hfields : fieldNames.Nodup := by decide
  apply (List.perm_ext_iff_of_nodup f.nodup_askedNames
    (hfields.sublist List.filter_sublist)).mpr
  intro name
  rw [askedNames, List.mem_filter, List.mem_filter, List.mem_eraseDups, List.mem_append]
  constructor
  · rintro ⟨-, h⟩
    exact ⟨mem_fieldNames h, h⟩
  · rintro ⟨hmem, h⟩
    exact ⟨Or.inr hmem, h⟩

theorem mem_askedNames : name ∈ f.askedNames ↔ f.asks name := by
  rw [f.askedNames_perm.mem_iff, List.mem_filter]
  exact ⟨And.right, fun h => ⟨mem_fieldNames h, h⟩⟩

theorem asks_eq_of_descriptors (h : f.descriptors = g.descriptors) : f.asks = g.asks := by
  funext name
  rw [Bool.eq_iff_iff, ← mem_askedNames, ← mem_askedNames, ← map_fieldName_descriptors, h,
    map_fieldName_descriptors]

/-- Whatever comes first by name, each extension asked for comes once. -/
theorem descriptors_perm (f : Fields) :
    f.descriptors.Perm (fieldNames.filterMap f.descriptor?) := by
  rw [descriptors_eq, ← filterMap_filter_asks f fieldNames]
  exact f.askedNames_perm.filterMap f.descriptor?

theorem descriptors_perm_of_order (f : Fields) (order : List String) :
    f.descriptors.Perm { f with order := order }.descriptors :=
  f.descriptors_perm.trans { f with order := order }.descriptors_perm.symm

end Fields
end TokenWire.Extension
