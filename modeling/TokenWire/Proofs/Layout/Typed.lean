import Mathlib.Data.List.Forall2
import TokenWire.Proofs.Layout.Everywhere
import TokenWire.Proofs.Layout.RoundTrip
import TokenWire.Proofs.Value

/-! Values made of typed data: their shapes, and layouts that give them back as they are. -/

namespace TokenWire
namespace Layout

section Plain

/-- Whether no key stands for none here. -/
def plain : Layout → Bool
  | .sentinelKey => false
  | _ => true

theorem normalizeItems_eq_self {items : List Layout} (h : ∀ item ∈ items, ∀ v, item.normalize v = v)
    (vs : List Value) : normalizeItems items vs = vs := by
  induction items generalizing vs with
  | nil => rfl
  | cons item items ih =>
    cases vs with
    | nil => rfl
    | cons v vs =>
      have hv := h item List.mem_cons_self v
      have hvs := ih (fun i hi => h i (List.mem_cons_of_mem _ hi)) vs
      rw [normalizeItems, hv, hvs]

theorem normalize_tuple_eq_self {items : List Layout}
    (h : ∀ item ∈ items, ∀ v, item.normalize v = v) (v : Value) :
    normalize (.tuple items) v = v := by
  cases v with
  | seq vs => exact congrArg Value.seq (normalizeItems_eq_self h vs)
  | _ => rfl

/-- Without keys that stand for none, every value is read back as it is. -/
theorem normalize_eq_self {layout : Layout} (hl : layout.everywhere plain) (v : Value) :
    layout.normalize v = v := by
  induction layout generalizing v with
  | sentinelKey => cases hl
  | option item ih => exact ih (everywhere_option.mp hl).2 v
  | vec item ih =>
    cases v with
    | seq vs =>
      have hid : normalize item = id := funext fun w => ih hl w
      rw [normalize, hid, List.map_id]
    | _ => rfl
  | tuple items ih =>
    rw [everywhere_tuple] at hl
    exact normalize_tuple_eq_self (fun item hi => ih item hi (hl item hi)) v
  | struct fields ih =>
    rw [everywhere_struct, everywhere_tuple] at hl
    rw [normalize_struct]
    apply normalize_tuple_eq_self
    intro item hi
    obtain ⟨field, hf, rfl⟩ := List.mem_map.mp hi
    exact ih field hf (hl _ hi)
  | tagged selector arms ih =>
    cases v with
    | variant tag body =>
      rw [normalize, normalizeArm_eq]
      cases harm : arms.lookup tag with
      | none => rfl
      | some arm =>
        obtain ⟨t, ht⟩ := exists_mem_of_lookup harm
        have hbody := ih _ ht (everywhere_tagged.mp hl _ ht) body
        exact congrArg (Value.variant tag) hbody
    | _ => rfl
  | _ => cases v <;> rfl

theorem Shaped.parse_of_write {layout : Layout} {v : Value} {data : Bytes} (hv : Shaped layout v)
    (hl : layout.everywhere plain) (h : layout.write v = .ok data) :
    layout.parse data = .ok v := by
  have hread := hv.parse_eq h
  rwa [normalize_eq_self hl] at hread

end Plain

section Views

variable {α : Type} {f : α → Value} {item : Layout}

theorem Shaped.optional {a? : Option α} (h : ∀ a ∈ a?, Shaped item (f a)) :
    Shaped (.option item) (.optional f a?) := by
  cases a? with
  | none => exact .absent item
  | some a => exact .present (h a rfl)

theorem Shaped.list {as : List α} (h : ∀ a ∈ as, Shaped item (f a)) :
    Shaped (.vec item) (.list f as) := by
  refine shaped_vec.mpr ⟨as.map f, rfl, ?_⟩
  intro v hv
  obtain ⟨a, ha, rfl⟩ := List.mem_map.mp hv
  exact h a ha

theorem Shaped.toggle (h : ∀ a, Shaped item (f a)) (t : Toggle α) :
    Shaped (Toggle.layout item) (t.toValue f) := by
  cases t with
  | unchanged => exact .known rfl .unit
  | clear => exact .known rfl .unit
  | set a => exact .known rfl (h a)

theorem segments_replicate {item : Layout} {vs : List Value} {segments : List Bytes} :
    Segments (List.replicate vs.length item) vs segments ↔
      List.Forall₂ (fun v bs => encode item v = .ok bs) vs segments := by
  induction vs generalizing segments with
  | nil =>
    rw [List.forall₂_nil_left_iff]
    constructor
    · rintro ⟨⟩
      rfl
    · rintro rfl
      exact .nil
  | cons v vs ih =>
    rw [List.forall₂_cons_left_iff]
    constructor
    · rintro (_ | ⟨hown, hrest⟩)
      exact ⟨_, _, hown, ih.mp hrest, rfl⟩
    · rintro ⟨own, rest, hown, hrest, rfl⟩
      exact .cons hown (ih.mpr hrest)

/-- A list is written as the number of its items and then the bytes of each. -/
theorem encode_list_eq_ok {as : List α} {bs : Bytes} :
    encode (.vec item) (.list f as) = .ok bs ↔ ∃ parts, as.length < capacity countWidth ∧
      List.Forall₂ (fun a own => encode item (f a) = .ok own) as parts ∧
      bs = littleEndian countWidth as.length ++ parts.flatten := by
  rw [Value.list, encode_vec_eq_ok, List.length_map]
  have hlength : (as.map f).length = as.length := List.length_map f
  constructor
  · rintro ⟨body, hlt, hbody, rfl⟩
    obtain ⟨parts, hparts, rfl⟩ := encode_tuple_eq_ok.mp hbody
    rw [← hlength, segments_replicate, List.forall₂_map_left_iff] at hparts
    exact ⟨parts, hlt, hparts, rfl⟩
  · rintro ⟨parts, hlt, hparts, rfl⟩
    have hsegments : Segments (List.replicate as.length item) (as.map f) parts := by
      rw [← hlength, segments_replicate, List.forall₂_map_left_iff]
      exact hparts
    exact ⟨_, hlt, encode_tuple_eq_ok.mpr ⟨parts, hsegments, rfl⟩, rfl⟩

end Views
end Layout

theorem Toggle.ofValue_toValue {α : Type} {f : α → Value} {g : Value → Except Error α}
    (h : ∀ a, g (f a) = .ok a) (t : Toggle α) : ofValue g (t.toValue f) = .ok t := by
  cases t with
  | unchanged => rfl
  | clear => rfl
  | set a =>
    change (g (f a)).map set = .ok (set a)
    rw [h]
    rfl

end TokenWire
