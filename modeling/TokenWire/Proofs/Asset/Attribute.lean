import TokenWire.Asset.Attribute
import TokenWire.Proofs.Layout.Typed
import TokenWire.Proofs.Layout.Writable

/-! The attributes of an asset: when each is written, and that it is then read back. -/

namespace TokenWire.Asset

open Layout

theorem TokenStandard.ofInt_tag (s : TokenStandard) :
    Enumeration.ofInt (Enumeration.tag s) = .ok s := by
  cases s <;> rfl

theorem TokenStandard.tag_inField (s : TokenStandard) : InField 1 (Enumeration.tag s) := by
  cases s <;> decide

theorem UseMethod.ofInt_tag (m : UseMethod) : Enumeration.ofInt (Enumeration.tag m) = .ok m := by
  cases m <;> rfl

theorem UseMethod.tag_inField (m : UseMethod) : InField 1 (Enumeration.tag m) := by
  cases m <;> decide

namespace Creator

/-- The share is a number of one byte. -/
def Fits (c : Creator) : Prop :=
  InField 1 c.share

theorem writable_toValue {c : Creator} : layout.Writable c.toValue ↔ c.Fits := by
  simp [layout, toValue, Fits]

theorem shaped_toValue (c : Creator) : layout.Shaped c.toValue :=
  .struct (.cons (.key c.address) (.cons (.bool c.verified) (.cons (.uint 1 c.share) .nil)))

theorem ofValue_toValue (c : Creator) : ofValue c.toValue = .ok c := rfl

end Creator

namespace Collection

theorem writable_toValue (c : Collection) : layout.Writable c.toValue := by
  simp [layout, toValue]

theorem shaped_toValue (c : Collection) : layout.Shaped c.toValue :=
  .struct (.cons (.bool c.verified) (.cons (.key c.key) .nil))

theorem ofValue_toValue (c : Collection) : ofValue c.toValue = .ok c := rfl

end Collection

namespace Uses

/-- Both counts are numbers of eight bytes. -/
structure Fits (u : Uses) : Prop where
  remaining : InField 8 u.remaining
  total : InField 8 u.total

theorem writable_toValue {u : Uses} : layout.Writable u.toValue ↔ u.Fits := by
  have hmethod := u.method.tag_inField
  simp only [layout, toValue, writable_struct, List.map_cons, List.map_nil, writable_tuple_cons,
    writable_uint, writable_tuple_nil, and_true]
  constructor
  · rintro ⟨-, hremaining, htotal⟩
    exact ⟨hremaining, htotal⟩
  · rintro ⟨hremaining, htotal⟩
    exact ⟨hmethod, hremaining, htotal⟩

theorem shaped_toValue (u : Uses) : layout.Shaped u.toValue :=
  .struct (.cons (.uint 1 _) (.cons (.uint 8 u.remaining) (.cons (.uint 8 u.total) .nil)))

theorem ofValue_toValue (u : Uses) : ofValue u.toValue = .ok u := by
  rw [toValue, ofValue, u.method.ofInt_tag]
  rfl

end Uses

namespace CollectionDetails

/-- A number of items has eight bytes, and so have the reserved bytes. -/
def Fits : CollectionDetails → Prop
  | v1 size => InField 8 size
  | v2 padding => padding.length = 8

theorem writable_toValue {d : CollectionDetails} : layout.Writable d.toValue ↔ d.Fits := by
  cases d with
  | v1 size =>
    rw [toValue, layout, writable_known (by decide) rfl]
    simp [Fits]
  | v2 padding =>
    rw [toValue, layout, writable_known (by decide) rfl]
    simp [Fits]

theorem shaped_toValue (d : CollectionDetails) : layout.Shaped d.toValue := by
  cases d with
  | v1 size => exact .known rfl (.struct (.cons (.uint 8 size) .nil))
  | v2 padding => exact .known rfl (.struct (.cons (.fixed 8 padding) .nil))

theorem ofValue_toValue (d : CollectionDetails) : ofValue d.toValue = .ok d := by
  cases d <;> rfl

end CollectionDetails

namespace PrintSupply

/-- A limit is given, and is a number of eight bytes. -/
def Fits : PrintSupply → Prop
  | limited limit => ∃ n, limit = some n ∧ InField 8 n
  | zero | unlimited => True

theorem writable_toValue {s : PrintSupply} : layout.Writable s.toValue ↔ s.Fits := by
  cases s with
  | zero => exact iff_of_true ⟨_, rfl⟩ trivial
  | unlimited => exact iff_of_true ⟨_, rfl⟩ trivial
  | limited limit =>
    change layout.Writable (.variant 1 (.optional .int limit)) ↔ _
    rw [layout, writable_known (by decide) rfl]
    cases limit with
    | none => simp [Fits, Value.optional]
    | some n => simp [Fits, Value.optional]

theorem shaped_toValue {s : PrintSupply} (h : s.Fits) : layout.Shaped s.toValue := by
  cases s with
  | zero => exact .known rfl .unit
  | unlimited => exact .known rfl .unit
  | limited limit =>
    obtain ⟨n, rfl, -⟩ := h
    exact .known rfl (.uint 8 n)

theorem ofValue_toValue {s : PrintSupply} (h : s.Fits) : ofValue s.toValue = .ok s := by
  cases s with
  | zero => rfl
  | unlimited => rfl
  | limited limit =>
    obtain ⟨n, rfl, -⟩ := h
    rfl

end PrintSupply
end TokenWire.Asset
