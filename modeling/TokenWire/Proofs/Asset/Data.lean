import TokenWire.Asset.Data
import TokenWire.Proofs.Asset.Attribute
import TokenWire.Proofs.Metadata.Size

/-! The records that describe an asset: when each is written, and that it is then read back. -/

namespace TokenWire.Asset

open Layout Metadata

section Description

variable {name symbol uri : String} {sellerFee : Int} {creators : Option (List Creator)}

/-- The texts, the fee and the creators of an asset fit their fields. -/
structure Described (name symbol uri : String) (sellerFee : Int)
    (creators : Option (List Creator)) : Prop where
  name : Short name
  symbol : Short symbol
  uri : Short uri
  sellerFee : InField 2 sellerFee
  creators : ∀ cs ∈ creators, cs.length < capacity countWidth ∧ ∀ c ∈ cs, c.Fits

theorem writable_creators : creatorsLayout.Writable (creatorsValue creators) ↔
    ∀ cs ∈ creators, cs.length < capacity countWidth ∧ ∀ c ∈ cs, c.Fits := by
  have hlist : ∀ cs : List Creator, Value.list Creator.toValue cs ≠ .absent := nofun
  rw [creatorsLayout, creatorsValue, writable_optional hlist]
  simp only [writable_list, Creator.writable_toValue]

theorem shaped_creators (creators : Option (List Creator)) :
    creatorsLayout.Shaped (creatorsValue creators) :=
  .optional fun _ _ => .list fun c _ => c.shaped_toValue

theorem creatorsOfValue_creatorsValue (creators : Option (List Creator)) :
    creatorsOfValue (creatorsValue creators) = .ok creators :=
  Value.asOption_optional nofun (Value.asList_list Creator.ofValue_toValue) creators

variable {items : List Layout} {vs : List Value}

/-- All records of assets start in the same way. -/
theorem writable_described :
    Writable (.tuple (.string :: .string :: .string :: .u16 :: creatorsLayout :: items))
      (.seq (.text name :: .text symbol :: .text uri :: .int sellerFee ::
        creatorsValue creators :: vs)) ↔
      Described name symbol uri sellerFee creators ∧ Writable (.tuple items) (.seq vs) := by
  simp only [writable_tuple_cons, writable_text, writable_uint, writable_creators]
  constructor
  · rintro ⟨hname, hsymbol, huri, hfee, hcreators, hvs⟩
    exact ⟨⟨hname, hsymbol, huri, hfee, hcreators⟩, hvs⟩
  · rintro ⟨⟨hname, hsymbol, huri, hfee, hcreators⟩, hvs⟩
    exact ⟨hname, hsymbol, huri, hfee, hcreators, hvs⟩

theorem shaped_described (h : Shaped (.tuple items) (.seq vs)) :
    Shaped (.tuple (.string :: .string :: .string :: .u16 :: creatorsLayout :: items))
      (.seq (.text name :: .text symbol :: .text uri :: .int sellerFee ::
        creatorsValue creators :: vs)) :=
  .cons (.text 4 name) (.cons (.text 4 symbol) (.cons (.text 4 uri) (.cons (.uint 2 sellerFee)
    (.cons (shaped_creators creators) h))))

end Description

theorem writable_collection (collection : Option Collection) :
    Writable (.option Collection.layout) (.optional Collection.toValue collection) :=
  (writable_optional nofun).mpr fun c _ => c.writable_toValue

theorem writable_uses {uses : Option Uses} :
    Writable (.option Uses.layout) (.optional Uses.toValue uses) ↔ ∀ u ∈ uses, u.Fits := by
  have hseq : ∀ u : Uses, u.toValue ≠ .absent := nofun
  simp only [writable_optional hseq, Uses.writable_toValue]

theorem asOption_collection (collection : Option Collection) :
    (Value.optional Collection.toValue collection).asOption Collection.ofValue = .ok collection :=
  Value.asOption_optional nofun Collection.ofValue_toValue collection

theorem asOption_uses (uses : Option Uses) :
    (Value.optional Uses.toValue uses).asOption Uses.ofValue = .ok uses :=
  Value.asOption_optional nofun Uses.ofValue_toValue uses

namespace Data

/-- All that the record holds fits its field. -/
def Fits (d : Data) : Prop :=
  Described d.name d.symbol d.uri d.sellerFee d.creators

theorem writable_toValue {d : Data} : layout.Writable d.toValue ↔ d.Fits := by
  rw [layout, toValue, writable_struct]
  exact writable_described.trans (and_iff_left writable_tuple_nil)

theorem shaped_toValue (d : Data) : layout.Shaped d.toValue :=
  .struct (shaped_described .nil)

theorem ofValue_toValue (d : Data) : ofValue d.toValue = .ok d := by
  rw [toValue, ofValue, creatorsOfValue_creatorsValue]
  rfl

end Data

namespace DataV2

/-- All that the record holds fits its field. -/
structure Fits (d : DataV2) : Prop where
  described : Described d.name d.symbol d.uri d.sellerFee d.creators
  uses : ∀ u ∈ d.uses, u.Fits

theorem writable_toValue {d : DataV2} : layout.Writable d.toValue ↔ d.Fits := by
  rw [layout, toValue, writable_struct]
  refine writable_described.trans ?_
  simp only [List.map_cons, List.map_nil, writable_tuple_cons, writable_collection,
    writable_uses, writable_tuple_nil, and_true, true_and]
  constructor
  · rintro ⟨hdescribed, huses⟩
    exact ⟨hdescribed, huses⟩
  · rintro ⟨hdescribed, huses⟩
    exact ⟨hdescribed, huses⟩

theorem shaped_toValue (d : DataV2) : layout.Shaped d.toValue :=
  .struct (shaped_described
    (.cons (.optional fun c _ => c.shaped_toValue)
      (.cons (.optional fun u _ => u.shaped_toValue) .nil)))

theorem ofValue_toValue (d : DataV2) : ofValue d.toValue = .ok d := by
  rw [toValue, ofValue, creatorsOfValue_creatorsValue, asOption_collection, asOption_uses]
  rfl

end DataV2
end TokenWire.Asset
