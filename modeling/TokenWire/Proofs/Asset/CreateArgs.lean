import TokenWire.Asset.Command
import TokenWire.Proofs.Asset.Data

/-! Which arguments of a creation can be written, and that they are read back from the data. -/

namespace TokenWire.Asset

open Layout

namespace CreateArgs

/-- All that the arguments hold fits its field. -/
structure Fits (a : CreateArgs) : Prop where
  described : Described a.name a.symbol a.uri a.sellerFee a.creators
  uses : ∀ u ∈ a.uses, u.Fits
  collectionDetails : ∀ d ∈ a.collectionDetails, d.Fits
  decimals : ∀ n ∈ a.decimals, InField 1 n
  printSupply : ∀ s ∈ a.printSupply, s.Fits

variable {a : CreateArgs}

theorem writable_details {details : Option CollectionDetails} :
    Writable (.option CollectionDetails.layout) (.optional CollectionDetails.toValue details) ↔
      ∀ d ∈ details, d.Fits := by
  have hvariant : ∀ d : CollectionDetails, d.toValue ≠ .absent := by
    intro d
    cases d <;> nofun
  simp only [writable_optional hvariant, CollectionDetails.writable_toValue]

theorem writable_printSupply {supply : Option PrintSupply} :
    Writable (.option PrintSupply.layout) (.optional PrintSupply.toValue supply) ↔
      ∀ s ∈ supply, s.Fits := by
  have hvariant : ∀ s : PrintSupply, s.toValue ≠ .absent := nofun
  simp only [writable_optional hvariant, PrintSupply.writable_toValue]

theorem writable_toValue : layout.Writable a.toValue ↔ a.Fits := by
  have hstandard := a.tokenStandard.tag_inField
  have hruleSet : Writable (.option .key) (.optional .key a.ruleSet) :=
    (writable_optional nofun).mpr fun k _ => writable_key k
  have hdecimals : Writable (.option .u8) (.optional .int a.decimals) ↔
      ∀ n ∈ a.decimals, InField 1 n := by
    have hint : ∀ n, Value.int n ≠ .absent := nofun
    simp only [writable_optional hint, writable_uint]
  rw [layout, toValue, writable_known (by decide) rfl, fieldsLayout, writable_struct]
  refine writable_described.trans ?_
  simp only [List.map_cons, List.map_nil, writable_tuple_cons, writable_bool, writable_uint,
    writable_collection, writable_uses, writable_details, writable_printSupply, writable_tuple_nil,
    hstandard, hruleSet, hdecimals, and_true, true_and]
  constructor
  · rintro ⟨hdescribed, huses, hdetails, hdecimals, hsupply⟩
    exact ⟨hdescribed, huses, hdetails, hdecimals, hsupply⟩
  · rintro ⟨hdescribed, huses, hdetails, hdecimals, hsupply⟩
    exact ⟨hdescribed, huses, hdetails, hdecimals, hsupply⟩

/-- A limit that is left open has no value of the layout, so the supply has to fit. -/
theorem shaped_toValue (h : ∀ s ∈ a.printSupply, s.Fits) : layout.Shaped a.toValue :=
  .known rfl (.struct (shaped_described
    (.cons (.bool a.primarySaleHappened) (.cons (.bool a.isMutable) (.cons (.uint 1 _)
      (.cons (.optional fun c _ => c.shaped_toValue)
        (.cons (.optional fun u _ => u.shaped_toValue)
          (.cons (.optional fun d _ => d.shaped_toValue) (.cons (.optionKey a.ruleSet)
            (.cons (.optional fun n _ => .uint 1 n)
              (.cons (.optional fun s hs => PrintSupply.shaped_toValue (h s hs))
                .nil)))))))))))

theorem ofValue_toValue (h : a.Fits) : ofValue a.toValue = .ok a := by
  have hdetails : (Value.optional CollectionDetails.toValue a.collectionDetails).asOption
      CollectionDetails.ofValue = .ok a.collectionDetails := by
    apply Value.asOption_optional
    · intro d
      cases d <;> nofun
    · exact CollectionDetails.ofValue_toValue
  have hsupply : (Value.optional PrintSupply.toValue a.printSupply).asOption PrintSupply.ofValue =
      .ok (a.printSupply.map id) :=
    Value.asOption_optional_map nofun fun s hs => PrintSupply.ofValue_toValue (h.printSupply s hs)
  rw [Option.map_id_fun, id] at hsupply
  rw [toValue, ofValue, a.tokenStandard.ofInt_tag, creatorsOfValue_creatorsValue,
    asOption_collection, asOption_uses, hdetails, Value.asOption_key, Value.asOption_int, hsupply]
  rfl

end CreateArgs

theorem everywhere_plain : layout.everywhere plain := by
  decide

namespace Command

theorem create_encode_iff {a : CreateArgs} :
    (∃ data, (create a).encode = .ok data) ↔ a.Fits := by
  rw [encode, ← writable_iff_write, toValue, Asset.layout, writable_known (by decide) rfl,
    CreateArgs.writable_toValue]

theorem create_parse {a : CreateArgs} {data : Bytes} (h : (create a).encode = .ok data) :
    layout.parse data = .ok (.variant 42 a.toValue) := by
  have hfits := create_encode_iff.mp ⟨data, h⟩
  have hshaped : layout.Shaped (create a).toValue :=
    .known rfl (CreateArgs.shaped_toValue hfits.printSupply)
  exact hshaped.parse_of_write everywhere_plain h

end Command

/--
The arguments of a creation can be written exactly when each of them fits its field, and are then
read back from the data. So are the records of assets. Different arguments make different data.
-/
theorem create_roundTrip :
    (∀ a : CreateArgs,
      ((∃ data, (Command.create a).encode = .ok data) ↔ a.Fits) ∧
      ∀ data, (Command.create a).encode = .ok data →
        ∃ v, layout.parse data = .ok (.variant 42 v) ∧ CreateArgs.ofValue v = .ok a) ∧
    (∀ d : DataV2,
      ((∃ data, DataV2.layout.write d.toValue = .ok data) ↔ d.Fits) ∧
      ∀ data, DataV2.layout.write d.toValue = .ok data →
        ∃ v, DataV2.layout.parse data = .ok v ∧ DataV2.ofValue v = .ok d) ∧
    (∀ d : Data,
      ((∃ data, Data.layout.write d.toValue = .ok data) ↔ d.Fits) ∧
      ∀ data, Data.layout.write d.toValue = .ok data →
        ∃ v, Data.layout.parse data = .ok v ∧ Data.ofValue v = .ok d) ∧
    ∀ (a b : CreateArgs) (data : Bytes), a ≠ b → (Command.create a).encode = .ok data →
      (Command.create b).encode ≠ .ok data := by
  have hcreate : ∀ (a : CreateArgs) (data : Bytes), (Command.create a).encode = .ok data →
      ∃ v, layout.parse data = .ok (.variant 42 v) ∧ CreateArgs.ofValue v = .ok a := by
    intro a data h
    have hfits := Command.create_encode_iff.mp ⟨data, h⟩
    exact ⟨_, Command.create_parse h, CreateArgs.ofValue_toValue hfits⟩
  refine ⟨fun a => ⟨Command.create_encode_iff, hcreate a⟩, fun d => ⟨?_, ?_⟩,
    fun d => ⟨?_, ?_⟩, ?_⟩
  · rw [← writable_iff_write, DataV2.writable_toValue]
  · intro data h
    exact ⟨_, d.shaped_toValue.parse_of_write (by decide) h, d.ofValue_toValue⟩
  · rw [← writable_iff_write, Data.writable_toValue]
  · intro data h
    exact ⟨_, d.shaped_toValue.parse_of_write (by decide) h, d.ofValue_toValue⟩
  · intro a b data hne ha hb
    obtain ⟨v, hv, hread⟩ := hcreate a data ha
    obtain ⟨w, hw, hread'⟩ := hcreate b data hb
    rw [hv] at hw
    cases hw
    rw [hread] at hread'
    exact hne (Except.ok.inj hread')

/-- An empty list of creators, reserved bytes of a collection, and a limit of three prints. -/
theorem create_roundTrip_limited :
    let described : Bytes :=
      [2, 0, 0, 0, 195, 169, 0, 0, 0, 0, 1, 0, 0, 0, 117, 244, 1, 1, 0, 0, 0, 0]
    let used : Bytes := [1, 2, 1, 0, 0, 0, 0, 0, 0, 0, 2, 0, 0, 0, 0, 0, 0, 0]
    let d : Data := ⟨"é", "", "u", 500, some []⟩
    let d₂ : DataV2 := ⟨"é", "", "u", 500, some [], none, some ⟨.single, 1, 2⟩⟩
    let a : CreateArgs := { CreateArgs.ofDataV2 d₂ .programmableNonFungible with
      collectionDetails := some .v2, printSupply := some (.limited (some 3)) }
    let data := 42 :: 0 :: described ++ [0, 1, 4, 0] ++ used ++
      [1, 1, 0, 0, 0, 0, 0, 0, 0, 0, 0, 0, 1, 1, 3, 0, 0, 0, 0, 0, 0, 0]
    (Command.create a).encode = .ok data ∧
      (a.Fits ∧ ∃ v, layout.parse data = .ok (.variant 42 v) ∧ CreateArgs.ofValue v = .ok a) ∧
      DataV2.layout.write d₂.toValue = .ok (described ++ 0 :: used) ∧
      (∃ v, DataV2.layout.parse (described ++ 0 :: used) = .ok v ∧ DataV2.ofValue v = .ok d₂) ∧
      Data.layout.write d.toValue = .ok described ∧
      (∃ v, Data.layout.parse described = .ok v ∧ Data.ofValue v = .ok d) ∧
      (Command.create { a with creators := none }).encode ≠ .ok data := by
  intro described used d d₂ a data
  have ha : (Command.create a).encode = .ok data := by decide +kernel
  have hd₂ : DataV2.layout.write d₂.toValue = .ok (described ++ 0 :: used) := by
    decide +kernel
  have hd : Data.layout.write d.toValue = .ok described := by decide +kernel
  obtain ⟨hargs, hrecord₂, hrecord, hdifferent⟩ := create_roundTrip
  have hne : a ≠ { a with creators := none } := by decide
  exact ⟨ha, ⟨(hargs a).1.mp ⟨data, ha⟩, (hargs a).2 data ha⟩, hd₂, (hrecord₂ d₂).2 _ hd₂, hd,
    (hrecord d).2 _ hd, hdifferent a _ data hne ha⟩

end TokenWire.Asset
