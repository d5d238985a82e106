import TokenWire.Asset.Action
import TokenWire.Proofs.Account.Slots
import TokenWire.Proofs.Asset.Authorization
import TokenWire.Proofs.Asset.CreateArgs

/-! The arguments of an update are read back from the data, and each stands in bytes of its own. -/

namespace TokenWire.Asset

open Layout

namespace UpdateArgs

variable {a : UpdateArgs}

/-- The arguments that the fields of data hold, each field read by itself. -/
def ofValue : Value → Except Error UpdateArgs
  | .seq [newUpdateAuthority, data, primarySaleHappened, isMutable, collection, collectionDetails,
      uses, ruleSet, authorization] => do
    let newUpdateAuthority ← newUpdateAuthority.asOption Value.asKey
    let data ← data.asOption Data.ofValue
    let primarySaleHappened ← primarySaleHappened.asOption Value.asBool
    let isMutable ← isMutable.asOption Value.asBool
    let collection ← Toggle.ofValue Collection.ofValue collection
    let collectionDetails ← Toggle.ofValue CollectionDetails.ofValue collectionDetails
    let uses ← Toggle.ofValue Uses.ofValue uses
    let ruleSet ← Toggle.ofValue Value.asKey ruleSet
    let authorization ← authorization.asOption Authorization.ofValue
    pure ⟨newUpdateAuthority, data, primarySaleHappened, isMutable, collection, collectionDetails,
      uses, ruleSet, authorization⟩
  | _ => .error .wrongShape

/-- Only the order of the values for rules is not read back. -/
theorem ofValue_fieldsValue (a : UpdateArgs) : ofValue a.fieldsValue =
    .ok { a with authorization := a.authorization.map Authorization.ordered } := by
  have hdata : (Value.optional Data.toValue a.data).asOption Data.ofValue = .ok a.data :=
    Value.asOption_optional nofun Data.ofValue_toValue a.data
  have hcollection := Toggle.ofValue_toValue Collection.ofValue_toValue a.collection
  have hdetails := Toggle.ofValue_toValue CollectionDetails.ofValue_toValue a.collectionDetails
  have huses := Toggle.ofValue_toValue Uses.ofValue_toValue a.uses
  have hkey : ∀ k : Key, Value.asKey (.key k) = .ok k := fun _ => rfl
  have hruleSet := Toggle.ofValue_toValue hkey a.ruleSet
  have hauthorization : (Value.optional Authorization.toValue a.authorization).asOption
      Authorization.ofValue = .ok (a.authorization.map Authorization.ordered) :=
    Value.asOption_optional_map nofun fun auth _ => Authorization.ofValue_toValue auth
  rw [fieldsValue, fieldValues, ofValue, Value.asOption_key, hdata, Value.asOption_bool,
    Value.asOption_bool, hcollection, hdetails, huses, hruleSet, hauthorization]
  rfl

theorem shaped_toValue (a : UpdateArgs) : layout.Shaped a.toValue :=
  .known rfl (.struct
    (.cons (.optional fun k _ => .key k) (.cons (.optional fun d _ => d.shaped_toValue)
      (.cons (.optional fun b _ => .bool b) (.cons (.optional fun b _ => .bool b)
        (.cons (.toggle Collection.shaped_toValue a.collection)
          (.cons (.toggle CollectionDetails.shaped_toValue a.collectionDetails)
            (.cons (.toggle Uses.shaped_toValue a.uses)
              (.cons (.toggle .key a.ruleSet)
                (.cons (.optional fun auth _ => Authorization.shaped_toValue auth)
                  .nil))))))))))

/-- The place of the field that changes. -/
def Change.index : Change → Nat
  | .newUpdateAuthority _ => 0
  | .data _ => 1
  | .primarySaleHappened _ => 2
  | .isMutable _ => 3
  | .collection _ => 4
  | .collectionDetails _ => 5
  | .uses _ => 6
  | .ruleSet _ => 7
  | .authorization _ => 8

/-- What the field holds after the change. -/
def Change.value : Change → Value
  | .newUpdateAuthority k? => .optional .key k?
  | .data d? => .optional Data.toValue d?
  | .primarySaleHappened b? => .optional .bool b?
  | .isMutable b? => .optional .bool b?
  | .collection t => t.toValue Collection.toValue
  | .collectionDetails t => t.toValue CollectionDetails.toValue
  | .uses t => t.toValue Uses.toValue
  | .ruleSet t => t.toValue .key
  | .authorization auth? => .optional Authorization.toValue auth?

theorem Change.index_lt (change : Change) : change.index < a.fieldValues.length := by
  cases change <;> simp [index, fieldValues]

theorem fieldValues_apply (a : UpdateArgs) (change : Change) :
    (a.apply change).fieldValues = a.fieldValues.set change.index change.value := by
  cases change <;> rfl

/-- The bytes of each field. -/
def Segments (a : UpdateArgs) (segments : List Bytes) : Prop :=
  Layout.Segments (fields.map Prod.snd) a.fieldValues segments

theorem Segments.split_of_apply {change : Change} {segments segments' : List Bytes}
    (h : a.Segments segments) (h' : (a.apply change).Segments segments') :
    ∃ before own own' behind, segments = before ++ own :: behind ∧
      segments' = before ++ own' :: behind ∧ before.length = change.index := by
  rw [Segments, fieldValues_apply] at h'
  exact Layout.Segments.split_of_set h change.index_lt h'

theorem encode_eq_ok {bs : Bytes} : layout.encode a.toValue = .ok bs ↔
    ∃ segments, a.Segments segments ∧ bs = 0 :: segments.flatten := by
  rw [layout, toValue, encode_known_eq_ok (by decide) rfl]
  simp only [fieldsLayout, fieldsValue, encode_struct, encode_tuple_eq_ok]
  constructor
  · rintro ⟨_, ⟨segments, h, rfl⟩, rfl⟩
    exact ⟨segments, h, rfl⟩
  · rintro ⟨segments, h, rfl⟩
    exact ⟨_, ⟨segments, h, rfl⟩, rfl⟩

end UpdateArgs

namespace Command

variable {a : UpdateArgs} {data : Bytes}

theorem update_encode_eq_ok : (update a).encode = .ok data ↔
    ∃ segments, a.Segments segments ∧ data = 50 :: 0 :: segments.flatten := by
  rw [encode, write_eq_ok, toValue, Asset.layout, encode_known_eq_ok (by decide) rfl]
  simp only [UpdateArgs.encode_eq_ok]
  constructor
  · rintro ⟨_, ⟨segments, h, rfl⟩, rfl⟩
    exact ⟨segments, h, rfl⟩
  · rintro ⟨segments, h, rfl⟩
    exact ⟨_, ⟨segments, h, rfl⟩, rfl⟩

theorem update_parse (h : (update a).encode = .ok data) :
    layout.parse data = .ok (.variant 50 (.variant 0 a.fieldsValue)) := by
  have hshaped : layout.Shaped (update a).toValue := .known rfl a.shaped_toValue
  exact hshaped.parse_of_write everywhere_plain h

end Command

section Replacement

variable {payer mint : Key} {d : Data} {ix : Instruction}

theorem UpdateBuilder.instruction_eq_ok {b : UpdateBuilder} : b.instruction.result = .ok ix ↔
    ∃ data, (Command.update b.args).encode = .ok data ∧
      (b.slots.assemble Program.asset data).result = .ok ix := by
  rw [instruction, Logged.result_bind, Checked.bind_eq_ok]
  rfl

theorem UpdateBuilder.complete_ofData (payer : Key) (accounts : Accounts) (d : Data) :
    (ofData payer accounts d).slots.Complete := by
  intro r _ hempty
  cases r <;> first | rfl | cases hempty

theorem updateAsset_eq_ok : (updateAsset payer mint d).result = .ok ix ↔
    ∃ accounts, Accounts.ofMint mint = .ok accounts ∧
      (UpdateBuilder.ofData payer accounts d).instruction.result = .ok ix := by
  rw [updateAsset, Logged.result_bind, Checked.bind_eq_ok]
  rfl

theorem updateAsset_encode (h : (updateAsset payer mint d).result = .ok ix) :
    (Command.update { data := some d }).encode = .ok ix.data := by
  obtain ⟨accounts, -, h⟩ := updateAsset_eq_ok.mp h
  obtain ⟨data, hdata, h⟩ := UpdateBuilder.instruction_eq_ok.mp h
  obtain ⟨-, rfl⟩ := Slots.assemble_eq_ok.mp h
  exact hdata

theorem Command.update_data_encode_iff :
    (∃ data, (update { data := some d }).encode = .ok data) ↔ d.Fits := by
  have hdata : Writable (.option Data.layout) (.optional Data.toValue (some d)) ↔ d.Fits := by
    have hseq : ∀ d : Data, d.toValue ≠ .absent := nofun
    rw [writable_optional hseq, ← Data.writable_toValue]
    simp
  have hunchanged : ∀ (item : Layout) {α : Type} (f : α → Value),
      Writable (Toggle.layout item) (Toggle.unchanged.toValue f) := fun _ _ _ => ⟨_, rfl⟩
  rw [encode, ← writable_iff_write, toValue, Asset.layout, writable_known (by decide) rfl,
    UpdateArgs.layout, UpdateArgs.toValue, writable_known (by decide) rfl,
    UpdateArgs.fieldsLayout, UpdateArgs.fieldsValue, writable_struct]
  simp only [UpdateArgs.fields, UpdateArgs.fieldValues, List.map_cons, List.map_nil,
    writable_tuple_cons, hdata, hunchanged, writable_none, writable_tuple_nil, true_and, and_true]

theorem exists_updateAsset : (∃ ix, (updateAsset payer mint d).result = .ok ix) ↔
    d.Fits ∧ ∃ metadata, (metadataDerivation mint).address = .ok metadata := by
  rw [← Command.update_data_encode_iff]
  constructor
  · rintro ⟨ix, h⟩
    refine ⟨⟨ix.data, updateAsset_encode h⟩, ?_⟩
    obtain ⟨accounts, haccounts, -⟩ := updateAsset_eq_ok.mp h
    obtain ⟨metadata, hmetadata, -⟩ := Checked.bind_eq_ok.mp haccounts
    exact ⟨metadata, hmetadata⟩
  · rintro ⟨⟨data, hdata⟩, metadata, hmetadata⟩
    have haccounts : Accounts.ofMint mint = .ok { mint, metadata } :=
      Checked.bind_eq_ok.mpr ⟨metadata, hmetadata, rfl⟩
    have hcomplete := UpdateBuilder.complete_ofData payer { mint, metadata } d
    obtain ⟨ix, hix⟩ := Slots.exists_assemble.mpr hcomplete
    have hmade : (UpdateBuilder.ofData payer { mint, metadata } d).instruction.result = .ok ix :=
      UpdateBuilder.instruction_eq_ok.mpr ⟨data, hdata, hix⟩
    exact ⟨ix, updateAsset_eq_ok.mpr ⟨_, haccounts, hmade⟩⟩

end Replacement

/--
The arguments of an update are read back from its data, the values for rules by their names. A
change of one argument changes no byte before or behind its own, and an instruction that replaces
the data of an asset leaves everything else alone.
-/
theorem update_roundTrip :
    (∀ (a : UpdateArgs) (data : Bytes), (Command.update a).encode = .ok data →
      ∃ fields authorization, layout.parse data = .ok (.variant 50 (.variant 0 fields)) ∧
        UpdateArgs.ofValue fields = .ok { a with authorization } ∧
        Option.Rel (fun x y : Authorization => ∀ name, x.find? name = y.find? name)
          authorization a.authorization) ∧
    (∀ (a : UpdateArgs) (change : UpdateArgs.Change) (data data' : Bytes),
      (Command.update a).encode = .ok data →
      (Command.update (a.apply change)).encode = .ok data' →
      ∃ before own own' behind,
        a.Segments (before ++ own :: behind) ∧
        (a.apply change).Segments (before ++ own' :: behind) ∧
        before.length = change.index ∧
        data = 50 :: 0 :: (before.flatten ++ own ++ behind.flatten) ∧
        data' = 50 :: 0 :: (before.flatten ++ own' ++ behind.flatten)) ∧
    ∀ (payer mint : Key) (d : Data),
      ((∃ ix, (updateAsset payer mint d).result = .ok ix) ↔
        d.Fits ∧ ∃ metadata, (metadataDerivation mint).address = .ok metadata) ∧
      ∀ ix, (updateAsset payer mint d).result = .ok ix →
        ∃ fields, layout.parse ix.data = .ok (.variant 50 (.variant 0 fields)) ∧
          UpdateArgs.ofValue fields = .ok { data := some d } := by
  refine ⟨?_, ?_, fun payer mint d => ⟨exists_updateAsset, ?_⟩⟩
  · intro a data h
    refine ⟨_, _, Command.update_parse h, a.ofValue_fieldsValue, ?_⟩
    cases a.authorization with
    | none => exact .none
    | some auth => exact .some auth.find?_ordered
  · intro a change data data' h h'
    obtain ⟨segments, hsegments, rfl⟩ := Command.update_encode_eq_ok.mp h
    obtain ⟨segments', hsegments', rfl⟩ := Command.update_encode_eq_ok.mp h'
    obtain ⟨before, own, own', behind, rfl, rfl, hbefore⟩ := hsegments.split_of_apply hsegments'
    exact ⟨before, own, own', behind, hsegments, hsegments', hbefore, by simp, by simp⟩
  · intro ix h
    have hdata := updateAsset_encode h
    exact ⟨_, Command.update_parse hdata, UpdateArgs.ofValue_fieldsValue _⟩

/-- Updates of each kind, values for rules against the order of names, and a cleared rule set. -/
theorem update_roundTrip_cleared :
    let k : Key := ⟨List.replicate 32 7, rfl⟩
    let d : Data := ⟨"é", "", "u", 500, some []⟩
    let rules : Authorization := Entries.ofList [("b", .number 5), ("a", .seeds [[1]])]
    let a : UpdateArgs := {
      data := some d, isMutable := some false, collection := .set ⟨false, k⟩,
      collectionDetails := .clear, ruleSet := .set k, authorization := some rules }
    let described : Bytes :=
      [2, 0, 0, 0, 195, 169, 0, 0, 0, 0, 1, 0, 0, 0, 117, 244, 1, 1, 0, 0, 0, 0]
    let front := 50 :: 0 :: 0 :: 1 :: described ++ [0, 1, 0, 2, 0] ++ k.bytes ++ [1, 0]
    let back : Bytes := [1, 2, 0, 0, 0, 1, 0, 0, 0, 97, 1, 1, 0, 0, 0, 1, 0, 0, 0, 1,
      1, 0, 0, 0, 98, 3, 5, 0, 0, 0, 0, 0, 0, 0]
    (Command.update a).encode = .ok (front ++ 2 :: k.bytes ++ back) ∧
      (∃ fields authorization,
        layout.parse (front ++ 2 :: k.bytes ++ back) = .ok (.variant 50 (.variant 0 fields)) ∧
        UpdateArgs.ofValue fields = .ok { a with authorization } ∧
        Option.Rel (fun x y : Authorization => ∀ name, x.find? name = y.find? name)
          authorization (some rules)) ∧
      (Command.update (a.apply (.ruleSet .clear))).encode = .ok (front ++ 1 :: back) ∧
      (∃ (before behind : List Bytes) (own own' : Bytes), before.length = 7 ∧
        front ++ 2 :: k.bytes ++ back = 50 :: 0 :: (before.flatten ++ own ++ behind.flatten) ∧
        front ++ 1 :: back = 50 :: 0 :: (before.flatten ++ own' ++ behind.flatten)) ∧
      ∃ ix fields, (updateAsset k k d).result = .ok ix ∧
        layout.parse ix.data = .ok (.variant 50 (.variant 0 fields)) ∧
        UpdateArgs.ofValue fields = .ok { data := some d } := by
  intro k d rules a described front back
  have hrules : encode (.option Authorization.layout)
      (.optional Authorization.toValue (some rules)) = .ok back := by
    have hlist : rules.toList = [("b", .number 5), ("a", .seeds [[1]])] := by decide +kernel
    have hsorted : Authorization.sorted rules = [("a", .seeds [[1]]), ("b", .number 5)] :=
      Authorization.sorted_eq (hlist ▸ List.Perm.swap ..) (by decide +kernel)
    rw [Value.optional, Authorization.toValue, hsorted]
    decide +kernel
  have hd : encode (.option Data.layout) (.optional Data.toValue (some d)) =
      .ok (1 :: described) := by decide +kernel
  -- Both updates have the same segments but that of the rule set.
  have hsegments : ∀ t own, encode (Toggle.layout .key) (t.toValue .key) = .ok own →
      { a with ruleSet := t }.Segments
        [[0], 1 :: described, [0], [1, 0], 2 :: 0 :: k.bytes, [1], [0], own, back] :=
    fun t own hown => .cons rfl (.cons hd (.cons rfl (.cons rfl (.cons rfl (.cons rfl
      (.cons rfl (.cons hown (.cons hrules .nil))))))))
  have ha : (Command.update a).encode = .ok (front ++ 2 :: k.bytes ++ back) :=
    Command.update_encode_eq_ok.mpr ⟨_, hsegments (.set k) (2 :: k.bytes) rfl, by decide⟩
  have hchanged : (Command.update (a.apply (.ruleSet .clear))).encode =
      .ok (front ++ 1 :: back) :=
    Command.update_encode_eq_ok.mpr ⟨_, hsegments .clear [1] rfl, by decide⟩
  obtain ⟨hread, hlocal, hreplace⟩ := update_roundTrip
  obtain ⟨before, own, own', behind, -, -, hbefore, hdata, hdata'⟩ :=
    hlocal a (.ruleSet .clear) _ _ ha hchanged
  have hfits : d.Fits := by
    refine ⟨by decide +kernel, by decide +kernel, by decide +kernel, by decide, ?_⟩
    rintro _ ⟨⟩
    exact ⟨by decide, List.forall_mem_nil _⟩
  have hmetadata : (metadataDerivation k).address = .ok ((metadataDerivation k).candidate 255) := by
    decide +kernel
  obtain ⟨ix, hix⟩ := (hreplace k k d).1.mpr ⟨hfits, _, hmetadata⟩
  obtain ⟨fields, hfields⟩ := (hreplace k k d).2 ix hix
  exact ⟨ha, hread a _ ha, hchanged, ⟨before, behind, own, own', hbefore, hdata, hdata'⟩,
    ix, fields, hix, hfields⟩

end TokenWire.Asset
