import TokenWire.Proofs.Layout.Shape
import TokenWire.Proofs.Layout.Writing
import TokenWire.Toggle

/-! What is written of a value of a layout is read back as this value. -/

namespace TokenWire.Layout

mutual

/-- A value as it is read back: where the key of all zeros stands for none, it is none. -/
def normalize : Layout → Value → Value
  | .sentinelKey, .key k => if k = .zero then .absent else .key k
  | .option item, v => normalize item v
  | .vec item, .seq vs => .seq (vs.map (normalize item))
  | .tuple items, .seq vs => .seq (normalizeItems items vs)
  | .struct fields, .seq vs => .seq (normalizeFields fields vs)
  | .tagged _ arms, .variant tag body => .variant tag ((normalizeArm arms tag body).getD body)
  | _, v => v

def normalizeItems : List Layout → List Value → List Value
  | item :: items, v :: vs => normalize item v :: normalizeItems items vs
  | _, vs => vs

def normalizeFields : List (String × Layout) → List Value → List Value
  | (_, field) :: fields, v :: vs => normalize field v :: normalizeFields fields vs
  | _, vs => vs

def normalizeArm : List (Nat × Layout) → Nat → Value → Option Value
  | [], _, _ => none
  | (t, arm) :: arms, tag, v => if t = tag then some (normalize arm v) else normalizeArm arms tag v

end

theorem normalizeArm_eq (arms : List (Nat × Layout)) (tag : Nat) (v : Value) :
    normalizeArm arms tag v = (arms.lookup tag).map fun arm => arm.normalize v :=
  eq_lookup_map _ (normalizeArm · tag v) rfl (fun _ _ _ => rfl) arms

theorem normalizeFields_eq (fields : List (String × Layout)) (vs : List Value) :
    normalizeFields fields vs = normalizeItems (fields.map Prod.snd) vs := by
  induction fields generalizing vs with
  | nil => cases vs <;> rfl
  | cons field fields ih =>
    cases vs with
    | nil => rfl
    | cons v vs => exact congrArg (normalize field.2 v :: ·) (ih vs)

theorem normalize_struct (fields : List (String × Layout)) (v : Value) :
    normalize (.struct fields) v = normalize (.tuple (fields.map Prod.snd)) v := by
  cases v with
  | seq vs => exact congrArg Value.seq (normalizeFields_eq fields vs)
  | _ => rfl

theorem normalizeItems_replicate (item : Layout) (vs : List Value) :
    normalizeItems (List.replicate vs.length item) vs = vs.map (normalize item) := by
  induction vs with
  | nil => rfl
  | cons v vs ih => exact congrArg (normalize item v :: ·) ih

theorem normalize_tuple_cons (item : Layout) (items : List Layout) (v : Value) (vs : List Value) :
    normalize (.tuple (item :: items)) (.seq (v :: vs)) =
      .seq (normalize item v :: normalizeItems items vs) := rfl

theorem normalize_known {selector : Selector} {arms : List (Nat × Layout)} {tag : Nat}
    {arm : Layout} (harm : arms.lookup tag = some arm) (body : Value) :
    normalize (.tagged selector arms) (.variant tag body) = .variant tag (arm.normalize body) := by
  change Value.variant tag ((normalizeArm arms tag body).getD body) = _
  rw [normalizeArm_eq, harm]
  rfl

theorem normalize_absent (layout : Layout) : layout.normalize .absent = .absent := by
  induction layout with
  | option item ih => exact ih
  | _ => rfl

/-- What is read is read back as it is. -/
theorem Payload.normalize_eq {layout : Layout} {bs : Bytes} {v : Value}
    (h : Payload layout bs v) : layout.normalize v = v := by
  induction h with
  | someKey hk => rw [normalize, if_neg hk]
  | absent item => exact normalize_absent _
  | present _ _ ih => rwa [normalize]
  | vec _ _ ih => rwa [normalize, normalizeItems_replicate] at ih
  | cons _ _ ihv ihvs =>
    rw [normalize] at ihvs
    rw [normalize_tuple_cons, ihv, Value.seq.inj ihvs]
  | struct _ ih => rwa [normalize_struct]
  | known _ harm _ ih => rw [normalize_known harm, ih]
  | unknown _ harm _ => rw [normalize, normalizeArm_eq, harm]; rfl
  | _ => rfl

/-- What is written is a payload with the value as it is read back. -/
theorem Shaped.payload {layout : Layout} {v : Value} {bs : Bytes} (hv : Shaped layout v)
    (h : layout.encode v = .ok bs) : Payload layout bs (layout.normalize v) := by
  induction hv generalizing bs with
  | uint width n =>
    obtain ⟨k, rfl, hk, rfl⟩ := writeUnsigned_eq_ok.mp h
    exact .uint hk
  | sint width n =>
    obtain ⟨k, rfl, hk, rfl⟩ := writeSigned_eq_ok.mp h
    exact .sint hk
  | bool b =>
    cases h
    cases b with
    | false => exact .bool 0
    | true => exact .bool 1
  | bytes width body =>
    obtain ⟨hlt, rfl⟩ := writeCounted_eq_ok.mp h
    exact .bytes hlt
  | text width s =>
    obtain ⟨hlt, rfl⟩ := writeCounted_eq_ok.mp h
    exact .text hlt
  | key k =>
    cases h
    exact .key k
  | noKey =>
    cases h
    exact .noKey
  | someKey k =>
    cases h
    rw [normalize]
    by_cases hk : k = .zero
    · rw [if_pos hk, hk]
      exact .noKey
    · rw [if_neg hk]
      exact .someKey hk
  | fixed length body =>
    rw [encode] at h
    split at h
    · rename_i hlength
      cases h
      subst hlength
      exact .fixed body
    · cases h
  | unit =>
    cases h
    exact .unit
  | absent item =>
    cases h
    rw [normalize_absent]
    exact .absent item
  | @present item v hv ih =>
    by_cases habsent : v = .absent
    · subst habsent
      cases h
      rw [normalize_absent]
      exact .absent item
    · obtain ⟨body, hbody, rfl⟩ := (encode_option_eq_ok habsent).mp h
      rw [normalize]
      exact .present (by decide) (ih hbody)
  | @vec item vs hvs ih =>
    obtain ⟨body, hlt, hbody, rfl⟩ := encode_vec_eq_ok.mp h
    have hitems := ih hbody
    rw [normalize, normalizeItems_replicate] at hitems
    rw [normalize]
    rw [← List.length_map (normalize item)] at hlt hitems ⊢
    exact .vec hlt hitems
  | nil =>
    cases h
    exact .nil
  | @cons item items v vs _ _ ihv ihvs =>
    obtain ⟨front, back, hfront, hback, rfl⟩ := encode_tuple_cons_eq_ok.mp h
    rw [normalize_tuple_cons]
    have hvs := ihvs hback
    rw [normalize] at hvs
    exact .cons (ihv hfront) hvs
  | struct _ ih =>
    rw [encode_struct] at h
    rw [normalize_struct]
    exact .struct (ih h)
  | @known selector arms tag arm body harm _ ih =>
    obtain ⟨body', hlt, rfl, ⟨arm', harm', hbody⟩ | ⟨hnone, _⟩⟩ := encode_tagged_eq_ok.mp h
    · obtain rfl : arm = arm' := Option.some.inj (harm.symm.trans harm')
      rw [normalize_known harm]
      exact .known hlt harm (ih hbody)
    · rw [harm] at hnone
      cases hnone
  | @unknown selector arms tag harm hopen =>
    obtain ⟨body, hlt, rfl, ⟨arm, harm', _⟩ | ⟨_, _, rfl⟩⟩ := encode_tagged_eq_ok.mp h
    · rw [harm] at harm'
      cases harm'
    · rw [List.append_nil, normalize, normalizeArm_eq, harm]
      exact .unknown hlt harm hopen

theorem Shaped.parse_eq {layout : Layout} {v : Value} {data : Bytes} (hv : Shaped layout v)
    (h : layout.write v = .ok data) : layout.parse data = .ok (layout.normalize v) :=
  parse_eq_ok_iff_payload.mpr (hv.payload (write_eq_ok.mp h))

section Keys

variable (k? : Option Key)

theorem Shaped.optionKey : Shaped (.option .key) (.optional .key k?) := by
  cases k? with
  | none => exact .absent .key
  | some k => exact .present (.key k)

theorem Shaped.sentinelKey : Shaped .sentinelKey (.optional .key k?) := by
  cases k? with
  | none => exact .noKey
  | some k => exact .someKey k

theorem normalize_optionKey : normalize (.option .key) (.optional .key k?) = .optional .key k? := by
  cases k? with
  | none => rfl
  | some k => rfl

/-- Without a flag of its own the zero key is no key. -/
theorem normalize_sentinelKey : normalize .sentinelKey (.optional .key k?) =
    .optional .key (k?.filter (· ≠ .zero)) := by
  cases k? with
  | none => rfl
  | some k =>
    change (if k = .zero then Value.absent else .key k) = _
    by_cases hk : k = .zero
    · rw [if_pos hk, Option.filter_some_neg (by simpa using hk)]
      rfl
    · rw [if_neg hk, Option.filter_some_pos (by simpa using hk)]
      rfl

end Keys

/--
A written value is read back, whatever bytes follow, and these are left unread. It is the same value
but for a key of all zeros, where this stands for no key.
-/
theorem parse_write {layout : Layout} {v : Value} {data : Bytes} (hv : Shaped layout v)
    (h : layout.write v = .ok data) :
    layout.parse data = .ok (layout.normalize v) ∧
      ∀ more, layout.read (data ++ more) = .ok (layout.normalize v, more) := by
  have hpayload := hv.payload (write_eq_ok.mp h)
  exact ⟨parse_eq_ok_iff_payload.mpr hpayload, hpayload.takes⟩

/-- A record with a zero key that is set, a toggle set to texts, and a negative number. -/
theorem parse_write_record :
    let record : Layout := .struct [("holder", .option .sentinelKey),
      ("names", Toggle.layout (.vec .string)), ("change", .sint 2)]
    let names : Value := .variant 2 (.seq [.text "é", .text ""])
    let data := 1 :: Key.zero.bytes ++ [2, 2, 0, 0, 0, 2, 0, 0, 0, 195, 169, 0, 0, 0, 0, 254, 255]
    Shaped record (.seq [.key .zero, names, .int (-2)]) ∧
      record.write (.seq [.key .zero, names, .int (-2)]) = .ok data ∧
      record.parse data = .ok (.seq [.absent, names, .int (-2)]) ∧
      record.read (data ++ [7]) = .ok (.seq [.absent, names, .int (-2)], [7]) := by
  intro record names data
  have hnames : Shaped (Toggle.layout (.vec .string)) names :=
    .known rfl (.vec (.cons (.text 4 "é") (.cons (.text 4 "") .nil)))
  have hv : Shaped record (.seq [.key .zero, names, .int (-2)]) :=
    .struct (.cons (.present (.someKey .zero)) (.cons hnames (.cons (.sint 2 (-2)) .nil)))
  have h : record.write (.seq [.key .zero, names, .int (-2)]) = .ok data := rfl
  have hread := parse_write hv h
  exact ⟨hv, h, hread.1, hread.2 [7]⟩

end TokenWire.Layout
