import TokenWire.Proofs.Layout.Payload

/-! The values of a layout, and that only these are read. -/

namespace TokenWire.Layout

/-- The values of a layout, whether or not each leaf of them fits its field. -/
inductive Shaped : Layout → Value → Prop where
  | uint (width : Nat) (n : Int) : Shaped (.uint width) (.int n)
  | sint (width : Nat) (n : Int) : Shaped (.sint width) (.int n)
  | bool (b : Bool) : Shaped .bool (.bool b)
  | bytes (width : Nat) (body : Bytes) : Shaped (.bytes width) (.bytes body)
  | text (width : Nat) (s : String) : Shaped (.text width) (.text s)
  | key (k : Key) : Shaped .key (.key k)
  | noKey : Shaped .sentinelKey .absent
  | someKey (k : Key) : Shaped .sentinelKey (.key k)
  | fixed (length : Nat) (body : Bytes) : Shaped (.fixed length) (.bytes body)
  | unit : Shaped .unit .absent
  | absent (item : Layout) : Shaped (.option item) .absent
  | present {item : Layout} {v : Value} : Shaped item v → Shaped (.option item) v
  | vec {item : Layout} {vs : List Value} :
    Shaped (.tuple (List.replicate vs.length item)) (.seq vs) → Shaped (.vec item) (.seq vs)
  | nil : Shaped (.tuple []) (.seq [])
  | cons {item : Layout} {items : List Layout} {v : Value} {vs : List Value} :
    Shaped item v → Shaped (.tuple items) (.seq vs) →
    Shaped (.tuple (item :: items)) (.seq (v :: vs))
  | struct {fields : List (String × Layout)} {vs : List Value} :
    Shaped (.tuple (fields.map Prod.snd)) (.seq vs) → Shaped (.struct fields) (.seq vs)
  | known {selector : Selector} {arms : List (Nat × Layout)} {tag : Nat} {arm : Layout}
      {body : Value} :
    arms.lookup tag = some arm → Shaped arm body →
    Shaped (.tagged selector arms) (.variant tag body)
  | unknown {selector : Selector} {arms : List (Nat × Layout)} {tag : Nat} :
    arms.lookup tag = none → selector.closed = false →
    Shaped (.tagged selector arms) (.variant tag .absent)

section Parts

variable {v : Value}

@[simp] theorem shaped_uint {width : Nat} : Shaped (.uint width) v ↔ ∃ n, v = .int n := by
  constructor
  · rintro ⟨⟩
    exact ⟨_, rfl⟩
  · rintro ⟨n, rfl⟩
    exact .uint width n

@[simp] theorem shaped_text {width : Nat} : Shaped (.text width) v ↔ ∃ s, v = .text s := by
  constructor
  · rintro ⟨⟩
    exact ⟨_, rfl⟩
  · rintro ⟨s, rfl⟩
    exact .text width s

@[simp] theorem shaped_key : Shaped .key v ↔ ∃ k, v = .key k := by
  constructor
  · rintro ⟨⟩
    exact ⟨_, rfl⟩
  · rintro ⟨k, rfl⟩
    exact .key k

@[simp] theorem shaped_sentinelKey : Shaped .sentinelKey v ↔ ∃ k?, v = .optional .key k? := by
  constructor
  · rintro ⟨⟩
    · exact ⟨none, rfl⟩
    · exact ⟨some _, rfl⟩
  · rintro ⟨_ | k, rfl⟩
    · exact .noKey
    · exact .someKey k

@[simp] theorem shaped_unit : Shaped .unit v ↔ v = .absent := by
  constructor
  · rintro ⟨⟩
    rfl
  · rintro rfl
    exact .unit

@[simp] theorem shaped_tuple_nil : Shaped (.tuple []) v ↔ v = .seq [] := by
  constructor
  · rintro ⟨⟩
    rfl
  · rintro rfl
    exact .nil

@[simp] theorem shaped_tuple_cons {item : Layout} {items : List Layout} :
    Shaped (.tuple (item :: items)) v ↔
      ∃ w ws, v = .seq (w :: ws) ∧ Shaped item w ∧ Shaped (.tuple items) (.seq ws) := by
  constructor
  · rintro ⟨⟩
    exact ⟨_, _, rfl, by assumption, by assumption⟩
  · rintro ⟨w, ws, rfl, hw, hws⟩
    exact .cons hw hws

theorem Shaped.exists_seq {items : List Layout} (h : Shaped (.tuple items) v) :
    ∃ vs, v = .seq vs := by
  cases h with
  | nil => exact ⟨[], rfl⟩
  | cons _ _ => exact ⟨_, rfl⟩

@[simp] theorem shaped_struct {fields : List (String × Layout)} :
    Shaped (.struct fields) v ↔ Shaped (.tuple (fields.map Prod.snd)) v := by
  constructor
  · rintro ⟨⟩
    assumption
  · intro h
    obtain ⟨vs, rfl⟩ := h.exists_seq
    exact .struct h

theorem shaped_vec {item : Layout} :
    Shaped (.vec item) v ↔ ∃ vs, v = .seq vs ∧ ∀ w ∈ vs, Shaped item w := by
  have hitems : ∀ vs : List Value, Shaped (.tuple (List.replicate vs.length item)) (.seq vs) ↔
      ∀ w ∈ vs, Shaped item w := by
    intro vs
    induction vs with
    | nil => simp
    | cons w ws ih => simp [List.replicate_succ, and_assoc, ih]
  constructor
  · rintro ⟨⟩
    exact ⟨_, rfl, (hitems _).mp (by assumption)⟩
  · rintro ⟨vs, rfl, hvs⟩
    exact .vec ((hitems vs).mpr hvs)

end Parts

/-- What is read is a value of the layout. -/
theorem Payload.shaped {layout : Layout} {bs : Bytes} {v : Value} (h : Payload layout bs v) :
    Shaped layout v := by
  induction h with
  | uint _ => exact .uint _ _
  | sint _ => exact .sint _ _
  | bool b => exact .bool _
  | bytes _ => exact .bytes _ _
  | text _ => exact .text _ _
  | key k => exact .key k
  | noKey => exact .noKey
  | someKey _ => exact .someKey _
  | fixed body => exact .fixed _ body
  | unit => exact .unit
  | absent item => exact .absent item
  | present _ _ ih => exact .present ih
  | vec _ _ ih => exact .vec ih
  | nil => exact .nil
  | cons _ _ ihv ihvs => exact .cons ihv ihvs
  | struct _ ih => exact .struct ih
  | known _ harm _ ih => exact .known harm ih
  | unknown _ harm hopen => exact .unknown harm hopen

end TokenWire.Layout
