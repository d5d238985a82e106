import TokenWire.Proofs.Layout.Everywhere
import TokenWire.Proofs.Layout.Shape
import TokenWire.Proofs.Layout.Writing

/-! Which values have a written form, and how the others are refused. -/

namespace TokenWire

/-- The integer is one of so many bytes without a sign. -/
def InField (width : Nat) (n : Int) : Prop :=
  0 ≤ n ∧ n < capacity width

instance (width : Nat) (n : Int) : Decidable (InField width n) :=
  inferInstanceAs (Decidable (0 ≤ n ∧ n < capacity width))

theorem inField_natCast {width k : Nat} : InField width k ↔ k < capacity width := by
  unfold InField
  omega

/-- The integer is one of so many bytes with a sign. -/
def InSignedField (width : Nat) (n : Int) : Prop :=
  -capacity width ≤ 2 * n ∧ 2 * n < capacity width

instance (width : Nat) (n : Int) : Decidable (InSignedField width n) :=
  inferInstanceAs (Decidable (-capacity width ≤ 2 * n ∧ 2 * n < capacity width))

theorem bmod_capacity_eq_iff {width : Nat} {n : Int} :
    n.bmod (capacity width) = n ↔ InSignedField width n := by
  have hpos := capacity_pos width
  constructor
  · intro h
    have hle := Int.le_bmod (x := n) hpos
    have hlt := Int.bmod_lt (x := n) hpos
    unfold InSignedField
    omega
  · rintro ⟨hle, hlt⟩
    exact Int.bmod_eq_of_le_mul_two (by omega) (by omega)

theorem writeSigned_iff {width : Nat} {n : Int} :
    (∃ bs, writeSigned width n = .ok bs) ↔ InSignedField width n := by
  unfold writeSigned
  rw [← bmod_capacity_eq_iff]
  split <;> simp_all

namespace Layout

/-- The value has a written form. -/
def Writable (layout : Layout) (v : Value) : Prop :=
  ∃ bs, layout.encode v = .ok bs

variable {v : Value} {vs : List Value} {item : Layout}

@[simp] theorem writable_uint {width : Nat} {n : Int} :
    Writable (.uint width) (.int n) ↔ InField width n := by
  constructor
  · rintro ⟨bs, h⟩
    obtain ⟨k, rfl, hk, -⟩ := writeUnsigned_eq_ok.mp h
    exact inField_natCast.mpr hk
  · rintro ⟨hn, hlt⟩
    obtain ⟨k, rfl⟩ := Int.eq_ofNat_of_zero_le hn
    exact ⟨_, writeUnsigned_natCast (by omega)⟩

@[simp] theorem not_writable_uint_absent {width : Nat} : ¬ Writable (.uint width) .absent := by
  rintro ⟨bs, h⟩
  cases h

@[simp] theorem writable_sint {width : Nat} {n : Int} :
    Writable (.sint width) (.int n) ↔ InSignedField width n :=
  writeSigned_iff

@[simp] theorem writable_bool (b : Bool) : Writable .bool (.bool b) :=
  ⟨_, rfl⟩

@[simp] theorem writable_text {width : Nat} {s : String} :
    Writable (.text width) (.text s) ↔ (utf8 s).length < capacity width := by
  constructor
  · rintro ⟨bs, h⟩
    exact (writeCounted_eq_ok.mp h).1
  · intro hlt
    exact ⟨_, writeCounted_eq_ok.mpr ⟨hlt, rfl⟩⟩

@[simp] theorem writable_key (k : Key) : Writable .key (.key k) :=
  ⟨_, rfl⟩

@[simp] theorem writable_fixed {length : Nat} {body : Bytes} :
    Writable (.fixed length) (.bytes body) ↔ body.length = length := by
  constructor
  · rintro ⟨bs, h⟩
    rw [encode] at h
    split at h
    · assumption
    · cases h
  · intro hlength
    exact ⟨body, if_pos hlength⟩

@[simp] theorem writable_unit : Writable .unit .absent :=
  ⟨_, rfl⟩

@[simp] theorem writable_tuple_nil : Writable (.tuple []) (.seq []) :=
  ⟨_, rfl⟩

@[simp] theorem writable_tuple_cons {items : List Layout} :
    Writable (.tuple (item :: items)) (.seq (v :: vs)) ↔
      Writable item v ∧ Writable (.tuple items) (.seq vs) := by
  constructor
  · rintro ⟨bs, h⟩
    obtain ⟨front, back, hfront, hback, -⟩ := encode_tuple_cons_eq_ok.mp h
    exact ⟨⟨front, hfront⟩, ⟨back, hback⟩⟩
  · rintro ⟨⟨front, hfront⟩, ⟨back, hback⟩⟩
    exact ⟨_, encode_tuple_cons_eq_ok.mpr ⟨front, back, hfront, hback, rfl⟩⟩

@[simp] theorem writable_struct {fields : List (String × Layout)} :
    Writable (.struct fields) v ↔ Writable (.tuple (fields.map Prod.snd)) v := by
  rw [Writable, encode_struct, Writable]

section Views

variable {α : Type} {f : α → Value}

@[simp] theorem writable_none : Writable (.option item) (.optional f none) :=
  ⟨_, rfl⟩

theorem writable_optional (hf : ∀ a, f a ≠ .absent) {a? : Option α} :
    Writable (.option item) (.optional f a?) ↔ ∀ a ∈ a?, Writable item (f a) := by
  cases a? with
  | none => exact iff_of_true writable_none nofun
  | some a =>
    simp only [Writable, Value.optional, encode_option_eq_ok (hf a), Option.mem_some_iff,
      forall_eq']
    constructor
    · rintro ⟨bs, body, hbody, -⟩
      exact ⟨body, hbody⟩
    · rintro ⟨body, hbody⟩
      exact ⟨_, body, hbody, rfl⟩

@[simp] theorem writable_optionKey (k? : Option Key) :
    Writable (.option .key) (.optional .key k?) :=
  (writable_optional nofun).mpr fun k _ => writable_key k

@[simp] theorem writable_sentinelKey (k? : Option Key) :
    Writable .sentinelKey (.optional .key k?) := by
  cases k? with
  | none => exact ⟨_, rfl⟩
  | some k => exact ⟨_, rfl⟩

theorem writable_list {as : List α} :
    Writable (.vec item) (.list f as) ↔
      as.length < capacity countWidth ∧ ∀ a ∈ as, Writable item (f a) := by
  have hitems : Writable (.tuple (List.replicate as.length item)) (.seq (as.map f)) ↔
      ∀ a ∈ as, Writable item (f a) := by
    induction as with
    | nil => exact iff_of_true writable_tuple_nil nofun
    | cons a as ih =>
      rw [List.length_cons, List.replicate_succ, List.map_cons, writable_tuple_cons, ih,
        List.forall_mem_cons]
  rw [← hitems]
  simp only [Writable, Value.list, encode_vec_eq_ok, List.length_map]
  constructor
  · rintro ⟨bs, body, hlt, hbody, -⟩
    exact ⟨hlt, body, hbody⟩
  · rintro ⟨hlt, body, hbody⟩
    exact ⟨_, body, hlt, hbody, rfl⟩

end Views

theorem writable_known {selector : Selector} {arms : List (Nat × Layout)} {tag : Nat} {arm : Layout}
    (htag : tag < capacity selector.width) (harm : arms.lookup tag = some arm) :
    Writable (.tagged selector arms) (.variant tag v) ↔ Writable arm v := by
  simp only [Writable, encode_known_eq_ok htag harm]
  constructor
  · rintro ⟨bs, body, hbody, -⟩
    exact ⟨body, hbody⟩
  · rintro ⟨body, hbody⟩
    exact ⟨_, body, hbody, rfl⟩

/-- Where the result is a refusal, it is because a number is out of range. -/
def RefusesRange {α : Type} (r : Except EncodeFault α) : Prop :=
  ∀ fault, r = .error fault → fault = .outOfRange

theorem refusesRange_ok {α : Type} (a : α) : RefusesRange (.ok a) := by
  intro fault h
  cases h

theorem RefusesRange.bind {α β : Type} {r : Except EncodeFault α} {f : α → Except EncodeFault β}
    (hr : RefusesRange r) (hf : ∀ a, RefusesRange (f a)) : RefusesRange (r >>= f) := by
  intro fault h
  rcases Checked.bind_eq_error.mp h with h | ⟨a, -, h⟩
  · exact hr fault h
  · exact hf a fault h

theorem writeUnsigned_refusesRange (width : Nat) (n : Int) :
    RefusesRange (writeUnsigned width n) := by
  intro fault h
  unfold writeUnsigned at h
  split at h <;> cases h
  rfl

theorem writeSigned_refusesRange (width : Nat) (n : Int) : RefusesRange (writeSigned width n) := by
  intro fault h
  unfold writeSigned at h
  split at h <;> cases h
  rfl

theorem writeCounted_refusesRange (width : Nat) (bs : Bytes) :
    RefusesRange (writeCounted width bs) :=
  (writeUnsigned_refusesRange width bs.length).bind fun _ => refusesRange_ok _

/-- Whether this is no field of fixed length. -/
def unfixed : Layout → Bool
  | .fixed _ => false
  | _ => true

/-- Without fields of fixed length a value of the layout fails only by a number in it or a count. -/
theorem Shaped.encode_refusesRange {layout : Layout} (hv : Shaped layout v)
    (hl : layout.everywhere unfixed) : RefusesRange (layout.encode v) := by
  induction hv with
  | uint width n => exact writeUnsigned_refusesRange width n
  | sint width n => exact writeSigned_refusesRange width n
  | bool b => exact refusesRange_ok _
  | bytes width body => exact writeCounted_refusesRange width body
  | text width s => exact writeCounted_refusesRange width (utf8 s)
  | key k => exact refusesRange_ok _
  | noKey => exact refusesRange_ok _
  | someKey k => exact refusesRange_ok _
  | fixed length body => cases hl
  | unit => exact refusesRange_ok _
  | absent item => exact refusesRange_ok _
  | @present item v _ ih =>
    by_cases habsent : v = .absent
    · subst habsent
      exact refusesRange_ok _
    · rw [encode]
      · exact (ih (everywhere_option.mp hl).2).bind fun _ => refusesRange_ok _
      · exact habsent
  | @vec item vs _ ih =>
    have hitems := ih (everywhere_replicate hl vs.length)
    rw [encode, encodeItems_replicate] at hitems
    exact (writeUnsigned_refusesRange _ _).bind fun _ => hitems.bind fun _ => refusesRange_ok _
  | nil => exact refusesRange_ok _
  | cons _ _ ihv ihvs =>
    obtain ⟨hitem, hitems⟩ := everywhere_tuple_cons.mp hl
    exact (ihv hitem).bind fun _ => (ihvs hitems).bind fun _ => refusesRange_ok _
  | struct _ ih =>
    rw [everywhere_struct] at hl
    rw [encode_struct]
    exact ih hl
  | @known selector arms tag arm body harm _ ih =>
    have harm' := ih (everywhere_of_lookup hl harm)
    rw [encode, encodeArm_eq, harm]
    exact (writeUnsigned_refusesRange _ _).bind fun _ => harm'.bind fun _ => refusesRange_ok _
  | @unknown selector arms tag harm hopen =>
    rw [encode, encodeArm_eq, harm, hopen]
    exact (writeUnsigned_refusesRange _ _).bind fun _ => refusesRange_ok _

theorem writable_iff_write {layout : Layout} :
    layout.Writable v ↔ ∃ data, layout.write v = .ok data := by
  simp only [Writable, write_eq_ok]

/-- Where only numbers can fail, exactly the values without a written form are refused. -/
theorem Shaped.write_eq_error {layout : Layout} (hv : Shaped layout v)
    (hl : layout.everywhere unfixed) {e : Error} :
    layout.write v = .error e ↔ ¬ layout.Writable v ∧ e = .unencodable .outOfRange := by
  rw [write, Checked.mapError_eq_error]
  constructor
  · rintro ⟨fault, h, rfl⟩
    refine ⟨?_, by rw [hv.encode_refusesRange hl fault h]⟩
    rintro ⟨bs, hbs⟩
    rw [h] at hbs
    cases hbs
  · rintro ⟨hw, rfl⟩
    cases h : layout.encode v with
    | ok bs => exact (hw ⟨bs, h⟩).elim
    | error fault => exact ⟨fault, rfl, by rw [hv.encode_refusesRange hl fault h]⟩

end Layout
end TokenWire
