import TokenWire.Proofs.Layout.Writing

/-! How many bytes a value takes, where it can be written. -/

namespace TokenWire.Layout

variable {v : Value} {n : Nat}

theorem packedLength_eq_ok {layout : Layout} :
    layout.packedLength v = .ok n ↔ ∃ bs, layout.encode v = .ok bs ∧ bs.length = n := by
  unfold packedLength
  cases layout.encode v with
  | ok bs =>
    change (.ok bs.length : Except EncodeFault Nat) = .ok n ↔ _
    simp
  | error e => exact iff_of_false nofun nofun

theorem packedLength_text {width : Nat} {s : String} :
    packedLength (.text width) (.text s) = .ok n ↔
      (utf8 s).length < capacity width ∧ n = width + (utf8 s).length := by
  rw [packedLength_eq_ok]
  constructor
  · rintro ⟨bs, hbs, rfl⟩
    obtain ⟨hlt, rfl⟩ := writeCounted_eq_ok.mp hbs
    exact ⟨hlt, by rw [List.length_append, length_littleEndian]⟩
  · rintro ⟨hlt, rfl⟩
    exact ⟨_, writeCounted_eq_ok.mpr ⟨hlt, rfl⟩, by rw [List.length_append, length_littleEndian]⟩

theorem packedLength_key {k : Key} : packedLength .key (.key k) = .ok n ↔ n = 32 := by
  rw [packedLength_eq_ok]
  constructor
  · rintro ⟨bs, ⟨⟩, rfl⟩
    exact k.length_bytes
  · rintro rfl
    exact ⟨k.bytes, rfl, k.length_bytes⟩

theorem packedLength_sentinelKey {k? : Option Key} :
    packedLength .sentinelKey (.optional .key k?) = .ok n ↔ n = 32 := by
  cases k? with
  | none => exact packedLength_key (k := .zero)
  | some k => exact packedLength_key (k := k)

theorem packedLength_tuple_nil : packedLength (.tuple []) (.seq []) = .ok n ↔ n = 0 := by
  rw [packedLength_eq_ok]
  constructor
  · rintro ⟨bs, ⟨⟩, rfl⟩
    rfl
  · rintro rfl
    exact ⟨[], rfl, rfl⟩

theorem packedLength_tuple_cons {item : Layout} {items : List Layout} {vs : List Value} :
    packedLength (.tuple (item :: items)) (.seq (v :: vs)) = .ok n ↔
      ∃ m k, packedLength item v = .ok m ∧ packedLength (.tuple items) (.seq vs) = .ok k ∧
        n = m + k := by
  simp only [packedLength_eq_ok, encode_tuple_cons_eq_ok]
  constructor
  · rintro ⟨bs, ⟨front, back, hfront, hback, rfl⟩, rfl⟩
    exact ⟨_, _, ⟨front, hfront, rfl⟩, ⟨back, hback, rfl⟩, List.length_append⟩
  · rintro ⟨_, _, ⟨front, hfront, rfl⟩, ⟨back, hback, rfl⟩, rfl⟩
    exact ⟨_, ⟨front, back, hfront, hback, rfl⟩, List.length_append⟩

theorem packedLength_struct (fields : List (String × Layout)) (v : Value) :
    packedLength (.struct fields) v = packedLength (.tuple (fields.map Prod.snd)) v := by
  rw [packedLength, packedLength, encode_struct]

theorem packedLength_vec {item : Layout} {vs : List Value} :
    packedLength (.vec item) (.seq vs) = .ok n ↔ vs.length < capacity countWidth ∧
      ∃ m, packedLength (.tuple (List.replicate vs.length item)) (.seq vs) = .ok m ∧
        n = countWidth + m := by
  simp only [packedLength_eq_ok, encode_vec_eq_ok]
  constructor
  · rintro ⟨bs, ⟨body, hlt, hbody, rfl⟩, rfl⟩
    exact ⟨hlt, _, ⟨body, hbody, rfl⟩, by rw [List.length_append, length_littleEndian]⟩
  · rintro ⟨hlt, _, ⟨body, hbody, rfl⟩, rfl⟩
    exact ⟨_, ⟨body, hlt, hbody, rfl⟩, by rw [List.length_append, length_littleEndian]⟩

end TokenWire.Layout
