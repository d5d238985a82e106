import TokenWire.Proofs.Layout.Parts

/-! When a value is written, and as which bytes. -/

namespace TokenWire

section Fields

variable {width : Nat} {n : Int} {bs body : Bytes}

theorem writeUnsigned_eq_ok :
    writeUnsigned width n = .ok bs ↔
      ∃ k : Nat, n = k ∧ k < capacity width ∧ bs = littleEndian width k := by
  unfold writeUnsigned
  constructor
  · intro h
    split at h
    · rename_i hn
      cases h
      exact ⟨n.toNat, (Int.toNat_of_nonneg hn.1).symm, hn.2, rfl⟩
    · cases h
  · rintro ⟨k, rfl, hk, rfl⟩
    exact if_pos ⟨Int.natCast_nonneg k, hk⟩

theorem writeUnsigned_natCast {k : Nat} (h : k < capacity width) :
    writeUnsigned width k = .ok (littleEndian width k) :=
  writeUnsigned_eq_ok.mpr ⟨k, rfl, h, rfl⟩

theorem writeSigned_eq_ok :
    writeSigned width n = .ok bs ↔ ∃ k : Nat, n = (k : Int).bmod (capacity width) ∧
      k < capacity width ∧ bs = littleEndian width k := by
  have hpos := capacity_pos width
  unfold writeSigned
  constructor
  · intro h
    split at h
    · rename_i hn
      cases h
      have hnonneg : 0 ≤ n % (capacity width : Nat) := Int.emod_nonneg _ (by omega)
      have hlt : n % (capacity width : Nat) < capacity width := Int.emod_lt_of_pos _ (by omega)
      refine ⟨_, ?_, by omega, rfl⟩
      rw [Int.toNat_of_nonneg hnonneg, Int.emod_bmod, hn]
    · cases h
  · rintro ⟨k, rfl, hk, rfl⟩
    rw [if_pos Int.bmod_bmod, Int.bmod_emod, ← Int.natCast_emod, Int.toNat_natCast,
      Nat.mod_eq_of_lt hk]

theorem writeCounted_eq_ok :
    writeCounted width body = .ok bs ↔
      body.length < capacity width ∧ bs = littleEndian width body.length ++ body := by
  rw [writeCounted, Checked.bind_eq_ok]
  constructor
  · rintro ⟨head, hhead, hbs⟩
    obtain ⟨k, hk, hlt, rfl⟩ := writeUnsigned_eq_ok.mp hhead
    cases hbs
    obtain rfl : body.length = k := by omega
    exact ⟨hlt, rfl⟩
  · rintro ⟨hlt, rfl⟩
    exact ⟨_, writeUnsigned_natCast hlt, rfl⟩

end Fields

namespace Layout

variable {bs : Bytes} {v : Value} {vs : List Value}

theorem encodeItems_replicate (item : Layout) (vs : List Value) :
    encodeItems (List.replicate vs.length item) vs = writeEach (encode item) vs := by
  induction vs with
  | nil => rfl
  | cons v vs ih =>
    rw [writeEach, ← ih]
    rfl

theorem encode_tuple_cons_eq_ok {item : Layout} {items : List Layout} :
    encode (.tuple (item :: items)) (.seq (v :: vs)) = .ok bs ↔
      ∃ front back, encode item v = .ok front ∧ encode (.tuple items) (.seq vs) = .ok back ∧
        bs = front ++ back := by
  change (do pure ((← encode item v) ++ (← encodeItems items vs))) = _ ↔ _
  simp only [Checked.bind_eq_ok]
  constructor
  · rintro ⟨front, hfront, back, hback, hbs⟩
    cases hbs
    exact ⟨front, back, hfront, hback, rfl⟩
  · rintro ⟨front, back, hfront, hback, rfl⟩
    exact ⟨front, hfront, back, hback, rfl⟩

theorem encode_struct (fields : List (String × Layout)) (v : Value) :
    encode (.struct fields) v = encode (.tuple (fields.map Prod.snd)) v := by
  cases v with
  | seq vs => exact congrFun (encodeFields_eq fields) vs
  | _ => rfl

theorem encode_vec_eq_ok {item : Layout} :
    encode (.vec item) (.seq vs) = .ok bs ↔ ∃ body, vs.length < capacity countWidth ∧
      encode (.tuple (List.replicate vs.length item)) (.seq vs) = .ok body ∧
      bs = littleEndian countWidth vs.length ++ body := by
  simp only [encode, encodeItems_replicate, Checked.bind_eq_ok]
  constructor
  · rintro ⟨head, hhead, body, hbody, hbs⟩
    obtain ⟨k, hk, hlt, rfl⟩ := writeUnsigned_eq_ok.mp hhead
    cases hbs
    obtain rfl : vs.length = k := by omega
    exact ⟨body, hlt, hbody, rfl⟩
  · rintro ⟨body, hlt, hbody, rfl⟩
    exact ⟨_, writeUnsigned_natCast hlt, body, hbody, rfl⟩

theorem encode_option_eq_ok {item : Layout} (hv : v ≠ .absent) :
    encode (.option item) v = .ok bs ↔ ∃ body, encode item v = .ok body ∧ bs = 1 :: body := by
  rw [encode, Checked.bind_eq_ok]
  · constructor
    · rintro ⟨body, hbody, hbs⟩
      cases hbs
      exact ⟨body, hbody, rfl⟩
    · rintro ⟨body, hbody, rfl⟩
      exact ⟨body, hbody, rfl⟩
  · exact hv

theorem encode_tagged_eq_ok {selector : Selector} {arms : List (Nat × Layout)} {tag : Nat} :
    encode (.tagged selector arms) (.variant tag v) = .ok bs ↔
      ∃ body, tag < capacity selector.width ∧ bs = littleEndian selector.width tag ++ body ∧
        ((∃ arm, arms.lookup tag = some arm ∧ arm.encode v = .ok body) ∨
          arms.lookup tag = none ∧ selector.closed = false ∧ body = []) := by
  simp only [encode, encodeArm_eq, Checked.bind_eq_ok]
  constructor
  · rintro ⟨head, hhead, body, hbody, hbs⟩
    obtain ⟨k, hk, hlt, rfl⟩ := writeUnsigned_eq_ok.mp hhead
    obtain rfl : tag = k := by omega
    cases hbs
    refine ⟨body, hlt, rfl, ?_⟩
    cases harm : arms.lookup tag with
    | some arm => exact Or.inl ⟨arm, rfl, by simpa [harm] using hbody⟩
    | none =>
      rw [harm] at hbody
      cases hopen : selector.closed with
      | true => simp [hopen] at hbody
      | false => exact Or.inr ⟨rfl, rfl, by simpa [hopen, eq_comm] using hbody⟩
  · rintro ⟨body, hlt, rfl, ⟨arm, harm, hbody⟩ | ⟨harm, hopen, rfl⟩⟩
    · exact ⟨_, writeUnsigned_natCast hlt, body, by simpa [harm] using hbody, rfl⟩
    · exact ⟨_, writeUnsigned_natCast hlt, [], by simp [harm, hopen], rfl⟩

/-- The first byte is that of the tag. -/
theorem head_of_write {selector : Selector} {arms : List (Nat × Layout)} {tag : Nat}
    (hwidth : 0 < selector.width) (h : write (.tagged selector arms) (.variant tag v) = .ok bs) :
    bs.head? = some (UInt8.ofNat tag) := by
  obtain ⟨body, -, rfl, -⟩ := encode_tagged_eq_ok.mp (write_eq_ok.mp h)
  obtain ⟨width, hsucc⟩ := Nat.exists_eq_add_of_lt hwidth
  rw [hsucc]
  rfl

theorem encode_known_eq_ok {selector : Selector} {arms : List (Nat × Layout)} {tag : Nat}
    {arm : Layout} (htag : tag < capacity selector.width) (harm : arms.lookup tag = some arm) :
    encode (.tagged selector arms) (.variant tag v) = .ok bs ↔
      ∃ body, arm.encode v = .ok body ∧ bs = littleEndian selector.width tag ++ body := by
  rw [encode_tagged_eq_ok]
  constructor
  · rintro ⟨body, -, rfl, ⟨arm', harm', hbody⟩ | ⟨hnone, -⟩⟩
    · obtain rfl : arm = arm' := Option.some.inj (harm.symm.trans harm')
      exact ⟨body, hbody, rfl⟩
    · rw [harm] at hnone
      cases hnone
  · rintro ⟨body, hbody, rfl⟩
    exact ⟨body, htag, rfl, Or.inl ⟨arm, harm, hbody⟩⟩

/-- The bytes of each item of a tuple. -/
inductive Segments : List Layout → List Value → List Bytes → Prop where
  | nil : Segments [] [] []
  | cons {item : Layout} {items : List Layout} {v : Value} {vs : List Value} {own : Bytes}
      {segments : List Bytes} :
    encode item v = .ok own → Segments items vs segments →
    Segments (item :: items) (v :: vs) (own :: segments)

theorem encode_tuple_eq_ok {items : List Layout} :
    encode (.tuple items) (.seq vs) = .ok bs ↔
      ∃ segments, Segments items vs segments ∧ bs = segments.flatten := by
  induction items generalizing vs bs with
  | nil =>
    cases vs with
    | nil =>
      constructor
      · rintro ⟨⟩
        exact ⟨[], .nil, rfl⟩
      · rintro ⟨_, ⟨⟩, rfl⟩
        rfl
    | cons v vs => exact iff_of_false nofun fun ⟨_, h, _⟩ => nomatch h
  | cons item items ih =>
    cases vs with
    | nil => exact iff_of_false nofun fun ⟨_, h, _⟩ => nomatch h
    | cons v vs =>
      rw [encode_tuple_cons_eq_ok]
      constructor
      · rintro ⟨own, back, hown, hback, rfl⟩
        obtain ⟨segments, hsegments, rfl⟩ := ih.mp hback
        exact ⟨own :: segments, .cons hown hsegments, rfl⟩
      · rintro ⟨_, hown | ⟨hown, hsegments⟩, rfl⟩
        exact ⟨_, _, hown, ih.mpr ⟨_, hsegments, rfl⟩, rfl⟩

theorem Segments.unique {items : List Layout} {segments segments' : List Bytes}
    (h : Segments items vs segments) (h' : Segments items vs segments') : segments = segments' := by
  induction h generalizing segments' with
  | nil =>
    cases h'
    rfl
  | cons hown _ ih =>
    rcases h' with _ | ⟨hown', h'⟩
    rw [hown] at hown'
    rw [Except.ok.inj hown', ih h']

/-- A change of one item changes nothing before and behind its own bytes. -/
theorem Segments.split_of_set {items : List Layout} {segments segments' : List Bytes} {i : Nat}
    (h : Segments items vs segments) (hi : i < vs.length)
    (h' : Segments items (vs.set i v) segments') :
    ∃ before own own' behind, segments = before ++ own :: behind ∧
      segments' = before ++ own' :: behind ∧ before.length = i := by
  induction h generalizing i segments' with
  | nil => cases hi
  | cons hown hrest ih =>
    cases i with
    | zero =>
      rcases h' with _ | ⟨_, h'⟩
      exact ⟨[], _, _, _, rfl, by rw [hrest.unique h']; rfl, rfl⟩
    | succ i =>
      rcases h' with _ | ⟨hown', h'⟩
      obtain ⟨before, own, own', behind, rfl, rfl, hbefore⟩ := ih (Nat.lt_of_succ_lt_succ hi) h'
      rw [hown] at hown'
      obtain rfl := Except.ok.inj hown'
      exact ⟨_ :: before, own, own', behind, rfl, rfl, congrArg Nat.succ hbefore⟩

end Layout
end TokenWire
