import TokenWire.Proofs.Layout.Parts

/-! The payloads of a layout, written as a grammar, and that reading accepts just these. -/

namespace TokenWire.Layout

open Reader

/-- The byte strings of a layout, each with the value that it holds. -/
inductive Payload : Layout → Bytes → Value → Prop where
  | uint {width n : Nat} : n < capacity width →
    Payload (.uint width) (littleEndian width n) (.int n)
  | sint {width n : Nat} : n < capacity width →
    Payload (.sint width) (littleEndian width n) (.int ((n : Int).bmod (capacity width)))
  | bool (b : UInt8) : Payload .bool [b] (.bool (b != 0))
  | bytes {width : Nat} {body : Bytes} : body.length < capacity width →
    Payload (.bytes width) (littleEndian width body.length ++ body) (.bytes body)
  | text {width : Nat} {s : String} : (utf8 s).length < capacity width →
    Payload (.text width) (littleEndian width (utf8 s).length ++ utf8 s) (.text s)
  | key (k : Key) : Payload .key k.bytes (.key k)
  | noKey : Payload .sentinelKey Key.zero.bytes .absent
  | someKey {k : Key} : k ≠ .zero → Payload .sentinelKey k.bytes (.key k)
  | fixed (body : Bytes) : Payload (.fixed body.length) body (.bytes body)
  | unit : Payload .unit [] .absent
  | absent (item : Layout) : Payload (.option item) [0] .absent
  | present {item : Layout} {b : UInt8} {bs : Bytes} {v : Value} : b ≠ 0 →
    Payload item bs v → Payload (.option item) (b :: bs) v
  | vec {item : Layout} {bs : Bytes} {vs : List Value} : vs.length < capacity countWidth →
    Payload (.tuple (List.replicate vs.length item)) bs (.seq vs) →
    Payload (.vec item) (littleEndian countWidth vs.length ++ bs) (.seq vs)
  | nil : Payload (.tuple []) [] (.seq [])
  | cons {item : Layout} {items : List Layout} {front back : Bytes} {v : Value}
      {vs : List Value} :
    Payload item front v → Payload (.tuple items) back (.seq vs) →
    Payload (.tuple (item :: items)) (front ++ back) (.seq (v :: vs))
  | struct {fields : List (String × Layout)} {bs : Bytes} {vs : List Value} :
    Payload (.tuple (fields.map Prod.snd)) bs (.seq vs) → Payload (.struct fields) bs (.seq vs)
  | known {selector : Selector} {arms : List (Nat × Layout)} {tag : Nat} {arm : Layout}
      {bs : Bytes} {body : Value} :
    tag < capacity selector.width → arms.lookup tag = some arm → Payload arm bs body →
    Payload (.tagged selector arms) (littleEndian selector.width tag ++ bs) (.variant tag body)
  | unknown {selector : Selector} {arms : List (Nat × Layout)} {tag : Nat} :
    tag < capacity selector.width → arms.lookup tag = none → selector.closed = false →
    Payload (.tagged selector arms) (littleEndian selector.width tag) (.variant tag .absent)

theorem readBody_eq_ok {selector : Selector} {arms : List (Nat × Layout)} {tag : Nat}
    {bs rest : Bytes} {body : Value} :
    readBody selector arms tag bs = .ok (body, rest) ↔
      (∃ arm, arms.lookup tag = some arm ∧ arm.read bs = .ok (body, rest)) ∨
      arms.lookup tag = none ∧ selector.closed = false ∧ body = .absent ∧ bs = rest := by
  unfold readBody
  cases arms.lookup tag with
  | some arm => simp
  | none => cases selector.closed <;> simp [refuse, done, eq_comm]

theorem readText_eq_ok {body bs rest : Bytes} {v : Value} :
    readText body bs = .ok (v, rest) ↔ ∃ s, body = utf8 s ∧ v = .text s ∧ bs = rest := by
  unfold readText
  cases h : fromUtf8? body with
  | some s =>
    have hs := fromUtf8?_eq_some.mp h
    constructor
    · intro hd
      cases hd
      exact ⟨s, hs, rfl, rfl⟩
    · rintro ⟨s', hs', rfl, rfl⟩
      rw [fromUtf8?_eq_some.mpr hs'] at h
      cases h
      rfl
  | none =>
    constructor
    · intro hd
      cases hd
    · rintro ⟨s, hs, -⟩
      rw [fromUtf8?_eq_some.mpr hs] at h
      cases h

section Takes

variable {bs : Bytes}

theorem readText_takes (s : String) : (readText (utf8 s)).Takes [] (.text s) := by
  intro rest
  exact readText_eq_ok.mpr ⟨s, rfl, rfl, rfl⟩

theorem read_tuple_takes {items : List Layout} {vs : List Value} :
    (tuple items).read.Takes bs (.seq vs) ↔ (readItems items).Takes bs vs := by
  rw [read_tuple]
  constructor
  · intro h rest
    obtain ⟨vs', hvs, hd⟩ := andThen_done_eq_ok.mp (h rest)
    cases hd
    exact hvs
  · intro h rest
    exact andThen_of_ok (h rest)

end Takes

/-- The reader takes each payload, and nothing behind it. -/
theorem Payload.takes {layout : Layout} {bs : Bytes} {v : Value} (h : Payload layout bs v) :
    layout.read.Takes bs v := by
  induction h with
  | uint hn => exact read_uint _ ▸ (readNat_takes hn).finish rfl
  | sint hn => exact read_sint _ ▸ (readNat_takes hn).finish rfl
  | bool b => exact read_bool ▸ (readFlag_takes b).finish rfl
  | bytes hlt => exact read_bytes _ ▸ (readCounted_takes hlt).finish rfl
  | @text width s hlt =>
    rw [read_text]
    simpa using (readCounted_takes hlt).andThen (readText_takes s)
  | key k => exact read_key ▸ (readKey_takes k).finish rfl
  | noKey => exact read_sentinelKey ▸ (readKey_takes _).finish (by simp)
  | someKey hk => exact read_sentinelKey ▸ (readKey_takes _).finish (by simp [hk])
  | fixed body => exact read_fixed _ ▸ (readBytes_takes body).finish rfl
  | unit => exact read_unit ▸ takes_done _
  | absent item => exact read_option item ▸ (readFlag_takes 0).finish rfl
  | @present item b bs v hb _ ih =>
    rw [read_option]
    apply (readFlag_takes b).andThen
    rwa [if_pos (by simpa using hb)]
  | vec hn _ ih =>
    rw [read_vec]
    exact (readNat_takes hn).andThen ih
  | nil => exact read_tuple_takes.mpr (readItems_nil ▸ takes_done [])
  | @cons item items front back v vs _ _ ihv ihvs =>
    rw [read_tuple_takes, readItems_cons]
    exact ihv.andThen ((read_tuple_takes.mp ihvs).finish rfl)
  | struct _ ih => exact read_struct _ ▸ ih
  | @known selector arms tag arm bs body htag harm _ ih =>
    rw [read_tagged]
    apply (readNat_takes htag).andThen
    have hbody : (readBody selector arms tag).Takes bs body := by
      rw [readBody, harm]
      exact ih
    exact hbody.finish rfl
  | @unknown selector arms tag htag harm hopen =>
    rw [read_tagged]
    apply (readNat_takes htag).finish
    funext rest
    exact andThen_of_ok (readBody_eq_ok.mpr (Or.inr ⟨harm, hopen, rfl, rfl⟩))

theorem Payload.length_eq {items : List Layout} {bs : Bytes} {vs : List Value}
    (h : Payload (.tuple items) bs (.seq vs)) : vs.length = items.length := by
  induction items generalizing bs vs with
  | nil =>
    cases h
    rfl
  | cons item items ih =>
    cases h with
    | cons _ hvs => rw [List.length_cons, List.length_cons, ih hvs]

theorem exists_payload_of_readItems {items : List Layout} {bs rest : Bytes} {vs : List Value}
    (h : ∀ item ∈ items, ∀ bs rest v, item.read bs = .ok (v, rest) →
      ∃ front, bs = front ++ rest ∧ Payload item front v)
    (hvs : readItems items bs = .ok (vs, rest)) :
    ∃ front, bs = front ++ rest ∧ Payload (.tuple items) front (.seq vs) := by
  induction items generalizing bs vs with
  | nil =>
    rw [readItems_nil] at hvs
    cases hvs
    exact ⟨[], rfl, .nil⟩
  | cons item items ih =>
    rw [readItems_cons, andThen_eq_ok] at hvs
    obtain ⟨v, mid, hv, htail⟩ := hvs
    obtain ⟨vs, hvs, rfl⟩ := andThen_done_eq_ok.mp htail
    obtain ⟨front, rfl, hfront⟩ := h item List.mem_cons_self _ _ _ hv
    obtain ⟨back, rfl, hback⟩ := ih (fun i hi => h i (List.mem_cons_of_mem _ hi)) hvs
    exact ⟨front ++ back, (List.append_assoc ..).symm, .cons hfront hback⟩

/-- What is read is a payload at the front. -/
theorem exists_payload_of_read {layout : Layout} {bs rest : Bytes} {v : Value}
    (h : layout.read bs = .ok (v, rest)) :
    ∃ front, bs = front ++ rest ∧ Payload layout front v := by
  induction layout generalizing bs rest v with
  | uint width =>
    rw [read_uint, andThen_done_eq_ok] at h
    obtain ⟨n, hn, rfl⟩ := h
    obtain ⟨hlt, rfl⟩ := readNat_eq_ok.mp hn
    exact ⟨_, rfl, .uint hlt⟩
  | sint width =>
    rw [read_sint, andThen_done_eq_ok] at h
    obtain ⟨n, hn, rfl⟩ := h
    obtain ⟨hlt, rfl⟩ := readNat_eq_ok.mp hn
    exact ⟨_, rfl, .sint hlt⟩
  | bool =>
    rw [read_bool, andThen_done_eq_ok] at h
    obtain ⟨present, hb, rfl⟩ := h
    obtain ⟨b, rfl, rfl⟩ := readFlag_eq_ok.mp hb
    exact ⟨[b], rfl, .bool b⟩
  | bytes width =>
    rw [read_bytes, andThen_done_eq_ok] at h
    obtain ⟨body, hbody, rfl⟩ := h
    obtain ⟨hlt, rfl⟩ := readCounted_eq_ok.mp hbody
    exact ⟨_, rfl, .bytes hlt⟩
  | text width =>
    rw [read_text, andThen_eq_ok] at h
    obtain ⟨body, mid, hbody, hd⟩ := h
    obtain ⟨hlt, rfl⟩ := readCounted_eq_ok.mp hbody
    obtain ⟨s, rfl, rfl, rfl⟩ := readText_eq_ok.mp hd
    exact ⟨_, rfl, .text hlt⟩
  | key =>
    rw [read_key, andThen_done_eq_ok] at h
    obtain ⟨k, hk, rfl⟩ := h
    exact ⟨k.bytes, readKey_eq_ok.mp hk, .key k⟩
  | sentinelKey =>
    rw [read_sentinelKey, andThen_done_eq_ok] at h
    obtain ⟨k, hk, rfl⟩ := h
    refine ⟨k.bytes, readKey_eq_ok.mp hk, ?_⟩
    by_cases hz : k = .zero
    · rw [if_pos hz, hz]
      exact .noKey
    · rw [if_neg hz]
      exact .someKey hz
  | fixed length =>
    rw [read_fixed, andThen_done_eq_ok] at h
    obtain ⟨body, hbody, rfl⟩ := h
    obtain ⟨rfl, rfl⟩ := readBytes_eq_ok.mp hbody
    exact ⟨body, rfl, .fixed body⟩
  | unit =>
    rw [read_unit] at h
    cases h
    exact ⟨[], rfl, .unit⟩
  | option item ih =>
    rw [read_option, andThen_eq_ok] at h
    obtain ⟨flag, mid, hb, hd⟩ := h
    obtain ⟨b, rfl, rfl⟩ := readFlag_eq_ok.mp hb
    by_cases hz : b = 0
    · subst hz
      cases hd
      exact ⟨[0], rfl, .absent item⟩
    · rw [if_pos (by simpa using hz)] at hd
      obtain ⟨front, rfl, hfront⟩ := ih hd
      exact ⟨b :: front, rfl, .present hz hfront⟩
  | vec item ih =>
    rw [read_vec, andThen_eq_ok] at h
    obtain ⟨n, mid, hn, h⟩ := h
    rw [read_tuple, andThen_done_eq_ok] at h
    obtain ⟨vs, hvs, rfl⟩ := h
    obtain ⟨hlt, rfl⟩ := readNat_eq_ok.mp hn
    have hitem : ∀ i ∈ List.replicate n item, ∀ bs rest v, i.read bs = .ok (v, rest) →
        ∃ front, bs = front ++ rest ∧ Payload i front v := by
      intro i hi bs rest v hv
      obtain rfl := List.eq_of_mem_replicate hi
      exact ih hv
    obtain ⟨front, rfl, hfront⟩ := exists_payload_of_readItems hitem hvs
    obtain rfl : vs.length = n := by simpa using hfront.length_eq
    exact ⟨_, (List.append_assoc ..).symm, .vec hlt hfront⟩
  | tuple items ih =>
    rw [read_tuple, andThen_done_eq_ok] at h
    obtain ⟨vs, hvs, rfl⟩ := h
    exact exists_payload_of_readItems (fun i hi _ _ _ hv => ih i hi hv) hvs
  | struct fields ih =>
    rw [read_struct, read_tuple, andThen_done_eq_ok] at h
    obtain ⟨vs, hvs, rfl⟩ := h
    have hfield : ∀ item ∈ fields.map Prod.snd, ∀ bs rest v, item.read bs = .ok (v, rest) →
        ∃ front, bs = front ++ rest ∧ Payload item front v := by
      intro item hi bs rest v hv
      obtain ⟨field, hf, rfl⟩ := List.mem_map.mp hi
      exact ih field hf hv
    obtain ⟨front, rfl, hfront⟩ := exists_payload_of_readItems hfield hvs
    exact ⟨front, rfl, .struct hfront⟩
  | tagged selector arms ih =>
    rw [read_tagged, andThen_eq_ok] at h
    obtain ⟨tag, mid, htag, h⟩ := h
    obtain ⟨body, hbody, rfl⟩ := andThen_done_eq_ok.mp h
    obtain ⟨hlt, rfl⟩ := readNat_eq_ok.mp htag
    rcases readBody_eq_ok.mp hbody with ⟨arm, harm, hread⟩ | ⟨harm, hopen, rfl, rfl⟩
    · obtain ⟨t, ht⟩ := exists_mem_of_lookup harm
      obtain ⟨front, rfl, hfront⟩ := ih _ ht hread
      exact ⟨_, (List.append_assoc ..).symm, .known hlt harm hfront⟩
    · exact ⟨_, rfl, .unknown hlt harm hopen⟩

/-- Reading takes a payload off the front, and accepts nothing else. -/
theorem read_eq_ok {layout : Layout} {bs rest : Bytes} {v : Value} :
    layout.read bs = .ok (v, rest) ↔ ∃ front, bs = front ++ rest ∧ Payload layout front v := by
  constructor
  · exact exists_payload_of_read
  · rintro ⟨front, rfl, hfront⟩
    exact hfront.takes rest

theorem parse_eq_ok_iff_payload {layout : Layout} {data : Bytes} {v : Value} :
    layout.parse data = .ok v ↔ Payload layout data v := by
  rw [parse_eq_ok, read_eq_ok]
  simp

end TokenWire.Layout
