import TokenWire.Proofs.Layout.Everywhere
import TokenWire.Proofs.Layout.Payload

/-! Data in which a text that is all there is not UTF-8: the one other way for reading to fail. -/

namespace TokenWire

namespace Reader

variable {α : Type} {r : Reader α}

/-- The reader never meets a text that is not UTF-8. -/
def Clean (r : Reader α) : Prop :=
  ∀ bs, r bs ≠ .error .malformedText

theorem FailsOnly.clean (hr : r.FailsOnly (· ≠ .malformedText)) : r.Clean := by
  intro bs h
  exact hr bs _ h rfl

end Reader

open Reader

theorem readNat_clean (width : Nat) : (readNat width).Clean :=
  FailsOnly.clean (readNat_failsOnly nofun width)

theorem readCounted_clean (width : Nat) : (readCounted width).Clean :=
  FailsOnly.clean (readCounted_failsOnly nofun width)

theorem readKey_clean : readKey.Clean :=
  FailsOnly.clean (readKey_failsOnly nofun)

theorem readFlag_clean : readFlag.Clean :=
  FailsOnly.clean (readFlag_failsOnly nofun)

namespace Layout

/-- Data in which reading comes to a text that is all there but not UTF-8, whatever follows it. -/
inductive Garbled : Layout → Bytes → Prop where
  | text {width : Nat} {body : Bytes} (rest : Bytes) : body.length < capacity width →
    (∀ s, body ≠ utf8 s) →
    Garbled (.text width) (littleEndian width body.length ++ body ++ rest)
  | present {item : Layout} {b : UInt8} {bs : Bytes} : b ≠ 0 → Garbled item bs →
    Garbled (.option item) (b :: bs)
  | vec {item : Layout} {n : Nat} {bs : Bytes} : n < capacity countWidth →
    Garbled (.tuple (List.replicate n item)) bs →
    Garbled (.vec item) (littleEndian countWidth n ++ bs)
  | head {item : Layout} {items : List Layout} {bs : Bytes} : Garbled item bs →
    Garbled (.tuple (item :: items)) bs
  | tail {item : Layout} {items : List Layout} {front bs : Bytes} {v : Value} :
    Payload item front v → Garbled (.tuple items) bs →
    Garbled (.tuple (item :: items)) (front ++ bs)
  | struct {fields : List (String × Layout)} {bs : Bytes} :
    Garbled (.tuple (fields.map Prod.snd)) bs → Garbled (.struct fields) bs
  | known {selector : Selector} {arms : List (Nat × Layout)} {tag : Nat} {arm : Layout}
      {bs : Bytes} :
    tag < capacity selector.width → arms.lookup tag = some arm → Garbled arm bs →
    Garbled (.tagged selector arms) (littleEndian selector.width tag ++ bs)

theorem readText_eq_malformedText {body bs : Bytes} :
    readText body bs = .error .malformedText ↔ ∀ s, body ≠ utf8 s := by
  constructor
  · rintro h s rfl
    rw [readText_eq_ok.mpr ⟨s, rfl, rfl, rfl⟩] at h
    cases h
  · intro h
    unfold readText
    cases hs : fromUtf8? body with
    | some s => exact absurd (fromUtf8?_eq_some.mp hs) (h s)
    | none => rfl

theorem readBody_eq_malformedText {selector : Selector} {arms : List (Nat × Layout)} {tag : Nat}
    {bs : Bytes} : readBody selector arms tag bs = .error .malformedText ↔
      ∃ arm, arms.lookup tag = some arm ∧ arm.read bs = .error .malformedText := by
  unfold readBody
  cases arms.lookup tag with
  | some arm => simp
  | none => cases selector.closed <;> simp [refuse, done]

theorem read_tuple_eq_malformedText {items : List Layout} {bs : Bytes} :
    (tuple items).read bs = .error .malformedText ↔ readItems items bs = .error .malformedText := by
  rw [read_tuple, andThen_done_eq_error]

theorem Garbled.read_eq {layout : Layout} {bs : Bytes} (h : Garbled layout bs) :
    layout.read bs = .error .malformedText := by
  induction h with
  | text rest hlt hbody =>
    rw [read_text, andThen_of_ok (readCounted_takes hlt rest)]
    exact readText_eq_malformedText.mpr hbody
  | @present item b bs hb _ ih =>
    have hflag : readFlag (b :: bs) = .ok (b != 0, bs) := readFlag_takes b bs
    rw [read_option, andThen_of_ok hflag, if_pos (by simpa using hb), ih]
  | vec hn _ ih => rw [read_vec, andThen_of_ok (readNat_takes hn _), ih]
  | head _ ih =>
    rw [read_tuple_eq_malformedText, readItems_cons, andThen_of_error ih]
  | tail hv _ ih =>
    rw [read_tuple_eq_malformedText] at ih ⊢
    rw [readItems_cons, andThen_of_ok (hv.takes _), andThen_of_error ih]
  | struct _ ih => rw [read_struct, ih]
  | known htag harm _ ih =>
    rw [read_tagged, andThen_of_ok (readNat_takes htag _)]
    exact andThen_of_error (readBody_eq_malformedText.mpr ⟨_, harm, ih⟩)

theorem garbled_of_readItems {items : List Layout} {bs : Bytes}
    (h : ∀ item ∈ items, ∀ bs, item.read bs = .error .malformedText → Garbled item bs)
    (hbs : readItems items bs = .error .malformedText) : Garbled (.tuple items) bs := by
  induction items generalizing bs with
  | nil =>
    rw [readItems_nil] at hbs
    cases hbs
  | cons item items ih =>
    rw [readItems_cons, andThen_eq_error] at hbs
    rcases hbs with hbs | ⟨v, mid, hv, hbs⟩
    · exact .head (h item List.mem_cons_self bs hbs)
    · obtain ⟨front, rfl, hfront⟩ := exists_payload_of_read hv
      have hback := andThen_done_eq_error.mp hbs
      exact .tail hfront (ih (fun i hi => h i (List.mem_cons_of_mem _ hi)) hback)

theorem garbled_of_read {layout : Layout} {bs : Bytes}
    (h : layout.read bs = .error .malformedText) : Garbled layout bs := by
  induction layout generalizing bs with
  | uint width =>
    rw [read_uint, andThen_done_eq_error] at h
    exact absurd h (readNat_clean width bs)
  | sint width =>
    rw [read_sint, andThen_done_eq_error] at h
    exact absurd h (readNat_clean width bs)
  | bool =>
    rw [read_bool, andThen_done_eq_error] at h
    exact absurd h (readFlag_clean bs)
  | bytes width =>
    rw [read_bytes, andThen_done_eq_error] at h
    exact absurd h (readCounted_clean width bs)
  | text width =>
    rw [read_text, andThen_eq_error] at h
    rcases h with h | ⟨body, mid, hbody, h⟩
    · exact absurd h (readCounted_clean width bs)
    · obtain ⟨hlt, rfl⟩ := readCounted_eq_ok.mp hbody
      exact .text mid hlt (readText_eq_malformedText.mp h)
  | key =>
    rw [read_key, andThen_done_eq_error] at h
    exact absurd h (readKey_clean bs)
  | sentinelKey =>
    rw [read_sentinelKey, andThen_done_eq_error] at h
    exact absurd h (readKey_clean bs)
  | fixed length =>
    rw [read_fixed, andThen_done_eq_error] at h
    exact absurd h (FailsOnly.clean (readBytes_failsOnly nofun length) bs)
  | unit =>
    rw [read_unit] at h
    cases h
  | option item ih =>
    rw [read_option, andThen_eq_error] at h
    rcases h with h | ⟨present, mid, hb, h⟩
    · exact absurd h (readFlag_clean bs)
    · obtain ⟨b, rfl, rfl⟩ := readFlag_eq_ok.mp hb
      split at h
      · rename_i hpresent
        exact .present (by simpa using hpresent) (ih h)
      · cases h
  | vec item ih =>
    rw [read_vec, andThen_eq_error] at h
    rcases h with h | ⟨n, mid, hn, h⟩
    · exact absurd h (readNat_clean _ bs)
    · obtain ⟨hlt, rfl⟩ := readNat_eq_ok.mp hn
      apply Garbled.vec hlt
      apply garbled_of_readItems _ (read_tuple_eq_malformedText.mp h)
      intro i hi bs hbs
      obtain rfl := List.eq_of_mem_replicate hi
      exact ih hbs
  | tuple items ih =>
    exact garbled_of_readItems (fun item hi _ => ih item hi) (read_tuple_eq_malformedText.mp h)
  | struct fields ih =>
    rw [read_struct] at h
    apply Garbled.struct
    apply garbled_of_readItems _ (read_tuple_eq_malformedText.mp h)
    intro item hi bs hbs
    obtain ⟨field, hf, rfl⟩ := List.mem_map.mp hi
    exact ih field hf hbs
  | tagged selector arms ih =>
    rw [read_tagged, andThen_eq_error] at h
    rcases h with h | ⟨tag, mid, htag, h⟩
    · exact absurd h (readNat_clean _ bs)
    · obtain ⟨hlt, rfl⟩ := readNat_eq_ok.mp htag
      obtain ⟨arm, harm, h⟩ := readBody_eq_malformedText.mp (andThen_done_eq_error.mp h)
      obtain ⟨t, ht⟩ := exists_mem_of_lookup harm
      exact .known hlt harm (ih _ ht h)

/-- Reading fails at a text that is not UTF-8 just where the data is garbled. -/
theorem read_eq_malformedText {layout : Layout} {bs : Bytes} :
    layout.read bs = .error .malformedText ↔ Garbled layout bs :=
  ⟨garbled_of_read, Garbled.read_eq⟩

theorem parse_eq_malformedText {layout : Layout} {data : Bytes} :
    layout.parse data = .error (.malformed .malformedText data.length) ↔ Garbled layout data := by
  rw [parse_eq_error, ← read_eq_malformedText]
  constructor
  · rintro ⟨fault, h, he⟩
    cases he
    rcases decode_eq_error.mp h with h | ⟨hfault, -⟩
    · exact h
    · cases hfault
  · intro h
    exact ⟨.malformedText, decode_eq_error.mpr (Or.inl h), rfl⟩

/-- Whether this is no text. -/
def textFree : Layout → Bool
  | .text _ => false
  | _ => true

theorem Garbled.not_textFree {layout : Layout} {bs : Bytes} (h : Garbled layout bs) :
    ¬ layout.everywhere textFree := by
  induction h with
  | text _ _ _ =>
    intro hl
    cases hl
  | present _ _ ih => exact fun hl => ih (everywhere_option.mp hl).2
  | vec _ _ ih => exact fun hl => ih (everywhere_replicate hl _)
  | head _ ih => exact fun hl => ih (everywhere_tuple_cons.mp hl).1
  | tail _ _ ih => exact fun hl => ih (everywhere_tuple_cons.mp hl).2
  | struct _ ih => exact fun hl => ih (everywhere_struct.mp hl)
  | known _ harm _ ih => exact fun hl => ih (everywhere_of_lookup hl harm)

end Layout
end TokenWire
