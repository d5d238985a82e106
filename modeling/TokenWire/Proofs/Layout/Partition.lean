import TokenWire.Proofs.Layout.Canonical
import TokenWire.Proofs.Layout.Garbled
import TokenWire.Proofs.Layout.Numbered
import TokenWire.Proofs.Layout.Typed

/-! Data with the number of a member in front: each string of bytes is read or refused in one way. -/

namespace TokenWire

theorem Enumeration.tag_eq_of_ofTag? {α : Type} [Enumeration α] {n : Nat} {a : α}
    (h : ofTag? n = some a) : tag a = n := by
  simpa using List.find?_some h

theorem Enumeration.ofTag?_eq_none {α : Type} [Enumeration α]
    (hall : ∀ a : α, ofTag? (tag a) = some a) {n : Nat} :
    (ofTag? n : Option α) = none ↔ ∀ a : α, tag a ≠ n := by
  constructor
  · rintro h a rfl
    rw [hall a] at h
    cases h
  · intro h
    cases hn : (ofTag? n : Option α) with
    | none => rfl
    | some a => exact absurd (tag_eq_of_ofTag? hn) (h a)

namespace Layout

open Reader

section FailsOnly

variable {p : DecodeFault → Prop}

theorem read_uint_failsOnly (h : p .endOfData) (width : Nat) : (uint width).read.FailsOnly p := by
  rw [read_uint]
  exact (readNat_failsOnly h width).andThen fun _ => failsOnly_done _

theorem read_key_failsOnly (h : p .endOfData) : key.read.FailsOnly p := by
  rw [read_key]
  exact (readKey_failsOnly h).andThen fun _ => failsOnly_done _

theorem read_text_failsOnly (h : p .endOfData) (h' : p .malformedText) (width : Nat) :
    (text width).read.FailsOnly p := by
  have hbody : ∀ body, (readText body).FailsOnly p := by
    intro body bs fault he
    rw [readText] at he
    cases hs : fromUtf8? body with
    | some s =>
      rw [hs] at he
      cases he
    | none =>
      rw [hs] at he
      cases he
      exact h'
  rw [read_text]
  exact (readCounted_failsOnly h width).andThen hbody

theorem read_struct_failsOnly {fields : List (String × Layout)}
    (h : ∀ field ∈ fields, field.2.read.FailsOnly p) : (struct fields).read.FailsOnly p := by
  have hitems : (readItems (fields.map Prod.snd)).FailsOnly p := by
    induction fields with
    | nil => exact failsOnly_done []
    | cons field fields ih =>
      obtain ⟨hfield, hfields⟩ := List.forall_mem_cons.mp h
      rw [List.map_cons, readItems_cons]
      exact hfield.andThen fun _ => (ih hfields).andThen fun _ => failsOnly_done _
  rw [read_struct, read_tuple]
  exact hitems.andThen fun _ => failsOnly_done _

end FailsOnly

variable {α β : Type} [Enumeration α] {selector : Selector} {f : α → Layout} {dialect : Dialect}
  {ofArgs : α → Value → Except Error β} {kind : β → α} {args : β → Value} {data : Bytes}

/-- Values of a type stand for the members of an enumeration with their arguments. -/
structure Vocabulary (selector : Selector) (f : α → Layout) (ofArgs : α → Value → Except Error β)
    (kind : β → α) (args : β → Value) : Prop where
  open_selector : selector.closed = false
  ofTag?_tag : ∀ a : α, Enumeration.ofTag? (Enumeration.tag a) = some a
  tag_lt : ∀ a : α, Enumeration.tag a < capacity selector.width
  flagFree : ∀ a, (f a).everywhere flagFree
  plain : ∀ a, (f a).everywhere plain
  failsOnly : ∀ a, (f a).read.FailsOnly fun fault => fault = .endOfData ∨ fault = .malformedText
  exists_args : ∀ a v, (f a).Shaped v → ∃ b, kind b = a ∧ args b = v
  shaped_args : ∀ b, (f (kind b)).Shaped (args b)
  ofArgs_args : ∀ b, ofArgs (kind b) (args b) = .ok b

/-- The data is what is written of a member and arguments of its layout. -/
def Encodes (selector : Selector) (f : α → Layout) (a : α) (v : Value) (data : Bytes) : Prop :=
  (f a).Shaped v ∧ (numbered selector f).write (.variant (Enumeration.tag a) v) = .ok data

variable (α) in
/-- The data is a number of no member, and nothing more. -/
def Unassigned (width tag : Nat) (data : Bytes) : Prop :=
  tag < capacity width ∧ (∀ a : α, Enumeration.tag a ≠ tag) ∧ data = littleEndian width tag

/-- Bytes are left behind a complete value, or behind a number of no member. -/
def Overlong (selector : Selector) (f : α → Layout) (data : Bytes) : Prop :=
  ∃ front more, data = front ++ more ∧ more ≠ [] ∧
    ((∃ a v, Encodes selector f a v front) ∨ ∃ tag, Unassigned α selector.width tag front)

/-- What is read from data, and why data is refused, by what the data is. -/
structure Partition (selector : Selector) (f : α → Layout) (dialect : Dialect) (kind : β → α)
    (args : β → Value) (Garbles : Bytes → Prop) (decode : Bytes → Except Error β)
    (data : Bytes) : Prop where
  /-- Data is read as what it is written of. -/
  ok : ∀ b, decode data = .ok b ↔ Encodes selector f (kind b) (args b) data
  /-- What is written of a member and its arguments is read as just these. -/
  exists_ok : ∀ a v, Encodes selector f a v data → ∃ b, decode data = .ok b ∧ kind b = a ∧ args b = v
  unassigned : ∀ tag, decode data = .error (.unknownInstruction dialect tag) ↔
    Unassigned α selector.width tag data
  leftover : decode data = .error (.malformed .leftover data.length) ↔ Overlong selector f data
  malformedText : decode data = .error (.malformed .malformedText data.length) ↔ Garbles data
  endOfData : decode data = .error (.malformed .endOfData data.length) ↔
    (∀ a v, ¬ Encodes selector f a v data) ∧ (∀ tag, ¬ Unassigned α selector.width tag data) ∧
      ¬ Overlong selector f data ∧ ¬ Garbles data

namespace Vocabulary

variable (h : Vocabulary selector f ofArgs kind args)
include h

theorem everywhere_flagFree : (numbered selector f).everywhere Layout.flagFree := by
  refine everywhere_tagged.mpr fun arm harm => ?_
  obtain ⟨a, -, rfl⟩ := List.mem_map.mp harm
  exact h.flagFree a

/-- Written data is data that holds just the member and the arguments. -/
theorem encodes_iff {a : α} {v : Value} : Encodes selector f a v data ↔
    Payload (numbered selector f) data (.variant (Enumeration.tag a) v) := by
  have hlookup := lookup_tag (f := f) (h.ofTag?_tag a)
  constructor
  · rintro ⟨hv, hwrite⟩
    have hpayload := (Shaped.known hlookup hv).payload (write_eq_ok.mp hwrite)
    rwa [normalize_known hlookup, normalize_eq_self (h.plain a)] at hpayload
  · intro hpayload
    refine ⟨?_, write_eq_ok.mpr (hpayload.encode_eq_of_flagFree h.everywhere_flagFree)⟩
    cases hpayload with
    | known _ harm hbody =>
      obtain rfl := Option.some.inj (hlookup.symm.trans harm)
      exact hbody.shaped
    | unknown _ harm _ =>
      rw [hlookup] at harm
      cases harm

theorem unassigned_iff {tag : Nat} : Unassigned α selector.width tag data ↔
    (Enumeration.ofTag? tag : Option α) = none ∧
      Payload (numbered selector f) data (.variant tag .absent) := by
  have hnone : (Enumeration.ofTag? tag : Option α) = none → ((Enumeration.all : List α).map
      fun a => (Enumeration.tag a, f a)).lookup tag = none := by
    intro htag
    rw [lookup_map_tag]
    exact congrArg (Option.map f) htag
  rw [Unassigned, ← Enumeration.ofTag?_eq_none h.ofTag?_tag]
  constructor
  · rintro ⟨hlt, htag, rfl⟩
    exact ⟨htag, .unknown hlt (hnone htag) h.open_selector⟩
  · rintro ⟨htag, hpayload⟩
    cases hpayload with
    | known _ harm _ =>
      rw [hnone htag] at harm
      cases harm
    | unknown hlt _ _ => exact ⟨hlt, htag, rfl⟩

/-- A complete value is a member with its arguments, or a number of none. -/
theorem exists_payload_iff : (∃ v, Payload (numbered selector f) data v) ↔
    (∃ a v, Encodes selector f a v data) ∨ ∃ tag, Unassigned α selector.width tag data := by
  constructor
  · rintro ⟨v, hv⟩
    obtain ⟨tag, body, rfl, ⟨a, ha, -⟩ | ⟨htag, rfl⟩⟩ := shaped_numbered hv.shaped
    · obtain rfl := Enumeration.tag_eq_of_ofTag? ha
      exact Or.inl ⟨a, body, h.encodes_iff.mpr hv⟩
    · exact Or.inr ⟨tag, h.unassigned_iff.mpr ⟨htag, hv⟩⟩
  · rintro (⟨a, v, hv⟩ | ⟨tag, htag⟩)
    · exact ⟨_, h.encodes_iff.mp hv⟩
    · exact ⟨_, (h.unassigned_iff.mp htag).2⟩

theorem read_failsOnly : (numbered selector f).read.FailsOnly fun fault =>
    fault = .endOfData ∨ fault = .malformedText := by
  have hbody : ∀ tag, (readBody selector ((Enumeration.all : List α).map
      fun a => (Enumeration.tag a, f a)) tag).FailsOnly fun fault =>
        fault = .endOfData ∨ fault = .malformedText := by
    intro tag
    rw [readBody, lookup_map_tag]
    cases (Enumeration.all : List α).find? (Enumeration.tag · == tag) with
    | some a => exact h.failsOnly a
    | none =>
      rw [h.open_selector]
      exact failsOnly_done _
  rw [numbered, read_tagged]
  exact (readNat_failsOnly (Or.inl rfl) _).andThen fun tag =>
    (hbody tag).andThen fun _ => failsOnly_done _

theorem parse_eq_leftover :
    (numbered selector f).parse data = .error (.malformed .leftover data.length) ↔
      Overlong selector f data := by
  rw [parse_eq_error]
  constructor
  · rintro ⟨fault, hfault, he⟩
    cases he
    rcases decode_eq_error.mp hfault with hread | ⟨-, v, more, hmore, hread⟩
    · rcases h.read_failsOnly _ _ hread with hnot | hnot <;> cases hnot
    · obtain ⟨front, rfl, hfront⟩ := read_eq_ok.mp hread
      exact ⟨front, more, rfl, hmore, h.exists_payload_iff.mp ⟨v, hfront⟩⟩
  · rintro ⟨front, more, rfl, hmore, hfront⟩
    obtain ⟨v, hv⟩ := h.exists_payload_iff.mpr hfront
    exact ⟨.leftover, decode_eq_error.mpr (Or.inr ⟨rfl, v, more, hmore, hv.takes more⟩), rfl⟩

theorem decode_eq_ok {b : β} : decodeNumbered selector f dialect ofArgs data = .ok b ↔
    Encodes selector f (kind b) (args b) data := by
  rw [h.encodes_iff, ← parse_eq_ok_iff_payload, decodeNumbered, Checked.bind_eq_ok]
  constructor
  · rintro ⟨v, hv, hb⟩
    obtain ⟨tag, body, rfl, ⟨a, ha, hbody⟩ | ⟨htag, rfl⟩⟩ :=
      shaped_numbered (parse_eq_ok_iff_payload.mp hv).shaped
    · obtain rfl := Enumeration.tag_eq_of_ofTag? ha
      obtain ⟨b', rfl, rfl⟩ := h.exists_args a body hbody
      simp only [ha, h.ofArgs_args] at hb
      cases hb
      exact hv
    · simp [htag] at hb
  · intro hv
    exact ⟨_, hv, by simp only [h.ofTag?_tag, h.ofArgs_args]⟩

theorem decode_eq_error {e : Error} : decodeNumbered selector f dialect ofArgs data = .error e ↔
    (numbered selector f).parse data = .error e ∨
      ∃ tag, Unassigned α selector.width tag data ∧ e = .unknownInstruction dialect tag := by
  have hargs : ∀ a v, (f a).Shaped v → ∃ b, ofArgs a v = .ok b := by
    intro a v hv
    obtain ⟨b, rfl, rfl⟩ := h.exists_args a v hv
    exact ⟨b, h.ofArgs_args b⟩
  rw [decodeNumbered_eq_error hargs]
  refine or_congr_right (exists_congr fun tag => ?_)
  rw [h.unassigned_iff, parse_eq_ok_iff_payload, and_assoc]
  exact and_left_comm

theorem decode_eq_malformed {fault : DecodeFault} {size : Nat} :
    decodeNumbered selector f dialect ofArgs data = .error (.malformed fault size) ↔
      (numbered selector f).parse data = .error (.malformed fault size) := by
  rw [h.decode_eq_error]
  exact or_iff_left fun ⟨_, _, he⟩ => nomatch he

theorem decode_eq_unknown {tag : Nat} :
    decodeNumbered selector f dialect ofArgs data = .error (.unknownInstruction dialect tag) ↔
      Unassigned α selector.width tag data := by
  rw [h.decode_eq_error]
  constructor
  · rintro (hparse | ⟨tag', htag, he⟩)
    · obtain ⟨fault, -, he⟩ := parse_eq_error.mp hparse
      cases he
    · cases he
      exact htag
  · intro htag
    exact Or.inr ⟨tag, htag, rfl⟩

/-- A fault of the data is one of three. -/
theorem fault_of_parse {e : Error} (he : (numbered selector f).parse data = .error e) :
    e = .malformed .leftover data.length ∨ e = .malformed .malformedText data.length ∨
      e = .malformed .endOfData data.length := by
  obtain ⟨fault, hfault, rfl⟩ := parse_eq_error.mp he
  rcases Layout.decode_eq_error.mp hfault with hread | ⟨rfl, -⟩
  · rcases h.read_failsOnly _ _ hread with rfl | rfl
    · exact Or.inr (Or.inr rfl)
    · exact Or.inr (Or.inl rfl)
  · exact Or.inl rfl

/-- What data is decides what is read from it, or why it is refused. -/
theorem partition {Garbles : Bytes → Prop}
    (hgarbled : (numbered selector f).Garbled data ↔ Garbles data) :
    Partition selector f dialect kind args Garbles (decodeNumbered selector f dialect ofArgs)
      data where
  ok b := h.decode_eq_ok
  exists_ok a v hv := by
    obtain ⟨b, rfl, rfl⟩ := h.exists_args a v hv.1
    exact ⟨b, h.decode_eq_ok.mpr hv, rfl, rfl⟩
  unassigned tag := h.decode_eq_unknown
  leftover := h.decode_eq_malformed.trans h.parse_eq_leftover
  malformedText := h.decode_eq_malformed.trans (parse_eq_malformedText.trans hgarbled)
  endOfData := by
    rw [h.decode_eq_malformed, ← h.parse_eq_leftover, ← hgarbled, ← parse_eq_malformedText]
    constructor
    · intro hend
      refine ⟨?_, ?_, ?_, ?_⟩
      · intro a v hv
        rw [parse_eq_ok_iff_payload.mpr (h.encodes_iff.mp hv)] at hend
        cases hend
      · intro tag htag
        rw [parse_eq_ok_iff_payload.mpr (h.unassigned_iff.mp htag).2] at hend
        cases hend
      · rw [hend]
        nofun
      · rw [hend]
        nofun
    · rintro ⟨hencodes, hunassigned, hleftover, htext⟩
      cases hparse : (numbered selector f).parse data with
      | ok v =>
        have hwhole := h.exists_payload_iff.mp ⟨v, parse_eq_ok_iff_payload.mp hparse⟩
        rcases hwhole with ⟨a, v, hv⟩ | ⟨tag, htag⟩
        · exact absurd hv (hencodes a v)
        · exact absurd htag (hunassigned tag)
      | error e =>
        rcases h.fault_of_parse hparse with rfl | rfl | rfl
        · exact absurd hparse hleftover
        · exact absurd hparse htext
        · rfl

end Vocabulary
end Layout
end TokenWire
