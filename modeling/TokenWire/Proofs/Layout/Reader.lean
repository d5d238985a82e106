import TokenWire.Layout.Decode
import TokenWire.Proofs.Checked

/-! Readers one after the other, and exactly which bytes they take off the front of a string. -/

namespace TokenWire
namespace Reader

variable {α β : Type} {r : Reader α} {k : α → Reader β}

/-- Takes no bytes. -/
def done (a : α) : Reader α := fun bs => .ok (a, bs)

/-- Refuses every string. -/
def refuse (fault : DecodeFault) : Reader α := fun _ => .error fault

/-- Reads a first value, and then on from it. -/
def andThen (r : Reader α) (k : α → Reader β) : Reader β := fun bs => do
  let (a, rest) ← r bs
  k a rest

theorem andThen_of_ok {bs rest : Bytes} {a : α} (h : r bs = .ok (a, rest)) :
    r.andThen k bs = k a rest := by
  simp [andThen, h, bind, Except.bind]

theorem andThen_of_error {bs : Bytes} {fault : DecodeFault} (h : r bs = .error fault) :
    r.andThen k bs = .error fault := by
  simp [andThen, h, bind, Except.bind]

theorem andThen_eq_ok {bs rest : Bytes} {b : β} :
    r.andThen k bs = .ok (b, rest) ↔ ∃ a mid, r bs = .ok (a, mid) ∧ k a mid = .ok (b, rest) := by
  simp [andThen, Checked.bind_eq_ok]

theorem andThen_eq_error {bs : Bytes} {fault : DecodeFault} :
    r.andThen k bs = .error fault ↔
      r bs = .error fault ∨ ∃ a mid, r bs = .ok (a, mid) ∧ k a mid = .error fault := by
  simp [andThen, Checked.bind_eq_error]

theorem andThen_done_eq_ok {f : α → β} {bs rest : Bytes} {b : β} :
    r.andThen (fun a => done (f a)) bs = .ok (b, rest) ↔ ∃ a, r bs = .ok (a, rest) ∧ f a = b := by
  rw [andThen_eq_ok]
  constructor
  · rintro ⟨a, mid, h, hd⟩
    cases hd
    exact ⟨a, h, rfl⟩
  · rintro ⟨a, h, rfl⟩
    exact ⟨a, rest, h, rfl⟩

theorem andThen_done_eq_error {f : α → β} {bs : Bytes} {fault : DecodeFault} :
    r.andThen (fun a => done (f a)) bs = .error fault ↔ r bs = .error fault := by
  rw [andThen_eq_error]
  exact or_iff_left fun ⟨_, _, _, hd⟩ => nomatch hd

/-- The reader takes exactly `front`, whatever follows, and yields `a`. -/
def Takes (r : Reader α) (front : Bytes) (a : α) : Prop :=
  ∀ rest, r (front ++ rest) = .ok (a, rest)

theorem takes_done (a : α) : (done a).Takes [] a := fun _ => rfl

theorem Takes.andThen {front mid : Bytes} {a : α} {b : β} (hr : r.Takes front a)
    (hk : (k a).Takes mid b) : (r.andThen k).Takes (front ++ mid) b := by
  intro rest
  rw [List.append_assoc, andThen_of_ok (hr _), hk]

/-- A last step that takes no bytes. -/
theorem Takes.finish {front : Bytes} {a : α} {b : β} (hr : r.Takes front a) (hk : k a = done b) :
    (r.andThen k).Takes front b := by
  intro rest
  rw [andThen_of_ok (hr rest), hk]
  rfl

/--
What the reader accepts is a front that it takes whatever follows, and of which no shorter piece
is enough.
-/
def Strict (r : Reader α) : Prop :=
  ∀ bs a rest, r bs = .ok (a, rest) → ∃ front, bs = front ++ rest ∧ r.Takes front a ∧
    ∀ piece more, front = piece ++ more → more ≠ [] → r piece = .error .endOfData

theorem strict_done (a : α) : (done a).Strict := by
  intro bs a' rest h
  cases h
  refine ⟨[], rfl, takes_done a, ?_⟩
  intro piece more he hmore
  exact absurd (List.append_eq_nil_iff.mp he.symm).2 hmore

theorem strict_refuse (fault : DecodeFault) : (refuse fault : Reader α).Strict := by
  intro bs a rest h
  cases h

theorem Strict.andThen (hr : r.Strict) (hk : ∀ a, (k a).Strict) : (r.andThen k).Strict := by
  intro bs b rest h
  obtain ⟨a, mid, ha, hb⟩ := andThen_eq_ok.mp h
  obtain ⟨front, rfl, hfront, hshort⟩ := hr bs a mid ha
  obtain ⟨back, rfl, hback, hshort'⟩ := hk a mid b rest hb
  refine ⟨front ++ back, (List.append_assoc ..).symm, hfront.andThen hback, ?_⟩
  intro piece more he hmore
  -- The piece ends inside the second part, or inside the first, or between the two.
  rcases List.append_eq_append_iff.mp he with ⟨piece', rfl, he'⟩ | ⟨more', hf, rfl⟩
  · rw [andThen_of_ok (hfront piece')]
    exact hshort' piece' more he' hmore
  · by_cases hm : more' = []
    · subst hm
      rw [List.append_nil] at hf
      rw [← hf, andThen_of_ok (by simpa using hfront [])]
      exact hshort' [] back rfl hmore
    · exact andThen_of_error (hshort piece more' hf hm)

variable {p : DecodeFault → Prop}

/-- The reader refuses a string for no other reasons than these. -/
def FailsOnly (p : DecodeFault → Prop) (r : Reader α) : Prop :=
  ∀ bs fault, r bs = .error fault → p fault

theorem failsOnly_done (a : α) : (done a).FailsOnly p := by
  intro bs fault h
  cases h

theorem FailsOnly.andThen (hr : r.FailsOnly p) (hk : ∀ a, (k a).FailsOnly p) :
    (r.andThen k).FailsOnly p := by
  intro bs fault h
  rcases andThen_eq_error.mp h with h | ⟨a, mid, -, h⟩
  · exact hr bs fault h
  · exact hk a mid fault h

end Reader

section Fields

open Reader

variable {bs rest : Bytes} {fault : DecodeFault} {n width : Nat}

theorem readBytes_eq_ok {front : Bytes} :
    readBytes n bs = .ok (front, rest) ↔ front.length = n ∧ bs = front ++ rest := by
  rw [readBytes, cut?_eq]
  constructor
  · intro h
    split at h
    · rename_i hn
      split at hn <;> cases hn
      cases h
      exact ⟨List.length_take_of_le ‹_›, (List.take_append_drop n bs).symm⟩
    · cases h
  · rintro ⟨rfl, rfl⟩
    simp

theorem readBytes_eq_error :
    readBytes n bs = .error fault ↔ bs.length < n ∧ fault = .endOfData := by
  rw [readBytes, cut?_eq]
  by_cases hn : n ≤ bs.length
  · simp [hn, Nat.not_lt.mpr hn]
  · simp [hn, Nat.lt_of_not_le hn, eq_comm]

/-- A field is refused only where the bytes end inside it. -/
theorem readBytes_failsOnly {p : DecodeFault → Prop} (h : p .endOfData) (n : Nat) :
    (readBytes n).FailsOnly p := by
  intro bs fault he
  rwa [(readBytes_eq_error.mp he).2]

theorem readBytes_takes (bs : Bytes) : (readBytes bs.length).Takes bs bs := by
  intro rest
  exact readBytes_eq_ok.mpr ⟨rfl, rfl⟩

theorem readBytes_strict (n : Nat) : (readBytes n).Strict := by
  intro bs front rest h
  obtain ⟨rfl, rfl⟩ := readBytes_eq_ok.mp h
  refine ⟨front, rfl, readBytes_takes front, ?_⟩
  rintro piece more rfl hmore
  have := List.length_pos_iff.mpr hmore
  exact readBytes_eq_error.mpr ⟨by simp; omega, rfl⟩

theorem readNat_eq (width : Nat) :
    readNat width = (readBytes width).andThen fun front => done (fromLittleEndian front) := rfl

theorem readNat_eq_ok :
    readNat width bs = .ok (n, rest) ↔ n < capacity width ∧ bs = littleEndian width n ++ rest := by
  rw [readNat_eq, andThen_done_eq_ok]
  constructor
  · rintro ⟨front, h, rfl⟩
    obtain ⟨rfl, rfl⟩ := readBytes_eq_ok.mp h
    exact ⟨fromLittleEndian_lt front, by rw [littleEndian_fromLittleEndian]⟩
  · rintro ⟨hn, rfl⟩
    refine ⟨_, readBytes_eq_ok.mpr ⟨length_littleEndian width n, rfl⟩, ?_⟩
    exact fromLittleEndian_littleEndian hn

theorem readNat_failsOnly {p : DecodeFault → Prop} (h : p .endOfData) (width : Nat) :
    (readNat width).FailsOnly p :=
  (readBytes_failsOnly h width).andThen fun _ => failsOnly_done _

theorem readNat_takes (hn : n < capacity width) :
    (readNat width).Takes (littleEndian width n) n := by
  intro rest
  exact readNat_eq_ok.mpr ⟨hn, rfl⟩

theorem readNat_strict (width : Nat) : (readNat width).Strict :=
  (readBytes_strict width).andThen fun _ => strict_done _

theorem readCounted_eq (width : Nat) : readCounted width = (readNat width).andThen readBytes := rfl

theorem readCounted_eq_ok {body : Bytes} :
    readCounted width bs = .ok (body, rest) ↔
      body.length < capacity width ∧ bs = littleEndian width body.length ++ body ++ rest := by
  rw [readCounted_eq, andThen_eq_ok]
  constructor
  · rintro ⟨n, mid, hn, h⟩
    obtain ⟨rfl, rfl⟩ := readBytes_eq_ok.mp h
    obtain ⟨hlt, rfl⟩ := readNat_eq_ok.mp hn
    exact ⟨hlt, (List.append_assoc ..).symm⟩
  · rintro ⟨hlt, rfl⟩
    refine ⟨body.length, body ++ rest, readNat_eq_ok.mpr ⟨hlt, List.append_assoc ..⟩, ?_⟩
    exact readBytes_eq_ok.mpr ⟨rfl, rfl⟩

theorem readCounted_failsOnly {p : DecodeFault → Prop} (h : p .endOfData) (width : Nat) :
    (readCounted width).FailsOnly p :=
  (readNat_failsOnly h width).andThen (readBytes_failsOnly h)

theorem readCounted_takes {body : Bytes} (h : body.length < capacity width) :
    (readCounted width).Takes (littleEndian width body.length ++ body) body := by
  intro rest
  exact readCounted_eq_ok.mpr ⟨h, rfl⟩

theorem readCounted_strict (width : Nat) : (readCounted width).Strict :=
  (readNat_strict width).andThen readBytes_strict

theorem readKey_eq_ok {k : Key} : readKey bs = .ok (k, rest) ↔ bs = k.bytes ++ rest := by
  constructor
  · intro h
    unfold readKey Key.take? at h
    split at h
    · rename_i hk
      split at hk <;> cases hk
      cases h
      exact (List.take_append_drop 32 bs).symm
    · cases h
  · rintro rfl
    simp [readKey, Key.take?_bytes_append]

theorem readKey_eq_error :
    readKey bs = .error fault ↔ bs.length < 32 ∧ fault = .endOfData := by
  unfold readKey Key.take?
  by_cases hk : 32 ≤ bs.length
  · simp [hk, Nat.not_lt.mpr hk]
  · simp [hk, Nat.lt_of_not_le hk, eq_comm]

theorem readKey_failsOnly {p : DecodeFault → Prop} (h : p .endOfData) : readKey.FailsOnly p := by
  intro bs fault he
  rwa [(readKey_eq_error.mp he).2]

theorem readKey_takes (k : Key) : readKey.Takes k.bytes k := by
  intro rest
  exact readKey_eq_ok.mpr rfl

theorem readKey_strict : readKey.Strict := by
  intro bs k rest h
  refine ⟨k.bytes, readKey_eq_ok.mp h, readKey_takes k, ?_⟩
  intro piece more he hmore
  have := List.length_pos_iff.mpr hmore
  have := congrArg List.length he
  simp only [k.length_bytes, List.length_append] at this
  exact readKey_eq_error.mpr ⟨by omega, rfl⟩

theorem readFlag_eq_ok {present : Bool} :
    readFlag bs = .ok (present, rest) ↔ ∃ b, bs = b :: rest ∧ (b != 0) = present := by
  constructor
  · intro h
    cases bs with
    | nil => cases h
    | cons b bs =>
      cases h
      exact ⟨b, rfl, rfl⟩
  · rintro ⟨b, rfl, rfl⟩
    rfl

theorem readFlag_failsOnly {p : DecodeFault → Prop} (h : p .endOfData) : readFlag.FailsOnly p := by
  intro bs fault he
  cases bs <;> cases he
  exact h

theorem readFlag_takes (b : UInt8) : readFlag.Takes [b] (b != 0) := by
  intro rest
  rfl

theorem readFlag_strict : readFlag.Strict := by
  intro bs present rest h
  obtain ⟨b, rfl, rfl⟩ := readFlag_eq_ok.mp h
  refine ⟨[b], rfl, readFlag_takes b, ?_⟩
  intro piece more he hmore
  have := List.length_pos_iff.mpr hmore
  have := congrArg List.length he
  simp only [List.length_singleton, List.length_append] at this
  have : piece = [] := List.length_eq_zero_iff.mp (by omega)
  subst this
  rfl

theorem fromUtf8?_eq_some {s : String} : fromUtf8? bs = some s ↔ bs = utf8 s := by
  unfold fromUtf8? String.fromUTF8?
  constructor
  · intro h
    split at h
    · cases h
      rfl
    · cases h
  · intro h
    subst h
    exact dif_pos s.isValidUTF8

end Fields
end TokenWire
