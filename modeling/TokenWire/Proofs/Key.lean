import TokenWire.Error
import TokenWire.Proofs.Address.Seeded
import TokenWire.Proofs.Text.Base58

/-! Texts of keys: each key has one text, and an accepted text is that of the key it names. -/

namespace TokenWire.Key

variable {k : Key} {s : String} {e : Error}

theorem length_utf8_text (k : Key) : (utf8 k.text).length ≤ maxTextLength :=
  Base58.length_utf8_encode_le (by rw [k.length_bytes]; decide +kernel)

theorem ofText_eq_ok : ofText s = .ok k ↔ k.text = s := by
  unfold ofText
  constructor
  · intro h
    split at h
    · cases h
    · split at h
      · cases h
      · next bs hdecode =>
        split at h
        · cases h
          exact Base58.decode?_eq_some_iff.mp hdecode
        · split at h <;> cases h
  · rintro rfl
    have hshort : ¬ k.text.utf8ByteSize > maxTextLength := Nat.not_lt.mpr k.length_utf8_text
    have hdecode : Base58.decode? k.text = some k.bytes := Base58.decode?_eq_some_iff.mpr rfl
    rw [if_neg hshort, hdecode]
    exact dif_pos k.length_bytes

theorem parse_eq_ok : parse s = .ok k ↔ k.text = s := by
  rw [parse, Checked.mapError_eq_ok, ofText_eq_ok]

theorem text_inj {k' : Key} : k.text = k'.text ↔ k = k' := by
  constructor
  · intro h
    exact Except.ok.inj ((parse_eq_ok.mpr h).symm.trans (parse_eq_ok.mpr rfl))
  · rintro rfl
    rfl

theorem exists_badKey_of_parse (h : parse s = .error e) : ∃ fault, e = .badKey fault := by
  obtain ⟨fault, -, rfl⟩ := Checked.mapError_eq_error.mp h
  exact ⟨fault, rfl⟩

/-- The other texts are refused. -/
theorem exists_parse_eq_error : (∃ e, parse s = .error e) ↔ ∀ k : Key, k.text ≠ s := by
  constructor
  · rintro ⟨e, he⟩ k hk
    rw [parse_eq_ok.mpr hk] at he
    cases he
  · intro h
    cases hs : parse s with
    | error e => exact ⟨e, rfl⟩
    | ok k => exact absurd (parse_eq_ok.mp hs) (h k)

end TokenWire.Key
