import TokenWire.Metadata.State
import TokenWire.Proofs.Layout.Shape
import TokenWire.Proofs.Value

/-! The metadata of a mint and the values of its layout. -/

namespace TokenWire.Metadata.State

theorem ofValue_toValue (s : State) : ofValue s.toValue = .ok s := by
  rw [toValue, ofValue, Value.asOption_optional, Value.asList_list]
  · rfl
  · intro pair
    rfl
  · intro k h
    cases h
  · intro k
    rfl

open Layout in
theorem exists_toValue {v : Value} (h : layout.Shaped v) : ∃ s : State, s.toValue = v := by
  simp only [layout, List.map, shaped_struct, shaped_tuple_cons, shaped_tuple_nil, shaped_vec,
    shaped_text, shaped_key, shaped_sentinelKey, Value.seq.injEq] at h
  obtain ⟨_, _, rfl, ⟨updateAuthority, rfl⟩, _, _, rfl, ⟨mint, rfl⟩, _, _, rfl, ⟨name, rfl⟩, _, _,
    rfl, ⟨symbol, rfl⟩, _, _, rfl, ⟨uri, rfl⟩, _, _, rfl, ⟨vs, rfl, hvs⟩, rfl⟩ := h
  have hpairs : ∀ v ∈ vs, ∃ pair : String × String, .seq [.text pair.1, .text pair.2] = v := by
    intro v hv
    obtain ⟨_, _, rfl, ⟨key, rfl⟩, _, _, rfl, ⟨text, rfl⟩, rfl⟩ := hvs v hv
    exact ⟨(key, text), rfl⟩
  obtain ⟨additional, hadditional⟩ := Value.exists_list hpairs
  refine ⟨⟨updateAuthority, mint, name, symbol, uri, additional⟩, ?_⟩
  rw [toValue, ← hadditional]

/-- All data that holds a value of the layout holds metadata. -/
theorem decode_eq_error {data : Bytes} {e : Error} :
    decode data = .error e ↔ layout.parse data = .error e := by
  rw [decode, Checked.bind_eq_error]
  refine or_iff_left ?_
  rintro ⟨v, hv, he⟩
  obtain ⟨s, rfl⟩ := exists_toValue (Layout.parse_eq_ok_iff_payload.mp hv).shaped
  rw [ofValue_toValue] at he
  cases he

end TokenWire.Metadata.State
