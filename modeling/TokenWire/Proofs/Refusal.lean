import TokenWire.Proofs.ComputeBudget
import TokenWire.Proofs.Layout.Garbled
import TokenWire.Proofs.Metadata.State
import TokenWire.Proofs.SystemProgram.Command

/-! Which refusals of data reach callers as errors of the codec. -/

namespace TokenWire

open Layout

/-- Whether an error is one of the codec; a text that is not UTF-8 is reported in another way. -/
def Error.isCodec : Error → Bool
  | .malformed .malformedText _ => false
  | .unencodable _ | .malformed _ _ | .unknownInstruction _ _ => true
  | _ => false

variable {layout : Layout} {data : Bytes} {e : Error}

theorem isCodec_of_parse_error (h : layout.parse data = .error e) :
    e.isCodec ↔ ¬ layout.Garbled data := by
  rw [← parse_eq_malformedText, h]
  obtain ⟨fault, -, rfl⟩ := parse_eq_error.mp h
  cases fault <;> simp [Error.isCodec]

theorem parse_isCodec_iff :
    (∀ e, layout.parse data = .error e → e.isCodec) ↔ ¬ layout.Garbled data := by
  constructor
  · intro h hg
    exact (isCodec_of_parse_error (parse_eq_malformedText.mpr hg)).mp
      (h _ (parse_eq_malformedText.mpr hg)) hg
  · intro hg e he
    exact (isCodec_of_parse_error he).mpr hg

/-- A decoder that only adds errors of the codec to those of its layout. -/
theorem decode_isCodec_iff {α : Type} {decode : Bytes → Except Error α}
    (h : ∀ e, layout.parse data = .error e → decode data = .error e)
    (h' : ∀ e, decode data = .error e → layout.parse data = .error e ∨ e.isCodec) :
    (∀ e, decode data = .error e → e.isCodec) ↔ ¬ layout.Garbled data := by
  rw [← parse_isCodec_iff]
  constructor
  · intro hd e he
    exact hd e (h e he)
  · intro hp e he
    exact (h' e he).elim (hp e) id

/--
What refuses data is an error of the codec, unless reading comes to a text that is all there but
not UTF-8. Requests for compute units hold no text.
-/
theorem refusal_isCodec_iff (data : Bytes) :
    (∀ layout : Layout, (∀ e, layout.parse data = .error e → e.isCodec) ↔
      ¬ layout.Garbled data) ∧
    ((∀ e, SystemProgram.Command.decode data = .error e → e.isCodec) ↔
      ¬ SystemProgram.layout.Garbled data) ∧
    ((∀ e, Metadata.State.decode data = .error e → e.isCodec) ↔
      ¬ Metadata.State.layout.Garbled data) ∧
    ∀ e, ComputeBudget.Command.decode data = .error e → e.isCodec := by
  refine ⟨fun _ => parse_isCodec_iff, ?_, ?_, ?_⟩
  · apply decode_isCodec_iff
    · intro e he
      exact SystemProgram.Command.decode_eq_error.mpr (Or.inl he)
    · intro e he
      rcases SystemProgram.Command.decode_eq_error.mp he with he | ⟨tag, -, -, rfl⟩
      · exact Or.inl he
      · exact Or.inr rfl
  · apply decode_isCodec_iff
    · intro e he
      exact Metadata.State.decode_eq_error.mpr he
    · intro e he
      exact Or.inl (Metadata.State.decode_eq_error.mp he)
  · intro e he
    rcases ComputeBudget.Command.decode_eq_error.mp he with he | ⟨tag, -, -, rfl⟩
    · exact (isCodec_of_parse_error he).mpr fun hg => hg.not_textFree (by decide)
    · rfl

/-- A seed of one byte that is no text, with nothing after it. -/
theorem refusal_isCodec_iff_seed :
    let data : Bytes := [11, 0, 0, 0, 1, 0, 0, 0, 0, 0, 0, 0, 1, 0, 0, 0, 0, 0, 0, 0, 255]
    SystemProgram.layout.Garbled data ∧
      ¬ ∀ e, SystemProgram.Command.decode data = .error e → e.isCodec := by
  intro data
  have hg : SystemProgram.layout.Garbled data := garbled_of_read rfl
  exact ⟨hg, fun h => (refusal_isCodec_iff data).2.1.mp h hg⟩

/-- A text of one byte that is no text is refused, but not by an error of the codec. -/
theorem exists_refusal_not_isCodec :
    Layout.string.parse [1, 0, 0, 0, 255] = .error (.malformed .malformedText 5) ∧
      ¬ ∀ (layout : Layout) (data : Bytes) (e : Error),
        layout.parse data = .error e → e.isCodec := by
  have h : Layout.string.parse [1, 0, 0, 0, 255] = .error (.malformed .malformedText 5) := rfl
  exact ⟨h, fun hall => nomatch hall _ _ _ h⟩

end TokenWire
