import TokenWire.Error
import TokenWire.Instruction
import TokenWire.Proofs.Checked

/-! Instructions that are made as soon as their data is written. -/

namespace TokenWire.Instruction

variable {program : Key} {accounts : List AccountMeta} {written : Except Error Bytes}
  {ix : Instruction}

theorem made_eq_ok : (written >>= fun data => pure ⟨program, accounts, data⟩) = .ok ix ↔
    written = .ok ix.data ∧ ix.program = program ∧ ix.accounts = accounts := by
  rw [Checked.bind_eq_ok]
  constructor
  · rintro ⟨data, hdata, hix⟩
    cases hix
    exact ⟨hdata, rfl, rfl⟩
  · rintro ⟨hdata, rfl, rfl⟩
    exact ⟨ix.data, hdata, rfl⟩

theorem made_eq_error {e : Error} :
    (written >>= fun data => pure (⟨program, accounts, data⟩ : Instruction)) = .error e ↔
      written = .error e := by
  rw [Checked.bind_eq_error]
  exact or_iff_left fun ⟨_, _, h⟩ => nomatch h

end TokenWire.Instruction
