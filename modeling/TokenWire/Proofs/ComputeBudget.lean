import TokenWire.ComputeBudget
import TokenWire.Proofs.Instruction
import TokenWire.Proofs.Layout.Numbered

/-! How a request for compute units is read from its data, and when it is not. -/

namespace TokenWire.ComputeBudget

open Layout in
theorem Kind.exists_args {kind : Kind} {v : Value} (h : kind.layout.Shaped v) :
    ∃ c : Command, c.kind = kind ∧ c.args = v := by
  cases kind <;> simp only [Kind.layout, List.map, shaped_struct, shaped_tuple_cons,
    shaped_tuple_nil, shaped_uint, Value.seq.injEq] at h
  case requestUnits =>
    obtain ⟨_, _, rfl, ⟨units, rfl⟩, _, _, rfl, ⟨additionalFee, rfl⟩, rfl⟩ := h
    exact ⟨.requestUnits units additionalFee, rfl, rfl⟩
  case requestHeapFrame =>
    obtain ⟨size, rfl⟩ := h
    exact ⟨.requestHeapFrame size, rfl, rfl⟩
  case setUnitLimit =>
    obtain ⟨units, rfl⟩ := h
    exact ⟨.setUnitLimit units, rfl, rfl⟩
  case setUnitPrice =>
    obtain ⟨microLamports, rfl⟩ := h
    exact ⟨.setUnitPrice microLamports, rfl, rfl⟩
  case setLoadedDataLimit =>
    obtain ⟨size, rfl⟩ := h
    exact ⟨.setLoadedDataLimit size, rfl, rfl⟩

theorem Kind.ofTag?_tag (kind : Kind) : Enumeration.ofTag? (Enumeration.tag kind) = some kind := by
  cases kind <;> rfl

theorem Kind.tag_lt (kind : Kind) : Enumeration.tag kind < capacity 1 := by
  cases kind <;> decide

namespace Command

theorem ofArgs_args (c : Command) : ofArgs c.kind c.args = .ok c := by
  cases c <;> rfl

theorem decode_eq : decode = Layout.decodeNumbered ⟨"instruction_type", 1, "args", false, false⟩
    Kind.layout .computeBudget ofArgs := by
  funext data
  unfold decode Layout.decodeNumbered
  congr 1
  funext v
  cases v with
  | variant tag args => cases h : (Enumeration.ofTag? tag : Option Kind) <;> simp [h]
  | _ => rfl

theorem decode_eq_error {data : Bytes} {e : Error} :
    decode data = .error e ↔ layout.parse data = .error e ∨
      ∃ tag, layout.parse data = .ok (.variant tag .absent) ∧
        (Enumeration.ofTag? tag : Option Kind) = none ∧
        e = .unknownInstruction .computeBudget tag := by
  rw [decode_eq]
  apply Layout.decodeNumbered_eq_error
  intro kind v hv
  obtain ⟨c, rfl, rfl⟩ := Kind.exists_args hv
  exact ⟨c, ofArgs_args c⟩

open Layout in
theorem shaped_args (c : Command) : c.kind.layout.Shaped c.args := by
  cases c with
  | requestUnits units additionalFee =>
    exact .struct (.cons (.uint 4 units) (.cons (.uint 4 additionalFee) .nil))
  | requestHeapFrame size => exact .uint 4 size
  | setUnitLimit units => exact .uint 4 units
  | setUnitPrice microLamports => exact .uint 8 microLamports
  | setLoadedDataLimit size => exact .uint 4 size

theorem decode_of_encode {c : Command} {data : Bytes} (h : c.encode = .ok data) :
    decode data = .ok c := by
  have hread : c.kind.layout.normalize c.args = c.args := by
    cases c <;> rfl
  rw [decode_eq]
  exact Layout.decodeNumbered_of_write c.kind.ofTag?_tag c.shaped_args hread c.ofArgs_args h

/-- The integers in the data, with the widths of their fields. -/
def integers : Command → List (Nat × Int)
  | requestUnits units additionalFee => [(4, units), (4, additionalFee)]
  | requestHeapFrame n | setUnitLimit n | setLoadedDataLimit n => [(4, n)]
  | setUnitPrice n => [(8, n)]

/-- Every integer in the data fits its field. -/
def Fits (c : Command) : Prop :=
  ∀ field ∈ c.integers, InField field.1 field.2

theorem writable_args {c : Command} : c.kind.layout.Writable c.args ↔ c.Fits := by
  cases c <;> simp [kind, Kind.layout, args, Fits, integers]

theorem writable_toValue {c : Command} : layout.Writable c.toValue ↔ c.Fits :=
  (Layout.writable_numbered c.kind.ofTag?_tag c.kind.tag_lt).trans writable_args

variable {c : Command}

theorem instruction_eq_error {e : Error} :
    c.instruction = .error e ↔ ¬ c.Fits ∧ e = .unencodable .outOfRange := by
  have hshaped : layout.Shaped c.toValue :=
    .known (Layout.lookup_tag c.kind.ofTag?_tag) c.shaped_args
  rw [← writable_toValue, ← hshaped.write_eq_error (by decide)]
  exact Instruction.made_eq_error

theorem exists_instruction (h : c.Fits) :
    ∃ ix, c.instruction = .ok ix ∧ decode ix.data = .ok c := by
  obtain ⟨data, hdata⟩ : ∃ data, c.encode = .ok data :=
    Layout.writable_iff_write.mp (writable_toValue.mpr h)
  exact ⟨⟨Program.computeBudget, [], data⟩, Instruction.made_eq_ok.mpr ⟨hdata, rfl, rfl⟩,
    decode_of_encode hdata⟩

end Command
end TokenWire.ComputeBudget
