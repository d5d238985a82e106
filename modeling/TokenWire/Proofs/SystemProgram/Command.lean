import TokenWire.Proofs.Layout.Numbered
import TokenWire.SystemProgram.Command

/-! How an instruction of the system program is read from its data, and when it is not. -/

namespace TokenWire.SystemProgram

open Layout in
theorem Kind.exists_args {kind : Kind} {v : Value} (h : kind.layout.Shaped v) :
    ∃ c : Command, c.kind = kind ∧ c.args = v := by
  cases kind <;> simp only [Kind.layout, List.map, shaped_struct, shaped_tuple_cons,
    shaped_tuple_nil, shaped_uint, shaped_text, shaped_key, shaped_unit, Value.seq.injEq] at h
  case createAccount =>
    obtain ⟨_, _, rfl, ⟨lamports, rfl⟩, _, _, rfl, ⟨space, rfl⟩, _, _, rfl, ⟨owner, rfl⟩, rfl⟩ := h
    exact ⟨.createAccount lamports space owner, rfl, rfl⟩
  case assign =>
    obtain ⟨_, _, rfl, ⟨owner, rfl⟩, rfl⟩ := h
    exact ⟨.assign owner, rfl, rfl⟩
  case transfer =>
    obtain ⟨_, _, rfl, ⟨lamports, rfl⟩, rfl⟩ := h
    exact ⟨.transfer lamports, rfl, rfl⟩
  case createAccountWithSeed =>
    obtain ⟨_, _, rfl, ⟨base, rfl⟩, _, _, rfl, ⟨seed, rfl⟩, _, _, rfl, ⟨lamports, rfl⟩, _, _, rfl,
      ⟨space, rfl⟩, _, _, rfl, ⟨owner, rfl⟩, rfl⟩ := h
    exact ⟨.createAccountWithSeed base seed lamports space owner, rfl, rfl⟩
  case advanceNonceAccount => exact ⟨.advanceNonceAccount, rfl, h.symm⟩
  case withdrawNonceAccount =>
    obtain ⟨lamports, rfl⟩ := h
    exact ⟨.withdrawNonceAccount lamports, rfl, rfl⟩
  case initializeNonceAccount =>
    obtain ⟨authority, rfl⟩ := h
    exact ⟨.initializeNonceAccount authority, rfl, rfl⟩
  case authorizeNonceAccount =>
    obtain ⟨authority, rfl⟩ := h
    exact ⟨.authorizeNonceAccount authority, rfl, rfl⟩
  case allocate =>
    obtain ⟨_, _, rfl, ⟨space, rfl⟩, rfl⟩ := h
    exact ⟨.allocate space, rfl, rfl⟩
  case allocateWithSeed =>
    obtain ⟨_, _, rfl, ⟨base, rfl⟩, _, _, rfl, ⟨seed, rfl⟩, _, _, rfl, ⟨space, rfl⟩, _, _, rfl,
      ⟨owner, rfl⟩, rfl⟩ := h
    exact ⟨.allocateWithSeed base seed space owner, rfl, rfl⟩
  case assignWithSeed =>
    obtain ⟨_, _, rfl, ⟨base, rfl⟩, _, _, rfl, ⟨seed, rfl⟩, _, _, rfl, ⟨owner, rfl⟩, rfl⟩ := h
    exact ⟨.assignWithSeed base seed owner, rfl, rfl⟩
  case transferWithSeed =>
    obtain ⟨_, _, rfl, ⟨lamports, rfl⟩, _, _, rfl, ⟨seed, rfl⟩, _, _, rfl, ⟨owner, rfl⟩, rfl⟩ := h
    exact ⟨.transferWithSeed lamports seed owner, rfl, rfl⟩
  case upgradeNonceAccount => exact ⟨.upgradeNonceAccount, rfl, h.symm⟩

theorem Kind.ofTag?_tag (kind : Kind) : Enumeration.ofTag? (Enumeration.tag kind) = some kind := by
  cases kind <;> rfl

theorem Kind.tag_lt (kind : Kind) : Enumeration.tag kind < capacity 4 := by
  cases kind <;> decide

namespace Command

theorem ofArgs_args (c : Command) : ofArgs c.kind c.args = .ok c := by
  cases c <;> rfl

theorem decode_eq : decode = Layout.decodeNumbered ⟨"instruction_type", 4, "args", false, false⟩
    Kind.layout .system ofArgs := by
  funext data
  unfold decode Layout.decodeNumbered
  congr 1
  funext v
  cases v with
  | variant tag args => cases h : (Enumeration.ofTag? tag : Option Kind) <;> simp [h]
  | _ => rfl

theorem decode_eq_error {data : Bytes} {e : Error} :
    decode data = .error e ↔ layout.parse data = .error e ∨
      ∃ tag, layout.parse data = .ok (.variant tag .absent) ∧
        (Enumeration.ofTag? tag : Option Kind) = none ∧ e = .unknownInstruction .system tag := by
  rw [decode_eq]
  apply Layout.decodeNumbered_eq_error
  intro kind v hv
  obtain ⟨c, rfl, rfl⟩ := Kind.exists_args hv
  exact ⟨c, ofArgs_args c⟩

theorem shaped_args (c : Command) : c.kind.layout.Shaped c.args := by
  cases c with
  | createAccount lamports space owner =>
    exact .struct (.cons (.uint 8 lamports) (.cons (.uint 8 space) (.cons (.key owner) .nil)))
  | assign owner => exact .struct (.cons (.key owner) .nil)
  | transfer lamports => exact .struct (.cons (.uint 8 lamports) .nil)
  | createAccountWithSeed base seed lamports space owner =>
    exact .struct (.cons (.key base) (.cons (.text 8 seed) (.cons (.uint 8 lamports)
      (.cons (.uint 8 space) (.cons (.key owner) .nil)))))
  | advanceNonceAccount => exact .unit
  | withdrawNonceAccount lamports => exact .uint 8 lamports
  | initializeNonceAccount authority => exact .key authority
  | authorizeNonceAccount authority => exact .key authority
  | allocate space => exact .struct (.cons (.uint 8 space) .nil)
  | allocateWithSeed base seed space owner =>
    exact .struct (.cons (.key base) (.cons (.text 8 seed) (.cons (.uint 8 space)
      (.cons (.key owner) .nil))))
  | assignWithSeed base seed owner =>
    exact .struct (.cons (.key base) (.cons (.text 8 seed) (.cons (.key owner) .nil)))
  | transferWithSeed lamports seed owner =>
    exact .struct (.cons (.uint 8 lamports) (.cons (.text 8 seed) (.cons (.key owner) .nil)))
  | upgradeNonceAccount => exact .unit

theorem normalize_args (c : Command) : c.kind.layout.normalize c.args = c.args := by
  cases c <;> rfl

theorem decode_of_encode {c : Command} {data : Bytes} (h : c.encode = .ok data) :
    decode data = .ok c := by
  rw [decode_eq]
  exact Layout.decodeNumbered_of_write c.kind.ofTag?_tag c.shaped_args c.normalize_args
    c.ofArgs_args h

/-- The integers in the data; each has a field of eight bytes. -/
def integers : Command → List Int
  | createAccount lamports space _ => [lamports, space]
  | transfer lamports => [lamports]
  | createAccountWithSeed _ _ lamports space _ => [lamports, space]
  | withdrawNonceAccount lamports => [lamports]
  | allocate space => [space]
  | allocateWithSeed _ _ space _ => [space]
  | transferWithSeed lamports _ _ => [lamports]
  | _ => []

/-- The seed in the data. -/
def seed? : Command → Option String
  | createAccountWithSeed _ seed _ _ _ => some seed
  | allocateWithSeed _ seed _ _ => some seed
  | assignWithSeed _ seed _ => some seed
  | transferWithSeed _ seed _ => some seed
  | _ => none

/-- Every integer in the data fits its field. -/
def Fits (c : Command) : Prop :=
  ∀ n ∈ c.integers, InField 8 n

theorem writable_args {c : Command} : c.kind.layout.Writable c.args ↔
    c.Fits ∧ ∀ s ∈ c.seed?, (utf8 s).length < capacity 8 := by
  cases c <;> simp [kind, Kind.layout, args, Fits, integers, seed?, and_comm, and_assoc]

/-- A seed of some address is short enough for its count. -/
theorem writable_toValue {c : Command} (h : ∀ s ∈ c.seed?, (utf8 s).length ≤ 32) :
    layout.Writable c.toValue ↔ c.Fits := by
  have hcount : ∀ s ∈ c.seed?, (utf8 s).length < capacity 8 :=
    fun s hs => Nat.lt_of_le_of_lt (h s hs) (by decide)
  have hargs : c.kind.layout.Writable c.args ↔ c.Fits := writable_args.trans (and_iff_left hcount)
  exact (Layout.writable_numbered c.kind.ofTag?_tag c.kind.tag_lt).trans hargs

theorem encode_eq_error {c : Command} (h : ∀ s ∈ c.seed?, (utf8 s).length ≤ 32) {e : Error} :
    c.encode = .error e ↔ ¬ c.Fits ∧ e = .unencodable .outOfRange := by
  have hshaped : layout.Shaped c.toValue :=
    .known (Layout.lookup_tag c.kind.ofTag?_tag) c.shaped_args
  rw [← writable_toValue h]
  exact hshaped.write_eq_error (by decide)

end Command
end TokenWire.SystemProgram
