import TokenWire.Proofs.ComputeBudget
import TokenWire.Proofs.Layout.Partition
import TokenWire.Proofs.SystemProgram.Command

/-! The instruction data of the two programs with decoders: what is read from it, or why not. -/

namespace TokenWire

open Layout

namespace Layout

variable {α : Type} [Enumeration α] {selector : Selector} {f : α → Layout} {bs front : Bytes}
  {width : Nat}

theorem exists_payload_uint : (∃ v, Payload (.uint width) front v) ↔ front.length = width := by
  constructor
  · rintro ⟨v, hv⟩
    cases hv
    exact length_littleEndian width _
  · rintro rfl
    have hpayload := Payload.uint (fromLittleEndian_lt front)
    rw [littleEndian_fromLittleEndian] at hpayload
    exact ⟨_, hpayload⟩

theorem exists_payload_key : (∃ v, Payload .key front v) ↔ front.length = 32 := by
  constructor
  · rintro ⟨v, hv⟩
    cases hv with
    | key k => exact k.length_bytes
  · intro hlength
    exact ⟨.key ⟨front, hlength⟩, .key ⟨front, hlength⟩⟩

/-- A text behind another field is garbled where it stands, and nothing else of the record is. -/
theorem garbled_second {first : Layout} {name name' : String} {fields : List (String × Layout)}
    (hfirst : first.everywhere textFree) (hfields : (struct fields).everywhere textFree) :
    Garbled (.struct ((name, first) :: (name', .text width) :: fields)) bs ↔
      ∃ front body rest, (∃ v, Payload first front v) ∧ body.length < capacity width ∧
        (∀ s, body ≠ utf8 s) ∧
        bs = front ++ (littleEndian width body.length ++ body ++ rest) := by
  constructor
  · intro hg
    rcases hg with _ | _ | _ | _ | _ | htuple
    rcases htuple with _ | _ | _ | hhead | ⟨hfront, htail⟩
    · exact absurd hfirst hhead.not_textFree
    · rcases htail with _ | _ | _ | htext | ⟨-, hrest⟩
      · cases htext with
        | text rest hlt hbody => exact ⟨_, _, rest, ⟨_, hfront⟩, hlt, hbody, rfl⟩
      · exact absurd (everywhere_struct.mp hfields) hrest.not_textFree
  · rintro ⟨front, body, rest, ⟨v, hfront⟩, hlt, hbody, rfl⟩
    exact .struct (.tail hfront (.head (.text rest hlt hbody)))

theorem garbled_numbered (hall : ∀ a : α, Enumeration.ofTag? (Enumeration.tag a) = some a)
    (hlt : ∀ a : α, Enumeration.tag a < capacity selector.width) :
    Garbled (numbered selector f) bs ↔ ∃ (a : α) (rest : Bytes),
      Garbled (f a) rest ∧ bs = littleEndian selector.width (Enumeration.tag a) ++ rest := by
  constructor
  · intro hg
    cases hg with
    | known _ harm hrest =>
      rw [lookup_map_tag, Option.map_eq_some_iff] at harm
      obtain ⟨a, ha, rfl⟩ := harm
      obtain rfl := Enumeration.tag_eq_of_ofTag? ha
      exact ⟨a, _, hrest, rfl⟩
  · rintro ⟨a, rest, hrest, rfl⟩
    exact .known (hlt a) (lookup_tag (hall a)) hrest

end Layout

namespace SystemProgram

theorem Kind.failsOnly (kind : Kind) : kind.layout.read.FailsOnly fun fault =>
    fault = .endOfData ∨ fault = .malformedText := by
  cases kind
  case advanceNonceAccount => exact Reader.failsOnly_done _
  case upgradeNonceAccount => exact Reader.failsOnly_done _
  case withdrawNonceAccount => exact read_uint_failsOnly (Or.inl rfl) _
  case initializeNonceAccount => exact read_key_failsOnly (Or.inl rfl)
  case authorizeNonceAccount => exact read_key_failsOnly (Or.inl rfl)
  all_goals
    apply read_struct_failsOnly
    simp [read_uint_failsOnly, read_key_failsOnly, read_text_failsOnly]

theorem vocabulary : Vocabulary ⟨"instruction_type", 4, "args", false, false⟩ Kind.layout
    Command.ofArgs Command.kind Command.args where
  open_selector := rfl
  ofTag?_tag := Kind.ofTag?_tag
  tag_lt := Kind.tag_lt
  flagFree kind := by cases kind <;> rfl
  plain kind := by cases kind <;> rfl
  failsOnly := Kind.failsOnly
  exists_args _ _ := Kind.exists_args
  shaped_args := Command.shaped_args
  ofArgs_args := Command.ofArgs_args

/-- How many bytes stand between the number of an instruction and its seed. -/
def Kind.seedOffset? : Kind → Option Nat
  | .createAccountWithSeed | .allocateWithSeed | .assignWithSeed => some 32
  | .transferWithSeed => some 8
  | _ => none

/-- The bytes of a seed are all there, but are not UTF-8; what follows them does not matter. -/
def GarblesSeed (data : Bytes) : Prop :=
  ∃ kind offset front body rest, Kind.seedOffset? kind = some offset ∧ front.length = offset ∧
    body.length < capacity 8 ∧ (∀ s, body ≠ utf8 s) ∧
    data = littleEndian 4 (Enumeration.tag kind) ++
      (front ++ (littleEndian 8 body.length ++ body ++ rest))

theorem Kind.garbled_iff_of_offset {kind : Kind} {bs : Bytes} {first : Layout}
    {name name' : String} {fields : List (String × Layout)} {n : Nat}
    (hlayout : kind.layout = .struct ((name, first) :: (name', .text 8) :: fields))
    (hfirst : first.everywhere textFree) (hfields : (struct fields).everywhere textFree)
    (hlength : ∀ front, (∃ v, Payload first front v) ↔ front.length = n)
    (hoffset : kind.seedOffset? = some n) :
    Garbled kind.layout bs ↔
      ∃ offset front body rest, kind.seedOffset? = some offset ∧ front.length = offset ∧
        body.length < capacity 8 ∧ (∀ s, body ≠ utf8 s) ∧
        bs = front ++ (littleEndian 8 body.length ++ body ++ rest) := by
  rw [hlayout, garbled_second hfirst hfields, hoffset]
  constructor
  · rintro ⟨front, body, rest, hfront, h⟩
    exact ⟨n, front, body, rest, rfl, (hlength front).mp hfront, h⟩
  · rintro ⟨_, front, body, rest, ⟨⟩, hfront, h⟩
    exact ⟨front, body, rest, (hlength front).mpr hfront, h⟩

theorem Kind.garbled_iff {kind : Kind} {bs : Bytes} : Garbled kind.layout bs ↔
    ∃ offset front body rest, kind.seedOffset? = some offset ∧ front.length = offset ∧
      body.length < capacity 8 ∧ (∀ s, body ≠ utf8 s) ∧
      bs = front ++ (littleEndian 8 body.length ++ body ++ rest) := by
  have hkey : ∀ front, (∃ v, Payload .key front v) ↔ front.length = 32 :=
    fun _ => exists_payload_key
  cases kind
  case createAccountWithSeed => exact garbled_iff_of_offset rfl rfl rfl hkey rfl
  case allocateWithSeed => exact garbled_iff_of_offset rfl rfl rfl hkey rfl
  case assignWithSeed => exact garbled_iff_of_offset rfl rfl rfl hkey rfl
  case transferWithSeed =>
    exact garbled_iff_of_offset rfl rfl rfl (fun _ => exists_payload_uint) rfl
  all_goals
    -- No other instruction has a text.
    exact iff_of_false (fun hg => hg.not_textFree rfl) fun ⟨_, _, _, _, h, _⟩ => nomatch h

theorem garbled_iff {data : Bytes} : layout.Garbled data ↔ GarblesSeed data := by
  rw [GarblesSeed]
  refine (garbled_numbered Kind.ofTag?_tag Kind.tag_lt).trans ?_
  simp only [Kind.garbled_iff]
  constructor
  · rintro ⟨kind, _, ⟨offset, front, body, rest, hoffset, hfront, hlt, hbody, rfl⟩, rfl⟩
    exact ⟨kind, offset, front, body, rest, hoffset, hfront, hlt, hbody, rfl⟩
  · rintro ⟨kind, offset, front, body, rest, hoffset, hfront, hlt, hbody, rfl⟩
    exact ⟨kind, _, ⟨offset, front, body, rest, hoffset, hfront, hlt, hbody, rfl⟩, rfl⟩

end SystemProgram

namespace ComputeBudget

theorem Kind.failsOnly (kind : Kind) : kind.layout.read.FailsOnly fun fault =>
    fault = .endOfData ∨ fault = .malformedText := by
  cases kind with
  | requestUnits =>
    apply read_struct_failsOnly
    simp [read_uint_failsOnly]
  | _ => exact read_uint_failsOnly (Or.inl rfl) _

theorem vocabulary : Vocabulary ⟨"instruction_type", 1, "args", false, false⟩ Kind.layout
    Command.ofArgs Command.kind Command.args where
  open_selector := rfl
  ofTag?_tag := Kind.ofTag?_tag
  tag_lt := Kind.tag_lt
  flagFree kind := by cases kind <;> rfl
  plain kind := by cases kind <;> rfl
  failsOnly := Kind.failsOnly
  exists_args _ _ := Kind.exists_args
  shaped_args := Command.shaped_args
  ofArgs_args := Command.ofArgs_args

end ComputeBudget

/--
The decoders of the system program and of the compute budget program divide all strings of bytes
among them: an instruction, a number of none, bytes left over, a seed that is not UTF-8, and data
that ends too early. The number of no instruction is told.
-/
theorem decode_partition (data : Bytes) :
    Partition ⟨"instruction_type", 4, "args", false, false⟩ SystemProgram.Kind.layout .system
      SystemProgram.Command.kind SystemProgram.Command.args SystemProgram.GarblesSeed
      SystemProgram.Command.decode data ∧
    Partition ⟨"instruction_type", 1, "args", false, false⟩ ComputeBudget.Kind.layout
      .computeBudget ComputeBudget.Command.kind ComputeBudget.Command.args (fun _ => False)
      ComputeBudget.Command.decode data ∧
    ∀ tag, (Error.unknownInstruction .system tag).message =
        s!"Unknown system instruction type {tag}" ∧
      (Error.unknownInstruction .computeBudget tag).message =
        s!"Unknown compute budget instruction type {tag}" := by
  rw [SystemProgram.Command.decode_eq, ComputeBudget.Command.decode_eq]
  refine ⟨SystemProgram.vocabulary.partition SystemProgram.garbled_iff,
    ComputeBudget.vocabulary.partition ?_, fun tag => ⟨rfl, rfl⟩⟩
  -- A request for compute units holds no text.
  exact iff_of_false (fun hg => hg.not_textFree (by decide)) id

/-- A number of no instruction alone and with a byte behind it, and a seed of one byte that is not
UTF-8, with nothing behind it. -/
example :
    SystemProgram.Command.decode [99, 0, 0, 0] = .error (.unknownInstruction .system 99) ∧
      SystemProgram.Command.decode [99, 0, 0, 0, 7] = .error (.malformed .leftover 5) ∧
      SystemProgram.Command.decode
        [11, 0, 0, 0, 1, 0, 0, 0, 0, 0, 0, 0, 1, 0, 0, 0, 0, 0, 0, 0, 255] =
        .error (.malformed .malformedText 21) :=
  ⟨rfl, rfl, rfl⟩

end TokenWire
