import TokenWire.Proofs.Extension.Command
import TokenWire.Proofs.Extension.Plan
import TokenWire.Proofs.Layout.Typed
import TokenWire.Proofs.Metadata.Command
import TokenWire.Proofs.Metadata.Size
import TokenWire.Proofs.Range
import TokenWire.Proofs.SystemProgram.Command
import TokenWire.Proofs.Token.Command

/-! The numbers and texts that fail when a mint is created, function by function. -/

namespace TokenWire

open Layout (writable_iff_write writable_known)

theorem SystemProgram.createAccount_failsUnless (payer account owner : Key)
    (lamports space : Int) : FailsUnless (createAccount payer account lamports space owner)
      (InField 8 lamports ∧ InField 8 space) := by
  have hseed : ∀ s ∈ (Command.createAccount lamports space owner).seed?, (utf8 s).length ≤ 32 := by
    rintro s ⟨⟩
  have hwrite : FailsUnless (Command.createAccount lamports space owner).encode
      (Command.createAccount lamports space owner).Fits := by
    refine ⟨fun h => writable_iff_write.mp ((Command.writable_toValue hseed).mpr h), fun h => ?_⟩
    exact (Command.encode_eq_error hseed).mpr ⟨h, rfl⟩
  refine (hwrite.map _).congr ?_
  simp [Command.Fits, Command.integers]

theorem Token.initializeMint2_failsUnless (program mint authority : Key) (decimals : Int)
    (freezeAuthority : Option Key) :
    FailsUnless (initializeMint2 program mint decimals authority freezeAuthority)
      (InField 1 decimals) := by
  have hwrite := FailsUnless.write
    (Command.initializeMint2 decimals authority freezeAuthority).shaped_toValue (by decide)
  refine (hwrite.map _).congr ?_
  change Token.layout.Writable (.variant 20 _) ↔ _
  rw [Token.layout, writable_known (by decide) rfl]
  simp [mintLayout, Command.args]

namespace Metadata

/-- The key of a custom field fits its count. -/
def Field.Fits : Field → Prop
  | custom key => Short key
  | _ => True

/-- The texts of an instruction fit their counts. -/
def Command.Fits : Command → Prop
  | start name symbol uri => Short name ∧ Short symbol ∧ Short uri
  | updateField field value => field.Fits ∧ Short value

theorem Field.writable_toValue (field : Field) :
    Field.layout.Writable field.toValue ↔ field.Fits := by
  cases field with
  | custom key =>
    rw [layout, toValue, writable_known (by decide) rfl]
    exact Layout.writable_text
  | _ => exact iff_of_true ⟨_, rfl⟩ trivial

theorem Command.writable_toValue (c : Command) : layout.Writable c.toValue ↔ c.Fits := by
  cases c with
  | start name symbol uri =>
    rw [toValue, layout, writable_known (by decide) rfl]
    simp [Fits, Short]
  | updateField field value =>
    rw [toValue, layout, writable_known (by decide) rfl]
    simp [Fits, Short, field.writable_toValue]

theorem Command.encode_failsUnless (c : Command) : FailsUnless c.encode c.Fits :=
  (FailsUnless.write c.shaped_toValue (by decide)).congr c.writable_toValue

namespace State

theorem shaped_toValue (s : State) : layout.Shaped s.toValue :=
  .struct (.cons (.sentinelKey s.updateAuthority) (.cons (.key s.mint) (.cons (.text 4 s.name)
    (.cons (.text 4 s.symbol) (.cons (.text 4 s.uri) (.cons (.list fun pair _ =>
      .cons (.text 4 pair.1) (.cons (.text 4 pair.2) .nil)) .nil))))))

theorem writable_toValue (s : State) : layout.Writable s.toValue ↔ s.Fits := by
  rw [layout, toValue, Layout.writable_struct]
  simp only [List.map_cons, List.map_nil, Layout.writable_tuple_cons, Layout.writable_tuple_nil,
    Layout.writable_sentinelKey, Layout.writable_key, Layout.writable_text, Layout.writable_list,
    true_and, and_true]
  constructor
  · rintro ⟨hname, hsymbol, huri, hcount, hpairs⟩
    exact ⟨hname, hsymbol, huri, hpairs, hcount⟩
  · rintro ⟨hname, hsymbol, huri, hpairs, hcount⟩
    exact ⟨hname, hsymbol, huri, hcount, hpairs⟩

theorem entryLength_failsUnless (s : State) : FailsUnless s.entryLength s.Fits :=
  ((FailsUnless.write s.shaped_toValue (by decide)).congr s.writable_toValue).map _

end State
end Metadata

namespace Extension

/-- The numbers of an initialization fit their fields. -/
def Command.Fits : Command → Prop
  | transferFee _ _ basisPoints maximum => InField 2 basisPoints ∧ InField 8 maximum
  | interestBearing _ rate => InSignedField 2 rate
  | _ => True

theorem Command.writable_toValue (c : Command) : layout.Writable c.toValue ↔ c.Fits := by
  cases c with
  | closeAuthority authority =>
    change layout.Writable (.variant 25 _) ↔ _
    rw [layout, writable_known (by decide) rfl]
    simp [args, Fits]
  | transferFee configAuthority withdrawAuthority basisPoints maximum =>
    change layout.Writable (.variant 26 (.variant 0 _)) ↔ _
    rw [layout, writable_known (by decide) rfl, stepLayout, writable_known (by decide) rfl]
    simp [Fits]
  | nonTransferable => exact iff_of_true ⟨_, rfl⟩ trivial
  | interestBearing authority rate =>
    change layout.Writable (.variant 33 (.variant 0 _)) ↔ _
    rw [layout, writable_known (by decide) rfl, stepLayout, writable_known (by decide) rfl]
    simp [Fits]
  | permanentDelegate delegate =>
    change layout.Writable (.variant 35 _) ↔ _
    rw [layout, writable_known (by decide) rfl]
    simp [args, Fits]
  | transferHook authority program =>
    change layout.Writable (.variant 36 (.variant 0 _)) ↔ _
    rw [layout, writable_known (by decide) rfl, stepLayout, writable_known (by decide) rfl]
    simp [Fits]
  | metadataPointer authority address =>
    change layout.Writable (.variant 39 (.variant 0 _)) ↔ _
    rw [layout, writable_known (by decide) rfl, stepLayout, writable_known (by decide) rfl]
    simp [Fits]

theorem Command.encode_failsUnless (c : Command) : FailsUnless c.encode c.Fits :=
  (FailsUnless.write c.shaped_toValue (by decide)).congr c.writable_toValue

namespace MetadataConfig

/-- The texts and the number of further pairs fit their counts. -/
structure Fits (c : MetadataConfig) : Prop where
  name : Metadata.Short c.name
  symbol : Metadata.Short c.symbol
  uri : Metadata.Short c.uri
  pairs : ∀ pair ∈ c.additional, Metadata.Short pair.1 ∧ Metadata.Short pair.2
  count : c.additional.length < capacity 4

variable {c : MetadataConfig} {mint payer : Key}

theorem state_fits : (c.state mint payer).Fits ↔ c.Fits :=
  ⟨fun h => ⟨h.name, h.symbol, h.uri, h.pairs, h.count⟩,
    fun h => ⟨h.name, h.symbol, h.uri, h.pairs, h.count⟩⟩

theorem instructions_failsUnless (c : MetadataConfig) (mint payer : Key) :
    FailsUnless (c.instructions mint payer)
      ((Metadata.Short c.name ∧ Metadata.Short c.symbol ∧ Metadata.Short c.uri) ∧
        ∀ pair ∈ c.additional, Metadata.Short pair.1 ∧ Metadata.Short pair.2) := by
  have hstart : FailsUnless (Metadata.start mint payer mint payer c.name c.symbol c.uri)
      (Metadata.Short c.name ∧ Metadata.Short c.symbol ∧ Metadata.Short c.uri) :=
    (Metadata.Command.start c.name c.symbol c.uri).encode_failsUnless.map _
  have hupdate : ∀ pair : String × String,
      FailsUnless (Metadata.updateField mint payer (.custom pair.1) pair.2)
        (Metadata.Short pair.1 ∧ Metadata.Short pair.2) :=
    fun pair => (Metadata.Command.updateField (.custom pair.1) pair.2).encode_failsUnless.map _
  exact hstart.bind fun first _ => (FailsUnless.mapM hupdate c.additional).map (first :: ·)

end MetadataConfig

namespace Descriptor

/-- The numbers, texts and the number of pairs that an extension asks for fit their fields. -/
def Fits : Descriptor → Prop
  | metadata c => c.Fits
  | transferFee c => InField 2 c.basisPoints ∧ InField 8 c.maximum
  | interestBearing c => InSignedField 2 c.rate
  | _ => True

variable (mint payer : Key)

theorem initialization_failsUnless (d : Descriptor) :
    FailsUnless (d.initialization mint payer) (d.command mint payer).Fits :=
  (d.command mint payer).encode_failsUnless.map _

/-- The instructions of metadata fail for texts that its size fails for as well. -/
theorem part_failsUnless (d : Descriptor) : FailsUnless (d.part mint payer) d.Fits := by
  have hinit := d.initialization_failsUnless mint payer
  cases d with
  | metadata c =>
    have hsize := (c.state mint payer).entryLength_failsUnless.congr MetadataConfig.state_fits
    have hafter := c.instructions_failsUnless mint payer
    refine (hinit.bind fun before _ => hsize.bind fun size _ =>
      hafter.map fun after => (⟨before, size, after⟩ : Part)).congr ?_
    constructor
    · rintro ⟨-, hfits, -⟩
      exact hfits
    · intro (hfits : c.Fits)
      exact ⟨trivial, hfits, ⟨hfits.name, hfits.symbol, hfits.uri⟩, hfits.pairs⟩
  | _ => exact hinit.map fun before => (⟨before, 0, []⟩ : Part)

end Descriptor

end Extension
end TokenWire
