import TokenWire.Proofs.Account.Slots
import TokenWire.Proofs.Asset.Staging

/-! What a builder comes to after some calls: an instruction, or the first error in order. -/

namespace TokenWire.Asset

section Instructs

variable {ρ : Type} [Schema ρ] {slots : Slots ρ} {c : Command} {outcome : Logged Instruction}

/-- What comes of a command and the slots for its accounts: data that cannot be written is told
before an account that is missing. -/
inductive Instructs (slots : Slots ρ) (c : Command) : Logged Instruction → Prop
  | unencodable {fault : EncodeFault} (h : c.encode = .error (.unencodable fault)) :
      Instructs slots c ⟨[], .error (.unencodable fault)⟩
  | assembled {data : Bytes} {outcome : Logged Instruction} (h : c.encode = .ok data)
      (hslots : slots.Assembles Program.asset data outcome) : Instructs slots c outcome

theorem instructs_iff : Instructs slots c outcome ↔ (do
    let data ← .ofExcept c.encode
    slots.assemble Program.asset data) = outcome := by
  constructor
  · intro h
    cases h with
    | unencodable hencode =>
      rw [hencode]
      rfl
    | assembled hencode hslots =>
      rw [hencode, ← Slots.assembles_iff.mp hslots]
      rfl
  · rintro rfl
    cases hencode : c.encode with
    | error e =>
      obtain ⟨fault, -, rfl⟩ := Checked.mapError_eq_error.mp hencode
      exact .unencodable hencode
    | ok data => exact .assembled hencode (Slots.assembles_iff.mpr rfl)

theorem Instructs.ne_missingAccount (h : Instructs slots c outcome) (name : String) :
    outcome.result ≠ .error (.missingAccount name) := by
  cases h with
  | unencodable => exact nofun
  | assembled _ hslots => exact hslots.ne_missingAccount

end Instructs

namespace CreateBuilder

/-- The builder that holds what some calls give last. -/
def ofLast (calls : List (Call Change)) : CreateBuilder where
  slots := {
    supplied := fun role => staging.last (.account role) calls
    remaining := staging.added calls }
  args := staging.last .args calls

theorem after_eq_ofLast (calls : List (Call Change)) :
    staging.after staging.fresh calls = ofLast calls := by
  apply staging.ext
  · intro p
    rw [Staging.held_after]
    cases p <;> rfl
  · exact staging.remaining_after calls

/-- What a builder makes; that arguments are missing is told first. -/
inductive Makes (b : CreateBuilder) : Logged Instruction → Prop
  | noArgs (h : b.args = none) : Makes b ⟨[], .error (.missingField "create_args")⟩
  | withArgs {args : CreateArgs} {outcome : Logged Instruction} (h : b.args = some args)
      (hslots : Instructs b.slots (.create args) outcome) : Makes b outcome

theorem makes_iff {b : CreateBuilder} {outcome : Logged Instruction} :
    b.Makes outcome ↔ b.instruction = outcome := by
  unfold instruction
  constructor
  · intro h
    cases h with
    | noArgs hargs =>
      rw [hargs]
      rfl
    | withArgs hargs hslots =>
      rw [hargs]
      exact instructs_iff.mp hslots
  · rintro rfl
    cases hargs : b.args with
    | none => exact .noArgs hargs
    | some args => exact .withArgs hargs (instructs_iff.mpr rfl)

theorem Makes.ne_missingAccount {b : CreateBuilder} {outcome : Logged Instruction}
    (h : b.Makes outcome) (name : String) : outcome.result ≠ .error (.missingAccount name) := by
  cases h with
  | noArgs => exact nofun
  | withArgs _ hslots => exact hslots.ne_missingAccount name

end CreateBuilder

namespace UpdateBuilder

/-- The builder that holds what some calls give last. -/
def ofLast (calls : List (Call Change)) : UpdateBuilder where
  slots := {
    supplied := fun role => staging.last (.account role) calls
    remaining := staging.added calls }
  args := .ofHeld fun f => staging.last (.argument f) calls

theorem after_eq_ofLast (calls : List (Call Change)) :
    staging.after staging.fresh calls = ofLast calls := by
  apply staging.ext
  · intro p
    rw [Staging.held_after]
    cases p with
    | account role => rfl
    | argument f => cases f <;> rfl
  · exact staging.remaining_after calls

end UpdateBuilder

/--
After any calls a builder holds what each setter was given last, and its outcome is the first of
these: no arguments for a creation, arguments that cannot be written, a required account that is
missing, and the instruction with an account for each role and the others behind them.
-/
theorem final_outcome :
    (∀ calls, ∃ outcome, CreateBuilder.staging.final calls = some outcome ∧
      (∀ o, (CreateBuilder.ofLast calls).Makes o ↔ o = outcome) ∧
      ∀ name, outcome.result ≠ .error (.missingAccount name)) ∧
    (∀ calls, ∃ outcome, UpdateBuilder.staging.final calls = some outcome ∧
      (∀ o, Instructs (UpdateBuilder.ofLast calls).slots
        (.update (UpdateBuilder.ofLast calls).args) o ↔ o = outcome) ∧
      ∀ name, outcome.result ≠ .error (.missingAccount name)) ∧
    (Schema.all : List CreateRole).length = 9 ∧ (Schema.all : List UpdateRole).length = 11 := by
  refine ⟨fun calls => ?_, fun calls => ?_, rfl, rfl⟩
  · have hmakes := CreateBuilder.makes_iff.mpr (Eq.refl (CreateBuilder.ofLast calls).instruction)
    refine ⟨_, ?_, fun o => CreateBuilder.makes_iff.trans eq_comm, hmakes.ne_missingAccount⟩
    rw [Staging.final_eq_some, CreateBuilder.after_eq_ofLast]
    rfl
  · have hmakes := instructs_iff.mpr (Eq.refl (UpdateBuilder.ofLast calls).instruction)
    refine ⟨_, ?_, fun o => instructs_iff.trans eq_comm, hmakes.ne_missingAccount⟩
    rw [Staging.final_eq_some, UpdateBuilder.after_eq_ofLast]
    rfl

/-- The slots before the missing mint are reported, and those behind it are not. -/
example : UpdateBuilder.staging.final [.change (.account .authority (some ⟨.zero, none⟩))] =
    some ⟨[.placeholder "delegate_record" Program.asset, .placeholder "token" Program.asset],
      .error (.missingField "mint")⟩ := rfl

end TokenWire.Asset
