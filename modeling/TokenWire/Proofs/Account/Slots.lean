import TokenWire.Account.Slots
import TokenWire.Proofs.Logged
import TokenWire.Proofs.Traversal

/-! What comes of slots: the first that is missing is told, or each is filled for an instruction. -/

namespace TokenWire.Slots

variable {ρ : Type} [Schema ρ] {slots : Slots ρ} {program : Key} {data : Bytes} {r : ρ}
  {before after rs : List ρ} {ix : Instruction} {outcome : Logged Instruction}

/-- Every slot is filled or may be left empty. -/
def Complete (slots : Slots ρ) : Prop :=
  ∀ r ∈ (Schema.all : List ρ), slots.supplied r = none → (Schema.role r).isOptional = true

/-- Whether a slot is empty that must be filled. -/
def isMissing (slots : Slots ρ) (r : ρ) : Bool :=
  (slots.supplied r).isNone && !(Schema.role r).isOptional

/-- Whether a slot is empty that may be, without a fallback. -/
def isBare (slots : Slots ρ) (r : ρ) : Bool :=
  (slots.supplied r).isNone && (Schema.role r).isOptional && (Schema.role r).fallback.isNone

/-- The reports on slots that are left to the placeholder. -/
def reports (slots : Slots ρ) (program : Key) (rs : List ρ) : List Event :=
  (rs.filter slots.isBare).map fun r => .placeholder (Schema.role r).name program

/-- The account in a slot: the key supplied, whose own signer flag wins, or the fallback, or the
bare placeholder. -/
def account (slots : Slots ρ) (program : Key) (r : ρ) : AccountMeta :=
  let role := Schema.role r
  match slots.supplied r, role.fallback with
  | some supply, _ => ⟨supply.key, supply.isSigner.getD role.isSigner, role.isWritable⟩
  | none, some key => ⟨key, role.isSigner, role.isWritable⟩
  | none, none => .readonly program

/-- What comes of slots once the data is written. -/
inductive Assembles (slots : Slots ρ) (program : Key) (data : Bytes) : Logged Instruction → Prop
  /-- A slot is missing, and none before it. -/
  | missing {before after : List ρ} {r : ρ} (hall : Schema.all = before ++ r :: after)
      (hbefore : ∀ r' ∈ before, slots.isMissing r' = false) (hr : slots.isMissing r) :
      Assembles slots program data
        ⟨slots.reports program before, .error (.missingField (Schema.role r).name)⟩
  /-- No slot is missing. -/
  | complete (hall : ∀ r ∈ (Schema.all : List ρ), slots.isMissing r = false) :
      Assembles slots program data
        ⟨slots.reports program Schema.all,
          .ok ⟨program, (Schema.all : List ρ).map (slots.account program) ++ slots.remaining, data⟩⟩

theorem complete_iff :
    slots.Complete ↔ ∀ r ∈ (Schema.all : List ρ), slots.isMissing r = false := by
  have hrole : ∀ r, slots.isMissing r = false ↔
      (slots.supplied r = none → (Schema.role r).isOptional = true) := by
    intro r
    rw [isMissing]
    cases slots.supplied r <;> simp
  simp only [Complete, hrole]

theorem reports_cons (r : ρ) (rs : List ρ) :
    slots.reports program (r :: rs) = slots.reports program [r] ++ slots.reports program rs := by
  rw [reports, ← List.singleton_append, List.filter_append, List.map_append]
  rfl

theorem check_of_missing (h : slots.isMissing r) :
    slots.check program r = ⟨[], .error (.missingField (Schema.role r).name)⟩ := by
  rw [isMissing, Bool.and_eq_true, Option.isNone_iff_eq_none, Bool.not_eq_true'] at h
  obtain ⟨hsupply, hoptional⟩ := h
  simp only [check, hsupply, hoptional]
  rfl

theorem check_of_not_missing (h : slots.isMissing r = false) :
    slots.check program r = ⟨slots.reports program [r], .ok ()⟩ := by
  unfold isMissing at h
  simp only [check, reports, List.filter_singleton, isBare]
  cases hsupply : slots.supplied r with
  | some supply => rfl
  | none =>
    cases hoptional : (Schema.role r).isOptional with
    | false => simp [hsupply, hoptional] at h
    | true => cases (Schema.role r).fallback <;> rfl

/-- What the check lets pass can be filled. -/
theorem fill_of_not_missing (h : slots.isMissing r = false) :
    (Schema.role r).fill program (slots.supplied r) = .ok (slots.account program r) := by
  unfold isMissing at h
  simp only [Role.fill, account]
  cases hsupply : slots.supplied r with
  | some supply => rfl
  | none =>
    cases (Schema.role r).fallback with
    | some key => rfl
    | none =>
      cases hoptional : (Schema.role r).isOptional with
      | false => simp [hsupply, hoptional] at h
      | true => rfl

theorem forM_check_of_missing (hbefore : ∀ r' ∈ before, slots.isMissing r' = false)
    (hr : slots.isMissing r) : (before ++ r :: after).forM (slots.check program) =
      ⟨slots.reports program before, .error (.missingField (Schema.role r).name)⟩ := by
  induction before with
  | nil => exact Logged.bind_of_error (check_of_missing hr)
  | cons r' before ih =>
    obtain ⟨hr', hbefore⟩ := List.forall_mem_cons.mp hbefore
    rw [List.cons_append, Logged.forM_cons, Logged.bind_of_ok (check_of_not_missing hr'),
      ih hbefore, ← reports_cons]

theorem forM_check_of_complete (h : ∀ r ∈ rs, slots.isMissing r = false) :
    rs.forM (slots.check program) = ⟨slots.reports program rs, .ok ()⟩ := by
  induction rs with
  | nil => rfl
  | cons r rs ih =>
    obtain ⟨hr, hrs⟩ := List.forall_mem_cons.mp h
    rw [Logged.forM_cons, Logged.bind_of_ok (check_of_not_missing hr), ih hrs, ← reports_cons]

theorem mapM_fill_of_complete (h : ∀ r ∈ rs, slots.isMissing r = false) :
    (rs.mapM fun r => (Schema.role r).fill program (slots.supplied r)) =
      .ok (rs.map (slots.account program)) := by
  rw [Checked.mapM_eq_ok, List.forall₂_map_right_iff, List.forall₂_same]
  exact fun r hr => fill_of_not_missing (h r hr)

theorem assemble_of_missing (hall : Schema.all = before ++ r :: after)
    (hbefore : ∀ r' ∈ before, slots.isMissing r' = false) (hr : slots.isMissing r) :
    slots.assemble program data =
      ⟨slots.reports program before, .error (.missingField (Schema.role r).name)⟩ := by
  unfold assemble
  rw [hall]
  exact Logged.bind_of_error (forM_check_of_missing hbefore hr)

theorem assemble_of_complete (hall : ∀ r ∈ (Schema.all : List ρ), slots.isMissing r = false) :
    slots.assemble program data = ⟨slots.reports program Schema.all, .ok ⟨program,
      (Schema.all : List ρ).map (slots.account program) ++ slots.remaining, data⟩⟩ := by
  unfold assemble
  refine (Logged.bind_of_ok (forM_check_of_complete hall)).trans ?_
  rw [mapM_fill_of_complete hall]
  exact congrArg (Logged.mk · _) (List.append_nil _)

theorem assembles_iff : slots.Assembles program data outcome ↔
    slots.assemble program data = outcome := by
  constructor
  · intro h
    cases h with
    | missing hall hbefore hr => exact assemble_of_missing hall hbefore hr
    | complete hall => exact assemble_of_complete hall
  · rintro rfl
    cases hfind : (Schema.all : List ρ).find? slots.isMissing with
    | some r =>
      obtain ⟨hr, before, after, hall, hbefore⟩ := List.find?_eq_some_iff_append.mp hfind
      have hbefore : ∀ r' ∈ before, slots.isMissing r' = false := by simpa using hbefore
      rw [assemble_of_missing hall hbefore hr]
      exact .missing hall hbefore hr
    | none =>
      have hall : ∀ r ∈ (Schema.all : List ρ), slots.isMissing r = false := by
        simpa using List.find?_eq_none.mp hfind
      rw [assemble_of_complete hall]
      exact .complete hall

theorem Assembles.ne_missingAccount {name : String} (h : slots.Assembles program data outcome) :
    outcome.result ≠ .error (.missingAccount name) := by
  cases h with
  | missing => exact nofun
  | complete => exact nofun

theorem assemble_eq_ok : (slots.assemble program data).result = .ok ix ↔ slots.Complete ∧
    ix = ⟨program, (Schema.all : List ρ).map (slots.account program) ++ slots.remaining, data⟩ := by
  have hassembles : slots.Assembles program data _ := assembles_iff.mpr rfl
  rw [complete_iff]
  generalize slots.assemble program data = outcome at hassembles ⊢
  cases hassembles with
  | @missing before after r hall hbefore hr =>
    refine iff_of_false nofun ?_
    rintro ⟨hcomplete, -⟩
    have hfilled := hcomplete r (by simp [hall])
    rw [hr] at hfilled
    cases hfilled
  | complete hall =>
    constructor
    · intro h
      exact ⟨hall, (Except.ok.inj h).symm⟩
    · rintro ⟨-, rfl⟩
      rfl

theorem exists_assemble :
    (∃ ix, (slots.assemble program data).result = .ok ix) ↔ slots.Complete := by
  constructor
  · rintro ⟨ix, h⟩
    exact (assemble_eq_ok.mp h).1
  · intro hcomplete
    exact ⟨_, assemble_eq_ok.mpr ⟨hcomplete, rfl⟩⟩

end TokenWire.Slots
