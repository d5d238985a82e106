import TokenWire.Asset.CreateBuilder
import TokenWire.Asset.UpdateBuilder
import TokenWire.Proofs.Account.Staging

/-! The builders of a creation and of an update keep what each setter is given last. -/

namespace TokenWire.Asset

namespace CreateBuilder

/-- What a builder holds values for. -/
inductive Place where
  | account (role : CreateRole)
  | args

abbrev Place.Held : Place → Type
  | .account _ => Option Supply
  | .args => Option CreateArgs

def held (b : CreateBuilder) : (p : Place) → p.Held
  | .account role => b.slots.supplied role
  | .args => b.args

def Change.given? : Change → (p : Place) → Option p.Held
  | .account role supply, .account r => Slots.given? role supply r
  | .args a, .args => some (some a)
  | _, _ => none

def Change.accounts : Change → List AccountMeta
  | .remaining more => more
  | _ => []

def staging : Staging Place Place.Held CreateBuilder Change where
  fresh := {}
  apply := apply
  make := instruction
  held := held
  remaining b := b.slots.remaining
  given? := Change.given?
  accounts := Change.accounts
  remaining_fresh := rfl
  held_apply b c p := by
    cases c with
    | account role supply =>
      cases p with
      | account r => exact b.slots.supplied_set role supply r
      | args => rfl
    | _ => cases p <;> rfl
  remaining_apply b c := by
    cases c with
    | remaining => rfl
    | _ => exact (List.append_nil _).symm
  ext b b' hheld hremaining := by
    obtain ⟨⟨supplied, remaining⟩, args⟩ := b
    obtain ⟨⟨supplied', remaining'⟩, args'⟩ := b'
    obtain rfl : supplied = supplied' := funext fun role => hheld (.account role)
    obtain rfl : args = args' := hheld .args
    obtain rfl : remaining = remaining' := hremaining
    rfl

/-- The setters of a builder. -/
inductive Setter where
  | account (role : CreateRole)
  | args
  | remaining

def Change.setter : Change → Setter
  | .account role _ => .account role
  | .args _ => .args
  | .remaining _ => .remaining

/-- A setter gives to a place. -/
def Setter.Gives : Setter → Place → Prop
  | .account role, .account r => r = role
  | .args, .args => True
  | _, _ => False

theorem isSome_given? {c : Change} {p : Place} : (c.given? p).isSome ↔ c.setter.Gives p := by
  cases c <;> cases p <;>
    simp [Change.given?, Change.setter, Setter.Gives, Slots.isSome_given?]

theorem Setter.eq_of_gives {t u : Setter} {p : Place} (ht : t.Gives p) (hu : u.Gives p) :
    t = u := by
  cases p with
  | account r =>
    cases t <;> cases ht
    cases u <;> cases hu
    rfl
  | args =>
    cases t <;> cases ht
    cases u <;> cases hu
    rfl

def setters : Setters staging Setter where
  setter := Change.setter
  adder := .remaining
  Gives := Setter.Gives
  Covers t u := t = u
  isSome_given? _ _ := isSome_given?
  accounts_eq_nil c h := by
    cases c with
    | remaining => exact absurd rfl h
    | _ => rfl
  covers_refl _ := rfl
  covers_of_gives _ _ _ ht hu := Or.inl (Setter.eq_of_gives ht hu)
  gives_of_covers _ _ _ h hu := h ▸ hu

end CreateBuilder

namespace UpdateArgs

/-- The fields of the arguments. -/
inductive Field where
  | newUpdateAuthority
  | data
  | primarySaleHappened
  | isMutable
  | collection
  | collectionDetails
  | uses
  | ruleSet
  | authorization

abbrev Field.Held : Field → Type
  | .newUpdateAuthority => Option Key
  | .data => Option Data
  | .primarySaleHappened => Option Bool
  | .isMutable => Option Bool
  | .collection => Toggle Collection
  | .collectionDetails => Toggle CollectionDetails
  | .uses => Toggle Uses
  | .ruleSet => Toggle Key
  | .authorization => Option Authorization

def held (a : UpdateArgs) : (f : Field) → f.Held
  | .newUpdateAuthority => a.newUpdateAuthority
  | .data => a.data
  | .primarySaleHappened => a.primarySaleHappened
  | .isMutable => a.isMutable
  | .collection => a.collection
  | .collectionDetails => a.collectionDetails
  | .uses => a.uses
  | .ruleSet => a.ruleSet
  | .authorization => a.authorization

/-- The field that changes. -/
def Change.field : Change → Field
  | .newUpdateAuthority _ => .newUpdateAuthority
  | .data _ => .data
  | .primarySaleHappened _ => .primarySaleHappened
  | .isMutable _ => .isMutable
  | .collection _ => .collection
  | .collectionDetails _ => .collectionDetails
  | .uses _ => .uses
  | .ruleSet _ => .ruleSet
  | .authorization _ => .authorization

def Change.given? : Change → (f : Field) → Option f.Held
  | .newUpdateAuthority k?, .newUpdateAuthority => some k?
  | .data d?, .data => some d?
  | .primarySaleHappened b?, .primarySaleHappened => some b?
  | .isMutable b?, .isMutable => some b?
  | .collection t, .collection => some t
  | .collectionDetails t, .collectionDetails => some t
  | .uses t, .uses => some t
  | .ruleSet t, .ruleSet => some t
  | .authorization auth?, .authorization => some auth?
  | _, _ => none

theorem held_apply (a : UpdateArgs) (c : Change) (f : Field) :
    (a.apply c).held f = (c.given? f).getD (a.held f) := by
  cases c <;> cases f <;> rfl

theorem isSome_given? {c : Change} {f : Field} : (c.given? f).isSome ↔ c.field = f := by
  cases c <;> cases f <;> simp [Change.given?, Change.field]

/-- A change leaves the other fields as they are. -/
theorem held_apply_of_ne (a : UpdateArgs) {c : Change} {f : Field} (h : c.field ≠ f) :
    (a.apply c).held f = a.held f := by
  have hnone : c.given? f = none := by
    rw [← Option.not_isSome_iff_eq_none, isSome_given?]
    exact h
  rw [held_apply, hnone]
  rfl

/-- The arguments that hold some values. -/
def ofHeld (values : (f : Field) → f.Held) : UpdateArgs :=
  ⟨values .newUpdateAuthority, values .data, values .primarySaleHappened, values .isMutable,
    values .collection, values .collectionDetails, values .uses, values .ruleSet,
    values .authorization⟩

theorem ext_held {a a' : UpdateArgs} (h : ∀ f, a.held f = a'.held f) : a = a' :=
  congrArg ofHeld (funext h)

end UpdateArgs

namespace UpdateBuilder

/-- What a builder holds values for. -/
inductive Place where
  | account (role : UpdateRole)
  | argument (f : UpdateArgs.Field)

abbrev Place.Held : Place → Type
  | .account _ => Option Supply
  | .argument f => f.Held

def held (b : UpdateBuilder) : (p : Place) → p.Held
  | .account role => b.slots.supplied role
  | .argument f => b.args.held f

/-- All arguments together are a value for each field. -/
def Change.given? : Change → (p : Place) → Option p.Held
  | .account role supply, .account r => Slots.given? role supply r
  | .argument c, .argument f => c.given? f
  | .args a, .argument f => some (a.held f)
  | _, _ => none

def Change.accounts : Change → List AccountMeta
  | .remaining more => more
  | _ => []

def staging : Staging Place Place.Held UpdateBuilder Change where
  fresh := {}
  apply := apply
  make := instruction
  held := held
  remaining b := b.slots.remaining
  given? := Change.given?
  accounts := Change.accounts
  remaining_fresh := rfl
  held_apply b c p := by
    cases c with
    | account role supply =>
      cases p with
      | account r => exact b.slots.supplied_set role supply r
      | argument f => rfl
    | argument c =>
      cases p with
      | account r => rfl
      | argument f => exact b.args.held_apply c f
    | _ => cases p <;> rfl
  remaining_apply b c := by
    cases c with
    | remaining => rfl
    | _ => exact (List.append_nil _).symm
  ext b b' hheld hremaining := by
    obtain ⟨⟨supplied, remaining⟩, args⟩ := b
    obtain ⟨⟨supplied', remaining'⟩, args'⟩ := b'
    obtain rfl : supplied = supplied' := funext fun role => hheld (.account role)
    obtain rfl : args = args' := UpdateArgs.ext_held fun f => hheld (.argument f)
    obtain rfl : remaining = remaining' := hremaining
    rfl

/-- The setters of a builder. -/
inductive Setter where
  | account (role : UpdateRole)
  | argument (f : UpdateArgs.Field)
  | args
  | remaining

def Change.setter : Change → Setter
  | .account role _ => .account role
  | .argument c => .argument c.field
  | .args _ => .args
  | .remaining _ => .remaining

/-- A setter gives to a place. -/
def Setter.Gives : Setter → Place → Prop
  | .account role, .account r => r = role
  | .argument f, .argument g => f = g
  | .args, .argument _ => True
  | _, _ => False

/-- A setter sets what another sets: it is the same, or sets all arguments where that sets one. -/
def Setter.Covers (s t : Setter) : Prop :=
  s = t ∨ s = .args ∧ ∃ f, t = .argument f

theorem isSome_given? {c : Change} {p : Place} : (c.given? p).isSome ↔ c.setter.Gives p := by
  cases c <;> cases p <;>
    simp [Change.given?, Change.setter, Setter.Gives, Slots.isSome_given?,
      UpdateArgs.isSome_given?]

namespace Setter

variable {t u : Setter} {p : Place}

theorem covers_of_gives (ht : t.Gives p) (hu : u.Gives p) : t.Covers u ∨ u.Covers t := by
  cases p with
  | account r =>
    cases t <;> cases ht
    cases u <;> cases hu
    exact Or.inl (Or.inl rfl)
  | argument f =>
    cases t with
    | argument g =>
      cases ht
      cases u with
      | argument =>
        cases hu
        exact Or.inl (Or.inl rfl)
      | args => exact Or.inr (Or.inr ⟨rfl, f, rfl⟩)
      | _ => cases hu
    | args =>
      cases u with
      | argument g => exact Or.inl (Or.inr ⟨rfl, g, rfl⟩)
      | args => exact Or.inl (Or.inl rfl)
      | _ => cases hu
    | _ => cases ht

theorem Covers.gives (h : t.Covers u) (hu : u.Gives p) : t.Gives p := by
  obtain rfl | ⟨rfl, f, rfl⟩ := h
  · exact hu
  · cases p with
    | account r => cases hu
    | argument g => trivial

end Setter

def setters : Setters staging Setter where
  setter := Change.setter
  adder := .remaining
  Gives := Setter.Gives
  Covers := Setter.Covers
  isSome_given? _ _ := isSome_given?
  accounts_eq_nil c h := by
    cases c with
    | remaining => exact absurd rfl h
    | _ => rfl
  covers_refl _ := Or.inl rfl
  covers_of_gives _ _ _ := Setter.covers_of_gives
  gives_of_covers _ _ _ := Setter.Covers.gives

/-- Whether a change is one of arguments. -/
def Change.isArgument : Change → Bool
  | .argument _ => true
  | .args _ => true
  | _ => false

variable {a : UpdateArgs} {before behind : List (Call Change)}

theorem replaces_of_isArgument {c : Change} (h : c.isArgument) :
    staging.Replaces (.args a) c := by
  cases c with
  | argument c => exact setters.replaces (Or.inr ⟨rfl, c.field, rfl⟩) nofun
  | args => exact setters.replaces (Or.inl rfl) nofun
  | _ => cases h

theorem final_args : staging.final (before ++ .change (.args a) :: behind) =
    staging.final (before.filter (Call.isLeft fun c => !c.isArgument) ++
      .change (.args a) :: behind) := by
  refine Staging.final_filter (fun c hc => replaces_of_isArgument ?_) [] before behind
  simpa using hc

theorem last_args (f : UpdateArgs.Field) :
    staging.last (.argument f) (before ++ .change (.args a) :: behind) =
      (lastGiven (·.given? (.argument f)) (Call.changes behind)).getD (a.held f) :=
  Staging.last_append_change _

theorem held_apply_argument (b : UpdateBuilder) {c : UpdateArgs.Change} {p : Place}
    (h : p ≠ .argument c.field) : (b.apply (.argument c)).held p = b.held p := by
  cases p with
  | account r => rfl
  | argument f => exact b.args.held_apply_of_ne fun e => h (congrArg Place.argument e.symm)

end UpdateBuilder

/--
Each builder keeps the last value for each place and the accounts in order. All arguments of an
update together discard what was given to any before, and a setter of one argument behind them
changes nothing else.
-/
theorem setters_keep_last :
    CreateBuilder.setters.LastGivenWins ∧ UpdateBuilder.setters.LastGivenWins ∧
    (∀ a before behind,
      UpdateBuilder.staging.final (before ++ .change (.args a) :: behind) =
        UpdateBuilder.staging.final (before.filter (Call.isLeft fun c => !c.isArgument) ++
          .change (.args a) :: behind)) ∧
    (∀ a before behind f,
      UpdateBuilder.staging.last (.argument f) (before ++ .change (.args a) :: behind) =
        (lastGiven (UpdateBuilder.Change.given? · (.argument f)) (Call.changes behind)).getD
          (a.held f)) ∧
    ∀ (b : UpdateBuilder) c p, p ≠ .argument c.field →
      (b.apply (.argument c)).held p = b.held p := by
  refine ⟨CreateBuilder.setters.lastGivenWins, UpdateBuilder.setters.lastGivenWins,
    fun _ _ _ => UpdateBuilder.final_args, fun _ _ _ => UpdateBuilder.last_args,
    fun b _ _ => b.held_apply_argument⟩

/-- A program that is set and unset leaves no trace, and all arguments together take one back. -/
theorem setters_keep_last_unset :
    let set := CreateBuilder.Change.account .tokenProgram (some ⟨.zero, none⟩)
    let unset := CreateBuilder.Change.account .tokenProgram none
    let lost := UpdateBuilder.Change.argument (.isMutable (some true))
    let a : UpdateArgs := { primarySaleHappened := some true }
    let kept := UpdateBuilder.Change.argument (.ruleSet .clear)
    let more := UpdateBuilder.Change.remaining [.signer .zero]
    CreateBuilder.staging.final [.change set, .instruction, .change unset] =
      some ⟨[], .error (.missingField "create_args")⟩ ∧
    UpdateBuilder.staging.final
        [.change lost, .instruction, .change (.args a), .change kept, .change more] =
      UpdateBuilder.staging.final [.instruction, .change (.args a), .change more, .change kept] ∧
    (UpdateBuilder.apply (.apply {} (.args a)) kept).held (.argument .primarySaleHappened) =
      some true := by
  intro set unset lost a kept more
  obtain ⟨hcreate, hupdate, -, -, honly⟩ := setters_keep_last
  have hnone : CreateBuilder.staging.final [.change set, .instruction, .change unset] =
      CreateBuilder.staging.final [] := by
    refine hcreate.final_congr _ _ (fun p => ?_) rfl
    cases p with
    | account r => cases r <;> rfl
    | args => rfl
  have hdrop := hupdate.drop lost (.args a) [] [.instruction] [.change kept, .change more]
    (Or.inr ⟨rfl, .isMutable, rfl⟩) nofun
  have hswap := hupdate.swap kept more [.instruction, .change (.args a)] [] nofun nofun
  refine ⟨hnone, hdrop.trans hswap, ?_⟩
  exact honly (.apply {} (.args a)) (.ruleSet .clear) (.argument .primarySaleHappened) nofun

end TokenWire.Asset
