import TokenWire.Account.Slots

/-! Instructions that are made in stages: what is given last is what counts. -/

namespace TokenWire

section LastGiven

variable {χ V : Type} {given : χ → Option V}

/-- The last of the values that are given one after the other. -/
def lastGiven (given : χ → Option V) (cs : List χ) : Option V :=
  (cs.filterMap given).getLast?

theorem lastGiven_append (cs cs' : List χ) :
    lastGiven given (cs ++ cs') = (lastGiven given cs').or (lastGiven given cs) := by
  rw [lastGiven, List.filterMap_append, List.getLast?_append]
  rfl

theorem lastGiven_cons (c : χ) (cs : List χ) :
    lastGiven given (c :: cs) = (lastGiven given cs).or (given c) := by
  have hone : lastGiven given [c] = given c := by
    cases h : given c <;> simp [lastGiven, h]
  rw [← List.singleton_append, lastGiven_append, hone]

variable {c c' : χ} {before between behind : List χ}

theorem lastGiven_swap (h : ¬ ((given c).isSome ∧ (given c').isSome)) :
    lastGiven given (before ++ c :: c' :: behind) =
      lastGiven given (before ++ c' :: c :: behind) := by
  simp only [lastGiven_append, lastGiven_cons]
  cases hc : given c with
  | none => rw [Option.or_none, Option.or_none]
  | some v =>
    cases hc' : given c' with
    | none => rw [Option.or_none, Option.or_none]
    | some v' => exact absurd ⟨hc ▸ rfl, hc' ▸ rfl⟩ h

/-- A value counts for nothing when another is given later. -/
theorem lastGiven_drop (h : (given c).isSome → (given c').isSome) :
    lastGiven given (before ++ c :: (between ++ c' :: behind)) =
      lastGiven given (before ++ (between ++ c' :: behind)) := by
  simp only [lastGiven_append, lastGiven_cons]
  cases hc : given c with
  | none => rw [Option.or_none]
  | some v =>
    have hlater := Option.isSome_iff_ne_none.mp (h (hc ▸ rfl))
    cases hc' : given c' with
    | none => exact absurd hc' hlater
    | some v' => cases lastGiven given behind <;> rfl

end LastGiven

namespace Slots

variable {ρ : Type} [DecidableEq ρ]

/-- What a change of a role's slot gives to the slot of another role. -/
def given? (role : ρ) (supply : Option Supply) (r : ρ) : Option (Option Supply) :=
  if r = role then some supply else none

theorem isSome_given? {role r : ρ} {supply : Option Supply} :
    (given? role supply r).isSome ↔ r = role := by
  unfold given?
  split <;> simp [*]

theorem supplied_set (slots : Slots ρ) (role : ρ) (supply : Option Supply) (r : ρ) :
    (slots.set role supply).supplied r = (given? role supply r).getD (slots.supplied r) := by
  change (if r = role then supply else slots.supplied r) = _
  unfold given?
  split <;> rfl

end Slots

/-- A call of a builder: a change of what it holds, or for the instruction as far as it is known. -/
inductive Call (χ : Type) where
  | change (c : χ)
  | instruction

namespace Call

variable {χ : Type}

def change? : Call χ → Option χ
  | change c => some c
  | instruction => none

/-- Whether a call is left when the other changes are dropped. -/
def isLeft (keep : χ → Bool) : Call χ → Bool
  | change c => keep c
  | instruction => true

/-- The changes among some calls, in order. -/
def changes (calls : List (Call χ)) : List χ :=
  calls.filterMap change?

theorem changes_append (calls calls' : List (Call χ)) :
    changes (calls ++ calls') = changes calls ++ changes calls' :=
  List.filterMap_append

theorem changes_cons_change (c : χ) (calls : List (Call χ)) :
    changes (.change c :: calls) = c :: changes calls := rfl

theorem changes_cons_instruction (calls : List (Call χ)) :
    changes (.instruction :: calls) = changes calls := rfl

end Call

/-- A builder with places for values, to which its changes give, and accounts, to which they add. -/
structure Staging (π : Type) (V : π → Type) (β χ : Type) where
  fresh : β
  apply : β → χ → β
  make : β → Logged Instruction
  held : β → (p : π) → V p
  remaining : β → List AccountMeta
  given? : χ → (p : π) → Option (V p)
  accounts : χ → List AccountMeta
  remaining_fresh : remaining fresh = []
  held_apply : ∀ b c p, held (apply b c) p = (given? c p).getD (held b p)
  remaining_apply : ∀ b c, remaining (apply b c) = remaining b ++ accounts c
  /-- A builder holds nothing else. -/
  ext : ∀ b b', (∀ p, held b p = held b' p) → remaining b = remaining b' → b = b'

namespace Staging

variable {π : Type} {V : π → Type} {β χ : Type} (s : Staging π V β χ)

/-- The builder after some calls. -/
def after (b : β) (calls : List (Call χ)) : β :=
  (Call.changes calls).foldl s.apply b

/-- What the calls for the instruction come to, one after the other. -/
def outcomes (b : β) : List (Call χ) → List (Logged Instruction)
  | [] => []
  | .change c :: calls => outcomes (s.apply b c) calls
  -- The builder stays as it is, whether there is an instruction or an error.
  | .instruction :: calls => s.make b :: outcomes b calls

/-- What one more call for the instruction comes to. -/
def final (calls : List (Call χ)) : Option (Logged Instruction) :=
  (s.outcomes s.fresh (calls ++ [.instruction])).getLast?

/-- What a place holds after some calls: the last value given to it, or what it held at first. -/
def last (p : π) (calls : List (Call χ)) : V p :=
  (lastGiven (s.given? · p) (Call.changes calls)).getD (s.held s.fresh p)

/-- The accounts that some calls add. -/
def added (calls : List (Call χ)) : List AccountMeta :=
  (Call.changes calls).flatMap s.accounts

/-- Two changes give to different places, and do not both add accounts. -/
def Apart (c c' : χ) : Prop :=
  (∀ p, ¬ ((s.given? c p).isSome ∧ (s.given? c' p).isSome)) ∧
    (s.accounts c = [] ∨ s.accounts c' = [])

/-- A change gives to all places to which another gives, and the other adds no accounts. -/
def Replaces (c' c : χ) : Prop :=
  (∀ p, (s.given? c p).isSome → (s.given? c' p).isSome) ∧ s.accounts c = []

variable {s} {b : β} {c c' : χ} {calls calls' before between behind : List (Call χ)}

theorem outcomes_append_instruction :
    s.outcomes b (calls ++ [.instruction]) = s.outcomes b calls ++ [s.make (s.after b calls)] := by
  induction calls generalizing b with
  | nil => rfl
  | cons call calls ih =>
    cases call with
    | change c => exact ih
    | instruction => exact congrArg (s.make b :: ·) ih

theorem final_eq_some (s : Staging π V β χ) (calls : List (Call χ)) :
    s.final calls = some (s.make (s.after s.fresh calls)) := by
  rw [final, outcomes_append_instruction, List.getLast?_concat]

theorem held_foldl (s : Staging π V β χ) (cs : List χ) (b : β) (p : π) :
    s.held (cs.foldl s.apply b) p = (lastGiven (s.given? · p) cs).getD (s.held b p) := by
  induction cs generalizing b with
  | nil => rfl
  | cons c cs ih =>
    rw [List.foldl_cons, ih, lastGiven_cons, s.held_apply]
    cases lastGiven (s.given? · p) cs <;> rfl

theorem remaining_foldl (s : Staging π V β χ) (cs : List χ) (b : β) :
    s.remaining (cs.foldl s.apply b) = s.remaining b ++ cs.flatMap s.accounts := by
  induction cs generalizing b with
  | nil => exact (List.append_nil _).symm
  | cons c cs ih => rw [List.foldl_cons, ih, s.remaining_apply, List.append_assoc, List.flatMap_cons]

theorem held_after (s : Staging π V β χ) (calls : List (Call χ)) (p : π) :
    s.held (s.after s.fresh calls) p = s.last p calls :=
  s.held_foldl _ _ p

theorem remaining_after (s : Staging π V β χ) (calls : List (Call χ)) :
    s.remaining (s.after s.fresh calls) = s.added calls := by
  rw [after, remaining_foldl, s.remaining_fresh]
  rfl

/-- A place holds what it is given last behind a change, or what the change leaves there. -/
theorem last_append_change (p : π) : s.last p (before ++ .change c :: behind) =
    (lastGiven (s.given? · p) (Call.changes behind)).getD
      ((s.given? c p).getD (s.last p before)) := by
  simp only [last, Call.changes_append, Call.changes_cons_change, lastGiven_append, lastGiven_cons]
  cases lastGiven (s.given? · p) (Call.changes behind) with
  | some v => rfl
  | none => cases s.given? c p <;> rfl

theorem final_congr (hlast : ∀ p, s.last p calls = s.last p calls')
    (hadded : s.added calls = s.added calls') : s.final calls = s.final calls' := by
  have hafter : s.after s.fresh calls = s.after s.fresh calls' := by
    apply s.ext
    · intro p
      rw [held_after, held_after, hlast]
    · rw [remaining_after, remaining_after, hadded]
  rw [final_eq_some, final_eq_some, hafter]

theorem final_instruction :
    s.final (before ++ .instruction :: behind) = s.final (before ++ behind) := by
  have hchanges : Call.changes (before ++ .instruction :: behind) =
      Call.changes (before ++ behind) := by
    rw [Call.changes_append, Call.changes_cons_instruction, Call.changes_append]
  apply final_congr
  · intro p
    rw [last, hchanges, last]
  · rw [added, hchanges, added]

theorem final_swap (h : s.Apart c c') :
    s.final (before ++ .change c :: .change c' :: behind) =
      s.final (before ++ .change c' :: .change c :: behind) := by
  obtain ⟨hplaces, haccounts⟩ := h
  apply final_congr
  · intro p
    simp only [last, Call.changes_append, Call.changes_cons_change]
    rw [lastGiven_swap (hplaces p)]
  · simp only [added, Call.changes_append, Call.changes_cons_change, List.flatMap_append,
      List.flatMap_cons]
    obtain h | h := haccounts
    · simp only [h, List.nil_append]
    · simp only [h, List.nil_append]

theorem final_drop (h : s.Replaces c' c) :
    s.final (before ++ .change c :: (between ++ .change c' :: behind)) =
      s.final (before ++ (between ++ .change c' :: behind)) := by
  obtain ⟨hplaces, haccounts⟩ := h
  apply final_congr
  · intro p
    simp only [last, Call.changes_append, Call.changes_cons_change]
    rw [lastGiven_drop (hplaces p)]
  · simp only [added, Call.changes_append, Call.changes_cons_change, List.flatMap_append,
      List.flatMap_cons, haccounts, List.nil_append]

/-- All changes that a later one replaces can be left out. -/
theorem final_filter {keep : χ → Bool} (h : ∀ c, ¬ keep c → s.Replaces c' c)
    (before between behind : List (Call χ)) :
    s.final (before ++ (between ++ .change c' :: behind)) =
      s.final (before ++ (between.filter (Call.isLeft keep) ++ .change c' :: behind)) := by
  -- A call that is left moves over to those before.
  induction between generalizing before with
  | nil => rfl
  | cons call between ih =>
    by_cases hkeep : call.isLeft keep
    · have hmove := ih (before ++ [call])
      rw [List.append_assoc, List.append_assoc] at hmove
      rw [List.filter_cons_of_pos hkeep]
      exact hmove
    · rw [List.filter_cons_of_neg hkeep, ← ih]
      cases call with
      | change c => exact final_drop (h c hkeep)
      | instruction => exact absurd rfl hkeep

end Staging

section Setters

variable {π : Type} {V : π → Type} {β χ σ : Type}

/-- The setters by which a builder is changed; one of them adds accounts. -/
structure Setters (s : Staging π V β χ) (σ : Type) where
  setter : χ → σ
  adder : σ
  Gives : σ → π → Prop
  /-- A setter sets all that another sets. -/
  Covers : σ → σ → Prop
  isSome_given? : ∀ c p, (s.given? c p).isSome ↔ Gives (setter c) p
  accounts_eq_nil : ∀ c, setter c ≠ adder → s.accounts c = []
  covers_refl : ∀ t, Covers t t
  covers_of_gives : ∀ t u p, Gives t p → Gives u p → Covers t u ∨ Covers u t
  gives_of_covers : ∀ t u p, Covers t u → Gives u p → Gives t p

namespace Setters

variable {s : Staging π V β χ} (t : Setters s σ) {c c' : χ}

theorem apart (h : ¬ t.Covers (t.setter c) (t.setter c'))
    (h' : ¬ t.Covers (t.setter c') (t.setter c)) : s.Apart c c' := by
  constructor
  · rintro p ⟨hc, hc'⟩
    rw [t.isSome_given?] at hc hc'
    obtain hcovers | hcovers := t.covers_of_gives _ _ p hc hc'
    · exact h hcovers
    · exact h' hcovers
  · by_cases hc : t.setter c = t.adder
    · right
      apply t.accounts_eq_nil
      intro hc'
      rw [hc, hc'] at h
      exact h (t.covers_refl _)
    · exact Or.inl (t.accounts_eq_nil c hc)

theorem replaces (h : t.Covers (t.setter c') (t.setter c)) (hne : t.setter c ≠ t.adder) :
    s.Replaces c' c := by
  refine ⟨fun p hp => ?_, t.accounts_eq_nil c hne⟩
  rw [t.isSome_given?] at hp ⊢
  exact t.gives_of_covers _ _ p h hp

/--
Only the last values count, and the accounts in the order in which they were added: setters that
set different things change places, and a setter with another call behind it that sets as much, or
a call for the instruction, changes nothing.
-/
structure LastGivenWins : Prop where
  exists_final : ∀ calls, ∃ outcome, s.final calls = some outcome
  final_congr : ∀ calls calls', (∀ p, s.last p calls = s.last p calls') →
    s.added calls = s.added calls' → s.final calls = s.final calls'
  swap : ∀ c c' before behind,
    ¬ t.Covers (t.setter c) (t.setter c') → ¬ t.Covers (t.setter c') (t.setter c) →
      s.final (before ++ .change c :: .change c' :: behind) =
        s.final (before ++ .change c' :: .change c :: behind)
  drop : ∀ c c' before between behind,
    t.Covers (t.setter c') (t.setter c) → t.setter c ≠ t.adder →
      s.final (before ++ .change c :: (between ++ .change c' :: behind)) =
        s.final (before ++ (between ++ .change c' :: behind))
  instruction : ∀ before behind,
    s.final (before ++ .instruction :: behind) = s.final (before ++ behind)

theorem lastGivenWins : t.LastGivenWins where
  exists_final calls := ⟨_, s.final_eq_some calls⟩
  final_congr _ _ := Staging.final_congr
  swap _ _ _ _ h h' := Staging.final_swap (t.apart h h')
  drop _ _ _ _ _ h hne := Staging.final_drop (t.replaces h hne)
  instruction _ _ := Staging.final_instruction

end Setters
end Setters

end TokenWire
