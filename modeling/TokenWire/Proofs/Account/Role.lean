import TokenWire.Account.Role
import TokenWire.Program
import TokenWire.Proofs.Entries
import TokenWire.Proofs.Traversal

/-! What stands in the slots of a schema, and the first slot in which nothing can stand. -/

namespace TokenWire.Role

variable {role : Role} {schema : List Role} {supplied supplied' : Entries (Option Supply)}
  {supply? : Option Supply} {placeholder : Key} {m m' : AccountMeta} {ms : List AccountMeta}
  {e : Error}

/-- What is supplied under the name of a role; a null supplies nothing. -/
def supplyIn (role : Role) (supplied : Entries (Option Supply)) : Option Supply :=
  (supplied.find? role.name).join

/-- Whether nothing can stand in a slot for which this is supplied. -/
def isMissing (role : Role) (supply? : Option Supply) : Bool :=
  supply?.isNone && role.fallback.isNone && !role.isOptional

/-- The account that stands in a slot, by what is supplied for it. -/
inductive Holds (role : Role) (placeholder : Key) : Option Supply → AccountMeta → Prop
  /-- A key without a flag of its own takes both flags of the role. -/
  | key (k : Key) : Holds role placeholder (some ⟨k, none⟩) ⟨k, role.isSigner, role.isWritable⟩
  | flagged (k : Key) (signs : Bool) :
      Holds role placeholder (some ⟨k, some signs⟩) ⟨k, signs, role.isWritable⟩
  | fallback {k : Key} (h : role.fallback = some k) :
      Holds role placeholder none ⟨k, role.isSigner, role.isWritable⟩
  | bare (h : role.fallback = none) (hoptional : role.isOptional) :
      Holds role placeholder none ⟨placeholder, false, false⟩

theorem Holds.unique (h : role.Holds placeholder supply? m)
    (h' : role.Holds placeholder supply? m') : m = m' := by
  cases h with
  | key k => cases h'; rfl
  | flagged k signs => cases h'; rfl
  | fallback h =>
    cases h' with
    | fallback h' =>
      obtain rfl := Option.some.inj (h.symm.trans h')
      rfl
    | bare h' => rw [h] at h'; cases h'
  | bare h =>
    cases h' with
    | fallback h' => rw [h] at h'; cases h'
    | bare => rfl

theorem fill_eq_ok : role.fill placeholder supply? = .ok m ↔ role.Holds placeholder supply? m := by
  constructor
  · intro h
    unfold fill at h
    split at h
    · next supply =>
      obtain ⟨k, _ | signs⟩ := supply
      · cases h
        exact .key k
      · cases h
        exact .flagged k signs
    · split at h
      · next hfallback =>
        cases h
        exact .fallback hfallback
      · next hfallback =>
        split at h
        · next hoptional =>
          cases h
          exact .bare hfallback hoptional
        · cases h
  · intro h
    cases h with
    | key k => rfl
    | flagged k signs => rfl
    | fallback h => rw [fill, h]
    | bare h hoptional => rw [fill, h, if_pos hoptional]; rfl

theorem fill_eq_error : role.fill placeholder supply? = .error e ↔
    role.isMissing supply? ∧ e = .missingAccount role.name := by
  unfold fill isMissing
  cases supply? with
  | some supply => exact iff_of_false nofun nofun
  | none =>
    cases role.fallback with
    | some k => exact iff_of_false nofun nofun
    | none =>
      cases role.isOptional with
      | true => exact iff_of_false nofun nofun
      | false => simp [eq_comm]

theorem isMissing_eq_false :
    role.isMissing supply? = false ↔ ∃ m, role.fill placeholder supply? = .ok m := by
  constructor
  · intro h
    cases hfill : role.fill placeholder supply? with
    | ok m => exact ⟨m, rfl⟩
    | error e =>
      rw [(fill_eq_error.mp hfill).1] at h
      cases h
  · rintro ⟨m, hm⟩
    rw [← Bool.not_eq_true]
    intro h
    rw [fill_eq_error.mpr ⟨h, rfl⟩] at hm
    cases hm

theorem supplyIn_eq_some {supply : Supply} :
    role.supplyIn supplied = some supply ↔ (role.name, some supply) ∈ supplied.toList := by
  rw [supplyIn, Option.join_eq_some_iff, Entries.find?_eq_some_iff]

/-- Only the keys under names of the schema count, in whatever order. -/
theorem fillAll_congr (h : ∀ role ∈ schema, ∀ supply,
    (role.name, some supply) ∈ supplied.toList ↔ (role.name, some supply) ∈ supplied'.toList) :
    fillAll schema supplied placeholder = fillAll schema supplied' placeholder := by
  apply Checked.mapM_congr
  intro role hrole
  have hsupply : role.supplyIn supplied = role.supplyIn supplied' := by
    ext supply
    rw [supplyIn_eq_some, supplyIn_eq_some]
    exact h role hrole supply
  exact congrArg (role.fill placeholder) hsupply

theorem fillAll_eq_ok : fillAll schema supplied placeholder = .ok ms ↔
    List.Forall₂ (fun role m => role.Holds placeholder (role.supplyIn supplied) m) schema ms := by
  simp only [← fill_eq_ok]
  exact Checked.mapM_eq_ok

theorem exists_fillAll : (∃ ms, fillAll schema supplied placeholder = .ok ms) ↔
    ∀ role ∈ schema, role.isMissing (role.supplyIn supplied) = false := by
  refine Checked.exists_mapM_eq_ok.trans ?_
  exact forall₂_congr fun _ _ => isMissing_eq_false.symm

theorem fillAll_eq_error : fillAll schema supplied placeholder = .error e ↔
    ∃ role, schema.find? (fun role => role.isMissing (role.supplyIn supplied)) = some role ∧
      e = .missingAccount role.name := by
  have hmissing : ∀ role : Role, role.isMissing (role.supplyIn supplied) = false ↔
      ∃ m, role.fill placeholder (role.supplyIn supplied) = .ok m := fun _ => isMissing_eq_false
  refine (Checked.mapM_eq_error hmissing).trans ?_
  constructor
  · rintro ⟨role, hrole, h⟩
    exact ⟨role, hrole, (fill_eq_error.mp h).2⟩
  · rintro ⟨role, hrole, rfl⟩
    have hrefused := List.find?_some hrole
    exact ⟨role, hrole, fill_eq_error.mpr ⟨hrefused, rfl⟩⟩

/--
Slots are filled one by one in the order of the schema, unless one is missing; then the first of
these is told. The account in a slot follows from its role, what is supplied under the name of the
role, and the placeholder. Nulls and names outside the schema do not count.
-/
theorem fillAll_slots (schema : List Role) (supplied : Entries (Option Supply)) (placeholder : Key) :
    (∀ e, fillAll schema supplied placeholder = .error e ↔
      ∃ role, schema.find? (fun role => role.isMissing (role.supplyIn supplied)) = some role ∧
        e = .missingAccount role.name) ∧
    ((∃ ms, fillAll schema supplied placeholder = .ok ms) ↔
      ∀ role ∈ schema, role.isMissing (role.supplyIn supplied) = false) ∧
    (∀ ms, fillAll schema supplied placeholder = .ok ms ↔
      List.Forall₂ (fun role m => role.Holds placeholder (role.supplyIn supplied) m) schema ms) ∧
    (∀ (role : Role) (supply? : Option Supply) (m m' : AccountMeta),
      role.Holds placeholder supply? m → role.Holds placeholder supply? m' → m = m') ∧
    ∀ supplied' : Entries (Option Supply),
      (∀ role ∈ schema, ∀ supply, (role.name, some supply) ∈ supplied.toList ↔
        (role.name, some supply) ∈ supplied'.toList) →
      fillAll schema supplied placeholder = fillAll schema supplied' placeholder :=
  ⟨fun _ => fillAll_eq_error, exists_fillAll, fun _ => fillAll_eq_ok,
    fun _ _ _ _ => Holds.unique, fun _ => fillAll_congr⟩

/-- One name twice, a flag turned off, a fallback, and a null and a foreign name that do not count. -/
theorem fillAll_slots_shared :
    let k : Key := ⟨List.replicate 32 7, rfl⟩
    let schema : List Role := [
      { name := "payer", isWritable := true, isSigner := true },
      { name := "record", isWritable := true, isOptional := true },
      { name := "program", isWritable := true, fallback := some Program.system },
      { name := "payer" }]
    let missing : List Role := schema ++ [{ name := "mint", isSigner := true }, { name := "owner" }]
    let supplied : Entries (Option Supply) := .ofList [("payer", some ⟨k, some false⟩)]
    let supplied' : Entries (Option Supply) :=
      .ofList [("record", none), ("metadata", some ⟨k, none⟩), ("payer", some ⟨k, some false⟩)]
    (∀ role ∈ schema, ∀ supply, (role.name, some supply) ∈ supplied.toList ↔
      (role.name, some supply) ∈ supplied'.toList) ∧
    fillAll schema supplied .zero = .ok [⟨k, false, true⟩, ⟨.zero, false, false⟩,
      ⟨Program.system, false, true⟩, ⟨k, false, false⟩] ∧
    fillAll schema supplied .zero = fillAll schema supplied' .zero ∧
    fillAll missing supplied .zero = .error (.missingAccount "mint") := by
  intro k schema missing supplied supplied'
  obtain ⟨-, -, hfilled, -, hcongr⟩ := fillAll_slots schema supplied .zero
  have hlist : supplied.toList = [("payer", some ⟨k, some false⟩)] := rfl
  have hlist' : supplied'.toList =
    [("record", none), ("metadata", some ⟨k, none⟩), ("payer", some ⟨k, some false⟩)] := rfl
  have hsame : ∀ role ∈ schema, ∀ supply, (role.name, some supply) ∈ supplied.toList ↔
      (role.name, some supply) ∈ supplied'.toList := by
    rw [hlist, hlist']
    simp [schema]
  refine ⟨hsame, (hfilled _).mpr ?_, hcongr supplied' hsame, ?_⟩
  · exact .cons (.flagged k false) (.cons (.bare rfl rfl) (.cons (.fallback rfl)
      (.cons (.flagged k false) .nil)))
  · exact ((fillAll_slots missing supplied .zero).1 _).mpr ⟨_, rfl, rfl⟩

end TokenWire.Role
