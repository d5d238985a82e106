import Mathlib.Data.List.Forall2
import TokenWire.Proofs.Checked

/-! Checked computations over a list: they succeed as a whole when they succeed on each item. -/

namespace TokenWire.Checked

variable {ε α β : Type} {f : α → Except ε β}

theorem mapM_eq_ok {as : List α} {bs : List β} :
    as.mapM f = .ok bs ↔ List.Forall₂ (fun a b => f a = .ok b) as bs := by
  induction as generalizing bs with
  | nil =>
    rw [List.mapM_nil, List.forall₂_nil_left_iff]
    exact ⟨fun h => (Except.ok.inj h).symm, fun h => h ▸ rfl⟩
  | cons a as ih =>
    rw [List.mapM_cons, bind_eq_ok]
    constructor
    · rintro ⟨b, hb, h⟩
      obtain ⟨bs, hbs, h⟩ := bind_eq_ok.mp h
      cases h
      exact .cons hb (ih.mp hbs)
    · rintro ⟨⟩
      rename_i b bs hb hbs
      exact ⟨b, hb, bind_eq_ok.mpr ⟨bs, ih.mpr hbs, rfl⟩⟩

theorem mapM_congr {g : α → Except ε β} {as : List α} (h : ∀ a ∈ as, f a = g a) :
    as.mapM f = as.mapM g := by
  induction as with
  | nil => rfl
  | cons a as ih =>
    obtain ⟨ha, has⟩ := List.forall_mem_cons.mp h
    rw [List.mapM_cons, List.mapM_cons, ha, ih has]

theorem exists_mapM_eq_ok {as : List α} :
    (∃ bs, as.mapM f = .ok bs) ↔ ∀ a ∈ as, ∃ b, f a = .ok b := by
  induction as with
  | nil => exact iff_of_true ⟨[], rfl⟩ nofun
  | cons a as ih =>
    rw [List.forall_mem_cons, ← ih, List.mapM_cons]
    simp only [bind_eq_ok]
    constructor
    · rintro ⟨_, b, hb, bs, hbs, -⟩
      exact ⟨⟨b, hb⟩, ⟨bs, hbs⟩⟩
    · rintro ⟨⟨b, hb⟩, ⟨bs, hbs⟩⟩
      exact ⟨b :: bs, b, hb, bs, hbs, rfl⟩

/-- A traversal fails as the first of its items that does. -/
theorem mapM_eq_error {fails : α → Bool} (hfails : ∀ a, fails a = false ↔ ∃ b, f a = .ok b)
    {as : List α} {e : ε} :
    as.mapM f = .error e ↔ ∃ a, as.find? fails = some a ∧ f a = .error e := by
  induction as with
  | nil => exact iff_of_false nofun nofun
  | cons a as ih =>
    rw [List.mapM_cons, bind_eq_error]
    cases ha : fails a with
    | true =>
      have hfirst : ¬ ∃ b, f a = .ok b := fun h => by
        rw [(hfails a).mpr h] at ha
        cases ha
      rw [List.find?_cons_of_pos ha, or_iff_left fun ⟨b, hb, _⟩ => hfirst ⟨b, hb⟩]
      simp
    | false =>
      obtain ⟨b, hb⟩ := (hfails a).mp ha
      rw [List.find?_cons_of_neg (by simp [ha]), ← ih, hb]
      constructor
      · intro h
        obtain ⟨_, -, h⟩ := h.resolve_left nofun
        exact (bind_eq_error.mp h).resolve_right fun ⟨_, _, h⟩ => nomatch h
      · intro h
        exact Or.inr ⟨b, rfl, bind_eq_error.mpr (Or.inl h)⟩

/-- A traversal fails as one of its items does. -/
theorem exists_of_mapM_eq_error {as : List α} {e : ε} (h : as.mapM f = .error e) :
    ∃ a ∈ as, f a = .error e := by
  have hfails : ∀ a, (!(f a).isOk) = false ↔ ∃ b, f a = .ok b := by
    intro a
    cases f a with
    | error e => exact iff_of_false nofun nofun
    | ok b => exact iff_of_true rfl ⟨b, rfl⟩
  obtain ⟨a, ha, he⟩ := (mapM_eq_error hfails).mp h
  exact ⟨a, List.mem_of_find?_eq_some ha, he⟩

/-- One function gives all results of a traversal. -/
theorem map_getD_eq {as : List α} {bs : List β} (b₀ : β)
    (h : List.Forall₂ (fun a b => f a = .ok b) as bs) :
    as.map (fun a => (f a).toOption.getD b₀) = bs := by
  induction h with
  | nil => rfl
  | cons hb _ ih => rw [List.map_cons, ih, hb]; rfl

end TokenWire.Checked
