import TokenWire.Layout.Codec

/-! Values made by the views of typed data are read back by them. -/

namespace TokenWire.Value

variable {α : Type} {f : α → Value} {g : Value → Except Error α}

theorem asOption_optional (habsent : ∀ a, f a ≠ .absent) (h : ∀ a, g (f a) = .ok a)
    (a? : Option α) : asOption g (optional f a?) = .ok a? := by
  cases a? with
  | none => rfl
  | some a =>
    rw [optional, asOption]
    · rw [h]
      rfl
    · exact habsent a

/-- Optional data that is read back with some change is so as a whole. -/
theorem asOption_optional_map (habsent : ∀ a, f a ≠ .absent) {stored : α → α} {a? : Option α}
    (h : ∀ a ∈ a?, g (f a) = .ok (stored a)) :
    asOption g (optional f a?) = .ok (a?.map stored) := by
  cases a? with
  | none => rfl
  | some a =>
    rw [optional, asOption]
    · rw [h a rfl]
      rfl
    · exact habsent a

theorem asOption_key (k? : Option Key) : asOption asKey (optional .key k?) = .ok k? := by
  cases k? <;> rfl

theorem asOption_int (n? : Option Int) : asOption asInt (optional .int n?) = .ok n? := by
  cases n? <;> rfl

theorem asOption_bool (b? : Option Bool) : asOption asBool (optional .bool b?) = .ok b? := by
  cases b? <;> rfl

theorem asList_list (h : ∀ a, g (f a) = .ok a) (as : List α) : asList g (list f as) = .ok as := by
  rw [list, asList]
  induction as with
  | nil => rfl
  | cons a as ih => rw [List.map_cons, List.mapM_cons, h, ih]; rfl

theorem exists_list {vs : List Value} (h : ∀ v ∈ vs, ∃ a, f a = v) : ∃ as, list f as = .seq vs := by
  induction vs with
  | nil => exact ⟨[], rfl⟩
  | cons v vs ih =>
    obtain ⟨a, rfl⟩ := h v List.mem_cons_self
    obtain ⟨as, has⟩ := ih fun w hw => h w (List.mem_cons_of_mem _ hw)
    refine ⟨a :: as, ?_⟩
    rw [list, List.map_cons, ← Value.seq.inj has]

end TokenWire.Value
