import TokenWire.Proofs.Instruction
import TokenWire.Proofs.Layout.Writable
import TokenWire.Proofs.Traversal

/-!
Computations that fail in one way only, by a number or a count out of range, and the exact condition
under which they do not.
-/

namespace TokenWire

/-- The result is there if the condition holds, and else a number or a count is out of range. -/
def FailsUnless {α : Type} (r : Except Error α) (p : Prop) : Prop :=
  (p → ∃ a, r = .ok a) ∧ (¬ p → r = .error (.unencodable .outOfRange))

namespace FailsUnless

variable {α β : Type} {r : Except Error α} {p q : Prop}

theorem ok (a : α) : FailsUnless (.ok a) True :=
  ⟨fun _ => ⟨a, rfl⟩, fun h => absurd trivial h⟩

theorem congr (h : FailsUnless r p) (hpq : p ↔ q) : FailsUnless r q :=
  ⟨fun hq => h.1 (hpq.mpr hq), fun hq => h.2 fun hp => hq (hpq.mp hp)⟩

theorem exists_ok_iff (h : FailsUnless r p) : (∃ a, r = .ok a) ↔ p := by
  refine ⟨?_, h.1⟩
  rintro ⟨a, ha⟩
  by_contra hp
  rw [h.2 hp] at ha
  cases ha

theorem eq_error_iff (h : FailsUnless r p) {e : Error} :
    r = .error e ↔ ¬ p ∧ e = .unencodable .outOfRange := by
  constructor
  · intro he
    have hp : ¬ p := by
      intro hp
      obtain ⟨a, ha⟩ := h.1 hp
      rw [he] at ha
      cases ha
    have herror := h.2 hp
    rw [he] at herror
    exact ⟨hp, Except.error.inj herror⟩
  · rintro ⟨hp, rfl⟩
    exact h.2 hp

theorem exists_error_iff (h : FailsUnless r p) : (∃ e, r = .error e) ↔ ¬ p := by
  simp only [h.eq_error_iff]
  exact ⟨fun ⟨_, hp, _⟩ => hp, fun hp => ⟨_, hp, rfl⟩⟩

/-- Both steps have to succeed; which of them fails does not show. -/
theorem bind {f : α → Except Error β} (h : FailsUnless r p)
    (hf : ∀ a, r = .ok a → FailsUnless (f a) q) : FailsUnless (r >>= f) (p ∧ q) := by
  by_cases hp : p
  · obtain ⟨a, rfl⟩ := h.1 hp
    exact (hf a rfl).congr (and_iff_right hp).symm
  · have herror := h.2 hp
    subst herror
    exact ⟨fun hpq => absurd hpq.1 hp, fun _ => rfl⟩

theorem map (h : FailsUnless r p) (f : α → β) : FailsUnless (r >>= fun a => pure (f a)) p :=
  (h.bind fun a _ => ok (f a)).congr (and_iff_left trivial)

theorem mapM {f : α → Except Error β} {p : α → Prop} (h : ∀ a, FailsUnless (f a) (p a))
    (as : List α) : FailsUnless (as.mapM f) (∀ a ∈ as, p a) := by
  have hok : (∃ bs, as.mapM f = .ok bs) ↔ ∀ a ∈ as, p a := by
    rw [Checked.exists_mapM_eq_ok]
    exact forall₂_congr fun a _ => (h a).exists_ok_iff
  refine ⟨hok.mpr, ?_⟩
  intro hp
  cases hr : as.mapM f with
  | ok bs => exact absurd (hok.mp ⟨bs, hr⟩) hp
  | error e =>
    obtain ⟨a, -, ha⟩ := Checked.exists_of_mapM_eq_error hr
    rw [((h a).eq_error_iff.mp ha).2]

theorem write {layout : Layout} {v : Value} (hv : layout.Shaped v)
    (hl : layout.everywhere Layout.unfixed) : FailsUnless (layout.write v) (layout.Writable v) := by
  refine ⟨Layout.writable_iff_write.mp, ?_⟩
  intro hw
  exact (hv.write_eq_error hl).mpr ⟨hw, rfl⟩

end FailsUnless
end TokenWire
