import TokenWire.Event
import TokenWire.Proofs.Checked

/-! Computations that report events: what they come to step by step, and what their results are. -/

namespace TokenWire.Logged

variable {α β : Type}

@[simp] theorem result_ofExcept (r : Except Error α) : (ofExcept r).result = r := rfl

@[simp] theorem result_emit (e : Event) : (emit e).result = .ok () := rfl

@[simp] theorem result_pure (a : α) : (pure a : Logged α).result = .ok a := rfl

@[simp] theorem result_bind (x : Logged α) (f : α → Logged β) :
    (x >>= f).result = x.result >>= fun a => (f a).result := by
  change (bind x f).result = _
  unfold bind
  cases x.result with
  | ok a => rfl
  | error e => rfl

theorem bind_of_ok {x : Logged α} {f : α → Logged β} {events : List Event} {a : α}
    (h : x = ⟨events, .ok a⟩) : x >>= f = ⟨events ++ (f a).events, (f a).result⟩ := by
  subst h
  rfl

theorem bind_of_error {x : Logged α} {f : α → Logged β} {events : List Event} {e : Error}
    (h : x = ⟨events, .error e⟩) : x >>= f = ⟨events, .error e⟩ := by
  subst h
  rfl

/-- A step that reports nothing leaves nothing reported if nothing after it does. -/
theorem events_ofExcept_bind {r : Except Error α} {f : α → Logged β} (h : ∀ a, (f a).events = []) :
    (ofExcept r >>= f).events = [] := by
  cases r with
  | ok a => exact h a
  | error e => rfl

theorem forM_cons (f : α → Logged Unit) (a : α) (as : List α) :
    (a :: as).forM f = f a >>= fun _ => as.forM f := rfl

end TokenWire.Logged
