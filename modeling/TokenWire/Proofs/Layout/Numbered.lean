import TokenWire.Proofs.Layout.RoundTrip
import TokenWire.Proofs.Layout.Writable

/-! Layouts that tell the members of an enumeration apart by their numbers. -/

namespace TokenWire.Layout

variable {α β : Type} [Enumeration α] {selector : Selector} {f : α → Layout}

/-- The number of a member, and its arguments. -/
def numbered (selector : Selector) (f : α → Layout) : Layout :=
  .tagged selector ((Enumeration.all : List α).map fun a => (Enumeration.tag a, f a))

theorem lookup_map_tag (f : α → Layout) (as : List α) (n : Nat) :
    (as.map fun a => (Enumeration.tag a, f a)).lookup n =
      (as.find? (Enumeration.tag · == n)).map f := by
  induction as with
  | nil => rfl
  | cons a as ih =>
    rw [List.map_cons, List.lookup_cons, List.find?_cons, ih, Bool.beq_comm]
    cases Enumeration.tag a == n <;> rfl

theorem lookup_tag {a : α} (ha : Enumeration.ofTag? (Enumeration.tag a) = some a) :
    ((Enumeration.all : List α).map fun a => (Enumeration.tag a, f a)).lookup (Enumeration.tag a) =
      some (f a) := by
  rw [lookup_map_tag]
  exact congrArg (Option.map f) ha

theorem writable_numbered {a : α} {v : Value}
    (ha : Enumeration.ofTag? (Enumeration.tag a) = some a)
    (htag : Enumeration.tag a < capacity selector.width) :
    (numbered selector f).Writable (.variant (Enumeration.tag a) v) ↔ (f a).Writable v :=
  writable_known htag (lookup_tag ha)

theorem shaped_numbered {v : Value} (h : Shaped (numbered selector f) v) :
    ∃ tag body, v = .variant tag body ∧
      ((∃ a : α, Enumeration.ofTag? tag = some a ∧ Shaped (f a) body) ∨
        (Enumeration.ofTag? tag : Option α) = none ∧ body = .absent) := by
  cases h with
  | @known _ _ tag arm body harm hbody =>
    rw [lookup_map_tag, Option.map_eq_some_iff] at harm
    obtain ⟨a, ha, rfl⟩ := harm
    exact ⟨tag, body, rfl, Or.inl ⟨a, ha, hbody⟩⟩
  | @unknown _ _ tag harm _ =>
    rw [lookup_map_tag, Option.map_eq_none_iff] at harm
    exact ⟨tag, .absent, rfl, Or.inr ⟨harm, rfl⟩⟩

/-- The member that data holds, made from its arguments; a number of none is an error of its own. -/
def decodeNumbered (selector : Selector) (f : α → Layout) (dialect : Dialect)
    (ofArgs : α → Value → Except Error β) (data : Bytes) : Except Error β := do
  match ← (numbered selector f).parse data with
  | .variant tag args =>
    match (Enumeration.ofTag? tag : Option α) with
    | some a => ofArgs a args
    | none => .error (.unknownInstruction dialect tag)
  | _ => .error .wrongShape

theorem decodeNumbered_eq_error {dialect : Dialect} {ofArgs : α → Value → Except Error β}
    (hargs : ∀ a v, Shaped (f a) v → ∃ b, ofArgs a v = .ok b) {data : Bytes} {e : Error} :
    decodeNumbered selector f dialect ofArgs data = .error e ↔
      (numbered selector f).parse data = .error e ∨
      ∃ tag, (numbered selector f).parse data = .ok (.variant tag .absent) ∧
        (Enumeration.ofTag? tag : Option α) = none ∧ e = .unknownInstruction dialect tag := by
  rw [decodeNumbered, Checked.bind_eq_error]
  refine or_congr_right ⟨?_, ?_⟩
  · rintro ⟨v, hv, he⟩
    obtain ⟨tag, body, rfl, ⟨a, ha, hbody⟩ | ⟨ha, rfl⟩⟩ :=
      shaped_numbered (parse_eq_ok_iff_payload.mp hv).shaped
    · obtain ⟨b, hb⟩ := hargs a body hbody
      simp [ha, hb] at he
    · simp only [ha] at he
      cases he
      exact ⟨tag, hv, ha, rfl⟩
  · rintro ⟨tag, hv, ha, rfl⟩
    exact ⟨_, hv, by simp [ha]⟩

/-- What is written of a member, with arguments that are read back as they are, is read as it. -/
theorem decodeNumbered_of_write {dialect : Dialect} {ofArgs : α → Value → Except Error β} {a : α}
    {v : Value} {b : β} {data : Bytes} (ha : Enumeration.ofTag? (Enumeration.tag a) = some a)
    (hv : Shaped (f a) v) (hread : (f a).normalize v = v) (hb : ofArgs a v = .ok b)
    (h : (numbered selector f).write (.variant (Enumeration.tag a) v) = .ok data) :
    decodeNumbered selector f dialect ofArgs data = .ok b := by
  have harm := lookup_tag (f := f) ha
  have hparse := Shaped.parse_eq (.known harm hv) h
  rw [normalize_known harm, hread] at hparse
  rw [decodeNumbered, Checked.bind_eq_ok]
  exact ⟨_, hparse, by simp only [ha, hb]⟩

end TokenWire.Layout
