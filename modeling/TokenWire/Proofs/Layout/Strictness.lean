import TokenWire.Proofs.Layout.Parts
import TokenWire.Toggle

/-! An accepted payload grown by a byte is refused, and so is every piece of it that ends early. -/

namespace TokenWire.Layout

open Reader

theorem readItems_strict {items : List Layout} (h : ∀ item ∈ items, item.read.Strict) :
    (readItems items).Strict := by
  induction items with
  | nil => exact readItems_nil ▸ strict_done []
  | cons item items ih =>
    rw [readItems_cons]
    have hitems := ih fun i hi => h i (List.mem_cons_of_mem _ hi)
    exact (h item List.mem_cons_self).andThen fun _ => hitems.andThen fun _ => strict_done _

theorem read_tuple_strict {items : List Layout} (h : ∀ item ∈ items, item.read.Strict) :
    (tuple items).read.Strict := by
  rw [read_tuple]
  exact (readItems_strict h).andThen fun _ => strict_done _

theorem readText_strict (body : Bytes) : (readText body).Strict := by
  unfold readText
  split
  · exact strict_done _
  · exact strict_refuse _

theorem readBody_strict {arms : List (Nat × Layout)} (h : ∀ arm ∈ arms, arm.2.read.Strict)
    (selector : Selector) (tag : Nat) : (readBody selector arms tag).Strict := by
  unfold readBody
  split
  · rename_i arm harm
    obtain ⟨t, ht⟩ := exists_mem_of_lookup harm
    exact h _ ht
  · split
    · exact strict_refuse _
    · exact strict_done _

/-- What is read decides the path of the reading before the bytes of each next part. -/
theorem read_strict (layout : Layout) : layout.read.Strict := by
  induction layout with
  | uint width => exact read_uint width ▸ (readNat_strict width).andThen fun _ => strict_done _
  | sint width => exact read_sint width ▸ (readNat_strict width).andThen fun _ => strict_done _
  | bool => exact read_bool ▸ readFlag_strict.andThen fun _ => strict_done _
  | bytes width =>
    exact read_bytes width ▸ (readCounted_strict width).andThen fun _ => strict_done _
  | text width => exact read_text width ▸ (readCounted_strict width).andThen readText_strict
  | key => exact read_key ▸ readKey_strict.andThen fun _ => strict_done _
  | sentinelKey => exact read_sentinelKey ▸ readKey_strict.andThen fun _ => strict_done _
  | fixed length =>
    exact read_fixed length ▸ (readBytes_strict length).andThen fun _ => strict_done _
  | unit => exact read_unit ▸ strict_done _
  | option item ih =>
    rw [read_option]
    apply readFlag_strict.andThen
    intro present
    cases present with
    | false => exact strict_done _
    | true => exact ih
  | vec item ih =>
    rw [read_vec]
    apply (readNat_strict countWidth).andThen
    intro n
    apply read_tuple_strict
    intro i hi
    rwa [List.eq_of_mem_replicate hi]
  | tuple items ih => exact read_tuple_strict ih
  | struct fields ih =>
    rw [read_struct]
    apply read_tuple_strict
    intro item hi
    obtain ⟨field, hf, rfl⟩ := List.mem_map.mp hi
    exact ih field hf
  | tagged selector arms ih =>
    rw [read_tagged]
    exact (readNat_strict selector.width).andThen fun tag =>
      (readBody_strict ih selector tag).andThen fun _ => strict_done _

/--
An accepted payload is refused as soon as a byte is added or taken off at its end, and the refusal
tells which of the two it is. So no accepted payload starts another one.
-/
theorem parse_strict {layout : Layout} {data : Bytes} {v : Value}
    (h : layout.parse data = .ok v) :
    (∀ more, more ≠ [] → layout.parse (data ++ more) =
      .error (.malformed .leftover (data.length + more.length))) ∧
    (∀ piece more, data = piece ++ more → more ≠ [] → layout.parse piece =
      .error (.malformed .endOfData piece.length)) ∧
    ∀ more w, layout.parse (data ++ more) = .ok w → more = [] := by
  obtain ⟨front, hfront, htakes, hshort⟩ := read_strict layout _ _ _ (parse_eq_ok.mp h)
  rw [List.append_nil] at hfront
  subst hfront
  have hgrown : ∀ more, more ≠ [] → layout.parse (data ++ more) =
      .error (.malformed .leftover (data.length + more.length)) := by
    intro more hmore
    refine parse_eq_error.mpr ⟨.leftover, decode_eq_error.mpr (Or.inr ?_), ?_⟩
    · exact ⟨rfl, v, more, hmore, htakes more⟩
    · rw [List.length_append]
  refine ⟨hgrown, ?_, ?_⟩
  · intro piece more he hmore
    have hcut := hshort piece more he hmore
    exact parse_eq_error.mpr ⟨.endOfData, decode_eq_error.mpr (Or.inl hcut), rfl⟩
  · intro more w hw
    cases more with
    | nil => rfl
    | cons b more =>
      rw [hgrown (b :: more) (List.cons_ne_nil b more)] at hw
      cases hw

/-- A toggle set to one text of two bytes, then with a byte more, and cut inside the text. -/
theorem parse_strict_toggle :
    (Toggle.layout (.vec .string)).parse [2, 1, 0, 0, 0, 2, 0, 0, 0, 195, 169] =
      .ok (.variant 2 (.seq [.text "é"])) ∧
    (Toggle.layout (.vec .string)).parse [2, 1, 0, 0, 0, 2, 0, 0, 0, 195, 169, 7] =
      .error (.malformed .leftover 12) ∧
    (Toggle.layout (.vec .string)).parse [2, 1, 0, 0, 0, 2, 0, 0, 0, 195] =
      .error (.malformed .endOfData 10) := by
  have h : (Toggle.layout (.vec .string)).parse [2, 1, 0, 0, 0, 2, 0, 0, 0, 195, 169] =
      .ok (.variant 2 (.seq [.text "é"])) := rfl
  have hs := parse_strict h
  exact ⟨h, hs.1 [7] (List.cons_ne_nil _ _), hs.2.1 _ [169] rfl (List.cons_ne_nil _ _)⟩

end TokenWire.Layout
