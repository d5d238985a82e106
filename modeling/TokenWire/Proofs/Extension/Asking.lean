import TokenWire.Proofs.Extension.Fields
import TokenWire.Proofs.Extension.Request

/-! For which extensions a request asks, and in which order: that in which its names come. -/

namespace TokenWire.Extension

namespace Fields

variable {f : Fields} {name : String}

theorem asks_nonTransferable (f : Fields) : f.asks "non_transferable" = f.nonTransferable := by
  change (if f.nonTransferable then some Descriptor.nonTransferable else none).isSome = _
  cases f.nonTransferable <;> rfl

theorem asks_of_ne (hname : name ≠ "non_transferable") (b : Bool) (order : List String) :
    { f with nonTransferable := b, order := order }.asks name = f.asks name := by
  unfold asks descriptor?
  split <;> first | rfl | exact absurd rfl hname

end Fields

namespace Item

variable {item : Item}

theorem isSome_asKey? {k? : Option Key} (h : item.asKey? = .ok k?) : k?.isSome = item.isGiven := by
  cases item with
  | null =>
    cases h
    rfl
  | text s =>
    obtain ⟨k, hk, rfl⟩ := Checked.map_eq_ok.mp h
    have hs : s ≠ "" := by
      rintro rfl
      have hempty : Key.parse "" = .error (.badKey .wrongSize) := by decide +kernel
      rw [hempty] at hk
      cases hk
    simp [isGiven, hs]
  | _ => cases h

theorem isSome_section? {entries? : Option Section} (h : item.section? = .ok entries?) :
    entries?.isSome = item.isGiven := by
  have hother : ∀ given : Bool, (if given then .error .wrongShape else .ok none : Except Error
      (Option Section)) = .ok entries? → entries?.isSome = given := by
    intro given hgiven
    cases given <;> cases hgiven
    rfl
  cases item with
  | object entries =>
    cases h
    cases entries <;> rfl
  | _ => exact hother _ h

end Item

namespace Request

variable {r : Request} {f : Fields} {name : String}

theorem canonicalName_of_ne (h : name ≠ "non_transferrable") : canonicalName name = name :=
  if_neg h

theorem isSome_section? {α : Type} {read : Section → Except Error α} {a? : Option α}
    (h : r.section? name read = .ok a?) : a?.isSome = (r.entry name).isGiven := by
  obtain ⟨entries?, hentries, ha⟩ := Checked.bind_eq_ok.mp h
  change (r.entry name).section? = .ok entries? at hentries
  rw [← Item.isSome_section? hentries]
  cases entries? with
  | none =>
    cases ha
    rfl
  | some entries =>
    obtain ⟨a, -, rfl⟩ := Checked.map_eq_ok.mp ha
    rfl

/-- Whether an extension is asked for shows in its entry, apart from the one with two spellings. -/
theorem asks_eq_isGiven (hf : r.fields = .ok f) (hname : name ∈ fieldNames)
    (hne : name ≠ "non_transferable") : f.asks name = (r.entry name).isGiven := by
  obtain ⟨v, hv, rfl⟩ := fields_eq_ok.mp hf
  rw [Fields.asks_of_ne hne]
  simp only [values, Checked.bind_eq_ok] at hv
  obtain ⟨m, hm, c, hc, d, hd, t, ht, i, hi, k, hk, hv⟩ := hv
  cases hv
  simp only [fieldNames, List.mem_cons, List.not_mem_nil, or_false] at hname
  rcases hname with rfl | rfl | rfl | rfl | rfl | rfl | rfl
  · rw [← isSome_section? hm]
    exact Option.isSome_map
  · rw [← Item.isSome_asKey? hc]
    exact Option.isSome_map
  · rw [← Item.isSome_asKey? hd]
    exact Option.isSome_map
  · exact absurd rfl hne
  · rw [← isSome_section? ht]
    exact Option.isSome_map
  · rw [← isSome_section? hi]
    exact Option.isSome_map
  · rw [← isSome_section? hk]
    exact Option.isSome_map

theorem nonTransferable_mem (h : r.nonTransferable.isGiven) :
    ("non_transferable", r.nonTransferable) ∈ r.toList ∨
      ("non_transferrable", r.nonTransferable) ∈ r.toList := by
  unfold nonTransferable at h ⊢
  cases hfirst : r.find? "non_transferable" with
  | some item => exact Or.inl (Entries.find?_eq_some_iff.mp hfirst)
  | none =>
    rw [hfirst] at h
    cases hsecond : r.find? "non_transferrable" with
    | some item => exact Or.inr (Entries.find?_eq_some_iff.mp hsecond)
    | none =>
      rw [hsecond] at h
      cases h

theorem asks_nonTransferable_iff (hf : r.fields = .ok f) {item : Item}
    (hmem : ("non_transferable", item) ∈ r.toList) :
    f.asks "non_transferable" ↔ item.isGiven := by
  obtain ⟨v, -, rfl⟩ := fields_eq_ok.mp hf
  rw [Fields.asks_nonTransferable]
  unfold nonTransferable
  rw [Entries.find?_eq_some_iff.mpr hmem]
  rfl

/-- What is asked for is given under its name, or under its second spelling. -/
theorem exists_key_of_asks (hf : r.fields = .ok f) (h : f.asks name) :
    ∃ x ∈ r.toList, canonicalName x.1 = name := by
  have hname := Fields.mem_fieldNames h
  by_cases hfirst : name = "non_transferable"
  · subst hfirst
    obtain ⟨v, -, rfl⟩ := fields_eq_ok.mp hf
    rw [Fields.asks_nonTransferable] at h
    obtain hfirst | hsecond := nonTransferable_mem h
    · exact ⟨_, hfirst, rfl⟩
    · exact ⟨_, hsecond, rfl⟩
  · rw [asks_eq_isGiven hf hname hfirst, entry] at h
    cases hfind : r.find? name with
    | none =>
      rw [hfind] at h
      cases h
    | some item =>
      refine ⟨_, Entries.find?_eq_some_iff.mp hfind, canonicalName_of_ne ?_⟩
      rintro rfl
      exact absurd hname (by decide)

/-- The names under which entries ask for extensions, in order and with repetitions. -/
def askedKeys (f : Fields) (xs : Section) : List String :=
  (xs.map fun x => canonicalName x.1).filter f.asks

theorem askedKeys_append (f : Fields) (xs ys : Section) :
    askedKeys f (xs ++ ys) = askedKeys f xs ++ askedKeys f ys := by
  rw [askedKeys, List.map_append, List.filter_append]
  rfl

theorem askedKeys_cons_of_asks {item : Item} {xs : Section} (h : f.asks (canonicalName name)) :
    askedKeys f ((name, item) :: xs) = canonicalName name :: askedKeys f xs :=
  List.filter_cons_of_pos h

theorem askedKeys_cons_of_not {item : Item} {xs : Section} (h : ¬ f.asks (canonicalName name)) :
    askedKeys f ((name, item) :: xs) = askedKeys f xs :=
  List.filter_cons_of_neg h

/-- Entries without the second spelling ask by their own names. -/
theorem askedKeys_of_notMem {xs : Section} (h : "non_transferrable" ∉ xs.map Prod.fst) :
    askedKeys f xs = (xs.map Prod.fst).filter f.asks := by
  rw [askedKeys]
  congr 1
  apply List.map_congr_left
  rintro x hx
  apply canonicalName_of_ne
  rintro he
  exact h (List.mem_map.mpr ⟨x, hx, he⟩)

theorem askedNames_eq (hf : r.fields = .ok f) :
    f.askedNames = (askedKeys f r.toList).eraseDups := by
  have horder : f.order.filter f.asks = (askedKeys f r.toList).eraseDups := by
    obtain ⟨v, -, rfl⟩ := fields_eq_ok.mp hf
    change (((r.toList.map Prod.fst).map canonicalName).eraseDups.filter _).filter _ = _
    rw [askedKeys, List.filter_filter, eraseDups_filter, List.map_map]
    apply List.filter_congr
    intro name _
    cases hasks : Fields.asks _ name with
    | false => rfl
    | true => simp [Fields.mem_fieldNames hasks]
  have hrest : fieldNames.filter f.asks ⊆ (askedKeys f r.toList).eraseDups := by
    intro name hmem
    have hasks := (List.mem_filter.mp hmem).2
    obtain ⟨x, hx, hkey⟩ := exists_key_of_asks hf hasks
    rw [List.mem_eraseDups]
    exact List.mem_filter.mpr ⟨List.mem_map.mpr ⟨x, hx, hkey⟩, hasks⟩
  rw [Fields.askedNames, ← eraseDups_filter, List.filter_append, horder,
    eraseDups_append_of_subset hrest, eraseDups_of_nodup (nodup_eraseDups _)]

end Request
end TokenWire.Extension
