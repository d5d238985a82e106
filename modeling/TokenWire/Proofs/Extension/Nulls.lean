import TokenWire.Proofs.Extension.Asking

/-! Requests with null entries: when leaving the nulls out changes what is asked for. -/

namespace TokenWire.Extension

/-- Whether an item is null. -/
def Item.isNull : Item → Bool
  | null => true
  | _ => false

theorem Item.eq_null_of_isNull {item : Item} (h : item.isNull) : item = .null := by
  cases item <;> first | rfl | cases h

namespace Request

variable {r : Request} {f f' : Fields} {name : String}

/-- A request without its null entries. -/
def withoutNulls (r : Request) : Request where
  toList := r.toList.filter fun x => !x.2.isNull
  nodup_names := r.nodup_names.sublist (List.filter_sublist.map _)

theorem find?_withoutNulls (r : Request) (name : String) :
    r.withoutNulls.find? name = (r.find? name).filter fun item => !item.isNull := by
  ext item
  rw [Entries.find?_eq_some_iff, Option.filter_eq_some_iff, Entries.find?_eq_some_iff]
  exact List.mem_filter

theorem entry_withoutNulls (r : Request) (name : String) :
    r.withoutNulls.entry name = r.entry name := by
  rw [entry, entry, find?_withoutNulls]
  cases r.find? name with
  | none => rfl
  | some item => cases item <;> rfl

theorem values_withoutNulls (r : Request) : r.withoutNulls.values = r.values :=
  values_congr fun name => r.entry_withoutNulls name ▸ .refl _

/-- A null under the first spelling hides what is given under the second. -/
def NullHides (r : Request) : Prop :=
  r.find? "non_transferable" = some .null ∧ (r.entry "non_transferrable").isGiven

/-- A null under the second spelling stands before what is given under the first, and these entries
are in between. -/
def NullBefore (r : Request) (ys : Section) : Prop :=
  ∃ xs zs item, r.toList =
    xs ++ ("non_transferrable", .null) :: (ys ++ ("non_transferable", item) :: zs) ∧ item.isGiven

/-- A null under the second spelling moves what is given under the first before another extension. -/
def NullMoves (r : Request) (f : Fields) : Prop :=
  ∃ ys, r.NullBefore ys ∧ ∃ x ∈ ys, f.asks x.1

theorem isGiven_withoutNulls_iff :
    r.nonTransferable.isGiven = r.withoutNulls.nonTransferable.isGiven ↔ ¬ r.NullHides := by
  change ((r.find? _).getD (r.entry _)).isGiven =
    ((r.withoutNulls.find? _).getD (r.withoutNulls.entry _)).isGiven ↔ _
  rw [find?_withoutNulls, entry_withoutNulls, NullHides]
  cases r.find? "non_transferable" with
  | none => simp
  | some item =>
    cases hnull : item.isNull with
    | true =>
      rw [Item.eq_null_of_isNull hnull]
      change false = (r.entry "non_transferrable").isGiven ↔ _
      rw [eq_comm]
      simp
    | false =>
      have hne : item ≠ .null := by
        rintro rfl
        cases hnull
      simp [Option.filter, hnull, hne]

theorem not_asks_of_null (hf : r.fields = .ok f) (hmem : (name, .null) ∈ r.toList)
    (hname : name ≠ "non_transferrable") : ¬ f.asks (canonicalName name) := by
  rw [canonicalName_of_ne hname]
  intro h
  by_cases hfirst : name = "non_transferable"
  · subst hfirst
    have hgiven := (asks_nonTransferable_iff hf hmem).mp h
    cases hgiven
  · rw [asks_eq_isGiven hf (Fields.mem_fieldNames h) hfirst, entry,
      Entries.find?_eq_some_iff.mpr hmem] at h
    cases h

/-- Of the null entries, only one under the second spelling can ask for an extension. -/
theorem askedKeys_filter (hf : r.fields = .ok f) {xs : Section} (hxs : xs ⊆ r.toList)
    (hnull : ("non_transferrable", .null) ∉ xs) :
    askedKeys f (xs.filter fun x => !x.2.isNull) = askedKeys f xs := by
  induction xs with
  | nil => rfl
  | cons x xs ih =>
    obtain ⟨name, item⟩ := x
    obtain ⟨hx, hxs⟩ := List.cons_subset.mp hxs
    rw [List.mem_cons, not_or] at hnull
    cases hitem : item.isNull with
    | true =>
      have hnot : ¬ f.asks (canonicalName name) := by
        rw [Item.eq_null_of_isNull hitem] at hx hnull
        exact not_asks_of_null hf hx fun e => hnull.1 (by rw [e])
      rw [List.filter_cons_of_neg (by simp [hitem]), ih hxs hnull.2]
      exact (List.filter_cons_of_neg hnot).symm
    | false =>
      rw [List.filter_cons_of_pos (by simp [hitem])]
      unfold askedKeys at ih ⊢
      rw [List.map_cons, List.map_cons, List.filter_cons, List.filter_cons, ih hxs hnull.2]

section Without

variable (hf : r.fields = .ok f) (hf' : r.withoutNulls.fields = .ok f') (hasks : f'.asks = f.asks)
include hf hf' hasks

theorem askedNames_of_notMem (h : ("non_transferrable", .null) ∉ r.toList) :
    f.askedNames = f'.askedNames := by
  rw [askedNames_eq hf, ← askedKeys_filter hf (List.Subset.refl _) h, askedNames_eq hf']
  unfold askedKeys
  rw [hasks]
  rfl

theorem askedNames_of_split {xs ys : Section}
    (h : r.toList = xs ++ ("non_transferrable", .null) :: ys) :
    f'.askedNames = askedKeys f (xs ++ ys) := by
  obtain ⟨hnew, hnames⟩ := Entries.nodup_of_split h
  have hdrop : r.withoutNulls.toList = (xs ++ ys).filter fun x => !x.2.isNull := by
    change r.toList.filter _ = _
    rw [h, List.filter_append, List.filter_append, List.filter_cons_of_neg (by simp [Item.isNull])]
  have hsubset : xs ++ ys ⊆ r.toList := by
    rw [h]
    exact (List.Sublist.append_left (List.sublist_cons_self _ ys) xs).subset
  have hkeys : askedKeys f' r.withoutNulls.toList = askedKeys f (xs ++ ys) := by
    rw [hdrop, askedKeys, hasks, ← askedKeys]
    exact askedKeys_filter hf hsubset fun hmem => hnew (List.mem_map.mpr ⟨_, hmem, rfl⟩)
  rw [askedNames_eq hf', hkeys, askedKeys_of_notMem hnew]
  exact eraseDups_of_nodup (hnames.sublist List.filter_sublist)

theorem askedNames_eq_iff {ys : Section} (hbefore : r.NullBefore ys) :
    f.askedNames = f'.askedNames ↔ ∀ x ∈ ys, ¬ f.asks x.1 := by
  obtain ⟨xs, zs, item, h, hgiven⟩ := hbefore
  have hasked : f.asks "non_transferable" := (asks_nonTransferable_iff hf (by simp [h])).mpr hgiven
  have hkeys : askedKeys f r.toList = askedKeys f xs ++
      "non_transferable" :: (askedKeys f ys ++ "non_transferable" :: askedKeys f zs) := by
    rw [h, askedKeys_append, askedKeys_cons_of_asks hasked, askedKeys_append,
      askedKeys_cons_of_asks hasked]
    rfl
  have hkeys' : f'.askedNames = askedKeys f xs ++
      (askedKeys f ys ++ "non_transferable" :: askedKeys f zs) := by
    rw [askedNames_of_split hf hf' hasks h, askedKeys_append, askedKeys_append,
      askedKeys_cons_of_asks hasked]
    rfl
  have hnodup := f'.nodup_askedNames
  have hys : "non_transferrable" ∉ ys.map Prod.fst := by
    have hnew := (Entries.nodup_of_split h).1
    simp only [List.map_append, List.mem_append, not_or] at hnew
    exact hnew.2.1
  rw [hkeys'] at hnodup
  rw [askedNames_eq hf, hkeys, hkeys', eraseDups_append_cons_eq_iff hnodup,
    askedKeys_of_notMem hys, List.filter_eq_nil_iff, List.forall_mem_map]

/-- Where no null comes before it, what is given under the first spelling comes before any null. -/
theorem mem_askedKeys_of_not_before (h : ∀ ys, ¬ r.NullBefore ys) {xs ys : Section}
    (hr : r.toList = xs ++ ("non_transferrable", .null) :: ys)
    (hasked : f.asks "non_transferable") : "non_transferable" ∈ askedKeys f xs := by
  have hmem : "non_transferable" ∈ askedKeys f xs ++ askedKeys f ys := by
    rw [← askedKeys_append, ← askedNames_of_split hf hf' hasks hr, Fields.mem_askedNames, hasks]
    exact hasked
  have hnew : "non_transferrable" ∉ ys.map Prod.fst := by
    have hnew := (Entries.nodup_of_split hr).1
    rw [List.map_append, List.mem_append, not_or] at hnew
    exact hnew.2
  rcases List.mem_append.mp hmem with hxs | hys
  · exact hxs
  · rw [askedKeys_of_notMem hnew] at hys
    obtain ⟨⟨name, item⟩, hitem, rfl⟩ := List.mem_map.mp (List.mem_filter.mp hys).1
    obtain ⟨ys, zs, rfl⟩ := List.append_of_mem hitem
    have hfirst : ("non_transferable", item) ∈ r.toList := by simp [hr]
    exact absurd ⟨xs, zs, item, hr, (asks_nonTransferable_iff hf hfirst).mp hasked⟩ (h ys)

theorem askedNames_eq_of_not_before (h : ∀ ys, ¬ r.NullBefore ys) :
    f.askedNames = f'.askedNames := by
  by_cases hnull : ("non_transferrable", .null) ∈ r.toList
  · obtain ⟨xs, ys, hr⟩ := List.append_of_mem hnull
    have hkeys' := askedNames_of_split hf hf' hasks hr
    have hnodup := f'.nodup_askedNames
    rw [hkeys', askedKeys_append] at hnodup
    rw [askedNames_eq hf, hkeys', hr, askedKeys_append, askedKeys_append]
    by_cases hasked : f.asks "non_transferable"
    · have hfirst := mem_askedKeys_of_not_before hf hf' hasks h hr hasked
      rw [askedKeys_cons_of_asks hasked]
      exact (eraseDups_append_cons_of_mem hfirst).trans (eraseDups_of_nodup hnodup)
    · rw [askedKeys_cons_of_not hasked, eraseDups_of_nodup hnodup]
  · exact askedNames_of_notMem hf hf' hasks hnull

theorem askedNames_eq_iff_not_moves : f.askedNames = f'.askedNames ↔ ¬ r.NullMoves f := by
  constructor
  · rintro heq ⟨ys, hbefore, x, hx, hasked⟩
    exact (askedNames_eq_iff hf hf' hasks hbefore).mp heq x hx hasked
  · intro hmoves
    by_cases hbefore : ∃ ys, r.NullBefore ys
    · obtain ⟨ys, hbefore⟩ := hbefore
      apply (askedNames_eq_iff hf hf' hasks hbefore).mpr
      exact fun x hx hasked => hmoves ⟨ys, hbefore, x, hx, hasked⟩
    · exact askedNames_eq_of_not_before hf hf' hasks (not_exists.mp hbefore)

end Without

/-- Without its null entries a request is read alike, and it asks for the same unless a null under one
spelling of a name meets what is given under the other. -/
theorem descriptors_withoutNulls (r : Request) :
    (∃ e, r.fields = .error e ∧ r.withoutNulls.fields = .error e) ∨
    ∃ f f', r.fields = .ok f ∧ r.withoutNulls.fields = .ok f' ∧
      (f.descriptors = f'.descriptors ↔ ¬ r.NullHides ∧ ¬ r.NullMoves f) := by
  have hvalues := r.values_withoutNulls
  cases hr : r.values with
  | error e =>
    rw [hr] at hvalues
    exact Or.inl ⟨e, fields_eq_error.mpr hr, fields_eq_error.mpr hvalues⟩
  | ok v =>
    rw [hr] at hvalues
    let f : Fields := { v with nonTransferable := r.nonTransferable.isGiven, order := r.order }
    let f' : Fields := { v with
      nonTransferable := r.withoutNulls.nonTransferable.isGiven, order := r.withoutNulls.order }
    have hf : r.fields = .ok f := fields_eq_ok.mpr ⟨v, hr, rfl⟩
    have hf' : r.withoutNulls.fields = .ok f' := fields_eq_ok.mpr ⟨v, hvalues, rfl⟩
    refine Or.inr ⟨f, f', hf, hf', ?_⟩
    by_cases hhides : r.NullHides
    · refine iff_of_false (fun heq => ?_) fun h => h.1 hhides
      -- The flag would be the same, but the null hides it only while it is there.
      have hasks := congrFun (Fields.asks_eq_of_descriptors heq) "non_transferable"
      rw [Fields.asks_nonTransferable, Fields.asks_nonTransferable] at hasks
      exact isGiven_withoutNulls_iff.mp hasks hhides
    · have hsame : f' = { f with order := r.withoutNulls.order } := by
        change f' = { v with
          nonTransferable := r.nonTransferable.isGiven, order := r.withoutNulls.order }
        rw [isGiven_withoutNulls_iff.mpr hhides]
      have hdescriptor : f'.descriptor? = f.descriptor? := by rw [hsame]; rfl
      have hasks : f'.asks = f.asks := by rw [hsame]; rfl
      rw [Fields.descriptors_eq_iff hdescriptor.symm, askedNames_eq_iff_not_moves hf hf' hasks]
      exact (and_iff_right hhides).symm

/-- A mint that cannot be transferred is asked for under the second spelling, in vain. -/
theorem not_descriptors_withoutNulls :
    let r : Request :=
      ⟨[("non_transferable", .null), ("non_transferrable", .bool true)], by decide⟩
    ∃ f f', r.fields = .ok f ∧ r.withoutNulls.fields = .ok f' ∧
      f.descriptors = [] ∧ f'.descriptors = [.nonTransferable] := by
  intro r
  refine ⟨_, _, rfl, rfl, ?_, ?_⟩
  · decide +kernel
  · decide +kernel

/-- The null moves what is given behind it before the interest. -/
example :
    let r : Request := ⟨[("non_transferrable", .null), ("interest_bearing", .object [("rate", .int 1)]),
      ("non_transferable", .bool true)], by decide⟩
    ∃ f f', r.fields = .ok f ∧ r.withoutNulls.fields = .ok f' ∧
      f.descriptors = [.nonTransferable, .interestBearing ⟨none, 1⟩] ∧
      f'.descriptors = [.interestBearing ⟨none, 1⟩, .nonTransferable] := by
  intro r
  refine ⟨_, _, rfl, rfl, ?_, ?_⟩
  · decide +kernel
  · decide +kernel

end Request
end TokenWire.Extension
