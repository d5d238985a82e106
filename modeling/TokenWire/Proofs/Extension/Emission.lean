import Mathlib.Data.List.Nodup
import TokenWire.Proofs.Extension.Asking

/-! Which extensions are emitted: each one asked for, once, in the order in which the names come. -/

namespace TokenWire.Extension

/-- The extensions stand in the order in which their names come first. -/
def InOrder (names : List String) (ds : List Descriptor) : Prop :=
  ds.Pairwise fun d d' => names.idxOf d.fieldName < names.idxOf d'.fieldName

theorem inOrder_iff {names : List String} {ds : List Descriptor} : InOrder names ds ↔
    (ds.map Descriptor.fieldName).Pairwise fun x y => names.idxOf x < names.idxOf y := by
  rw [InOrder, List.pairwise_map]

namespace Fields

variable {f : Fields} {d : Descriptor}

/-- The extension is asked for: its field is set, or its flag is on. -/
def Requests (f : Fields) : Descriptor → Prop
  | .metadata config => f.metadata = some config
  | .closeAuthority authority => f.closeAuthority = some authority
  | .permanentDelegate delegate => f.permanentDelegate = some delegate
  | .nonTransferable => f.nonTransferable = true
  | .transferFee config => f.transferFee = some config
  | .interestBearing config => f.interestBearing = some config
  | .transferHook config => f.transferHook = some config

theorem requests_iff : f.Requests d ↔ f.descriptor? d.fieldName = some d := by
  cases d <;> simp [Requests, descriptor?, Descriptor.fieldName]

theorem mem_descriptors : d ∈ f.descriptors ↔ f.Requests d := by
  rw [requests_iff, descriptors_eq, List.mem_filterMap]
  constructor
  · rintro ⟨name, -, hd⟩
    rwa [fieldName_eq hd]
  · intro hd
    have hasks : f.asks d.fieldName := Option.isSome_iff_exists.mpr ⟨d, hd⟩
    exact ⟨d.fieldName, mem_askedNames.mpr hasks, hd⟩

theorem nodup_descriptors (f : Fields) : f.descriptors.Nodup := by
  have hnames := f.nodup_askedNames
  rw [← map_fieldName_descriptors] at hnames
  exact List.Nodup.of_map Descriptor.fieldName hnames

theorem inOrder_filterMap (f : Fields) (names : List String) :
    InOrder names (names.eraseDups.filterMap f.descriptor?) := by
  rw [inOrder_iff, map_fieldName_filterMap]
  exact (pairwise_eraseDups names).filter _

theorem fieldName_mem_of_filterMap {names : List String} (h : d ∈ names.filterMap f.descriptor?) :
    d.fieldName ∈ names := by
  obtain ⟨name, hname, hd⟩ := List.mem_filterMap.mp h
  rwa [fieldName_eq hd]

/-- The extensions named in the order come first, and the others follow as they come by default. -/
theorem descriptors_eq_append (f : Fields) : f.descriptors =
    f.order.eraseDups.filterMap f.descriptor? ++
      (fieldNames.removeAll f.order).filterMap f.descriptor? := by
  have hrest : (fieldNames.removeAll f.order).Nodup := by
    have hnames : fieldNames.Nodup := by decide
    exact hnames.sublist List.filter_sublist
  rw [descriptors, List.eraseDups_append, List.filterMap_append, eraseDups_of_nodup hrest]

theorem inOrder_others (f : Fields) :
    InOrder fieldNames ((fieldNames.removeAll f.order).filterMap f.descriptor?) := by
  have hnames : fieldNames.eraseDups = fieldNames := eraseDups_of_nodup (by decide)
  have hall := f.inOrder_filterMap fieldNames
  rw [hnames] at hall
  exact hall.sublist (List.filter_sublist.filterMap _)

end Fields

namespace Request

variable {r r' : Request} {f : Fields} {name : String}

theorem exists_descriptor_iff (hf : r.fields = .ok f) (hname : name ∈ fieldNames)
    (hne : name ≠ "non_transferable") :
    (∃ d ∈ f.descriptors, d.fieldName = name) ↔ (r.entry name).isGiven := by
  rw [← asks_eq_isGiven hf hname hne, ← Fields.mem_askedNames, ← Fields.map_fieldName_descriptors,
    List.mem_map]

theorem nonTransferable_mem_descriptors (hf : r.fields = .ok f) :
    .nonTransferable ∈ f.descriptors ↔ r.nonTransferable.isGiven := by
  obtain ⟨v, -, rfl⟩ := fields_eq_ok.mp hf
  exact Fields.mem_descriptors

/-- Extensions are emitted in the order in which their keys come first. -/
theorem inOrder_descriptors (hf : r.fields = .ok f) :
    InOrder (r.names.map canonicalName) f.descriptors := by
  have hkeys : askedKeys f r.toList = (r.names.map canonicalName).filter f.asks := by
    rw [askedKeys, Entries.names, List.map_map]
    rfl
  rw [inOrder_iff, Fields.map_fieldName_descriptors, askedNames_eq hf, hkeys, eraseDups_filter]
  exact (pairwise_eraseDups _).filter _

theorem fieldName_mem_names (hf : r.fields = .ok f) {d : Descriptor} (hd : d ∈ f.descriptors) :
    d.fieldName ∈ r.names.map canonicalName := by
  have hasks : f.asks d.fieldName := by
    rw [← Fields.mem_askedNames, ← Fields.map_fieldName_descriptors]
    exact List.mem_map_of_mem hd
  obtain ⟨x, hx, hkey⟩ := exists_key_of_asks hf hasks
  rw [← hkey]
  exact List.mem_map_of_mem (List.mem_map_of_mem hx)

/-- The entries whose keys name extensions, in either spelling. -/
def known (r : Request) : Section :=
  r.toList.filter fun x => fieldNames.contains (canonicalName x.1)

theorem find?_eq_lookup_known (hname : canonicalName name ∈ fieldNames) :
    r.find? name = r.known.lookup name := by
  unfold Entries.find? known
  induction r.toList with
  | nil => rfl
  | cons x xs ih =>
    obtain ⟨n, item⟩ := x
    by_cases hn : canonicalName n ∈ fieldNames
    · rw [List.filter_cons_of_pos (by simpa using hn), List.lookup_cons, List.lookup_cons, ih]
    · have hne : (name == n) = false := by
        rw [beq_eq_false_iff_ne]
        rintro rfl
        exact hn hname
      rw [List.filter_cons_of_neg (by simpa using hn), List.lookup_cons, hne, ih]

theorem order_eq_known (r : Request) :
    r.order = (r.known.map fun x => canonicalName x.1).eraseDups := by
  rw [order, ← eraseDups_filter, Entries.names, List.map_map, List.filter_map]
  rfl

/-- Entries under other keys change nothing. -/
theorem fields_eq_of_known (h : r.known = r'.known) : r.fields = r'.fields := by
  have hfind : ∀ name, canonicalName name ∈ fieldNames → r.find? name = r'.find? name := by
    intro name hname
    rw [find?_eq_lookup_known hname, find?_eq_lookup_known hname, h]
  have horder : r.order = r'.order := by rw [order_eq_known, order_eq_known, h]
  simp (disch := decide) only [fields, section?, nonTransferable, horder, hfind]

end Request

/--
Each extension asked for is emitted once: those that the order names, as they come there first, and
then the others as they come by default. A request asks for them in the order of its keys, of which
the others count for nothing.
-/
theorem descriptors_emitted :
    (∀ f : Fields, (∀ d, d ∈ f.descriptors ↔ f.Requests d) ∧ f.descriptors.Nodup ∧
      ∃ named others, f.descriptors = named ++ others ∧
        (InOrder f.order named ∧ ∀ d ∈ named, d.fieldName ∈ f.order) ∧
        InOrder fieldNames others ∧ ∀ d ∈ others, d.fieldName ∉ f.order) ∧
    (∀ (r : Request) (f : Fields), r.fields = .ok f →
      InOrder (r.names.map Request.canonicalName) f.descriptors ∧
      (∀ d ∈ f.descriptors, d.fieldName ∈ r.names.map Request.canonicalName) ∧
      (∀ name ∈ fieldNames, name ≠ "non_transferable" →
        ((∃ d ∈ f.descriptors, d.fieldName = name) ↔ (r.entry name).isGiven)) ∧
      (∀ item, r.find? "non_transferable" = some item →
        (.nonTransferable ∈ f.descriptors ↔ item.isGiven)) ∧
      (r.find? "non_transferable" = none →
        (.nonTransferable ∈ f.descriptors ↔ (r.entry "non_transferrable").isGiven))) ∧
    ∀ r r' : Request, r.known = r'.known → r.fields = r'.fields := by
  refine ⟨?_, ?_, fun _ _ => Request.fields_eq_of_known⟩
  · intro f
    refine ⟨fun _ => Fields.mem_descriptors, f.nodup_descriptors, _, _,
      f.descriptors_eq_append, ⟨f.inOrder_filterMap _, ?_⟩, f.inOrder_others, ?_⟩
    · intro d hd
      exact List.mem_eraseDups.mp (Fields.fieldName_mem_of_filterMap hd)
    · intro d hd
      have hrest := Fields.fieldName_mem_of_filterMap hd
      simpa using (List.mem_filter.mp hrest).2
  · intro r f hf
    refine ⟨Request.inOrder_descriptors hf, fun _ => Request.fieldName_mem_names hf,
      fun _ => Request.exists_descriptor_iff hf, ?_, ?_⟩
    · intro item hitem
      rw [Request.nonTransferable_mem_descriptors hf, Request.nonTransferable, hitem]
      rfl
    · intro hnone
      rw [Request.nonTransferable_mem_descriptors hf, Request.nonTransferable, hnone]
      rfl

/-- The first spelling wins over the second, and an order among the entries is no order. -/
theorem descriptors_emitted_spellings :
    let gold := ("metadata",
      Item.object [("name", .text "é"), ("symbol", .text ""), ("uri", .text "u")])
    let hook := ("transfer_hook", Item.object [])
    let locked := ("non_transferrable", Item.bool true)
    let r : Request := ⟨[hook, locked, gold], by decide⟩
    let r' : Request :=
      ⟨[("order", .list [.text "metadata"]), hook, locked, ("é", .null), gold], by decide⟩
    let f : Fields := {
      metadata := some ⟨"é", "", "u", []⟩
      nonTransferable := true
      order := ["transfer_hook", "non_transferable", "metadata"] }
    let loose : Request := ⟨[locked, ("non_transferable", .bool false)], by decide⟩
    let g : Fields := { order := ["non_transferable"] }
    (r.fields = .ok f ∧ InOrder ["transfer_hook", "non_transferable", "metadata"] f.descriptors ∧
      (∃ d ∈ f.descriptors, d.fieldName = "metadata") ∧
      (¬ ∃ d ∈ f.descriptors, d.fieldName = "transfer_hook") ∧
      .nonTransferable ∈ f.descriptors) ∧
    (r.known = r'.known ∧ r'.fields = .ok f) ∧
    loose.fields = .ok g ∧ .nonTransferable ∉ g.descriptors := by
  intro gold hook locked r r' f loose g
  have hr : r.fields = .ok f := rfl
  have hopen : loose.fields = .ok g := rfl
  have hknown : r.known = r'.known := rfl
  obtain ⟨-, hrequest, hothers⟩ := descriptors_emitted
  obtain ⟨horder, -, hgiven, -, hsecond⟩ := hrequest r f hr
  obtain ⟨-, -, -, hfirst, -⟩ := hrequest loose g hopen
  refine ⟨⟨hr, horder, ?_, ?_, (hsecond rfl).mpr rfl⟩, ⟨hknown, ?_⟩, hopen, ?_⟩
  · exact (hgiven "metadata" (by decide) (by decide)).mpr rfl
  · exact fun h => Bool.noConfusion ((hgiven "transfer_hook" (by decide) (by decide)).mp h)
  · rw [← hothers r r' hknown, hr]
  · exact fun h => Bool.noConfusion ((hfirst _ rfl).mp h)

end TokenWire.Extension
