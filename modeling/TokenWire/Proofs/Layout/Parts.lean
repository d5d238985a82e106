import TokenWire.Layout.Codec
import TokenWire.Proofs.Layout.Reader

/-! The parts of composite layouts: induction over them, and reading and writing part by part. -/

namespace TokenWire.Layout

open Reader

/-- Induction over a layout, with every part of a composite one at hand. -/
@[elab_as_elim, induction_eliminator]
theorem induction {motive : Layout → Prop} (uint : ∀ width, motive (.uint width))
    (sint : ∀ width, motive (.sint width)) (bool : motive .bool)
    (bytes : ∀ width, motive (.bytes width)) (text : ∀ width, motive (.text width))
    (key : motive .key) (sentinelKey : motive .sentinelKey)
    (fixed : ∀ length, motive (.fixed length)) (unit : motive .unit)
    (option : ∀ item, motive item → motive (.option item))
    (vec : ∀ item, motive item → motive (.vec item))
    (tuple : ∀ items, (∀ item ∈ items, motive item) → motive (.tuple items))
    (struct : ∀ fields : List (String × Layout), (∀ field ∈ fields, motive field.2) →
      motive (.struct fields))
    (tagged : ∀ selector (arms : List (Nat × Layout)), (∀ arm ∈ arms, motive arm.2) →
      motive (.tagged selector arms)) :
    ∀ layout, motive layout := by
  have all : ∀ size layout, sizeOf layout < size → motive layout := by
    intro size
    induction size with
    | zero => intro layout h; omega
    | succ size ih =>
      intro layout h
      cases layout with
      | uint width => exact uint width
      | sint width => exact sint width
      | bool => exact bool
      | bytes width => exact bytes width
      | text width => exact text width
      | key => exact key
      | sentinelKey => exact sentinelKey
      | fixed length => exact fixed length
      | unit => exact unit
      | option item => exact option item (ih item (by simp at h; omega))
      | vec item => exact vec item (ih item (by simp at h; omega))
      | tuple items =>
        apply tuple
        intro item hi
        have := List.sizeOf_lt_of_mem hi
        exact ih item (by simp at h; omega)
      | struct fields =>
        apply struct
        rintro ⟨name, field⟩ hf
        have := List.sizeOf_lt_of_mem hf
        exact ih field (by simp at h this; omega)
      | tagged selector arms =>
        apply tagged
        rintro ⟨tag, arm⟩ ha
        have := List.sizeOf_lt_of_mem ha
        exact ih arm (by simp at h this; omega)
  intro layout
  exact all _ layout (Nat.lt_succ_self _)

theorem encodeFields_eq (fields : List (String × Layout)) :
    encodeFields fields = encodeItems (fields.map Prod.snd) := by
  funext vs
  induction fields generalizing vs with
  | nil => cases vs <;> rfl
  | cons field fields ih =>
    cases vs with
    | nil => rfl
    | cons v vs =>
      change (do pure ((← encode field.2 v) ++ (← encodeFields fields vs))) = _
      rw [ih]
      rfl

/-- A search through arms for a tag, whatever is then done with the arm found. -/
theorem eq_lookup_map {α : Type} {tag : Nat} (f : Layout → α)
    (search : List (Nat × Layout) → Option α) (nil : search [] = none)
    (cons : ∀ t arm arms,
      search ((t, arm) :: arms) = if t = tag then some (f arm) else search arms)
    (arms : List (Nat × Layout)) : search arms = (arms.lookup tag).map f := by
  induction arms with
  | nil => exact nil
  | cons head arms ih =>
    obtain ⟨t, arm⟩ := head
    rw [cons, List.lookup_cons]
    by_cases h : t = tag
    · simp [h]
    · simp [h, ih, beq_eq_false_iff_ne.mpr (Ne.symm h)]

theorem readArm_eq (arms : List (Nat × Layout)) (tag : Nat) (bs : Bytes) :
    readArm arms tag bs = (arms.lookup tag).map fun arm => arm.read bs :=
  eq_lookup_map _ (readArm · tag bs) rfl (fun _ _ _ => rfl) arms

theorem encodeArm_eq (arms : List (Nat × Layout)) (tag : Nat) (v : Value) :
    encodeArm arms tag v = (arms.lookup tag).map fun arm => arm.encode v :=
  eq_lookup_map _ (encodeArm · tag v) rfl (fun _ _ _ => rfl) arms

/-- The part of a list of arms that a tag selects is a part of one of them. -/
theorem exists_mem_of_lookup {arms : List (Nat × Layout)} {tag : Nat} {arm : Layout}
    (h : arms.lookup tag = some arm) : ∃ t, (t, arm) ∈ arms := by
  induction arms with
  | nil => cases h
  | cons head arms ih =>
    obtain ⟨t, layout⟩ := head
    rw [List.lookup_cons] at h
    split at h
    · cases h
      exact ⟨t, List.mem_cons_self⟩
    · obtain ⟨t', ht⟩ := ih h
      exact ⟨t', List.mem_cons_of_mem _ ht⟩

/-- Reads text, given its bytes. -/
def readText (body : Bytes) : Reader Value :=
  match fromUtf8? body with
  | some s => done (.text s)
  | none => refuse .malformedText

/-- Reads what a tag selects. -/
def readBody (selector : Selector) (arms : List (Nat × Layout)) (tag : Nat) : Reader Value :=
  match arms.lookup tag with
  | some arm => arm.read
  | none => if selector.closed then refuse .unknownTag else done .absent

theorem read_uint (width : Nat) :
    (uint width).read = (readNat width).andThen fun n => done (.int n) := rfl

theorem read_sint (width : Nat) : (sint width).read =
    (readNat width).andThen fun n => done (.int ((n : Int).bmod (capacity width))) := rfl

theorem read_bool : bool.read = readFlag.andThen fun b => done (.bool b) := rfl

theorem read_bytes (width : Nat) :
    (bytes width).read = (readCounted width).andThen fun body => done (.bytes body) := rfl

theorem read_text (width : Nat) : (text width).read = (readCounted width).andThen readText := by
  change (readCounted width).andThen (fun body rest => match fromUtf8? body with
    | some s => done (Value.text s) rest
    | none => refuse .malformedText rest) = _
  congr
  funext body rest
  unfold readText
  cases fromUtf8? body <;> rfl

theorem read_key : key.read = readKey.andThen fun k => done (.key k) := rfl

theorem read_sentinelKey : sentinelKey.read =
    readKey.andThen fun k => done (if k = .zero then .absent else .key k) := rfl

theorem read_fixed (length : Nat) :
    (fixed length).read = (readBytes length).andThen fun body => done (.bytes body) := rfl

theorem read_unit : unit.read = done .absent := rfl

theorem read_option (item : Layout) : (option item).read =
    readFlag.andThen fun present => if present then item.read else done .absent := by
  change readFlag.andThen (fun present rest =>
    if present then item.read rest else done .absent rest) = _
  congr
  funext present
  cases present <;> rfl

theorem read_tuple (items : List Layout) :
    (tuple items).read = (readItems items).andThen fun vs => done (.seq vs) := rfl

theorem readItems_nil : readItems [] = done [] := rfl

theorem readItems_cons (item : Layout) (items : List Layout) : readItems (item :: items) =
    item.read.andThen fun v => (readItems items).andThen fun vs => done (v :: vs) := rfl

theorem readItems_replicate (item : Layout) (n : Nat) :
    readItems (List.replicate n item) = readEach item.read n := by
  induction n with
  | zero => exact readItems_nil
  | succ n ih =>
    rw [List.replicate_succ, readItems_cons, ih]
    rfl

/-- A vector is read as a tuple of as many items as its count says. -/
theorem read_vec (item : Layout) : (vec item).read =
    (readNat countWidth).andThen fun n => (tuple (List.replicate n item)).read := by
  simp only [read_tuple, readItems_replicate]
  rfl

theorem readFields_eq (fields : List (String × Layout)) :
    readFields fields = readItems (fields.map Prod.snd) := by
  induction fields with
  | nil => rfl
  | cons field fields ih =>
    change (field.2.read.andThen fun v => (readFields fields).andThen fun vs => done (v :: vs)) = _
    rw [ih, List.map_cons, readItems_cons]

theorem read_struct (fields : List (String × Layout)) :
    (struct fields).read = (tuple (fields.map Prod.snd)).read := by
  change (readFields fields).andThen (fun vs => done (Value.seq vs)) = _
  rw [readFields_eq, read_tuple]

theorem read_tagged (selector : Selector) (arms : List (Nat × Layout)) :
    (tagged selector arms).read = (readNat selector.width).andThen fun tag =>
      (readBody selector arms tag).andThen fun body => done (.variant tag body) := by
  change (readNat selector.width).andThen (fun tag => Reader.andThen
    (fun rest => (readArm arms tag rest).getD
      (if selector.closed then .error .unknownTag else .ok (.absent, rest)))
    fun body => done (Value.variant tag body)) = _
  congr
  funext tag
  congr
  funext rest
  rw [readArm_eq, readBody]
  cases arms.lookup tag with
  | some arm => rfl
  | none => cases selector.closed <;> rfl

theorem decode_eq_ok {layout : Layout} {bs : Bytes} {v : Value} :
    layout.decode bs = .ok v ↔ layout.read bs = .ok (v, []) := by
  rw [decode, Checked.bind_eq_ok]
  constructor
  · rintro ⟨⟨w, rest⟩, h, hw⟩
    cases rest with
    | nil => cases hw; exact h
    | cons b rest => cases hw
  · intro h
    exact ⟨_, h, rfl⟩

theorem decode_eq_error {layout : Layout} {bs : Bytes} {fault : DecodeFault} :
    layout.decode bs = .error fault ↔ layout.read bs = .error fault ∨
      fault = .leftover ∧ ∃ v rest, rest ≠ [] ∧ layout.read bs = .ok (v, rest) := by
  rw [decode, Checked.bind_eq_error]
  refine or_congr_right ⟨?_, ?_⟩
  · rintro ⟨⟨w, rest⟩, h, hw⟩
    cases rest with
    | nil => cases hw
    | cons b rest =>
      cases hw
      exact ⟨rfl, w, _, List.cons_ne_nil b rest, h⟩
  · rintro ⟨rfl, v, rest, hrest, h⟩
    refine ⟨_, h, ?_⟩
    exact if_neg (by simpa using hrest)

theorem parse_eq_ok {layout : Layout} {data : Bytes} {v : Value} :
    layout.parse data = .ok v ↔ layout.read data = .ok (v, []) := by
  rw [parse, Checked.mapError_eq_ok, decode_eq_ok]

theorem parse_eq_error {layout : Layout} {data : Bytes} {e : Error} :
    layout.parse data = .error e ↔
      ∃ fault, layout.decode data = .error fault ∧ .malformed fault data.length = e := by
  rw [parse, Checked.mapError_eq_error]

theorem write_eq_ok {layout : Layout} {v : Value} {data : Bytes} :
    layout.write v = .ok data ↔ layout.encode v = .ok data := by
  rw [write, Checked.mapError_eq_ok]

end TokenWire.Layout
