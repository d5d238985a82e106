import Mathlib.Data.List.Forall2
import TokenWire.Proofs.Layout.Shape
import TokenWire.Proofs.Layout.Writable
import TokenWire.Toggle

/-! The leaves of a value, and that it is refused for the first of them without a written form. -/

namespace TokenWire

/-- A part of a value with bytes of its own. -/
inductive Leaf where
  /-- An integer without a sign, or a count, on so many bytes. -/
  | unsigned (width : Nat) (n : Int)
  /-- An integer with a sign on so many bytes. -/
  | signed (width : Nat) (n : Int)
  /-- Bytes for a field of so many bytes. -/
  | fixed (length : Nat) (bs : Bytes)
  /-- Bytes as they are: those of a flag, of a key, of a text, or behind their number. -/
  | raw (bs : Bytes)

namespace Leaf

/-- The leaf has a written form. -/
def Representable : Leaf → Prop
  | unsigned width n => InField width n
  | signed width n => InSignedField width n
  | fixed length bs => bs.length = length
  | raw _ => True

instance : DecidablePred Representable
  | unsigned width n => inferInstanceAs (Decidable (InField width n))
  | signed width n => inferInstanceAs (Decidable (InSignedField width n))
  | fixed length bs => inferInstanceAs (Decidable (bs.length = length))
  | raw _ => inferInstanceAs (Decidable True)

/-- Why a leaf without a written form is refused. -/
def fault : Leaf → EncodeFault
  | fixed _ _ => .wrongLength
  | _ => .outOfRange

/-- The bytes are those of the leaf, as many as its field has, and tell all of it. -/
def Holds : Leaf → Bytes → Prop
  | unsigned width n, bs => bs.length = width ∧ (fromLittleEndian bs : Int) = n
  | signed width n, bs => bs.length = width ∧ (fromLittleEndian bs : Int).bmod (capacity width) = n
  | fixed length own, bs => bs.length = length ∧ bs = own
  | raw own, bs => bs = own

/-- The bytes of a leaf. -/
def write : Leaf → Except EncodeFault Bytes
  | unsigned width n => writeUnsigned width n
  | signed width n => writeSigned width n
  | fixed length bs => if bs.length = length then .ok bs else .error .wrongLength
  | raw bs => .ok bs

theorem write_of_representable {leaf : Leaf} (h : leaf.Representable) :
    ∃ bs, leaf.write = .ok bs ∧ leaf.Holds bs := by
  cases leaf with
  | unsigned width n =>
    obtain ⟨hnonneg, hlt⟩ := (h : InField width n)
    obtain ⟨k, rfl⟩ := Int.eq_ofNat_of_zero_le hnonneg
    have hk : k < capacity width := by omega
    refine ⟨_, writeUnsigned_natCast hk, length_littleEndian width k, ?_⟩
    rw [fromLittleEndian_littleEndian hk]
  | signed width n =>
    obtain ⟨bs, hbs⟩ := writeSigned_iff.mpr h
    obtain ⟨k, hn, hk, rfl⟩ := writeSigned_eq_ok.mp hbs
    refine ⟨_, hbs, length_littleEndian width k, ?_⟩
    rw [fromLittleEndian_littleEndian hk, hn]
  | fixed length bs => exact ⟨bs, if_pos h, h, rfl⟩
  | raw bs => exact ⟨bs, rfl, rfl⟩

theorem Holds.representable {leaf : Leaf} {bs : Bytes} (h : leaf.Holds bs) :
    leaf.Representable := by
  cases leaf with
  | unsigned width n =>
    obtain ⟨rfl, rfl⟩ := h
    exact inField_natCast.mpr (fromLittleEndian_lt bs)
  | signed width n =>
    obtain ⟨-, rfl⟩ := h
    exact bmod_capacity_eq_iff.mp Int.bmod_bmod
  | fixed length own =>
    obtain ⟨hlength, rfl⟩ := h
    exact hlength
  | raw own => trivial

theorem write_of_not_representable {leaf : Leaf} (h : ¬ leaf.Representable) :
    leaf.write = .error leaf.fault := by
  cases leaf with
  | unsigned width n =>
    refine if_neg fun hn => h ⟨hn.1, ?_⟩
    omega
  | signed width n => exact if_neg fun hn => h (bmod_capacity_eq_iff.mp hn)
  | fixed length bs => exact if_neg h
  | raw bs => exact absurd trivial h

theorem holds_of_write {leaf : Leaf} {bs : Bytes} (h : leaf.write = .ok bs) : leaf.Holds bs := by
  by_cases hleaf : leaf.Representable
  · obtain ⟨own, hown, hholds⟩ := write_of_representable hleaf
    obtain rfl : bs = own := Except.ok.inj (h.symm.trans hown)
    exact hholds
  · rw [write_of_not_representable hleaf] at h
    cases h

theorem write_eq_error {leaf : Leaf} {e : EncodeFault} :
    leaf.write = .error e ↔ ¬ leaf.Representable ∧ e = leaf.fault := by
  by_cases h : leaf.Representable
  · obtain ⟨bs, hbs, -⟩ := write_of_representable h
    rw [hbs]
    exact iff_of_false nofun fun hn => hn.1 h
  · rw [write_of_not_representable h, Except.error.injEq]
    exact ⟨fun he => ⟨h, he.symm⟩, fun he => he.2.symm⟩

end Leaf

/-- Writes leaves one after the other. -/
def writeLeaves : List Leaf → Except EncodeFault Bytes
  | [] => .ok []
  | leaf :: leaves => do
    let front ← leaf.write
    let rest ← writeLeaves leaves
    pure (front ++ rest)

theorem writeLeaves_append (xs ys : List Leaf) : writeLeaves (xs ++ ys) =
    writeLeaves xs >>= fun front => writeLeaves ys >>= fun rest => pure (front ++ rest) := by
  induction xs with
  | nil =>
    change writeLeaves ys = writeLeaves ys >>= pure
    rw [bind_pure]
  | cons leaf xs ih =>
    rw [List.cons_append, writeLeaves, writeLeaves, ih]
    simp only [bind_assoc, pure_bind, List.append_assoc]

theorem writeLeaves_singleton (leaf : Leaf) : writeLeaves [leaf] = leaf.write := by
  change (leaf.write >>= fun front => pure (front ++ [])) = leaf.write
  simp only [List.append_nil, bind_pure]

theorem writeLeaves_counted (width : Nat) (bs : Bytes) :
    writeLeaves [.unsigned width bs.length, .raw bs] = writeCounted width bs := by
  have hraw : writeLeaves [.raw bs] = .ok bs := writeLeaves_singleton (.raw bs)
  rw [writeLeaves, hraw]
  rfl

/-- Written leaves stand one behind the other, each with all of its bytes. -/
theorem exists_holds_of_writeLeaves {leaves : List Leaf} {bs : Bytes}
    (h : writeLeaves leaves = .ok bs) :
    ∃ parts, List.Forall₂ Leaf.Holds leaves parts ∧ bs = parts.flatten := by
  induction leaves generalizing bs with
  | nil =>
    cases h
    exact ⟨[], .nil, rfl⟩
  | cons leaf leaves ih =>
    obtain ⟨front, hfront, h⟩ := Checked.bind_eq_ok.mp h
    obtain ⟨rest, hrest, h⟩ := Checked.bind_eq_ok.mp h
    cases h
    obtain ⟨parts, hparts, rfl⟩ := ih hrest
    exact ⟨front :: parts, .cons (Leaf.holds_of_write hfront) hparts, rfl⟩

theorem writeLeaves_cons_eq_error {leaf : Leaf} {leaves : List Leaf} {e : EncodeFault} :
    writeLeaves (leaf :: leaves) = .error e ↔
      leaf.write = .error e ∨ ∃ bs, leaf.write = .ok bs ∧ writeLeaves leaves = .error e := by
  refine Checked.bind_eq_error.trans (or_congr_right ?_)
  constructor
  · rintro ⟨bs, hbs, h⟩
    rcases Checked.bind_eq_error.mp h with h | ⟨rest, -, h⟩
    · exact ⟨bs, hbs, h⟩
    · cases h
  · rintro ⟨bs, hbs, h⟩
    exact ⟨bs, hbs, Checked.bind_eq_error.mpr (Or.inl h)⟩

/-- The first leaf without a written form decides the fault. -/
theorem writeLeaves_eq_error {leaves : List Leaf} {e : EncodeFault} :
    writeLeaves leaves = .error e ↔ ∃ before leaf after, leaves = before ++ leaf :: after ∧
      (∀ l ∈ before, l.Representable) ∧ ¬ leaf.Representable ∧ e = leaf.fault := by
  induction leaves with
  | nil =>
    refine iff_of_false nofun ?_
    rintro ⟨before, leaf, after, h, -⟩
    cases before <;> cases h
  | cons first leaves ih =>
    rw [writeLeaves_cons_eq_error, Leaf.write_eq_error, ih]
    constructor
    · rintro (⟨hfirst, he⟩ | ⟨bs, hbs, before, leaf, after, rfl, hbefore, hleaf, he⟩)
      · exact ⟨[], first, leaves, rfl, nofun, hfirst, he⟩
      · have hfirst := (Leaf.holds_of_write hbs).representable
        exact ⟨first :: before, leaf, after, rfl, List.forall_mem_cons.mpr ⟨hfirst, hbefore⟩,
          hleaf, he⟩
    · rintro ⟨before, leaf, after, h, hbefore, hleaf, he⟩
      cases before with
      | nil =>
        cases h
        exact Or.inl ⟨hleaf, he⟩
      | cons own before =>
        cases h
        obtain ⟨hown, hbefore⟩ := List.forall_mem_cons.mp hbefore
        obtain ⟨bs, hbs, -⟩ := Leaf.write_of_representable hown
        exact Or.inr ⟨bs, hbs, before, leaf, after, rfl, hbefore, hleaf, he⟩

namespace Layout

mutual

/-- The leaves of a value in the order of its layout. Nothing behind an option is a leaf if it is
absent, nor is anything but the tag if an alternative holds nothing. -/
def leaves : Layout → Value → List Leaf
  | .uint width, .int n => [.unsigned width n]
  | .sint width, .int n => [.signed width n]
  | .bool, .bool b => [.raw [if b then 1 else 0]]
  | .bytes width, .bytes bs => [.unsigned width bs.length, .raw bs]
  | .text width, .text s => [.unsigned width (utf8 s).length, .raw (utf8 s)]
  | .key, .key k | .sentinelKey, .key k => [.raw k.bytes]
  | .sentinelKey, .absent => [.raw Key.zero.bytes]
  | .fixed length, .bytes bs => [.fixed length bs]
  | .option _, .absent => [.raw [0]]
  | .option item, v => .raw [1] :: leaves item v
  | .vec item, .seq vs => .unsigned countWidth vs.length :: vs.flatMap (leaves item)
  | .tuple items, .seq vs => leavesItems items vs
  | .struct fields, .seq vs => leavesFields fields vs
  | .tagged selector arms, .variant tag body =>
    .unsigned selector.width tag :: (leavesArm arms tag body).getD []
  | _, _ => []

def leavesItems : List Layout → List Value → List Leaf
  | item :: items, v :: vs => leaves item v ++ leavesItems items vs
  | _, _ => []

def leavesFields : List (String × Layout) → List Value → List Leaf
  | (_, field) :: fields, v :: vs => leaves field v ++ leavesFields fields vs
  | _, _ => []

def leavesArm : List (Nat × Layout) → Nat → Value → Option (List Leaf)
  | [], _, _ => none
  | (t, arm) :: arms, tag, v => if t = tag then some (leaves arm v) else leavesArm arms tag v

end

theorem leavesFields_eq (fields : List (String × Layout)) (vs : List Value) :
    leavesFields fields vs = leavesItems (fields.map Prod.snd) vs := by
  induction fields generalizing vs with
  | nil => cases vs <;> rfl
  | cons field fields ih =>
    cases vs with
    | nil => rfl
    | cons v vs => exact congrArg (leaves field.2 v ++ ·) (ih vs)

theorem leavesArm_eq (arms : List (Nat × Layout)) (tag : Nat) (v : Value) :
    leavesArm arms tag v = (arms.lookup tag).map fun arm => arm.leaves v :=
  eq_lookup_map _ (leavesArm · tag v) rfl (fun _ _ _ => rfl) arms

theorem leavesItems_replicate (item : Layout) (vs : List Value) :
    leavesItems (List.replicate vs.length item) vs = vs.flatMap (leaves item) := by
  induction vs with
  | nil => rfl
  | cons v vs ih => exact congrArg (leaves item v ++ ·) ih

/-- A value is written as its leaves are. -/
theorem Shaped.encode_eq {layout : Layout} {v : Value} (hv : Shaped layout v) :
    layout.encode v = writeLeaves (layout.leaves v) := by
  induction hv with
  | uint width n => exact (writeLeaves_singleton (.unsigned width n)).symm
  | sint width n => exact (writeLeaves_singleton (.signed width n)).symm
  | bool b => exact (writeLeaves_singleton (.raw _)).symm
  | bytes width body => exact (writeLeaves_counted width body).symm
  | text width s => exact (writeLeaves_counted width (utf8 s)).symm
  | key k => exact (writeLeaves_singleton (.raw _)).symm
  | noKey => exact (writeLeaves_singleton (.raw _)).symm
  | someKey k => exact (writeLeaves_singleton (.raw _)).symm
  | fixed length body => exact (writeLeaves_singleton (.fixed length body)).symm
  | unit => rfl
  | absent item => rfl
  | @present item v _ ih =>
    by_cases habsent : v = .absent
    · subst habsent
      rfl
    · rw [encode, leaves, ih]
      · rfl
      · exact habsent
      · exact habsent
  | @vec item vs _ ih =>
    rw [encode, encodeItems_replicate, leaves, leavesItems_replicate] at ih
    rw [encode, leaves, ih]
    rfl
  | nil => rfl
  | @cons item items v vs _ _ ihv ihvs =>
    rw [encode, leaves] at ihvs
    rw [leaves, leavesItems, writeLeaves_append, ← ihv, ← ihvs]
    rfl
  | struct _ ih =>
    rw [encode_struct, ih, leaves, leaves, leavesFields_eq]
  | @known selector arms tag arm body harm _ ih =>
    rw [encode, encodeArm_eq, leaves, leavesArm_eq, harm, Option.map_some, Option.map_some,
      Option.getD_some, Option.getD_some, ih]
    rfl
  | @unknown selector arms tag harm hopen =>
    rw [encode, encodeArm_eq, leaves, leavesArm_eq, harm, hopen]
    rfl

/-- A value is refused for its first leaf without a written form. -/
theorem Shaped.write_eq_error_iff {layout : Layout} {v : Value} (hv : Shaped layout v) {e : Error} :
    layout.write v = .error e ↔ ∃ before leaf after, layout.leaves v = before ++ leaf :: after ∧
      (∀ l ∈ before, l.Representable) ∧ ¬ leaf.Representable ∧ e = .unencodable leaf.fault := by
  rw [write, Checked.mapError_eq_error, hv.encode_eq]
  simp only [writeLeaves_eq_error]
  constructor
  · rintro ⟨_, ⟨before, leaf, after, hsplit, hbefore, hleaf, rfl⟩, rfl⟩
    exact ⟨before, leaf, after, hsplit, hbefore, hleaf, rfl⟩
  · rintro ⟨before, leaf, after, hsplit, hbefore, hleaf, rfl⟩
    exact ⟨_, ⟨before, leaf, after, hsplit, hbefore, hleaf, rfl⟩, rfl⟩

/--
A value is refused just if one of its leaves has no written form, and for the first of these. What
an absent option or a toggle that is not set could hold is never a reason. A value that is written
has all its leaves in the data, one behind the other and each in full.
-/
theorem write_refuses_first :
    (∀ (layout : Layout) (v : Value), Shaped layout v →
      ((∃ e, layout.write v = .error e) ↔ ∃ leaf ∈ layout.leaves v, ¬ leaf.Representable) ∧
      (∀ e, layout.write v = .error e ↔ ∃ before leaf after,
        layout.leaves v = before ++ leaf :: after ∧ (∀ l ∈ before, l.Representable) ∧
        ¬ leaf.Representable ∧ e = .unencodable leaf.fault) ∧
      ∀ data, layout.write v = .ok data →
        ∃ parts, List.Forall₂ Leaf.Holds (layout.leaves v) parts ∧ data = parts.flatten) ∧
    (∀ item : Layout, ∃ data, (Layout.option item).write .absent = .ok data) ∧
    ∀ (item : Layout) (α : Type) (f : α → Value) (t : Toggle α), t.value? = none →
      ∃ data, (Toggle.layout item).write (t.toValue f) = .ok data := by
  refine ⟨?_, fun item => ⟨[0], rfl⟩, ?_⟩
  · intro layout v hv
    have hholds : ∀ data, layout.write v = .ok data →
        ∃ parts, List.Forall₂ Leaf.Holds (layout.leaves v) parts ∧ data = parts.flatten := by
      intro data h
      rw [write_eq_ok, hv.encode_eq] at h
      exact exists_holds_of_writeLeaves h
    refine ⟨⟨?_, ?_⟩, fun e => hv.write_eq_error_iff, hholds⟩
    · rintro ⟨e, h⟩
      obtain ⟨before, leaf, after, hsplit, -, hleaf, -⟩ := hv.write_eq_error_iff.mp h
      exact ⟨leaf, by simp [hsplit], hleaf⟩
    · rintro ⟨leaf, hmem, hleaf⟩
      cases h : layout.write v with
      | error e => exact ⟨e, rfl⟩
      | ok data =>
        obtain ⟨parts, hparts, -⟩ := hholds data h
        have hboth := hparts.imp fun _ _ hl => And.intro hl.representable hl
        exact absurd (((List.forall₂_and_left _ _).mp hboth).1 leaf hmem) hleaf
  · intro item α f t ht
    cases t with
    | unchanged => exact ⟨[0], rfl⟩
    | clear => exact ⟨[1], rfl⟩
    | set a => cases ht

/-- The second number of a list is too low, and bytes behind it are too few. -/
theorem write_refuses_first_number :
    let layout : Layout :=
      .tuple [.option .u8, Toggle.layout (.fixed 2), .vec .i16, .fixed 3]
    let low : Value := .seq [.absent, .variant 0 .absent, .seq [.int 5, .int (-32769)], .bytes [1]]
    let least : Value :=
      .seq [.int 255, .variant 1 .absent, .seq [.int (-32768)], .bytes [1, 2, 3]]
    Shaped layout low ∧ layout.write low = .error (.unencodable .outOfRange) ∧
      Shaped layout least ∧ ¬ ∃ e, layout.write least = .error e := by
  intro layout low least
  have hlow : Shaped layout low := .cons (.absent _) (.cons (.known rfl .unit)
    (.cons (.vec (.cons (.sint 2 5) (.cons (.sint 2 (-32769)) .nil))) (.cons (.fixed 3 _) .nil)))
  have hleast : Shaped layout least := .cons (.present (.uint 1 255)) (.cons (.known rfl .unit)
    (.cons (.vec (.cons (.sint 2 (-32768)) .nil)) (.cons (.fixed 3 _) .nil)))
  refine ⟨hlow, ?_, hleast, ?_⟩
  · apply ((write_refuses_first.1 layout low hlow).2.1 _).mpr
    exact ⟨[.raw [0], .unsigned 1 0, .unsigned 4 2, .signed 2 5], .signed 2 (-32769),
      [.fixed 3 [1]], rfl, by decide, by decide, rfl⟩
  · rw [(write_refuses_first.1 layout least hleast).1]
    decide

end Layout
end TokenWire
