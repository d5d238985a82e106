import TokenWire.Asset.Command
import TokenWire.AssociatedToken
import TokenWire.ComputeBudget
import TokenWire.Extension.Command
import TokenWire.Metadata.Command
import TokenWire.Metadata.State
import TokenWire.Proofs.Layout.Everywhere
import TokenWire.Proofs.Layout.RoundTrip
import TokenWire.SystemProgram.Command
import TokenWire.Token.Command

/-! What is read is written back as the same bytes, but for those that stand for yes or no. -/

namespace TokenWire.Layout

/-- Whether nothing is a value of a layout. -/
def nullable : Layout → Bool
  | .option _ | .sentinelKey | .unit => true
  | _ => false

/-- Whether this is no option of a layout that has nothing as a value. -/
def tellsAbsence : Layout → Bool
  | .option item => !item.nullable
  | _ => true

/-- Whether this has no byte of its own that stands for yes or no. -/
def flagFree : Layout → Bool
  | .bool | .option _ => false
  | _ => true

mutual

/-- Which bytes of the payload of a value stand for yes or no. -/
def flags : Layout → Value → List Bool
  | .bool, _ => [true]
  | .option _, .absent => [true]
  | .option item, v => true :: flags item v
  | .uint width, _ | .sint width, _ | .fixed width, _ => List.replicate width false
  | .bytes width, .bytes body => List.replicate (width + body.length) false
  | .text width, .text s => List.replicate (width + (utf8 s).length) false
  | .key, _ | .sentinelKey, _ => List.replicate 32 false
  | .vec item, .seq vs => List.replicate countWidth false ++ vs.flatMap (flags item)
  | .tuple items, .seq vs => flagsItems items vs
  | .struct fields, .seq vs => flagsFields fields vs
  | .tagged selector arms, .variant tag body =>
    List.replicate selector.width false ++ (flagsArm arms tag body).getD []
  | _, _ => []

def flagsItems : List Layout → List Value → List Bool
  | item :: items, v :: vs => flags item v ++ flagsItems items vs
  | _, _ => []

def flagsFields : List (String × Layout) → List Value → List Bool
  | (_, field) :: fields, v :: vs => flags field v ++ flagsFields fields vs
  | _, _ => []

def flagsArm : List (Nat × Layout) → Nat → Value → Option (List Bool)
  | [], _, _ => none
  | (t, arm) :: arms, tag, v => if t = tag then some (flags arm v) else flagsArm arms tag v

end

/-- Writes one for each yes. -/
def tidy : List Bool → Bytes → Bytes :=
  List.zipWith fun isFlag b => if isFlag && b != 0 then 1 else b

theorem flagsFields_eq (fields : List (String × Layout)) (vs : List Value) :
    flagsFields fields vs = flagsItems (fields.map Prod.snd) vs := by
  induction fields generalizing vs with
  | nil => cases vs <;> rfl
  | cons field fields ih =>
    cases vs with
    | nil => rfl
    | cons v vs => exact congrArg (flags field.2 v ++ ·) (ih vs)

theorem flagsArm_eq (arms : List (Nat × Layout)) (tag : Nat) (v : Value) :
    flagsArm arms tag v = (arms.lookup tag).map fun arm => arm.flags v :=
  eq_lookup_map _ (flagsArm · tag v) rfl (fun _ _ _ => rfl) arms

theorem flagsItems_replicate (item : Layout) (vs : List Value) :
    flagsItems (List.replicate vs.length item) vs = vs.flatMap (flags item) := by
  induction vs with
  | nil => rfl
  | cons v vs ih => exact congrArg (flags item v ++ ·) ih

theorem tidy_append {mask : List Bool} {front : Bytes} (h : mask.length = front.length)
    (mask' : List Bool) (back : Bytes) :
    tidy (mask ++ mask') (front ++ back) = tidy mask front ++ tidy mask' back :=
  List.zipWith_append h

theorem tidy_of_forall_false {mask : List Bool} {bs : Bytes}
    (hmask : ∀ isFlag ∈ mask, isFlag = false) (h : mask.length = bs.length) :
    tidy mask bs = bs := by
  induction mask generalizing bs with
  | nil => cases bs <;> trivial
  | cons isFlag mask ih =>
    cases bs with
    | nil => cases h
    | cons b bs =>
      have htail := ih (fun f hf => hmask f (List.mem_cons_of_mem _ hf)) (Nat.succ.inj h)
      rw [tidy, List.zipWith_cons_cons, hmask isFlag List.mem_cons_self]
      exact congrArg (b :: ·) htail

theorem tidy_replicate {n : Nat} {bs : Bytes} (h : bs.length = n) :
    tidy (List.replicate n false) bs = bs :=
  tidy_of_forall_false (fun _ => List.eq_of_mem_replicate) (by rw [List.length_replicate, h])

theorem Payload.ne_absent {layout : Layout} {bs : Bytes} {v : Value} (h : Payload layout bs v)
    (hn : layout.nullable = false) : v ≠ .absent := by
  rintro rfl
  cases h <;> cases hn

theorem Payload.flags_present {item : Layout} {bs : Bytes} {v : Value} (h : Payload item bs v)
    (hn : tellsAbsence (.option item)) : flags (.option item) v = true :: flags item v := by
  rw [flags]
  exact h.ne_absent (by simpa [tellsAbsence] using hn)

theorem Payload.length_flags {layout : Layout} {bs : Bytes} {v : Value} (h : Payload layout bs v)
    (hl : layout.everywhere tellsAbsence) : (layout.flags v).length = bs.length := by
  induction h with
  | uint _ => simp [flags, length_littleEndian]
  | sint _ => simp [flags, length_littleEndian]
  | bool b => rfl
  | bytes _ => simp [flags, length_littleEndian]
  | text _ => simp [flags, length_littleEndian]
  | key k => simp [flags, k.length_bytes]
  | noKey => simp [flags, Key.zero.length_bytes]
  | @someKey k _ => simp [flags, k.length_bytes]
  | fixed body => simp [flags]
  | unit => rfl
  | absent item => rfl
  | present _ hv ih =>
    obtain ⟨hn, hitem⟩ := everywhere_option.mp hl
    rw [hv.flags_present hn, List.length_cons, ih hitem, List.length_cons]
  | vec _ _ ih =>
    have hitems := ih (everywhere_replicate hl _)
    rw [flags, flagsItems_replicate] at hitems
    rw [flags, List.length_append, List.length_append, hitems, List.length_replicate,
      length_littleEndian]
  | nil => rfl
  | cons _ _ ihv ihvs =>
    obtain ⟨hitem, hitems⟩ := everywhere_tuple_cons.mp hl
    have hvs := ihvs hitems
    rw [flags] at hvs
    rw [flags, flagsItems, List.length_append, List.length_append, ihv hitem, hvs]
  | struct _ ih =>
    rw [everywhere_struct] at hl
    rw [flags, flagsFields_eq]
    exact ih hl
  | known _ harm _ ih =>
    rw [flags, flagsArm_eq, harm]
    simp [length_littleEndian, ih (everywhere_of_lookup hl harm)]
  | unknown _ harm _ =>
    rw [flags, flagsArm_eq, harm]
    simp [length_littleEndian]

/-- What is read is written as the same bytes, with one for each yes. -/
theorem Payload.encode_eq {layout : Layout} {bs : Bytes} {v : Value} (h : Payload layout bs v)
    (hl : layout.everywhere tellsAbsence) :
    layout.encode v = .ok (tidy (layout.flags v) bs) := by
  induction h with
  | @uint width n hn =>
    rw [encode, writeUnsigned_natCast hn, flags, tidy_replicate (length_littleEndian width n)]
  | @sint width n hn =>
    rw [encode, flags, tidy_replicate (length_littleEndian width n)]
    exact writeSigned_eq_ok.mpr ⟨n, rfl, hn, rfl⟩
  | bool b =>
    by_cases hb : b = 0
    · simp [encode, flags, tidy, hb]
    · simp [encode, flags, tidy, hb]
  | @bytes width body hlt =>
    rw [encode, flags, tidy_replicate (by simp [length_littleEndian])]
    exact writeCounted_eq_ok.mpr ⟨hlt, rfl⟩
  | @text width s hlt =>
    rw [encode, flags, tidy_replicate (by simp [length_littleEndian])]
    exact writeCounted_eq_ok.mpr ⟨hlt, rfl⟩
  | key k => rw [encode, flags, tidy_replicate k.length_bytes]
  | noKey => rw [encode, flags, tidy_replicate Key.zero.length_bytes]
  | @someKey k _ => rw [encode, flags, tidy_replicate k.length_bytes]
  | fixed body => rw [encode, flags, tidy_replicate rfl, if_pos rfl]
  | unit => rfl
  | absent item => rfl
  | @present item b bs v hb hv ih =>
    obtain ⟨hn, hitem⟩ := everywhere_option.mp hl
    rw [hv.flags_present hn]
    refine (encode_option_eq_ok (hv.ne_absent (by simpa [tellsAbsence] using hn))).mpr ?_
    exact ⟨_, ih hitem, by simp [tidy, hb]⟩
  | @vec item bs vs hlt hvs ih =>
    have hitems := everywhere_replicate hl vs.length
    have hbody := ih hitems
    have hlength := hvs.length_flags hitems
    rw [flags, flagsItems_replicate] at hbody hlength
    refine encode_vec_eq_ok.mpr ⟨_, hlt, hbody, ?_⟩
    rw [flags, tidy_append (by simp [length_littleEndian]),
      tidy_replicate (length_littleEndian ..)]
  | nil => rfl
  | @cons item items front back v vs hv hvs ihv ihvs =>
    obtain ⟨hitem, hitems⟩ := everywhere_tuple_cons.mp hl
    refine encode_tuple_cons_eq_ok.mpr ⟨_, _, ihv hitem, ihvs hitems, ?_⟩
    rw [flags, flagsItems, tidy_append (hv.length_flags hitem), flags]
  | struct _ ih =>
    rw [everywhere_struct] at hl
    rw [encode_struct, flags, flagsFields_eq]
    exact ih hl
  | @known selector arms tag arm bs body htag harm hbody ih =>
    have hwritten := ih (everywhere_of_lookup hl harm)
    refine encode_tagged_eq_ok.mpr ⟨_, htag, ?_, Or.inl ⟨arm, harm, hwritten⟩⟩
    rw [flags, flagsArm_eq, harm, tidy_append (by simp [length_littleEndian]),
      tidy_replicate (length_littleEndian ..)]
    rfl
  | unknown htag harm hopen =>
    refine encode_tagged_eq_ok.mpr ⟨[], htag, ?_, Or.inr ⟨harm, hopen, rfl⟩⟩
    rw [flags, flagsArm_eq, harm, List.append_nil]
    exact (congrArg (tidy · _) (List.append_nil _)).trans (tidy_replicate (length_littleEndian ..))

theorem Payload.flags_of_flagFree {layout : Layout} {bs : Bytes} {v : Value}
    (h : Payload layout bs v) (hl : layout.everywhere flagFree) :
    ∀ isFlag ∈ layout.flags v, isFlag = false := by
  induction h with
  | bool b => cases hl
  | absent item => cases (everywhere_option.mp hl).1
  | present _ _ _ => cases (everywhere_option.mp hl).1
  | vec _ _ ih =>
    have hitems := ih (everywhere_replicate hl _)
    rw [flags, flagsItems_replicate] at hitems
    intro isFlag hf
    rw [flags] at hf
    rcases List.mem_append.mp hf with hf | hf
    · exact List.eq_of_mem_replicate hf
    · exact hitems isFlag hf
  | cons _ _ ihv ihvs =>
    obtain ⟨hitem, hitems⟩ := everywhere_tuple_cons.mp hl
    intro isFlag hf
    rw [flags, flagsItems] at hf
    rcases List.mem_append.mp hf with hf | hf
    · exact ihv hitem isFlag hf
    · exact ihvs hitems isFlag (by rwa [flags])
  | struct _ ih =>
    rw [everywhere_struct] at hl
    intro isFlag hf
    rw [flags, flagsFields_eq] at hf
    exact ih hl isFlag (by rwa [flags])
  | known _ harm _ ih =>
    intro isFlag hf
    rw [flags, flagsArm_eq, harm] at hf
    rcases List.mem_append.mp hf with hf | hf
    · exact List.eq_of_mem_replicate hf
    · exact ih (everywhere_of_lookup hl harm) isFlag hf
  | unknown _ harm _ =>
    intro isFlag hf
    rw [flags, flagsArm_eq, harm] at hf
    rcases List.mem_append.mp hf with hf | hf
    · exact List.eq_of_mem_replicate hf
    · cases hf
  | nil => exact fun _ hf => nomatch hf
  | unit => exact fun _ hf => nomatch hf
  | _ => exact fun _ => List.eq_of_mem_replicate

/-- The layouts of the instruction data of the programs. -/
def instructionLayouts : List Layout :=
  [SystemProgram.layout, Token.layout, Extension.layout, Metadata.layout, AssociatedToken.layout,
    ComputeBudget.layout, Asset.layout]

/-- Those of them, and of the metadata of a mint, without flags. -/
def flagFreeLayouts : List Layout :=
  [Metadata.State.layout, SystemProgram.layout, ComputeBudget.layout, AssociatedToken.layout,
    Metadata.layout]

theorem everywhere_tellsAbsence_of_mem :
    ∀ layout ∈ instructionLayouts, layout.everywhere tellsAbsence := by
  decide

theorem everywhere_flagFree_of_mem : ∀ layout ∈ flagFreeLayouts, layout.everywhere flagFree := by
  decide

theorem tellsAbsence_of_flagFree (layout : Layout) (h : layout.flagFree) :
    layout.tellsAbsence := by
  cases layout with
  | option item => cases h
  | _ => rfl

theorem Payload.encode_eq_of_flagFree {layout : Layout} {bs : Bytes} {v : Value}
    (h : Payload layout bs v) (hl : layout.everywhere flagFree) : layout.encode v = .ok bs := by
  have htells := everywhere_mono tellsAbsence_of_flagFree hl
  rw [h.encode_eq htells, tidy_of_forall_false (h.flags_of_flagFree hl) (h.length_flags htells)]

/--
Accepted data is written back with one for each yes, and otherwise as it was. So a layout without
flags accepts just what is written by it.
-/
theorem write_parse (layout : Layout) :
    (layout.everywhere tellsAbsence ∨ layout ∈ instructionLayouts →
      ∀ data v, layout.parse data = .ok v → ∃ data', layout.write v = .ok data' ∧
        data'.length = data.length ∧ data' = tidy (layout.flags v) data ∧
        layout.parse data' = .ok v) ∧
    (layout.everywhere flagFree ∨ layout ∈ flagFreeLayouts →
      ∀ data, (∀ v, layout.parse data = .ok v → layout.write v = .ok data) ∧
        ((∃ v, layout.parse data = .ok v) ↔ ∃ v, Shaped layout v ∧ layout.write v = .ok data)) := by
  constructor
  · intro hl data v hv
    have htells := hl.elim id (everywhere_tellsAbsence_of_mem layout)
    have hpayload := parse_eq_ok_iff_payload.mp hv
    have hwrite := hpayload.encode_eq htells
    have hread := hpayload.shaped.payload hwrite
    rw [hpayload.normalize_eq] at hread
    refine ⟨_, write_eq_ok.mpr hwrite, ?_, rfl, parse_eq_ok_iff_payload.mpr hread⟩
    rw [tidy, List.length_zipWith, hpayload.length_flags htells, Nat.min_self]
  · intro hl data
    have hfree := hl.elim id (everywhere_flagFree_of_mem layout)
    have hwrite : ∀ v, layout.parse data = .ok v → layout.write v = .ok data := by
      intro v hv
      have hpayload := parse_eq_ok_iff_payload.mp hv
      exact write_eq_ok.mpr (hpayload.encode_eq_of_flagFree hfree)
    refine ⟨hwrite, ?_, ?_⟩
    · rintro ⟨v, hv⟩
      exact ⟨v, (parse_eq_ok_iff_payload.mp hv).shaped, hwrite v hv⟩
    · rintro ⟨v, hshape, hv⟩
      exact ⟨_, parse_eq_ok_iff_payload.mpr (hshape.payload (write_eq_ok.mp hv))⟩

/-- A yes of 7 and an option marked by 9, and the number of no instruction of the system program. -/
theorem write_parse_untidy :
    let pair : Layout := .tuple [.bool, .option .u16]
    let held : Value := .seq [.bool true, .int 513]
    pair.parse [7, 9, 1, 2] = .ok held ∧ pair.write held = .ok [1, 1, 1, 2] ∧
      pair.parse [1, 1, 1, 2] = .ok held ∧
      SystemProgram.layout.parse [99, 0, 0, 0] = .ok (.variant 99 .absent) ∧
      SystemProgram.layout.write (.variant 99 .absent) = .ok [99, 0, 0, 0] := by
  intro pair held
  have hv : pair.parse [7, 9, 1, 2] = .ok held := rfl
  obtain ⟨data', hwrite, -, rfl, hread⟩ := (write_parse pair).1 (Or.inl rfl) _ _ hv
  have hmem : SystemProgram.layout ∈ flagFreeLayouts := List.mem_cons_of_mem _ List.mem_cons_self
  have hunknown : SystemProgram.layout.parse [99, 0, 0, 0] = .ok (.variant 99 .absent) := rfl
  exact ⟨hv, hwrite, hread, hunknown, ((write_parse _).2 (Or.inr hmem) _).1 _ hunknown⟩

end TokenWire.Layout
