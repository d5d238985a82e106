import TokenWire.Proofs.Asset.Authorization
import TokenWire.Proofs.Layout.Canonical
import TokenWire.Proofs.Layout.Writable
import TokenWire.Proofs.Text.Utf8

/-! Named values have one written form, with their names in the order of the bytes of these. -/

namespace TokenWire.Asset.Authorization

open Layout

variable {a : Authorization} {xs : List (String × Payload)} {data : Bytes}

/-- The bytes of an entry are its name, behind the number of its bytes, and its value. -/
def WritesEntry (entry : String × Payload) (bs : Bytes) : Prop :=
  ∃ body, (utf8 entry.1).length < capacity 4 ∧ Payload.layout.write entry.2.toValue = .ok body ∧
    bs = littleEndian 4 (utf8 entry.1).length ++ utf8 entry.1 ++ body

/-- The data is the number of the entries, and the bytes of each in their order. -/
def Writes (xs : List (String × Payload)) (data : Bytes) : Prop :=
  ∃ parts, xs.length < capacity 4 ∧ List.Forall₂ WritesEntry xs parts ∧
    data = littleEndian 4 xs.length ++ parts.flatten

theorem encode_entry_eq_ok {entry : String × Payload} {bs : Bytes} :
    encode (.tuple [.string, Payload.layout]) (.seq [.text entry.1, entry.2.toValue]) = .ok bs ↔
      WritesEntry entry bs := by
  simp only [encode_tuple_cons_eq_ok]
  constructor
  · rintro ⟨_, _, hname, ⟨body, _, hbody, ⟨⟩, rfl⟩, rfl⟩
    obtain ⟨hlt, rfl⟩ := writeCounted_eq_ok.mp hname
    exact ⟨body, hlt, write_eq_ok.mpr hbody, by rw [List.append_nil]⟩
  · rintro ⟨body, hlt, hbody, rfl⟩
    exact ⟨_, _, writeCounted_eq_ok.mpr ⟨hlt, rfl⟩,
      ⟨body, [], write_eq_ok.mp hbody, rfl, (List.append_nil body).symm⟩, rfl⟩

theorem write_entriesValue : layout.write (entriesValue xs) = .ok data ↔ Writes xs data := by
  rw [write_eq_ok, entriesValue, layout, encode_struct, List.map_cons, List.map_nil,
    encode_tuple_cons_eq_ok]
  constructor
  · rintro ⟨_, _, hlist, ⟨⟩, rfl⟩
    obtain ⟨parts, hlt, hparts, rfl⟩ := encode_list_eq_ok.mp hlist
    exact ⟨parts, hlt, hparts.imp fun _ _ => encode_entry_eq_ok.mp, List.append_nil _⟩
  · rintro ⟨parts, hlt, hparts, rfl⟩
    have hlist := hparts.imp fun _ _ => encode_entry_eq_ok.mpr
    exact ⟨_, [], encode_list_eq_ok.mpr ⟨parts, hlt, hlist, rfl⟩, rfl, (List.append_nil _).symm⟩

theorem writable_entriesValue : layout.Writable (entriesValue xs) ↔
    xs.length < capacity countWidth ∧ ∀ entry ∈ xs,
      Writable (.tuple [.string, Payload.layout]) (.seq [.text entry.1, entry.2.toValue]) := by
  rw [entriesValue, layout, writable_struct, List.map_cons, List.map_nil, writable_tuple_cons,
    writable_list]
  exact and_iff_left writable_tuple_nil

/-- Fewer of the entries can be written as well. -/
theorem writable_of_subperm {ys : List (String × Payload)} (h : ys.Subperm xs)
    (hxs : layout.Writable (entriesValue xs)) : layout.Writable (entriesValue ys) := by
  obtain ⟨hlt, hentries⟩ := writable_entriesValue.mp hxs
  exact writable_entriesValue.mpr ⟨Nat.lt_of_le_of_lt h.length_le hlt,
    fun entry hentry => hentries entry (h.subset hentry)⟩

/-- The entries are written in the order of the bytes of their names, without repetition. -/
theorem pairwise_utf8_lt (a : Authorization) :
    (sorted a).Pairwise fun x y => utf8 x.1 < utf8 y.1 := by
  have hnodup : ((sorted a).map Prod.fst).Nodup := (ordered a).nodup_names
  have hne := List.pairwise_map.mp hnodup
  refine ((pairwise_sorted a).and hne).imp ?_
  rintro x y ⟨hle, hne⟩
  exact utf8_lt (String.not_le.mp fun hge => hne (String.le_antisymm hle hge))

theorem toValue_eq_of_perm {b : Authorization} (h : b.toList.Perm a.toList) :
    toValue b = toValue a := by
  rw [toValue_eq, toValue_eq, sorted_eq (h.trans (sorted_perm a).symm) (pairwise_sorted a)]

/-- What is written of named values is read back as the same values. -/
theorem parse_of_write (h : layout.write (toValue a) = .ok data) :
    layout.parse data = .ok (toValue a) :=
  a.shaped_toValue.parse_of_write rfl h

/-- The values read from entries can be written, since no entries come in but theirs. -/
theorem exists_write_ofList (h : layout.write (entriesValue xs) = .ok data) :
    ∃ data', layout.write (toValue (Entries.ofList xs)) = .ok data' := by
  have hsubperm : (sorted (Entries.ofList xs)).Subperm xs := by
    have hperm := sorted_perm (Entries.ofList xs)
    rw [Entries.toList_ofList] at hperm
    exact hperm.subperm.trans (Entries.putAll_subperm [] xs)
  apply writable_iff_write.mp
  exact writable_of_subperm hsubperm (writable_iff_write.mpr ⟨data, h⟩)

/--
Named values are written in the order of the bytes of their names, in whatever order they came,
and are read back as the same values. Of data that is read, unordered as its names may be, the last
value of each name counts; what is written of these is read back as the same, and written as the
same bytes.
-/
theorem authorization_canonical :
    (∀ (a : Authorization) (data : Bytes), layout.write (toValue a) = .ok data →
      (∃ xs : List (String × Payload), xs.Perm a.toList ∧
        xs.Pairwise (fun x y => utf8 x.1 < utf8 y.1) ∧ Writes xs data) ∧
      (∀ b : Authorization, b.toList.Perm a.toList → layout.write (toValue b) = .ok data) ∧
      ∃ v a', layout.parse data = .ok v ∧ ofValue v = .ok a' ∧ a'.toList.Perm a.toList) ∧
    ∀ (data : Bytes) (v : Value), layout.parse data = .ok v →
      ∃ xs a data', Writes xs data ∧ ofValue v = .ok a ∧
        (∀ name, a.find? name = xs.reverse.lookup name) ∧
        layout.write (toValue a) = .ok data' ∧
        ∃ v' a', layout.parse data' = .ok v' ∧ ofValue v' = .ok a' ∧ a'.toList.Perm a.toList ∧
          layout.write (toValue a') = .ok data' := by
  constructor
  · intro a data h
    refine ⟨⟨sorted a, sorted_perm a, pairwise_utf8_lt a, write_entriesValue.mp h⟩, ?_, ?_⟩
    · intro b hperm
      rwa [toValue_eq_of_perm hperm]
    · exact ⟨_, ordered a, parse_of_write h, ofValue_toValue a, sorted_perm a⟩
  · intro data v hv
    have hpayload := parse_eq_ok_iff_payload.mp hv
    obtain ⟨xs, rfl⟩ := exists_entriesValue hpayload.shaped
    have hwrite := write_eq_ok.mpr (hpayload.encode_eq_of_flagFree (by decide))
    obtain ⟨data', hdata'⟩ := exists_write_ofList hwrite
    have hagain : toValue (ordered (Entries.ofList xs)) = toValue (Entries.ofList xs) :=
      toValue_eq_of_perm (sorted_perm _)
    refine ⟨xs, _, data', write_entriesValue.mp hwrite, ofValue_entriesValue xs,
      Entries.find?_ofList xs, hdata', _, _, parse_of_write hdata', ofValue_toValue _,
      sorted_perm _, ?_⟩
    rwa [hagain]

/-- A name of four bytes comes behind one of three, and a name is read twice. -/
theorem authorization_canonical_names :
    let a : Authorization := ⟨[("😀", .number 1), ("ﬀ", .seeds [[7]])], by decide⟩
    let b : Authorization := ⟨[("ﬀ", .seeds [[7]]), ("😀", .number 1)], by decide⟩
    let data : Bytes := [2, 0, 0, 0, 3, 0, 0, 0, 239, 172, 128, 1, 1, 0, 0, 0, 1, 0, 0, 0, 7,
      4, 0, 0, 0, 240, 159, 152, 128, 3, 1, 0, 0, 0, 0, 0, 0, 0]
    let untidy : Bytes := [3, 0, 0, 0, 1, 0, 0, 0, 98, 3, 1, 0, 0, 0, 0, 0, 0, 0,
      1, 0, 0, 0, 97, 1, 0, 0, 0, 0, 1, 0, 0, 0, 98, 3, 2, 0, 0, 0, 0, 0, 0, 0]
    layout.write (toValue a) = .ok data ∧ layout.write (toValue b) = .ok data ∧
      (∃ v a', layout.parse data = .ok v ∧ ofValue v = .ok a' ∧ a'.toList.Perm a.toList) ∧
      ∃ v c, layout.parse untidy = .ok v ∧ ofValue v = .ok c ∧ c.find? "b" = some (.number 2) ∧
        ∃ data', layout.write (toValue c) = .ok data' := by
  intro a b data untidy
  have hswap : b.toList.Perm a.toList := List.Perm.swap ..
  have hordered : b.toList.Pairwise fun x y => x.1 ≤ y.1 := by decide
  have h : layout.write (toValue a) = .ok data := by
    rw [toValue_eq, sorted_eq hswap.symm hordered]
    exact (rfl : layout.write (entriesValue [("ﬀ", .seeds [[7]]), ("😀", .number 1)]) = .ok data)
  let entries : List (String × Payload) := [("b", .number 1), ("a", .seeds []), ("b", .number 2)]
  have hread : layout.parse untidy = .ok (entriesValue entries) := rfl
  obtain ⟨-, hsame, hagain⟩ := authorization_canonical.1 a data h
  obtain ⟨-, c, data', -, hc, -, hdata', -⟩ := authorization_canonical.2 untidy _ hread
  have hlast : c.find? "b" = some (.number 2) := by
    rw [ofValue_entriesValue] at hc
    rw [← Except.ok.inj hc]
    rfl
  exact ⟨h, hsame b hswap, hagain, _, c, hread, hc, hlast, data', hdata'⟩

end TokenWire.Asset.Authorization
