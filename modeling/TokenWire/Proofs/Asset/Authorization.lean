import Mathlib.Data.List.Nodup
import TokenWire.Asset.Authorization
import TokenWire.Proofs.Entries
import TokenWire.Proofs.Layout.Typed

/-! Named values for rules are read back from their data, in the order of their names. -/

namespace TokenWire.Asset

open Layout

namespace Payload

theorem shaped_toValue (p : Payload) : layout.Shaped p.toValue := by
  cases p with
  | key k => exact .known rfl (.key k)
  | seeds items => exact .known rfl (.list fun body _ => .bytes 4 body)
  | merkleProof nodes => exact .known rfl (.list fun node _ => .fixed 32 node)
  | number n => exact .known rfl (.uint 8 n)

theorem ofValue_toValue (p : Payload) : ofValue p.toValue = .ok p := by
  have hbytes : ∀ bs : Bytes, Value.asBytes (.bytes bs) = .ok bs := fun _ => rfl
  cases p with
  | key k => rfl
  | number n => rfl
  | seeds items =>
    rw [toValue, ofValue, Value.asList_list hbytes]
    rfl
  | merkleProof nodes =>
    rw [toValue, ofValue, Value.asList_list hbytes]
    rfl

theorem exists_toValue {v : Value} (h : layout.Shaped v) : ∃ p : Payload, p.toValue = v := by
  have hbytes : ∀ v, Shaped blob v → ∃ bs, Value.bytes bs = v := by
    rintro _ ⟨⟩
    exact ⟨_, rfl⟩
  have hnode : ∀ v, Shaped (.fixed 32) v → ∃ bs, Value.bytes bs = v := by
    rintro _ ⟨⟩
    exact ⟨_, rfl⟩
  cases h with
  | unknown _ hopen => cases hopen
  | @known _ _ tag arm body harm hbody =>
    match tag, harm with
    | 0, rfl =>
      obtain ⟨k, rfl⟩ := shaped_key.mp hbody
      exact ⟨key k, rfl⟩
    | 1, rfl =>
      obtain ⟨vs, rfl, hvs⟩ := shaped_vec.mp hbody
      obtain ⟨items, hitems⟩ := Value.exists_list fun v hv => hbytes v (hvs v hv)
      exact ⟨seeds items, congrArg (Value.variant 1) hitems⟩
    | 2, rfl =>
      obtain ⟨vs, rfl, hvs⟩ := shaped_vec.mp hbody
      obtain ⟨nodes, hnodes⟩ := Value.exists_list fun v hv => hnode v (hvs v hv)
      exact ⟨merkleProof nodes, congrArg (Value.variant 2) hnodes⟩
    | 3, rfl =>
      obtain ⟨n, rfl⟩ := shaped_uint.mp hbody
      exact ⟨number n, rfl⟩

end Payload

namespace Authorization

theorem pairwise_sorted (a : Authorization) : (sorted a).Pairwise fun x y => x.1 ≤ y.1 := by
  have htrans : ∀ x y z : String × Payload,
      decide (x.1 ≤ y.1) = true → decide (y.1 ≤ z.1) = true → decide (x.1 ≤ z.1) = true := by
    simp only [decide_eq_true_eq]
    exact fun x y z => String.le_trans
  have htotal : ∀ x y : String × Payload, (decide (x.1 ≤ y.1) || decide (y.1 ≤ x.1)) = true := by
    simp only [Bool.or_eq_true, decide_eq_true_eq]
    exact fun x y => String.le_total x.1 y.1
  have hpairwise := List.pairwise_mergeSort htrans htotal a.toList
  exact hpairwise.imp of_decide_eq_true

theorem sorted_perm (a : Authorization) : (sorted a).Perm a.toList :=
  List.mergeSort_perm ..

/-- Entries in ascending order of their names are what is written, in whatever order they came. -/
theorem sorted_eq {a : Authorization} {xs : List (String × Payload)} (h : a.toList.Perm xs)
    (hxs : xs.Pairwise fun x y => x.1 ≤ y.1) : sorted a = xs := by
  have hperm := sorted_perm a
  refine (hperm.trans h).eq_of_pairwise ?_ (pairwise_sorted a) hxs
  intro x y hx hy hle hge
  have hname := String.le_antisymm hle hge
  exact List.inj_on_of_nodup_map a.nodup_names (hperm.mem_iff.mp hx) (h.mem_iff.mpr hy) hname

/-- The same entries in ascending order of their names. -/
def ordered (a : Authorization) : Authorization where
  toList := sorted a
  nodup_names := ((sorted_perm a).map Prod.fst).nodup_iff.mpr a.nodup_names

theorem find?_ordered (a : Authorization) (name : String) :
    (ordered a).find? name = a.find? name :=
  Entries.find?_eq_of_perm (sorted_perm a) name

theorem shaped_toValue (a : Authorization) : layout.Shaped (toValue a) :=
  .struct (.cons
    (.list fun entry _ => .cons (.text 4 entry.1) (.cons entry.2.shaped_toValue .nil)) .nil)

/-- Entries as a value, in their order. -/
def entriesValue (xs : List (String × Payload)) : Value :=
  .seq [.list (fun (name, payload) => .seq [.text name, payload.toValue]) xs]

theorem toValue_eq (a : Authorization) : toValue a = entriesValue (sorted a) := rfl

theorem exists_entriesValue {v : Value} (h : layout.Shaped v) : ∃ xs, entriesValue xs = v := by
  obtain ⟨_, _, rfl, hvec, hnil⟩ := shaped_tuple_cons.mp (shaped_struct.mp h)
  obtain ⟨vs, rfl, hvs⟩ := shaped_vec.mp hvec
  cases hnil
  have hentry : ∀ v ∈ vs, ∃ entry : String × Payload,
      Value.seq [.text entry.1, entry.2.toValue] = v := by
    intro v hv
    obtain ⟨_, _, rfl, htext, hrest⟩ := shaped_tuple_cons.mp (hvs v hv)
    obtain ⟨name, rfl⟩ := shaped_text.mp htext
    obtain ⟨_, _, ⟨⟩, hpayload, ⟨⟩⟩ := shaped_tuple_cons.mp hrest
    obtain ⟨p, rfl⟩ := Payload.exists_toValue hpayload
    exact ⟨(name, p), rfl⟩
  obtain ⟨xs, hxs⟩ := Value.exists_list hentry
  exact ⟨xs, congrArg (fun entries => Value.seq [entries]) hxs⟩

theorem ofValue_entriesValue (xs : List (String × Payload)) :
    ofValue (entriesValue xs) = .ok (Entries.ofList xs) := by
  have hentry : ∀ entry : String × Payload,
      entryOfValue (.seq [.text entry.1, entry.2.toValue]) = .ok entry := by
    intro entry
    rw [entryOfValue, entry.2.ofValue_toValue]
    rfl
  rw [entriesValue, ofValue, Value.asList_list hentry]
  rfl

theorem ofValue_toValue (a : Authorization) : ofValue (toValue a) = .ok (ordered a) := by
  rw [toValue_eq, ofValue_entriesValue]
  exact congrArg Except.ok (Entries.ofList_toList (ordered a))

end Authorization
end TokenWire.Asset
