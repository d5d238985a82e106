import Mathlib.Data.List.Perm.Subperm
import TokenWire.Metadata.State
import TokenWire.Proofs.Layout.Length

/-! The bytes that metadata takes as an entry of an account, and how they grow with its pairs. -/

namespace TokenWire.Metadata

/-- The text fits the count in front of it. -/
def Short (s : String) : Prop :=
  (utf8 s).length < capacity 4

instance (s : String) : Decidable (Short s) :=
  inferInstanceAs (Decidable ((utf8 s).length < capacity 4))

/-- The bytes of a text with the count in front of it. -/
def textLength (s : String) : Nat :=
  4 + (utf8 s).length

/-- The bytes of pairs one after the other. -/
def pairsLength : List (String × String) → Nat
  | [] => 0
  | (key, text) :: pairs => textLength key + textLength text + pairsLength pairs

variable {xs ys : List (String × String)} {n : Nat}

theorem pairsLength_perm (h : xs.Perm ys) : pairsLength xs = pairsLength ys := by
  induction h with
  | nil => rfl
  | cons x _ ih => simp only [pairsLength, ih]
  | swap x y xs => simp only [pairsLength]; omega
  | trans _ _ ih₁ ih₂ => exact ih₁.trans ih₂

theorem pairsLength_sublist (h : xs.Sublist ys) : pairsLength xs ≤ pairsLength ys := by
  induction h with
  | slnil => exact Nat.le_refl _
  | cons y _ ih => simp only [pairsLength]; omega
  | cons_cons x _ ih => simp only [pairsLength]; omega

theorem pairsLength_subperm (h : xs.Subperm ys) : pairsLength xs ≤ pairsLength ys := by
  obtain ⟨zs, hperm, hsub⟩ := h
  rw [← pairsLength_perm hperm]
  exact pairsLength_sublist hsub

theorem pairsLength_le (h : ∀ pair ∈ xs, Short pair.1 ∧ Short pair.2) :
    pairsLength xs ≤ xs.length * (2 * (4 + capacity 4)) := by
  induction xs with
  | nil => exact Nat.zero_le _
  | cons pair xs ih =>
    obtain ⟨⟨hkey, htext⟩, hxs⟩ := List.forall_mem_cons.mp h
    have hle := ih hxs
    unfold Short at hkey htext
    rw [List.length_cons, Nat.succ_mul]
    simp only [pairsLength, textLength]
    omega

theorem packedLength_pairs :
    Layout.packedLength (.tuple (List.replicate xs.length (.tuple [.string, .string])))
        (.seq (xs.map fun (key, text) => .seq [.text key, .text text])) = .ok n ↔
      (∀ pair ∈ xs, Short pair.1 ∧ Short pair.2) ∧ n = pairsLength xs := by
  induction xs generalizing n with
  | nil => simp [Layout.packedLength_tuple_nil, pairsLength]
  | cons pair xs ih =>
    obtain ⟨key, text⟩ := pair
    simp only [List.length_cons, List.replicate_succ, List.map_cons, List.forall_mem_cons,
      Layout.packedLength_tuple_cons, Layout.packedLength_tuple_nil, Layout.packedLength_text, ih]
    constructor
    · rintro ⟨_, _, ⟨_, _, ⟨hkey, rfl⟩, ⟨_, _, ⟨htext, rfl⟩, rfl, rfl⟩, rfl⟩, ⟨hxs, rfl⟩, rfl⟩
      exact ⟨⟨⟨hkey, htext⟩, hxs⟩, rfl⟩
    · rintro ⟨⟨⟨hkey, htext⟩, hxs⟩, rfl⟩
      exact ⟨_, _, ⟨_, _, ⟨hkey, rfl⟩, ⟨_, _, ⟨htext, rfl⟩, rfl, rfl⟩, rfl⟩, ⟨hxs, rfl⟩, rfl⟩

namespace State

variable {s : State}

/-- All texts of the metadata and the number of its pairs fit their counts. -/
structure Fits (s : State) : Prop where
  name : Short s.name
  symbol : Short s.symbol
  uri : Short s.uri
  pairs : ∀ pair ∈ s.additional, Short pair.1 ∧ Short pair.2
  count : s.additional.length < capacity Layout.countWidth

/-- The bytes of the metadata as an entry: its header, two keys, three texts, and its pairs. -/
def size (s : State) : Nat :=
  headerLength + 64 + textLength s.name + textLength s.symbol + textLength s.uri +
    (Layout.countWidth + pairsLength s.additional)

theorem Fits.size_lt (h : s.Fits) : s.size < capacity 9 := by
  obtain ⟨hname, hsymbol, huri, hpairs, hcount⟩ := h
  have hle := pairsLength_le hpairs
  have hmul : s.additional.length * (2 * (4 + capacity 4)) ≤ capacity 4 * (2 * (4 + capacity 4)) :=
    Nat.mul_le_mul_right _ (Nat.le_of_lt hcount)
  have hcap : headerLength + 64 + 3 * (4 + capacity 4) +
      (Layout.countWidth + capacity 4 * (2 * (4 + capacity 4))) < capacity 9 := by decide
  unfold Short at hname hsymbol huri
  simp only [size, textLength]
  omega

theorem packedLength_toValue :
    layout.packedLength s.toValue = .ok n ↔ s.Fits ∧ headerLength + n = s.size := by
  simp only [layout, toValue, Value.list, Layout.packedLength_struct, List.map_cons, List.map_nil,
    Layout.packedLength_tuple_cons, Layout.packedLength_tuple_nil, Layout.packedLength_sentinelKey,
    Layout.packedLength_key, Layout.packedLength_text, Layout.packedLength_vec, List.length_map,
    packedLength_pairs]
  constructor
  · rintro ⟨_, _, rfl, ⟨_, _, rfl, ⟨_, _, ⟨hname, rfl⟩, ⟨_, _, ⟨hsymbol, rfl⟩, ⟨_, _, ⟨huri, rfl⟩,
      ⟨_, _, ⟨hcount, _, ⟨hpairs, rfl⟩, rfl⟩, rfl, rfl⟩, rfl⟩, rfl⟩, rfl⟩, rfl⟩, rfl⟩
    refine ⟨⟨hname, hsymbol, huri, hpairs, hcount⟩, ?_⟩
    simp only [size, textLength]
    omega
  · rintro ⟨⟨hname, hsymbol, huri, hpairs, hcount⟩, hsize⟩
    refine ⟨_, _, rfl, ⟨_, _, rfl, ⟨_, _, ⟨hname, rfl⟩, ⟨_, _, ⟨hsymbol, rfl⟩, ⟨_, _, ⟨huri, rfl⟩,
      ⟨_, _, ⟨hcount, _, ⟨hpairs, rfl⟩, rfl⟩, rfl, rfl⟩, rfl⟩, rfl⟩, rfl⟩, rfl⟩, ?_⟩
    simp only [size, textLength] at hsize
    omega

theorem entryLength_eq_ok : s.entryLength = .ok n ↔ s.Fits ∧ n = s.size := by
  have hlength : s.entryLength = .ok n ↔
      ∃ m, layout.packedLength s.toValue = .ok m ∧ n = headerLength + m := by
    simp only [entryLength, encode, Checked.bind_eq_ok, Layout.write_eq_ok,
      Layout.packedLength_eq_ok]
    constructor
    · rintro ⟨data, hdata, h⟩
      cases h
      exact ⟨_, ⟨data, hdata, rfl⟩, rfl⟩
    · rintro ⟨_, ⟨data, hdata, rfl⟩, rfl⟩
      exact ⟨data, hdata, rfl⟩
  rw [hlength]
  constructor
  · rintro ⟨m, hm, rfl⟩
    exact packedLength_toValue.mp hm
  · rintro ⟨hfits, rfl⟩
    refine ⟨s.size - headerLength, packedLength_toValue.mpr ⟨hfits, ?_⟩, ?_⟩ <;>
      · simp only [size]
        omega

end State
end TokenWire.Metadata
