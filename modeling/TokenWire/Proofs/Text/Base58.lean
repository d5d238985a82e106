import Mathlib.Data.List.GetD
import Mathlib.Data.Nat.Digits.Lemmas
import TokenWire.Proofs.Text.Utf8
import TokenWire.Text.Base58

/-!
Base 58 loses nothing: a byte string has one text, and every text in the alphabet is the text of one
byte string. Both follow from a change of base being undone by the change back.
-/

namespace TokenWire.Base58

section Rebase

variable {base source target count n : Nat} {ds rest : List Nat}

theorem value_eq_ofDigits (base : Nat) (ds : List Nat) :
    value base ds = Nat.ofDigits base ds.reverse := by
  induction ds using List.reverseRecOn with
  | nil => rfl
  | append_singleton ds d ih =>
    unfold value at ih ⊢
    rw [List.foldl_append, ih, List.reverse_append, List.reverse_singleton, List.singleton_append,
      Nat.ofDigits_cons, List.foldl_cons, List.foldl_nil, Nat.mul_comm, Nat.add_comm]

theorem digits_eq_reverse (hbase : 1 < base) (n : Nat) :
    digits base n = (Nat.digits base n).reverse := by
  fun_induction digits base n with
  | case1 n h ih => rw [Nat.digits_def' h.1 h.2, List.reverse_cons, ih]
  | case2 n h =>
    obtain rfl : n = 0 := by omega
    rw [Nat.digits_zero, List.reverse_nil]

theorem value_digits (hbase : 1 < base) (n : Nat) : value base (digits base n) = n := by
  rw [value_eq_ofDigits, digits_eq_reverse hbase, List.reverse_reverse, Nat.ofDigits_digits]

theorem lt_of_mem_digits (hbase : 1 < base) {d : Nat} (h : d ∈ digits base n) : d < base := by
  rw [digits_eq_reverse hbase, List.mem_reverse] at h
  exact Nat.digits_lt_base hbase h

theorem head?_digits_ne_zero (hbase : 1 < base) (n : Nat) : (digits base n).head? ≠ some 0 := by
  rw [digits_eq_reverse hbase, List.head?_reverse]
  intro h
  have hn : n ≠ 0 := by
    rintro rfl
    simp at h
  exact Nat.getLast_digit_ne_zero base hn (List.getLast_of_getLast?_eq_some h)

/-- Digits without leading zeros are those of their value. -/
theorem digits_value (hbase : 1 < base) (hds : ∀ d ∈ ds, d < base) (hhead : ds.head? ≠ some 0) :
    digits base (value base ds) = ds := by
  have hlast : ∀ h : ds.reverse ≠ [], ds.reverse.getLast h ≠ 0 := by
    intro h hzero
    apply hhead
    rw [← List.getLast?_reverse, List.getLast?_eq_some_getLast h, hzero]
  rw [digits_eq_reverse hbase, value_eq_ofDigits,
    Nat.digits_ofDigits base hbase ds.reverse (by simpa using hds) hlast, List.reverse_reverse]

theorem value_lt (hbase : 1 < base) (hds : ∀ d ∈ ds, d < base) :
    value base ds < base ^ ds.length := by
  rw [value_eq_ofDigits, ← List.length_reverse]
  exact Nat.ofDigits_lt_base_pow_length hbase (by simpa using hds)

theorem value_zeros (base count : Nat) (rest : List Nat) :
    value base (List.replicate count 0 ++ rest) = value base rest := by
  rw [value_eq_ofDigits, List.reverse_append, List.reverse_replicate,
    Nat.ofDigits_append_replicate_zero, ← value_eq_ofDigits]

/-- Digits are some zeros, and others that do not start with one. -/
theorem exists_zeros (ds : List Nat) :
    ∃ count rest, ds = List.replicate count 0 ++ rest ∧ rest.head? ≠ some 0 := by
  induction ds with
  | nil => exact ⟨0, [], rfl, nofun⟩
  | cons d ds ih =>
    cases d with
    | zero =>
      obtain ⟨count, rest, rfl, hrest⟩ := ih
      exact ⟨count + 1, rest, rfl, hrest⟩
    | succ d => exact ⟨0, _, rfl, by simp⟩

theorem rebase_zeros (hrest : rest.head? ≠ some 0) :
    rebase source target (List.replicate count 0 ++ rest) =
      List.replicate count 0 ++ digits target (value source rest) := by
  have hzeros : ∀ z ∈ List.replicate count 0, (z == 0) = true := by simp
  have hnone : rest.takeWhile (· == 0) = [] := by
    cases rest with
    | nil => rfl
    | cons d rest => exact List.takeWhile_cons_of_neg (by simpa using hrest)
  rw [rebase, value_zeros, List.takeWhile_append_of_pos hzeros, hnone, List.append_nil]

theorem lt_of_mem_rebase (htarget : 1 < target) {d : Nat} (h : d ∈ rebase source target ds) :
    d < target := by
  obtain ⟨count, rest, rfl, hrest⟩ := exists_zeros ds
  rw [rebase_zeros hrest, List.mem_append, List.mem_replicate] at h
  rcases h with ⟨-, rfl⟩ | h
  · omega
  · exact lt_of_mem_digits htarget h

/-- A change of base is undone by the change back. -/
theorem rebase_rebase (hsource : 1 < source) (htarget : 1 < target) (hds : ∀ d ∈ ds, d < source) :
    rebase target source (rebase source target ds) = ds := by
  obtain ⟨count, rest, rfl, hrest⟩ := exists_zeros ds
  have hlt : ∀ d ∈ rest, d < source := fun d hd => hds d (List.mem_append_right _ hd)
  rw [rebase_zeros hrest, rebase_zeros (head?_digits_ne_zero htarget _), value_digits htarget,
    digits_value hsource hlt hrest]

/-- Where the greater base fits into so many digits of the smaller one, leading zeros do so too. -/
theorem length_rebase_le {size : Nat} (htarget : 1 < target) (hle : target ≤ source)
    (hds : ∀ d ∈ ds, d < source) (hsize : source ^ ds.length ≤ target ^ size) :
    (rebase source target ds).length ≤ size := by
  obtain ⟨count, rest, rfl, hrest⟩ := exists_zeros ds
  rw [List.length_append, List.length_replicate, pow_add] at hsize
  have hcount : target ^ count ≤ source ^ count := Nat.pow_le_pow_left hle count
  have hone : 1 ≤ source ^ rest.length := Nat.one_le_pow _ _ (by omega)
  have hcount' : count ≤ size := by
    have hpow : target ^ count ≤ target ^ size :=
      hcount.trans ((Nat.le_mul_of_pos_right _ hone).trans hsize)
    exact (Nat.pow_le_pow_iff_right htarget).mp hpow
  have hvalue : value source rest < target ^ (size - count) := by
    have hlt := value_lt (Nat.lt_of_lt_of_le htarget hle)
      fun d hd => hds d (List.mem_append_right _ hd)
    apply Nat.lt_of_lt_of_le hlt
    apply Nat.le_of_mul_le_mul_left _ (Nat.pow_pos (n := count) (by omega : 0 < target))
    calc target ^ count * source ^ rest.length ≤ source ^ count * source ^ rest.length :=
          Nat.mul_le_mul_right _ hcount
      _ ≤ target ^ size := hsize
      _ = target ^ count * target ^ (size - count) := by rw [← pow_add, Nat.add_sub_cancel' hcount']
  have hdigits := (Nat.digits_length_le_iff htarget _).mpr hvalue
  rw [rebase_zeros hrest, digits_eq_reverse htarget, List.length_append, List.length_replicate,
    List.length_reverse]
  omega

end Rebase

section Alphabet

variable {c : Char} {d : Nat} {cs : List Char} {ds : List Nat}

theorem idxOf?_alphabet_eq_some :
    alphabet.idxOf? c = some d ↔ d < 58 ∧ alphabet.getD d '1' = c := by
  constructor
  · intro h
    obtain ⟨hd, hc, -⟩ := List.idxOf?_eq_some_iff.mp h
    exact ⟨hd, (List.getD_eq_getElem _ _ hd).trans hc⟩
  · rintro ⟨hd, rfl⟩
    have hall : ∀ d < 58, alphabet.idxOf? (alphabet.getD d '1') = some d := by decide +kernel
    exact hall d hd

theorem mapM_idxOf?_eq_some : (cs.mapM fun c => alphabet.idxOf? c) = some ds ↔
    (∀ d ∈ ds, d < 58) ∧ (ds.map fun d => alphabet.getD d '1') = cs := by
  induction cs generalizing ds with
  | nil =>
    rw [List.mapM_nil, List.map_eq_nil_iff]
    constructor
    · rintro ⟨⟩
      exact ⟨nofun, rfl⟩
    · rintro ⟨-, rfl⟩
      rfl
  | cons c cs ih =>
    simp only [List.mapM_cons, Option.bind_eq_bind, Option.bind_eq_some_iff, ih,
      idxOf?_alphabet_eq_some]
    constructor
    · rintro ⟨d, ⟨hd, hc⟩, ds, ⟨hds, hcs⟩, h⟩
      cases h
      exact ⟨List.forall_mem_cons.mpr ⟨hd, hds⟩, by rw [List.map_cons, hc, hcs]⟩
    · rintro ⟨hds, hcs⟩
      obtain ⟨d, ds, rfl, hc, hcs⟩ := List.map_eq_cons_iff.mp hcs
      obtain ⟨hd, hds⟩ := List.forall_mem_cons.mp hds
      exact ⟨d, ⟨hd, hc⟩, ds, ⟨hds, hcs⟩, rfl⟩

end Alphabet

section Bytes

variable {s : String} {bs : Bytes} {ds : List Nat}

theorem map_toNat_ofNat (h : ∀ d ∈ ds, d < 256) : (ds.map UInt8.ofNat).map UInt8.toNat = ds := by
  rw [List.map_map]
  conv_rhs => rw [← List.map_id ds]
  exact List.map_congr_left fun d hd => UInt8.toNat_ofNat_of_lt (h d hd)

theorem map_ofNat_toNat (bs : Bytes) : (bs.map UInt8.toNat).map UInt8.ofNat = bs := by
  rw [List.map_map]
  conv_rhs => rw [← List.map_id bs]
  exact List.map_congr_left fun b _ => UInt8.ofNat_toNat

theorem lt_of_mem_map_toNat (bs : Bytes) : ∀ d ∈ bs.map UInt8.toNat, d < 256 := by
  intro d hd
  obtain ⟨b, -, rfl⟩ := List.mem_map.mp hd
  exact b.toNat_lt

/-- A text stands for the byte string whose text it is, and for no other. -/
theorem decode?_eq_some_iff : decode? s = some bs ↔ encode bs = s := by
  unfold decode?
  rw [Option.map_eq_some_iff]
  simp only [mapM_idxOf?_eq_some]
  constructor
  · rintro ⟨ds, ⟨hds, hs⟩, rfl⟩
    have hlt : ∀ d ∈ rebase 58 256 ds, d < 256 := fun _ => lt_of_mem_rebase (by decide)
    rw [encode, map_toNat_ofNat hlt, rebase_rebase (by decide) (by decide) hds, hs,
      String.ofList_toList]
  · rintro rfl
    have hlt := lt_of_mem_map_toNat bs
    refine ⟨rebase 256 58 (bs.map UInt8.toNat), ⟨fun _ => lt_of_mem_rebase (by decide), ?_⟩, ?_⟩
    · rw [encode, String.toList_ofList]
    · rw [rebase_rebase (by decide) (by decide) hlt, map_ofNat_toNat]

theorem length_utf8_digits (h : ∀ d ∈ ds, d < 58) :
    (utf8 (String.ofList (ds.map fun d => alphabet.getD d '1'))).length = ds.length := by
  have hone : ∀ d < 58, (alphabet.getD d '1').utf8Size = 1 := by decide +kernel
  rw [utf8_eq, String.toList_ofList]
  induction ds with
  | nil => rfl
  | cons d ds ih =>
    obtain ⟨hd, hds⟩ := List.forall_mem_cons.mp h
    rw [List.map_cons, List.flatMap_cons, List.length_append, String.length_utf8EncodeChar,
      hone d hd, ih hds, List.length_cons, Nat.add_comm]

/-- A text takes as many bytes as it has digits, so their values bound its size. -/
theorem length_utf8_encode_le {size : Nat} (h : 256 ^ bs.length ≤ 58 ^ size) :
    (utf8 (encode bs)).length ≤ size := by
  have hlt := lt_of_mem_map_toNat bs
  rw [encode, length_utf8_digits fun _ => lt_of_mem_rebase (by decide)]
  exact length_rebase_le (by decide) (by decide) hlt (by rwa [List.length_map])

end Bytes
end TokenWire.Base58
