import Mathlib.Algebra.BigOperators.Ring.Finset
import Mathlib.Algebra.Order.BigOperators.Group.Finset
import TokenWire.Extension.Size
import TokenWire.Proofs.Distinct
import TokenWire.Proofs.Traversal

/-! The length of a mint as a function of the set of its extensions. -/

namespace TokenWire.Extension

/-- The sum of sizes. -/
def total (sizes : List Nat) : Nat :=
  sizes.foldr (· + ·) 0

theorem total_le {α : Type} {as : List α} {sizes : List Nat} {R : α → Nat → Prop} {bound : Nat}
    (h : List.Forall₂ R as sizes) (hR : ∀ a size, R a size → size ≤ bound) :
    total sizes ≤ as.length * bound := by
  induction h with
  | nil => exact Nat.zero_le _
  | @cons a size as sizes hsize _ ih =>
    have hle := hR a size hsize
    have htotal : total (size :: sizes) = size + total sizes := rfl
    rw [htotal, List.length_cons, Nat.succ_mul]
    omega

variable {kind : Kind} {kinds kinds' before after : List Kind} {sizes : List Nat} {m n : Nat}
  {e : Error}

/-- The length of a mint whose entries take so many bytes. -/
def filledLength (size : Nat) : Nat :=
  let length := baseLength + accountTypeLength + size
  if length = Token.multisigLength then length + typeLength else length

theorem mintLength_eq_ok : mintLength kinds = .ok n ↔
    if kinds.isEmpty then n = Token.mintLength
    else ∃ sizes, List.Forall₂ (fun kind size => entryLength kind = .ok size) kinds.eraseDups sizes ∧
      n = filledLength (total sizes) := by
  unfold mintLength
  split
  · rw [Except.ok.injEq, eq_comm]
  · simp only [Checked.bind_eq_ok, Checked.mapM_eq_ok]
    constructor
    · rintro ⟨sizes, hsizes, h⟩
      cases h
      exact ⟨sizes, hsizes, rfl⟩
    · rintro ⟨sizes, hsizes, rfl⟩
      exact ⟨sizes, hsizes, rfl⟩

/-- Whether a mint has room of fixed size for a kind. -/
def Kind.isFixedSize (kind : Kind) : Bool :=
  (valueLengths.lookup kind).isSome

/-- The length of the value of a kind of fixed size. -/
def Kind.valueLength (kind : Kind) : Nat :=
  (valueLengths.lookup kind).getD 0

theorem entryLength_eq_ok :
    entryLength kind = .ok n ↔ kind.isFixedSize ∧ n = 4 + kind.valueLength := by
  unfold entryLength Kind.isFixedSize Kind.valueLength
  cases valueLengths.lookup kind with
  | none => exact iff_of_false nofun nofun
  | some length =>
    rw [Except.ok.injEq, eq_comm]
    exact (and_iff_right rfl).symm

theorem entryLength_eq_error :
    entryLength kind = .error e ↔ kind.isFixedSize = false ∧ e = .notFixedSize kind := by
  unfold entryLength Kind.isFixedSize
  cases valueLengths.lookup kind with
  | none =>
    rw [Except.error.injEq, eq_comm]
    exact (and_iff_right rfl).symm
  | some length => exact iff_of_false nofun nofun

theorem two_dvd_valueLength (kind : Kind) : 2 ∣ kind.valueLength := by
  cases kind <;> decide

/-- The bytes that the entries of a mint take together, each kind counted once. -/
def entriesLength (kinds : List Kind) : Nat :=
  ∑ kind ∈ kinds.toFinset, (4 + kind.valueLength)

theorem total_map_eraseDups (kinds : List Kind) :
    total (kinds.eraseDups.map fun kind => 4 + kind.valueLength) = entriesLength kinds := by
  have hset : kinds.toFinset = kinds.eraseDups.toFinset := by
    ext kind
    rw [List.mem_toFinset, List.mem_toFinset, List.mem_eraseDups]
  rw [entriesLength, hset, List.sum_toFinset _ (nodup_eraseDups kinds)]
  rfl

theorem two_dvd_entriesLength (kinds : List Kind) : 2 ∣ entriesLength kinds := by
  apply Finset.dvd_sum
  intro kind _
  have := two_dvd_valueLength kind
  omega

/-- All entries are of even length, so none fill a mint up to the length that is avoided. -/
theorem filledLength_entriesLength (kinds : List Kind) :
    filledLength (entriesLength kinds) = 166 + entriesLength kinds := by
  have heven := two_dvd_entriesLength kinds
  unfold filledLength baseLength accountTypeLength Token.multisigLength
  dsimp only
  rw [if_neg (by omega)]

theorem forall₂_entryLength :
    List.Forall₂ (fun kind size => entryLength kind = .ok size) kinds sizes ↔
      (∀ kind ∈ kinds, kind.isFixedSize) ∧ sizes = kinds.map fun kind => 4 + kind.valueLength := by
  simp only [entryLength_eq_ok, List.forall₂_and_left]
  refine and_congr_right fun _ => ?_
  rw [eq_comm, ← List.forall₂_eq_eq_eq, List.forall₂_map_left_iff]
  simp only [eq_comm]

theorem mintLength_eq_ok_iff : mintLength kinds = .ok n ↔
    (∀ kind ∈ kinds, kind.isFixedSize) ∧
      n = if kinds = [] then 82 else 166 + entriesLength kinds := by
  rw [mintLength_eq_ok]
  by_cases hempty : kinds = []
  · subst hempty
    exact (and_iff_right nofun).symm
  · have hnonempty : ¬ kinds.isEmpty := by rwa [List.isEmpty_iff]
    rw [if_neg hempty, if_neg hnonempty]
    simp only [forall₂_entryLength, List.mem_eraseDups]
    constructor
    · rintro ⟨sizes, ⟨hfixed, rfl⟩, rfl⟩
      rw [total_map_eraseDups, filledLength_entriesLength]
      exact ⟨hfixed, rfl⟩
    · rintro ⟨hfixed, rfl⟩
      refine ⟨_, ⟨hfixed, rfl⟩, ?_⟩
      rw [total_map_eraseDups, filledLength_entriesLength]

/-- The first kind without a fixed size is told; repetitions dropped before do not move it. -/
theorem mintLength_eq_error : mintLength kinds = .error e ↔
    ∃ kind, kinds.find? (!·.isFixedSize) = some kind ∧ e = .notFixedSize kind := by
  have hfails : ∀ kind : Kind, (!kind.isFixedSize) = false ↔ ∃ n, entryLength kind = .ok n := by
    intro kind
    simp [entryLength_eq_ok]
  unfold mintLength
  split
  · next hempty =>
    rw [List.isEmpty_iff.mp hempty]
    exact iff_of_false nofun nofun
  · rw [Checked.bind_eq_error]
    refine (or_iff_left fun ⟨_, _, h⟩ => nomatch h).trans ?_
    rw [Checked.mapM_eq_error hfails, find?_eraseDups]
    refine exists_congr fun kind => and_congr_right fun hkind => ?_
    have hunfixed : kind.isFixedSize = false := by simpa using List.find?_some hkind
    exact entryLength_eq_error.trans (and_iff_right hunfixed)

theorem entriesLength_of_mem_iff (h : ∀ kind, kind ∈ kinds' ↔ kind ∈ kinds) :
    entriesLength kinds' = entriesLength kinds := by
  have hset : kinds'.toFinset = kinds.toFinset := by
    ext kind
    rw [List.mem_toFinset, List.mem_toFinset, h]
  rw [entriesLength, hset, entriesLength]

theorem mintLength_of_mem_iff (h : ∀ kind, kind ∈ kinds' ↔ kind ∈ kinds) :
    mintLength kinds' = .ok n ↔ mintLength kinds = .ok n := by
  have hempty : kinds' = [] ↔ kinds = [] := by
    simp only [List.eq_nil_iff_forall_not_mem, h]
  simp only [mintLength_eq_ok_iff, h, hempty, entriesLength_of_mem_iff h]

theorem entriesLength_cons (h : kind ∉ kinds) :
    entriesLength (kind :: kinds) = entriesLength kinds + (4 + kind.valueLength) := by
  rw [entriesLength, List.toFinset_cons, Finset.sum_insert (by rwa [List.mem_toFinset]),
    Nat.add_comm, entriesLength]

/-- A new kind adds just its own entry, wherever it is put. -/
theorem mintLength_insert (hsome : before ++ after ≠ []) (hnew : kind ∉ before ++ after)
    (hn : mintLength (before ++ after) = .ok n) (hm : entryLength kind = .ok m) :
    mintLength (before ++ kind :: after) = .ok (n + m) := by
  obtain ⟨hkind, rfl⟩ := entryLength_eq_ok.mp hm
  obtain ⟨hfixed, rfl⟩ := mintLength_eq_ok_iff.mp hn
  have hmem : ∀ other, other ∈ before ++ kind :: after ↔ other ∈ kind :: (before ++ after) :=
    fun _ => List.perm_middle.mem_iff
  rw [mintLength_of_mem_iff hmem, mintLength_eq_ok_iff, List.forall_mem_cons,
    if_neg (List.cons_ne_nil _ _), if_neg hsome, entriesLength_cons hnew]
  exact ⟨⟨hkind, hfixed⟩, by omega⟩

theorem mintLength_bounds (h : mintLength kinds = .ok n) : n ≠ 355 ∧ (kinds ≠ [] → 165 < n) := by
  have heven := two_dvd_entriesLength kinds
  obtain ⟨-, rfl⟩ := mintLength_eq_ok_iff.mp h
  split
  · next hempty => exact ⟨by decide, fun hsome => absurd hempty hsome⟩
  · exact ⟨by omega, fun _ => by omega⟩

theorem mintLength_perm (h : kinds.Perm kinds') (hn : mintLength kinds = .ok n) :
    mintLength kinds' = .ok n :=
  (mintLength_of_mem_iff fun _ => h.symm.mem_iff).mpr hn

/-- Kinds of fixed size have a length together, and as there are seven of them it is small. -/
theorem exists_mintLength (h : ∀ kind ∈ kinds, kind ∈ valueLengths.map Prod.fst) :
    ∃ n, mintLength kinds = .ok n ∧ n < capacity 2 := by
  have hfixed : ∀ kind ∈ valueLengths.map Prod.fst, kind.isFixedSize := by decide
  have hall : entriesLength (valueLengths.map Prod.fst) = 380 := by decide
  have hle : entriesLength kinds ≤ entriesLength (valueLengths.map Prod.fst) := by
    apply Finset.sum_le_sum_of_subset
    intro kind hkind
    exact List.mem_toFinset.mpr (h kind (List.mem_toFinset.mp hkind))
  refine ⟨_, mintLength_eq_ok_iff.mpr ⟨fun kind hkind => hfixed kind (h kind hkind), rfl⟩, ?_⟩
  have hcap : capacity 2 = 65536 := rfl
  split <;> omega

/--
A mint cannot be sized just if some of its kinds is not of fixed size, and the first such kind is
told. Else its length follows from the set of its kinds: that of a plain mint if there are none,
and 166 bytes with an entry for each kind otherwise. A new kind adds its entry, and no mint is
as long as an account with several signers or, with extensions, as short as a token account.
-/
theorem mintLength_ofSet (kinds : List Kind) :
    (∀ e, mintLength kinds = .error e ↔
      ∃ kind, kinds.find? (!·.isFixedSize) = some kind ∧ e = .notFixedSize kind) ∧
    (∀ n, mintLength kinds = .ok n ↔ (∀ kind ∈ kinds, kind.isFixedSize) ∧
      n = if kinds = [] then 82 else 166 + ∑ kind ∈ kinds.toFinset, (4 + kind.valueLength)) ∧
    (∀ kinds' n, (∀ kind, kind ∈ kinds' ↔ kind ∈ kinds) →
      (mintLength kinds' = .ok n ↔ mintLength kinds = .ok n)) ∧
    (∀ before after kind n m, before ++ after = kinds → kinds ≠ [] → kind ∉ kinds →
      mintLength kinds = .ok n → entryLength kind = .ok m →
      mintLength (before ++ kind :: after) = .ok (n + m)) ∧
    ∀ n, mintLength kinds = .ok n → n ≠ 355 ∧ (kinds ≠ [] → 165 < n) := by
  refine ⟨fun _ => mintLength_eq_error, fun _ => mintLength_eq_ok_iff,
    fun _ _ => mintLength_of_mem_iff, ?_, fun _ => mintLength_bounds⟩
  rintro before after kind n m rfl
  exact mintLength_insert

/-- Kinds told twice, in another order, with one more, and with two that have no fixed size. -/
theorem mintLength_ofSet_repeated :
    let kinds : List Kind := [.transferHook, .transferFeeConfig, .transferHook]
    let kinds' : List Kind := [.transferFeeConfig, .transferHook]
    (∀ kind, kind ∈ kinds' ↔ kind ∈ kinds) ∧
      mintLength kinds = .ok 346 ∧ mintLength kinds' = .ok 346 ∧
      entryLength .nonTransferable = .ok 4 ∧
      mintLength [.transferHook, .nonTransferable, .transferFeeConfig, .transferHook] = .ok 350 ∧
      350 ≠ 355 ∧
      mintLength (kinds ++ [.tokenMetadata, .transferHook, .cpiGuard]) =
        .error (.notFixedSize .tokenMetadata) := by
  intro kinds kinds'
  obtain ⟨-, hlength, hset, hinsert, -⟩ := mintLength_ofSet kinds
  have hmem : ∀ kind, kind ∈ kinds' ↔ kind ∈ kinds := by
    simp [kinds, kinds', or_comm]
  have hkinds : mintLength kinds = .ok 346 := (hlength 346).mpr ⟨by decide, by decide⟩
  have hmore : mintLength [.transferHook, .nonTransferable, .transferFeeConfig, .transferHook] =
      .ok 350 := hinsert [.transferHook] [.transferFeeConfig, .transferHook] .nonTransferable 346 4
    rfl (List.cons_ne_nil _ _) (by decide) hkinds rfl
  refine ⟨hmem, hkinds, (hset kinds' 346 hmem).mpr hkinds, rfl, hmore, ?_, ?_⟩
  · exact ((mintLength_ofSet _).2.2.2.2 350 hmore).1
  · exact ((mintLength_ofSet _).1 _).mpr ⟨_, rfl, rfl⟩

end TokenWire.Extension
