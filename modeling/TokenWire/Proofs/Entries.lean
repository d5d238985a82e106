import Mathlib.Data.List.Induction
import Mathlib.Data.List.Perm.Subperm
import TokenWire.Entries

/-! Which entry stands under a name, and which are there after others are put. -/

namespace TokenWire.Entries

variable {α : Type} {name : String} {a : α} {xs pairs : List (String × α)}

theorem lookup_cons_eq_ite (name n : String) (a : α) (xs : List (String × α)) :
    ((n, a) :: xs).lookup name = if name = n then some a else xs.lookup name := by
  rw [List.lookup_cons]
  by_cases h : name = n
  · rw [beq_iff_eq.mpr h, if_pos h]
  · rw [beq_eq_false_iff_ne.mpr h, if_neg h]

/-- A change of the entries that keeps their names. -/
theorem lookup_map {β : Type} (f : String → α → β) (xs : List (String × α)) (name : String) :
    (xs.map fun (n, a) => (n, f n a)).lookup name = (xs.lookup name).map (f name) := by
  induction xs with
  | nil => rfl
  | cons x xs ih =>
    obtain ⟨n, a⟩ := x
    rw [List.map_cons, lookup_cons_eq_ite, lookup_cons_eq_ite, ih]
    by_cases h : name = n
    · subst h
      rw [if_pos rfl, if_pos rfl, Option.map_some]
    · rw [if_neg h, if_neg h]

theorem find?_eq_some_iff {es : Entries α} : es.find? name = some a ↔ (name, a) ∈ es.toList := by
  obtain ⟨xs, h⟩ := es
  change xs.lookup name = some a ↔ (name, a) ∈ xs
  induction xs with
  | nil => simp
  | cons x xs ih =>
    obtain ⟨n, b⟩ := x
    obtain ⟨hn, hxs⟩ := List.nodup_cons.mp h
    by_cases hname : name = n
    · subst hname
      have hnew : (name, a) ∉ xs := fun hmem => hn (List.mem_map.mpr ⟨_, hmem, rfl⟩)
      rw [List.lookup_cons_self, Option.some.injEq, List.mem_cons, Prod.mk.injEq]
      simp [hnew, eq_comm]
    · have hne : (name == n) = false := by simp [hname]
      rw [List.lookup_cons, hne, List.mem_cons, ih hxs, Prod.mk.injEq]
      simp [hname]

/-- No other entry has the name of one. -/
theorem nodup_of_split {es : Entries α} (h : es.toList = xs ++ (name, a) :: pairs) :
    name ∉ (xs ++ pairs).map Prod.fst ∧ ((xs ++ pairs).map Prod.fst).Nodup := by
  have hnames := es.nodup_names
  rw [h, (List.perm_middle.map Prod.fst).nodup_iff, List.map_cons, List.nodup_cons] at hnames
  exact hnames

/-- The order of the names decides nothing about what stands under them. -/
theorem find?_eq_of_perm {es es' : Entries α} (h : es.toList.Perm es'.toList) (name : String) :
    es.find? name = es'.find? name := by
  ext a
  rw [find?_eq_some_iff, find?_eq_some_iff, h.mem_iff]

theorem find?_put (es : Entries α) (n : String) (a : α) (name : String) :
    (es.put n a).find? name = if name = n then some a else es.find? name := by
  obtain ⟨xs, h⟩ := es
  change (putList n a xs).lookup name = if name = n then some a else xs.lookup name
  clear h
  induction xs with
  | nil => exact lookup_cons_eq_ite name n a []
  | cons x xs ih =>
    obtain ⟨m, b⟩ := x
    rw [putList]
    by_cases hm : m = n
    · subst hm
      rw [if_pos rfl, lookup_cons_eq_ite, lookup_cons_eq_ite]
      by_cases hn : name = m
      · rw [if_pos hn, if_pos hn]
      · rw [if_neg hn, if_neg hn, if_neg hn]
    · rw [if_neg hm, lookup_cons_eq_ite, lookup_cons_eq_ite, ih]
      by_cases hn : name = m
      · rw [if_pos hn, if_pos hn, if_neg fun e => hm (hn.symm.trans e)]
      · rw [if_neg hn, if_neg hn]

/-- The last of equal names wins. -/
theorem find?_ofList (xs : List (String × α)) (name : String) :
    (ofList xs).find? name = xs.reverse.lookup name := by
  induction xs using List.reverseRecOn with
  | nil => rfl
  | append_singleton xs x ih =>
    have hput : ofList (xs ++ [x]) = (ofList xs).put x.1 x.2 := by
      rw [ofList, List.foldl_append]
      rfl
    rw [hput, find?_put, List.reverse_append, ih]
    exact (lookup_cons_eq_ite name x.1 x.2 xs.reverse).symm

/-- Puts entries one after the other. -/
def putAll (xs pairs : List (String × α)) : List (String × α) :=
  pairs.foldl (fun xs pair => putList pair.1 pair.2 xs) xs

/-- What is put replaces an entry or joins the others. -/
theorem putList_subperm (name : String) (a : α) (xs : List (String × α)) :
    (putList name a xs).Subperm ((name, a) :: xs) := by
  induction xs with
  | nil => exact List.Subperm.refl _
  | cons x xs ih =>
    obtain ⟨n, b⟩ := x
    by_cases h : n = name
    · subst h
      rw [putList, if_pos rfl]
      exact ((List.sublist_cons_self _ xs).cons_cons (n, a)).subperm
    · rw [putList, if_neg h]
      exact ((List.subperm_cons _).mpr ih).trans (List.Perm.swap ..).subperm

theorem putList_of_notMem (h : name ∉ xs.map Prod.fst) : putList name a xs = xs ++ [(name, a)] := by
  induction xs with
  | nil => rfl
  | cons x xs ih =>
    obtain ⟨n, b⟩ := x
    rw [List.map_cons, List.mem_cons, not_or] at h
    rw [putList, if_neg fun e => h.1 e.symm, ih h.2, List.cons_append]

theorem putAll_subperm (xs pairs : List (String × α)) :
    (putAll xs pairs).Subperm (xs ++ pairs) := by
  induction pairs generalizing xs with
  | nil => rw [List.append_nil]; exact List.Subperm.refl _
  | cons pair pairs ih =>
    have hput := (List.subperm_append_right pairs).mpr (putList_subperm pair.1 pair.2 xs)
    exact ((ih _).trans hput).trans List.perm_middle.symm.subperm

/-- Entries with new names come one behind the other. -/
theorem putAll_of_nodup (h : ((xs ++ pairs).map Prod.fst).Nodup) : putAll xs pairs = xs ++ pairs := by
  induction pairs generalizing xs with
  | nil => rw [List.append_nil]; rfl
  | cons pair pairs ih =>
    have hnew : pair.1 ∉ xs.map Prod.fst := by
      rw [List.map_append, List.map_cons, List.nodup_append] at h
      exact fun hmem => h.2.2 _ hmem _ List.mem_cons_self rfl
    have hassoc : xs ++ pair :: pairs = (xs ++ [pair]) ++ pairs := by simp
    rw [hassoc] at h ⊢
    rw [← ih h, ← putList_of_notMem hnew]
    rfl

theorem toList_ofList (pairs : List (String × α)) : (ofList pairs).toList = putAll [] pairs := by
  have hput : ∀ es : Entries α,
      (pairs.foldl (fun es pair => es.put pair.1 pair.2) es).toList = putAll es.toList pairs := by
    induction pairs with
    | nil => exact fun _ => rfl
    | cons pair pairs ih => exact fun es => ih (es.put pair.1 pair.2)
  exact hput empty

theorem ofList_toList (es : Entries α) : ofList es.toList = es := by
  have hlist : (ofList es.toList).toList = es.toList := by
    rw [toList_ofList, putAll_of_nodup es.nodup_names, List.nil_append]
  cases es
  exact (Entries.mk.injEq ..).mpr hlist

end TokenWire.Entries
