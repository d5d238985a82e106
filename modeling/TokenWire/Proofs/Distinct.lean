import Mathlib.Data.List.Basic
import Mathlib.Data.List.Induction

/-! Lists without repetitions, in which each item stays where it came first. -/

namespace TokenWire

variable {α : Type} [BEq α] [LawfulBEq α] {xs ys : List α}

theorem eraseDups_filter (p : α → Bool) (xs : List α) :
    (xs.filter p).eraseDups = xs.eraseDups.filter p := by
  induction h : xs.length using Nat.strongRecOn generalizing xs with
  | ind n ih =>
    cases xs with
    | nil => rfl
    | cons x xs =>
      -- Both sides drop the later copies of the first item, which leaves a shorter list.
      have hlt : (xs.filter fun y => !y == x).length < n := by
        have hle := List.length_filter_le (fun y => !y == x) xs
        rw [List.length_cons] at h
        omega
      have hswap : (xs.filter p).filter (fun y => !y == x) =
          (xs.filter fun y => !y == x).filter p := by
        rw [List.filter_filter, List.filter_filter]
        congr 1
        funext y
        exact Bool.and_comm _ _
      have htail := ih _ hlt _ rfl
      by_cases hx : p x
      · rw [List.filter_cons_of_pos hx, List.eraseDups_cons, List.eraseDups_cons,
          List.filter_cons_of_pos hx, hswap, htail]
      · have hsame : (xs.filter p).filter (fun y => !y == x) = xs.filter p := by
          apply List.filter_eq_self.mpr
          intro y hy
          have hne : y ≠ x := fun e => hx (e ▸ (List.mem_filter.mp hy).2)
          simp [hne]
        rw [List.filter_cons_of_neg hx, List.eraseDups_cons, List.filter_cons_of_neg hx, ← htail,
          ← hswap, hsame]

theorem nodup_eraseDups (xs : List α) : xs.eraseDups.Nodup := by
  induction h : xs.length using Nat.strongRecOn generalizing xs with
  | ind n ih =>
    cases xs with
    | nil => exact List.nodup_nil
    | cons x xs =>
      have hle := List.length_filter_le (fun y => !y == x) xs
      rw [List.length_cons] at h
      rw [List.eraseDups_cons, List.nodup_cons, List.mem_eraseDups, List.mem_filter]
      exact ⟨by simp, ih _ (by omega) _ rfl⟩

theorem eraseDups_of_nodup (h : xs.Nodup) : xs.eraseDups = xs := by
  induction xs with
  | nil => rfl
  | cons x xs ih =>
    obtain ⟨hx, hxs⟩ := List.nodup_cons.mp h
    have hsame : (xs.filter fun y => !y == x) = xs := by
      apply List.filter_eq_self.mpr
      intro y hy
      have hne : y ≠ x := fun e => hx (e ▸ hy)
      simp [hne]
    rw [List.eraseDups_cons, hsame, ih hxs]

/-- The first item of a kind is where it was. -/
theorem find?_eraseDups (p : α → Bool) (xs : List α) : xs.eraseDups.find? p = xs.find? p := by
  rw [← List.head?_filter, ← List.head?_filter, ← eraseDups_filter]
  cases xs.filter p with
  | nil => rfl
  | cons x ys => rw [List.eraseDups_cons]; rfl

theorem eraseDups_append_of_subset (h : ys ⊆ xs) : (xs ++ ys).eraseDups = xs.eraseDups := by
  have hnone : ys.removeAll xs = [] := by
    apply List.filter_eq_nil_iff.mpr
    intro y hy
    simp [h hy]
  rw [List.eraseDups_append, hnone, List.eraseDups_nil, List.append_nil]

/-- A second copy changes nothing wherever it stands behind the first. -/
theorem eraseDups_append_cons_of_mem {x : α} (h : x ∈ xs) :
    (xs ++ x :: ys).eraseDups = (xs ++ ys).eraseDups := by
  rw [List.eraseDups_append, List.eraseDups_append]
  congr 2
  simp [List.removeAll, h]

/-- A copy put before the only one takes its place, unless nothing stands between the two. -/
theorem eraseDups_append_cons_eq_iff {x : α} {zs : List α} (h : (xs ++ (ys ++ x :: zs)).Nodup) :
    (xs ++ x :: (ys ++ x :: zs)).eraseDups = xs ++ (ys ++ x :: zs) ↔ ys = [] := by
  have hperm : (xs ++ (ys ++ x :: zs)).Perm (xs ++ x :: ys ++ zs) := by
    rw [List.append_assoc, List.cons_append]
    exact List.perm_middle.append_left xs
  have hdrop : (xs ++ x :: (ys ++ x :: zs)).eraseDups = xs ++ x :: (ys ++ zs) := by
    have hassoc : xs ++ x :: (ys ++ x :: zs) = xs ++ x :: ys ++ x :: zs := by simp
    rw [hassoc, eraseDups_append_cons_of_mem (by simp), eraseDups_of_nodup (hperm.nodup_iff.mp h)]
    simp
  rw [hdrop, List.append_cancel_left_eq]
  cases ys with
  | nil => simp
  | cons y ys =>
    have hne : x ≠ y := by
      rintro rfl
      have htail := (List.nodup_append.mp h).2.1
      exact (List.nodup_cons.mp htail).1 (by simp)
    simp [hne]

theorem idxOf_lt_append_singleton {x y z : α} (hx : x ∈ xs) (hlt : xs.idxOf x < xs.idxOf y) :
    (xs ++ [z]).idxOf x < (xs ++ [z]).idxOf y := by
  rw [List.idxOf_append_of_mem hx]
  by_cases hy : y ∈ xs
  · rwa [List.idxOf_append_of_mem hy]
  · have := List.idxOf_lt_length_of_mem hx
    rw [List.idxOf_append_of_notMem hy]
    omega

/-- Without repetitions the items stand in the order in which they came first. -/
theorem pairwise_eraseDups (xs : List α) :
    xs.eraseDups.Pairwise fun x y => xs.idxOf x < xs.idxOf y := by
  induction xs using List.reverseRecOn with
  | nil => exact List.Pairwise.nil
  | append_singleton xs z ih =>
    have hold : xs.eraseDups.Pairwise fun x y => (xs ++ [z]).idxOf x < (xs ++ [z]).idxOf y := by
      refine ih.imp_of_mem fun hx _ hlt => ?_
      exact idxOf_lt_append_singleton (List.mem_eraseDups.mp hx) hlt
    by_cases hz : z ∈ xs
    · rwa [eraseDups_append_of_subset (by simpa using hz)]
    · have hnew : (xs ++ [z]).eraseDups = xs.eraseDups ++ [z] := by
        rw [List.eraseDups_append]
        simp [List.removeAll, hz, List.eraseDups_cons]
      rw [hnew, List.pairwise_append]
      refine ⟨hold, List.pairwise_singleton _ z, ?_⟩
      intro x hx y hy
      obtain rfl := List.mem_singleton.mp hy
      have hx := List.mem_eraseDups.mp hx
      have := List.idxOf_lt_length_of_mem hx
      rw [List.idxOf_append_of_mem hx, List.idxOf_append_of_notMem hz]
      omega

end TokenWire
