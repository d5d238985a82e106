/-! Named entries, each name once, in the order in which the names came. -/

namespace TokenWire

/-- Named entries in order; no name occurs twice. -/
structure Entries (α : Type) where
  toList : List (String × α)
  nodup_names : (toList.map Prod.fst).Nodup

namespace Entries

variable {α : Type}

/-- Replaces the entry of a name in its place, or adds it at the end. -/
def putList (name : String) (a : α) : List (String × α) → List (String × α)
  | [] => [(name, a)]
  | (n, b) :: rest => if n = name then (n, a) :: rest else (n, b) :: putList name a rest

theorem names_putList (name : String) (a : α) (xs : List (String × α)) :
    (putList name a xs).map Prod.fst =
      if name ∈ xs.map Prod.fst then xs.map Prod.fst else xs.map Prod.fst ++ [name] := by
  induction xs with
  | nil => simp [putList]
  | cons x xs ih =>
    obtain ⟨n, b⟩ := x
    by_cases h : n = name
    · simp [putList, h]
    · have hn : ¬ name = n := fun e => h e.symm
      simp only [putList, h, if_false, List.map_cons, ih, List.mem_cons, hn, false_or]
      split <;> simp

theorem nodup_putList {name : String} {a : α} {xs : List (String × α)}
    (h : (xs.map Prod.fst).Nodup) : ((putList name a xs).map Prod.fst).Nodup := by
  rw [names_putList]
  split
  · exact h
  · next hn =>
    rw [List.nodup_append]
    refine ⟨h, by simp, ?_⟩
    intro x hx y hy e
    simp only [List.mem_singleton] at hy
    exact hn (by rw [← hy, ← e]; exact hx)

def empty : Entries α := ⟨[], by simp⟩

/-- Replaces the entry of a name in its place, or adds it at the end. -/
def put (xs : Entries α) (name : String) (a : α) : Entries α :=
  ⟨putList name a xs.toList, nodup_putList xs.nodup_names⟩

/-- The last of equal names wins, in the place of the first. -/
def ofList (xs : List (String × α)) : Entries α :=
  xs.foldl (fun es x => es.put x.1 x.2) empty

def find? (xs : Entries α) (name : String) : Option α :=
  xs.toList.lookup name

def names (xs : Entries α) : List String :=
  xs.toList.map Prod.fst

end Entries
end TokenWire
