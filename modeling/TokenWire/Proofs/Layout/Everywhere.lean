import TokenWire.Proofs.Layout.Parts

/-! Tests of every leaf and every option of a layout. -/

namespace TokenWire.Layout

mutual

/-- Whether a test holds of each leaf and each option of a layout, at any depth. -/
def everywhere (p : Layout → Bool) : Layout → Bool
  | .option item => p (.option item) && everywhere p item
  | .vec item => everywhere p item
  | .tuple items => everywhereItems p items
  | .struct fields => everywhereFields p fields
  | .tagged _ arms => everywhereArms p arms
  | leaf => p leaf

def everywhereItems (p : Layout → Bool) : List Layout → Bool
  | [] => true
  | item :: items => everywhere p item && everywhereItems p items

def everywhereFields (p : Layout → Bool) : List (String × Layout) → Bool
  | [] => true
  | (_, field) :: fields => everywhere p field && everywhereFields p fields

def everywhereArms (p : Layout → Bool) : List (Nat × Layout) → Bool
  | [] => true
  | (_, arm) :: arms => everywhere p arm && everywhereArms p arms

end

variable {p q : Layout → Bool}

theorem everywhere_option {item : Layout} :
    everywhere p (.option item) ↔ p (.option item) ∧ everywhere p item :=
  Bool.and_eq_true_iff

theorem everywhere_tuple {items : List Layout} :
    everywhere p (.tuple items) ↔ ∀ item ∈ items, everywhere p item := by
  change everywhereItems p items ↔ _
  induction items with
  | nil => exact iff_of_true rfl fun _ h => nomatch h
  | cons item items ih =>
    rw [List.forall_mem_cons, ← ih]
    exact Bool.and_eq_true_iff

theorem everywhere_struct {fields : List (String × Layout)} :
    everywhere p (.struct fields) ↔ everywhere p (.tuple (fields.map Prod.snd)) := by
  change everywhereFields p fields ↔ everywhereItems p (fields.map Prod.snd)
  induction fields with
  | nil => rfl
  | cons field fields ih =>
    refine Bool.and_eq_true_iff.trans (Iff.trans ?_ Bool.and_eq_true_iff.symm)
    exact and_congr_right fun _ => ih

theorem everywhere_tagged {selector : Selector} {arms : List (Nat × Layout)} :
    everywhere p (.tagged selector arms) ↔ ∀ arm ∈ arms, everywhere p arm.2 := by
  change everywhereArms p arms ↔ _
  induction arms with
  | nil => exact iff_of_true rfl fun _ h => nomatch h
  | cons arm arms ih =>
    rw [List.forall_mem_cons, ← ih]
    exact Bool.and_eq_true_iff

theorem everywhere_tuple_cons {item : Layout} {items : List Layout} :
    everywhere p (.tuple (item :: items)) ↔ everywhere p item ∧ everywhere p (.tuple items) := by
  rw [everywhere_tuple, List.forall_mem_cons, everywhere_tuple]

theorem everywhere_replicate {item : Layout} (h : everywhere p (.vec item)) (n : Nat) :
    everywhere p (.tuple (List.replicate n item)) := by
  rw [everywhere_tuple]
  intro i hi
  rw [List.eq_of_mem_replicate hi]
  exact h

theorem everywhere_of_lookup {selector : Selector} {arms : List (Nat × Layout)} {tag : Nat}
    {arm : Layout} (h : everywhere p (.tagged selector arms)) (harm : arms.lookup tag = some arm) :
    everywhere p arm := by
  obtain ⟨t, ht⟩ := exists_mem_of_lookup harm
  exact everywhere_tagged.mp h _ ht

theorem everywhere_mono (h : ∀ layout, p layout → q layout) {layout : Layout}
    (hp : everywhere p layout) : everywhere q layout := by
  induction layout with
  | option item ih =>
    obtain ⟨hoption, hitem⟩ := everywhere_option.mp hp
    exact everywhere_option.mpr ⟨h _ hoption, ih hitem⟩
  | vec item ih => exact ih hp
  | tuple items ih =>
    rw [everywhere_tuple] at hp ⊢
    exact fun item hi => ih item hi (hp item hi)
  | struct fields ih =>
    rw [everywhere_struct, everywhere_tuple] at hp ⊢
    intro item hi
    obtain ⟨field, hf, rfl⟩ := List.mem_map.mp hi
    exact ih field hf (hp _ hi)
  | tagged selector arms ih =>
    rw [everywhere_tagged] at hp ⊢
    exact fun arm ha => ih arm ha (hp arm ha)
  | _ => exact h _ hp

end TokenWire.Layout
