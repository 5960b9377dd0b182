import Mathlib.Data.List.Nodup

/-!
# Places in a filtered list

Dropping elements moves the later ones to the front. Of a list without repetitions an element keeps
its place exactly when nothing is dropped up to it.
-/

namespace FilteredIndex

variable {α : Type} {l : List α} {f : α → Bool}

theorem le_of_getElem?_filter (h : l.Nodup) {i j : Nat} {x : α} (hi : (l.filter f)[i]? = some x)
    (hj : l[j]? = some x) : i ≤ j := by
  induction l generalizing i j with
  | nil => cases hj
  | cons a l ih =>
    obtain ⟨hnot, hnodup⟩ := List.nodup_cons.mp h
    have hx : x ∈ (a :: l).filter f := List.mem_of_getElem? hi
    by_cases ha : f a = true
    · rw [List.filter_cons_of_pos ha] at hi
      cases i with
      | zero => exact Nat.zero_le _
      | succ i =>
        rw [List.getElem?_cons_succ] at hi
        have hmem : x ∈ l := (List.mem_filter.mp (List.mem_of_getElem? hi)).1
        cases j with
        | zero =>
          cases hj
          exact absurd hmem hnot
        | succ j => exact Nat.succ_le_succ (ih hnodup hi hj)
    · rw [List.filter_cons_of_neg ha] at hi hx
      cases j with
      | zero =>
        cases hj
        exact absurd (List.mem_filter.mp hx).1 hnot
      | succ j => exact Nat.le_succ_of_le (ih hnodup hi hj)

/-- An element keeps its place exactly when nothing up to it is dropped. -/
theorem getElem?_filter_eq_iff (h : l.Nodup) {k : Nat} {x : α} (hx : l[k]? = some x) :
    (l.filter f)[k]? = some x ↔ ∀ y ∈ l.take (k + 1), f y = true := by
  induction l generalizing k with
  | nil => cases hx
  | cons a l ih =>
    obtain ⟨hnot, hnodup⟩ := List.nodup_cons.mp h
    rw [List.take_succ_cons, List.forall_mem_cons]
    by_cases ha : f a = true
    · rw [List.filter_cons_of_pos ha]
      cases k with
      | zero => exact iff_of_true hx ⟨ha, by simp⟩
      | succ k =>
        rw [List.getElem?_cons_succ, ih hnodup hx]
        exact ⟨fun hall => ⟨ha, hall⟩, fun hall => hall.2⟩
    · rw [List.filter_cons_of_neg ha]
      refine iff_of_false (fun hmoved => ?_) fun hall => ha hall.1
      cases k with
      | zero =>
        cases hx
        exact hnot (List.mem_filter.mp (List.mem_of_getElem? hmoved)).1
      | succ k =>
        have hle := le_of_getElem?_filter hnodup hmoved hx
        omega

theorem mem_take_succ_iff {key : α → Nat} (h : l.Pairwise fun a b => key a < key b) {k : Nat}
    {x y : α} (hx : l[k]? = some x) : y ∈ l.take (k + 1) ↔ y ∈ l ∧ key y ≤ key x := by
  induction l generalizing k with
  | nil => cases hx
  | cons a l ih =>
    obtain ⟨hbelow, hrest⟩ := List.pairwise_cons.mp h
    rw [List.take_succ_cons, List.mem_cons, List.mem_cons]
    cases k with
    | zero =>
      cases hx
      rw [List.take_zero]
      constructor
      · rintro (rfl | hy)
        · exact ⟨Or.inl rfl, Nat.le_refl _⟩
        · cases hy
      · rintro ⟨rfl | hy, hle⟩
        · exact Or.inl rfl
        · exact absurd (hbelow y hy) (Nat.not_lt.mpr hle)
    | succ k =>
      rw [List.getElem?_cons_succ] at hx
      rw [ih hrest hx]
      have hax := hbelow x (List.mem_of_getElem? hx)
      constructor
      · rintro (rfl | ⟨hy, hle⟩)
        · exact ⟨Or.inl rfl, Nat.le_of_lt hax⟩
        · exact ⟨Or.inr hy, hle⟩
      · rintro ⟨rfl | hy, hle⟩
        · exact Or.inl rfl
        · exact Or.inr ⟨hy, hle⟩

end FilteredIndex
