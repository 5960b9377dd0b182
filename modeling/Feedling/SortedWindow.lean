import Mathlib.Data.List.Infix
import Mathlib.Data.List.Sort
import Mathlib.Data.List.Nodup

/-!
# The newest elements of a list

A list is put in the order of a number and cut to its last elements. Of a list with distinct numbers
the cut keeps exactly what is not below its first element, and a part of such a list that is closed
upwards is a suffix.
-/

namespace SortedWindow

variable {α : Type} {key : α → Nat}

def sortBy (key : α → Nat) (l : List α) : List α := l.insertionSort fun a b => key a ≤ key b

/-- The last `n` elements. -/
def newest (n : Nat) (l : List α) : List α := l.drop (l.length - n)

theorem perm_sortBy (l : List α) : (sortBy key l).Perm l := List.perm_insertionSort _ l

variable {l : List α} {n : Nat}

@[simp] theorem mem_sortBy {a : α} : a ∈ sortBy key l ↔ a ∈ l := (perm_sortBy l).mem_iff

@[simp] theorem length_sortBy (l : List α) : (sortBy key l).length = l.length :=
  (perm_sortBy l).length_eq

theorem pairwise_sortBy (h : (l.map key).Nodup) :
    (sortBy key l).Pairwise fun a b => key a < key b := by
  have hle : (sortBy key l).Pairwise fun a b => key a ≤ key b := List.pairwise_insertionSort _ l
  have hne : (sortBy key l).Pairwise fun a b => key a ≠ key b :=
    List.pairwise_map.mp (((perm_sortBy l).map key).nodup_iff.mpr h)
  exact (hle.and hne).imp fun hab => Nat.lt_of_le_of_ne hab.1 hab.2

theorem newest_suffix (n : Nat) (l : List α) : newest n l <:+ l := List.drop_suffix _ l

theorem length_newest_le (n : Nat) (l : List α) : (newest n l).length ≤ n := by
  rw [newest, List.length_drop]
  omega

theorem newest_eq_self (h : l.length ≤ n) : newest n l = l := by
  rw [newest, Nat.sub_eq_zero_of_le h, List.drop_zero]

theorem exists_head?_newest (hn : 0 < n) (h : l ≠ []) :
    ∃ first, (newest n l).head? = some first := by
  have hlen := List.length_pos_of_ne_nil h
  cases hnewest : newest n l with
  | nil =>
    have hdrop := congrArg List.length hnewest
    rw [newest, List.length_drop, List.length_nil] at hdrop
    omega
  | cons first rest => exact ⟨first, rfl⟩

theorem mem_newest_iff {first : α} (h : l.Pairwise fun a b => key a < key b)
    (hfirst : (newest n l).head? = some first) {a : α} (ha : a ∈ l) :
    a ∈ newest n l ↔ key first ≤ key a := by
  obtain ⟨rest, hrest⟩ : ∃ rest, newest n l = first :: rest := by
    cases hl : newest n l with
    | nil =>
      rw [hl] at hfirst
      cases hfirst
    | cons x rest =>
      rw [hl] at hfirst
      exact ⟨rest, by rw [Option.some.inj hfirst]⟩
  have hsplit : l = l.take (l.length - n) ++ newest n l := (List.take_append_drop _ l).symm
  rw [hsplit] at h ha
  obtain ⟨-, hnewest, hbelow⟩ := List.pairwise_append.mp h
  constructor
  · intro hmem
    rw [hrest] at hmem hnewest
    obtain rfl | hmem := List.mem_cons.mp hmem
    · exact Nat.le_refl _
    · exact Nat.le_of_lt ((List.pairwise_cons.mp hnewest).1 a hmem)
  · intro hle
    obtain ha | ha := List.mem_append.mp ha
    · exact absurd (hbelow a ha first (by rw [hrest]; exact List.mem_cons_self))
        (Nat.not_lt.mpr hle)
    · exact ha

theorem nodup_of_pairwise_lt (h : l.Pairwise fun a b => key a < key b) : l.Nodup := by
  refine List.Pairwise.imp ?_ h
  rintro a b hab rfl
  exact Nat.lt_irrefl _ hab

theorem eq_of_mem_iff {a b : List α} (ha : a.Pairwise fun x y => key x < key y)
    (hb : b.Pairwise fun x y => key x < key y) (h : ∀ x, x ∈ a ↔ x ∈ b) : a = b := by
  have hperm : a.Perm b :=
    (List.perm_ext_iff_of_nodup (nodup_of_pairwise_lt ha) (nodup_of_pairwise_lt hb)).mpr h
  refine hperm.eq_of_pairwise (fun x y _ _ hxy hyx => ?_) ha hb
  exact absurd (Nat.lt_trans hxy hyx) (Nat.lt_irrefl _)

theorem suffix_of_closed {a b : List α} {edge : Nat} (ha : a.Pairwise fun x y => key x < key y)
    (hb : b.Pairwise fun x y => key x < key y) (hsub : ∀ x ∈ a, x ∈ b)
    (hedge : ∀ x ∈ a, edge ≤ key x)
    (hclosed : ∀ x ∈ b, edge ≤ key x → x ∈ a) : a <:+ b := by
  induction b with
  | nil =>
    rw [List.eq_nil_iff_forall_not_mem.mpr fun x hx => List.not_mem_nil (hsub x hx)]
  | cons x b ih =>
    obtain ⟨hx, hb'⟩ := List.pairwise_cons.mp hb
    by_cases hle : edge ≤ key x
    · -- the whole list is from the edge on
      have hall : ∀ y ∈ x :: b, edge ≤ key y := by
        intro y hy
        obtain rfl | hy := List.mem_cons.mp hy
        · exact hle
        · exact Nat.le_trans hle (Nat.le_of_lt (hx y hy))
      rw [eq_of_mem_iff ha hb fun y => ⟨hsub y, fun hy => hclosed y hy (hall y hy)⟩]
    · refine (ih hb' (fun y hy => ?_) fun y hy => hclosed y (List.mem_cons_of_mem x hy)).trans
        (List.suffix_cons x b)
      obtain rfl | hmem := List.mem_cons.mp (hsub y hy)
      · exact absurd (hedge y hy) hle
      · exact hmem

end SortedWindow
