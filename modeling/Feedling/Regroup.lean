import Mathlib.Data.List.Basic
import Mathlib.Data.List.Nodup
import Mathlib.Data.List.Perm.Basic

/-!
# Regrouping a list under its owners

Some elements of a list own a key, and some name a key as their parent. Regrouping moves every
element whose parent is owned in the list directly behind the owner, and leaves the rest in place.
It is a permutation that keeps the order of what stays and of the elements of each parent, and
regrouping twice changes nothing.
-/

namespace Regroup

variable {α κ : Type} [DecidableEq κ] (own parent : α → Option κ)

def present (l : List α) : List κ := l.filterMap own

def linked (l : List α) (k : κ) : List α := l.filter fun e => decide (parent e = some k)

/-- The element stays where it is: its parent is not owned. -/
def fixed (l : List α) (e : α) : Bool := !(parent e).any fun k => decide (k ∈ present own l)

def block (l : List α) (e : α) : List α := ((own e).map (linked parent l)).getD []

def regroup (l : List α) : List α :=
  (l.filter (fixed own parent l)).flatMap fun e => e :: block own parent l e

variable {own parent} {l : List α}

theorem fixed_eq_false {e : α} :
    fixed own parent l e = false ↔ ∃ k, parent e = some k ∧ k ∈ present own l := by
  cases hp : parent e with
  | none => simp [fixed, hp]
  | some k => simp [fixed, hp]

theorem fixed_of_parent_none {e : α} (h : parent e = none) : fixed own parent l e = true := by
  simp [fixed, h]

theorem mem_linked {e : α} {k : κ} : e ∈ linked parent l k ↔ e ∈ l ∧ parent e = some k := by
  simp [linked]

theorem block_of_own {e : α} {k : κ} (h : own e = some k) :
    block own parent l e = linked parent l k := by simp [block, h]

theorem block_of_none {e : α} (h : own e = none) : block own parent l e = [] := by simp [block, h]

theorem perm_flatMap_linked {ks : List κ} (h : ks.Nodup) (l : List α) :
    (ks.flatMap (linked parent l)).Perm (l.filter fun e => (parent e).any fun k =>
      decide (k ∈ ks)) := by
  induction ks with
  | nil =>
    have hnil : (l.filter fun e => (parent e).any fun k => decide (k ∈ ([] : List κ))) = [] := by
      rw [List.filter_eq_nil_iff]
      intro e _
      cases parent e <;> simp
    rw [hnil]
    exact List.Perm.refl _
  | cons k ks ih =>
    obtain ⟨hk, hks⟩ := List.nodup_cons.mp h
    rw [List.flatMap_cons]
    refine ((ih hks).append_left _).trans ?_
    -- the filter splits into the elements of `k` and the others
    have hfirst : linked parent l k =
        (l.filter fun e => (parent e).any fun k' => decide (k' ∈ k :: ks)).filter fun e => decide
          (parent e = some k) := by
      rw [List.filter_filter, linked]
      refine List.filter_congr fun e _ => ?_
      cases parent e with
      | none => rfl
      | some k' => by_cases heq : k' = k <;> simp [heq]
    have hrest : (l.filter fun e => (parent e).any fun k' => decide (k' ∈ ks)) =
        (l.filter fun e => (parent e).any fun k' => decide (k' ∈ k :: ks)).filter fun e => !decide
          (parent e = some k) := by
      rw [List.filter_filter]
      refine List.filter_congr fun e _ => ?_
      cases parent e with
      | none => rfl
      | some k' =>
        by_cases heq : k' = k
        · subst heq
          simp [hk]
        · simp [heq]
    rw [hfirst, hrest]
    exact List.filter_append_perm _ _

omit [DecidableEq κ] in
theorem flatMap_own {β : Type} (g : κ → List β) {p : α → Bool}
    (hp : ∀ e, parent e = none → p e = true) {m : List α}
    (hm : ∀ e ∈ m, own e ≠ none → parent e = none) :
    ((m.filter p).flatMap fun e => ((own e).map g).getD []) = (m.filterMap own).flatMap g := by
  induction m with
  | nil => rfl
  | cons e m ih =>
    have hrest := ih fun x hx => hm x (List.mem_cons_of_mem e hx)
    cases hown : own e with
    | none =>
      rw [List.filterMap_cons_none hown, List.filter_cons]
      split_ifs
      · rw [List.flatMap_cons, hown, hrest]
        rfl
      · exact hrest
    | some k =>
      have hparent := hm e List.mem_cons_self (by rw [hown]; exact Option.some_ne_none k)
      rw [List.filterMap_cons_some hown, List.filter_cons, if_pos (hp e hparent), List.flatMap_cons,
        List.flatMap_cons, hown, hrest]
      rfl

theorem flatMap_single {β : Type} {ks : List κ} (h : ks.Nodup) {k : κ} (hk : k ∈ ks) (r : List β) :
    (ks.flatMap fun k' => if k' = k then r else []) = r := by
  induction ks with
  | nil => cases hk
  | cons k₀ ks ih =>
    obtain ⟨hk₀, hks⟩ := List.nodup_cons.mp h
    rw [List.flatMap_cons]
    by_cases heq : k₀ = k
    · subst heq
      have hnil : (ks.flatMap fun k' => if k' = k₀ then r else []) = [] := by
        rw [List.flatMap_eq_nil_iff]
        intro k' hk'
        exact if_neg fun heq : k' = k₀ => hk₀ (heq ▸ hk')
      rw [if_pos rfl, hnil, List.append_nil]
    · rw [if_neg heq, List.nil_append]
      exact ih hks ((List.mem_cons.mp hk).resolve_left fun h => heq h.symm)

theorem filter_fixed_regroup :
    (regroup own parent l).filter (fixed own parent l) = l.filter (fixed own parent l) := by
  rw [regroup, List.filter_flatMap]
  have heach : ∀ e ∈ l.filter (fixed own parent l),
      (e :: block own parent l e).filter (fixed own parent l) = [e] := by
    intro e he
    obtain ⟨hmem, hfixed⟩ := List.mem_filter.mp he
    rw [List.filter_cons, if_pos hfixed]
    have hnil : (block own parent l e).filter (fixed own parent l) = [] := by
      rw [List.filter_eq_nil_iff]
      intro x hx
      cases hown : own e with
      | none =>
        rw [block_of_none hown] at hx
        cases hx
      | some k =>
        rw [block_of_own hown] at hx
        have hk : k ∈ present own l := List.mem_filterMap.mpr ⟨e, hmem, hown⟩
        rw [fixed_eq_false.mpr ⟨k, (mem_linked.mp hx).2, hk⟩]
        exact Bool.false_ne_true
    rw [hnil]
  rw [List.flatMap_congr heach, List.flatMap_singleton']

/-- An element that moved stands behind its owner, with only elements of the same parent between
them. -/
theorem exists_owner {e : α} {pre post : List α} (hsplit : regroup own parent l = pre ++ e :: post)
    (he : fixed own parent l e = false) :
    ∃ pre' owner mid, pre = pre' ++ owner :: mid ∧ (∃ k, own owner = some k ∧ parent e = some k) ∧
      ∀ x ∈ mid, parent x = parent e := by
  have hgo : ∀ (stay : List α) (pre post : List α), (∀ x ∈ stay, fixed own parent l x = true) →
      (stay.flatMap fun x => x :: block own parent l x) = pre ++ e :: post →
      ∃ pre' owner mid, pre = pre' ++ owner :: mid ∧ (∃ k, own owner = some k ∧ parent e = some k) ∧
        ∀ x ∈ mid, parent x = parent e := by
    intro stay
    induction stay with
    | nil =>
      intro pre post _ hnil
      simp at hnil
    | cons x stay ih =>
      intro pre post hstay hcons
      have hx : fixed own parent l x = true := hstay x List.mem_cons_self
      rw [List.flatMap_cons, List.append_eq_append_iff] at hcons
      obtain ⟨rest, hpre, hrest⟩ | ⟨rest, hblock, hpost⟩ := hcons
      · -- `e` comes after the block of `x`
        obtain ⟨pre', owner, mid, rfl, howner, hmid⟩ :=
          ih rest post (fun y hy => hstay y (List.mem_cons_of_mem x hy)) hrest
        exact ⟨(x :: block own parent l x) ++ pre', owner, mid,
          by rw [hpre, List.append_assoc], howner, hmid⟩
      · have hfree : e ≠ x := by
          rintro rfl
          rw [hx] at he
          cases he
        cases rest with
        | nil =>
          -- then `e` would be the next element that stays
          cases stay with
          | nil => simp at hpost
          | cons y stay =>
            rw [List.flatMap_cons, List.nil_append, List.cons_append] at hpost
            injection hpost with hey
            rw [hey, hstay y (by simp)] at he
            cases he
        | cons z rest =>
          injection hpost with hez
          subst hez
          cases pre with
          | nil =>
            injection hblock with hxe
            exact absurd hxe.symm hfree
          | cons y mid =>
            injection hblock with hxy hblock
            subst hxy
            cases hown : own x with
            | none =>
              rw [block_of_none hown] at hblock
              simp at hblock
            | some k =>
              rw [block_of_own hown] at hblock
              have hparent : ∀ v ∈ mid ++ e :: rest, parent v = some k := by
                intro v hv
                have hmem : v ∈ linked parent l k := by
                  rw [hblock]
                  exact hv
                exact (mem_linked.mp hmem).2
              have he' : parent e = some k := hparent e (by simp)
              refine ⟨[], x, mid, rfl, ⟨k, hown, he'⟩, fun v hv => ?_⟩
              rw [he']
              exact hparent v (List.mem_append_left _ hv)
  exact hgo _ pre post (fun x hx => (List.mem_filter.mp hx).2) hsplit

section Owners

/-- Owners have no parent, and no two own the same key. -/
structure Owned (own parent : α → Option κ) (l : List α) : Prop where
  parentless : ∀ e ∈ l, own e ≠ none → parent e = none
  nodup : (present own l).Nodup

variable (h : Owned own parent l)

include h

theorem regroup_perm : (regroup own parent l).Perm l := by
  have hblocks : (l.filter (fixed own parent l)).flatMap (block own parent l) =
      (present own l).flatMap (linked parent l) :=
    flatMap_own (linked parent l) (fun _ => fixed_of_parent_none) h.parentless
  have hsplit : (regroup own parent l).Perm (l.filter (fixed own parent l) ++
      (present own l).flatMap (linked parent l)) := by
    have happend :=
      List.flatMap_append_perm (l.filter (fixed own parent l)) (fun e => [e]) (block own parent l)
    rw [List.flatMap_singleton', hblocks] at happend
    exact happend.symm
  have hmoved : (l.filter fun e => (parent e).any fun k => decide (k ∈ present own l)) =
      l.filter fun e => !fixed own parent l e := by
    refine List.filter_congr fun e _ => ?_
    rw [fixed, Bool.not_not]
  refine hsplit.trans (((perm_flatMap_linked h.nodup l).append_left _).trans ?_)
  rw [hmoved]
  exact List.filter_append_perm _ _

theorem mem_present_regroup (k : κ) : k ∈ present own (regroup own parent l) ↔ k ∈ present own l :=
  ((regroup_perm h).filterMap own).mem_iff

theorem fixed_regroup : fixed own parent (regroup own parent l) = fixed own parent l := by
  funext e
  simp only [fixed, mem_present_regroup h]

/-- The elements of each parent keep their order. -/
theorem linked_regroup (k : κ) : linked parent (regroup own parent l) k = linked parent l k := by
  by_cases hk : k ∈ present own l
  · -- they are all in the block of the owner
    have heach : ∀ e ∈ l.filter (fixed own parent l),
        (e :: block own parent l e).filter (fun x => decide (parent x = some k)) =
          ((own e).map fun k' => if k' = k then linked parent l k else []).getD [] := by
      intro e he
      obtain ⟨hmem, hfixed⟩ := List.mem_filter.mp he
      have hne : parent e ≠ some k := by
        intro hparent
        rw [fixed_eq_false.mpr ⟨k, hparent, hk⟩] at hfixed
        cases hfixed
      rw [List.filter_cons, if_neg (by simpa using hne)]
      cases hown : own e with
      | none =>
        rw [block_of_none hown]
        rfl
      | some k' =>
        rw [block_of_own hown]
        dsimp only [Option.map_some, Option.getD_some]
        split_ifs with heq
        · subst heq
          rw [linked, List.filter_filter]
          exact List.filter_congr fun x _ => Bool.and_self _
        · rw [List.filter_eq_nil_iff]
          intro x hx
          rw [(mem_linked.mp hx).2]
          simpa using heq
    rw [linked, regroup, List.filter_flatMap, List.flatMap_congr heach,
      flatMap_own _ (fun _ => fixed_of_parent_none) h.parentless]
    exact flatMap_single h.nodup hk _
  · -- they stay
    have hstay : ∀ m : List α,
        linked parent m k = linked parent (m.filter (fixed own parent l)) k := by
      intro m
      rw [linked, linked, List.filter_filter]
      refine List.filter_congr fun e _ => ?_
      by_cases hparent : parent e = some k
      · simp [fixed, hparent, hk]
      · simp [hparent]
    rw [hstay, filter_fixed_regroup, ← hstay]

theorem regroup_regroup : regroup own parent (regroup own parent l) = regroup own parent l := by
  have hblock : block own parent (regroup own parent l) = block own parent l := by
    funext e
    rw [block, block, show linked parent (regroup own parent l) = linked parent l
      from funext (linked_regroup h)]
  rw [regroup, fixed_regroup h, filter_fixed_regroup, hblock]
  rfl

end Owners

end Regroup
