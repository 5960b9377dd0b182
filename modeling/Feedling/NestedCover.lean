import Mathlib.Data.List.Pairwise
import Mathlib.Data.List.Sort

/-!
# Covers of nested ranges

Rows stand for ranges of numbers at a level. A row hides another when its level is higher and its
range contains the other's; what no row hides, read from left to right, is the canonical part.

When the rows are nested below disjoint rows, those disjoint rows are the canonical part. Two ways
of growing the rows keep them nested: a range behind all others, and a parent over a run of the
disjoint rows.
-/

namespace NestedCover

structure Node where
  level : Int
  start : Int
  stop : Int
  deriving DecidableEq, Repr

namespace Node

/-- `p` is on a higher level and contains `c`. -/
def hides (p c : Node) : Bool := decide (c.level < p.level ∧ p.start ≤ c.start ∧ c.stop ≤ p.stop)

/-- By start, then by stop, the higher level first. -/
def Before (a b : Node) : Prop :=
  a.start < b.start ∨ a.start = b.start ∧ (a.stop < b.stop ∨ a.stop = b.stop ∧ b.level ≤ a.level)

instance (a b : Node) : Decidable (a.Before b) := by unfold Before; infer_instance

/-- The range lies in `[start, stop]`. -/
def within (start stop : Int) (a : Node) : Bool := decide (start ≤ a.start ∧ a.stop ≤ stop)

theorem hides_iff {p c : Node} :
    p.hides c = true ↔ c.level < p.level ∧ p.start ≤ c.start ∧ c.stop ≤ p.stop := by
  simp [hides]

theorem hides_trans {a b c : Node} (hab : a.hides b = true) (hbc : b.hides c = true) :
    a.hides c = true := by
  rw [hides_iff] at *
  omega

end Node

variable {α : Type} (node : α → Node)

def Sorts (a b : α) : Prop := (node a).Before (node b)

instance : DecidableRel (Sorts node) :=
  fun a b => inferInstanceAs (Decidable ((node a).Before (node b)))

instance : Std.Total (Sorts node) := ⟨fun a b => by unfold Sorts Node.Before; omega⟩

instance : IsTrans α (Sorts node) := ⟨fun a b c => by unfold Sorts Node.Before; omega⟩

def sort (rows : List α) : List α := rows.insertionSort (Sorts node)

/-- The rows that no row hides, in order. -/
def canonical (rows : List α) : List α :=
  sort node (rows.filter fun c => !rows.any fun p => (node p).hides (node c))

/-- Ranges that follow one another. -/
structure Apart (rows : List α) : Prop where
  apart : rows.Pairwise fun a b => (node a).stop < (node b).start
  proper : ∀ a ∈ rows, (node a).start ≤ (node a).stop

/-- The rows are nested below the disjoint rows `cover`. -/
structure Covers (cover rows : List α) : Prop extends Apart node cover where
  subset : ∀ c ∈ cover, c ∈ rows
  nested : ∀ r ∈ rows, ∃ c ∈ cover, r = c ∨ (node c).hides (node r) = true

variable {node} {cover rows front mid back : List α} {p : α}

namespace Apart

section

variable (h : Apart node cover)
include h

theorem sublist {l : List α} (hl : l.Sublist cover) : Apart node l :=
  ⟨h.apart.sublist hl, fun a ha => h.proper a (hl.mem ha)⟩

theorem nodup : cover.Nodup := by
  refine h.apart.imp_of_mem fun ha _ hlt => ?_
  rintro rfl
  have hle := h.proper _ ha
  omega

theorem sorted : cover.Pairwise (Sorts node) := by
  refine h.apart.imp_of_mem fun ha _ hlt => Or.inl ?_
  have hle := h.proper _ ha
  omega

theorem eq_of_meet {a b : α} (ha : a ∈ cover) (hb : b ∈ cover)
    (hab : (node a).start ≤ (node b).stop) (hba : (node b).start ≤ (node a).stop) : a = b := by
  by_contra hne
  have hsplit : (node a).stop < (node b).start ∨ (node b).stop < (node a).start := by
    have hforall : cover.Pairwise fun a b =>
        (node a).stop < (node b).start ∨ (node b).stop < (node a).start := h.apart.imp Or.inl
    have : Std.Symm fun a b : α =>
        (node a).stop < (node b).start ∨ (node b).stop < (node a).start := ⟨fun _ _ hor => hor.symm⟩
    exact hforall.forall ha hb hne
  omega

theorem sort_eq (hrows : rows.Nodup) (hmem : ∀ r, r ∈ rows ↔ r ∈ cover) :
    sort node rows = cover := by
  have hperm : (sort node rows).Perm cover :=
    (List.perm_insertionSort _ rows).trans ((List.perm_ext_iff_of_nodup hrows h.nodup).mpr hmem)
  refine List.Perm.eq_of_pairwise ?_ (List.pairwise_insertionSort (Sorts node) rows) h.sorted hperm
  intro a b ha hb hab hba
  refine h.eq_of_meet (hperm.mem_iff.mp ha) hb ?_ ?_
  · have hle := h.proper b hb
    unfold Sorts Node.Before at hab hba
    omega
  · have hle := h.proper b hb
    unfold Sorts Node.Before at hab hba
    omega

theorem append_singleton (hproper : (node p).start ≤ (node p).stop)
    (hbehind : ∀ c ∈ cover, (node c).stop < (node p).start) : Apart node (cover ++ [p]) := by
  constructor
  · refine List.pairwise_append.mpr ⟨h.apart, List.pairwise_singleton _ _, ?_⟩
    intro c hc q hq
    rw [List.mem_singleton.mp hq]
    exact hbehind c hc
  · intro a ha
    obtain ha | ha := List.mem_append.mp ha
    · exact h.proper a ha
    · rw [List.mem_singleton.mp ha]
      exact hproper

end

end Apart

namespace Covers

theorem nil : Covers node [] [] where
  apart := List.Pairwise.nil
  proper := by simp
  subset := by simp
  nested := by simp

theorem hides_eq_false (h : Covers node cover rows) {c : α} (hc : c ∈ cover) {p : α}
    (hp : p ∈ rows) : (node p).hides (node c) = false := by
  by_contra hhides
  rw [Bool.not_eq_false] at hhides
  obtain ⟨top, htop, heq⟩ := h.nested p hp
  have htopHides : (node top).hides (node c) = true := by
    obtain rfl | hhides' := heq
    · exact hhides
    · exact Node.hides_trans hhides' hhides
  rw [Node.hides_iff] at htopHides
  have hle := h.proper c hc
  have hsame : c = top := h.toApart.eq_of_meet hc htop (by omega) (by omega)
  rw [← hsame] at htopHides
  omega

/-- The canonical part of nested rows is their cover. -/
theorem canonical_eq (h : Covers node cover rows) (hrows : rows.Nodup) :
    canonical node rows = cover := by
  refine h.toApart.sort_eq (hrows.filter _) fun r => ?_
  simp only [List.mem_filter, Bool.not_eq_true', List.any_eq_false, Bool.not_eq_true]
  constructor
  · rintro ⟨hr, hnone⟩
    obtain ⟨c, hc, rfl | hhides⟩ := h.nested r hr
    · exact hc
    · exact absurd hhides (by rw [hnone c (h.subset c hc)]; exact Bool.false_ne_true)
  · intro hr
    exact ⟨h.subset r hr, fun p hp => h.hides_eq_false hr hp⟩

theorem push (h : Covers node cover rows) (hproper : (node p).start ≤ (node p).stop)
    (hbehind : ∀ c ∈ cover, (node c).stop < (node p).start) :
    Covers node (cover ++ [p]) (rows ++ [p]) where
  toApart := h.toApart.append_singleton hproper hbehind
  subset := by
    intro c hc
    obtain hc | hc := List.mem_append.mp hc
    · exact List.mem_append_left _ (h.subset c hc)
    · exact List.mem_append_right _ hc
  nested := by
    intro r hr
    obtain hr | hr := List.mem_append.mp hr
    · obtain ⟨c, hc, hor⟩ := h.nested r hr
      exact ⟨c, List.mem_append_left _ hc, hor⟩
    · exact ⟨r, List.mem_append_right _ hr, .inl rfl⟩

end Covers

/-- `n` spans exactly the run `mid` of a cover and is above it. -/
structure Spans (node : α → Node) (n : Node) (mid : List α) : Prop where
  start : mid.head?.map (fun c => (node c).start) = some n.start
  stop : mid.getLast?.map (fun c => (node c).stop) = some n.stop
  above : ∀ c ∈ mid, (node c).level < n.level

namespace Spans

variable {n : Node}

section

variable (h : Spans node n mid)
include h

theorem exists_head : ∃ c ∈ mid, (node c).start = n.start := by
  obtain ⟨c, hc, hstart⟩ := Option.map_eq_some_iff.mp h.start
  exact ⟨c, List.mem_of_mem_head? hc, hstart⟩

theorem exists_last : ∃ c ∈ mid, (node c).stop = n.stop := by
  obtain ⟨c, hc, hstop⟩ := Option.map_eq_some_iff.mp h.stop
  exact ⟨c, List.mem_of_getLast? hc, hstop⟩

theorem start_le (hmid : Apart node mid) {c : α} (hc : c ∈ mid) : n.start ≤ (node c).start := by
  obtain ⟨first, hfirst, hstart⟩ := Option.map_eq_some_iff.mp h.start
  obtain ⟨rest, rfl⟩ := List.head?_eq_some_iff.mp hfirst
  rw [← hstart]
  obtain rfl | hc := List.mem_cons.mp hc
  · exact Int.le_refl _
  · have hlt := (List.pairwise_cons.mp hmid.apart).1 c hc
    have hle := hmid.proper first (by simp)
    omega

theorem le_stop (hmid : Apart node mid) {c : α} (hc : c ∈ mid) : (node c).stop ≤ n.stop := by
  obtain ⟨last, hlast, hstop⟩ := Option.map_eq_some_iff.mp h.stop
  obtain ⟨rest, rfl⟩ := List.getLast?_eq_some_iff.mp hlast
  rw [← hstop]
  obtain hc | hc := List.mem_append.mp hc
  · have hlt := (List.pairwise_append.mp hmid.apart).2.2 c hc last (by simp)
    have hle := hmid.proper last (by simp)
    omega
  · rw [List.mem_singleton.mp hc]

theorem hides (hmid : Apart node mid) {c : α} (hc : c ∈ mid) : n.hides (node c) = true :=
  Node.hides_iff.mpr ⟨h.above c hc, h.start_le hmid hc, h.le_stop hmid hc⟩

theorem proper (hmid : Apart node mid) : n.start ≤ n.stop := by
  obtain ⟨c, hc, hstart⟩ := h.exists_head
  have hle := hmid.proper c hc
  have hstop := h.le_stop hmid hc
  omega

section

variable (hcover : Apart node (front ++ mid ++ back))
include hcover

theorem lt_of_front {a : α} (ha : a ∈ front) : (node a).stop < n.start := by
  obtain ⟨c, hc, hstart⟩ := h.exists_head
  have hapart := (List.pairwise_append.mp (List.pairwise_append.mp hcover.apart).1).2.2 a ha c hc
  omega

theorem lt_of_back {b : α} (hb : b ∈ back) : n.stop < (node b).start := by
  obtain ⟨c, hc, hstop⟩ := h.exists_last
  have hapart := (List.pairwise_append.mp hcover.apart).2.2 c (List.mem_append_right _ hc) b hb
  omega

theorem filter_within :
    (front ++ mid ++ back).filter (fun c => (node c).within n.start n.stop) = mid := by
  have hmid : Apart node mid :=
    hcover.sublist ((List.sublist_append_right front mid).trans (List.sublist_append_left _ back))
  have hfront : front.filter (fun c => (node c).within n.start n.stop) = [] := by
    rw [List.filter_eq_nil_iff]
    intro a ha
    have hlt := h.lt_of_front hcover ha
    have hle := hcover.proper a (by simp [ha])
    simp only [Node.within, decide_eq_true_eq]
    omega
  have hback : back.filter (fun c => (node c).within n.start n.stop) = [] := by
    rw [List.filter_eq_nil_iff]
    intro b hb
    have hlt := h.lt_of_back hcover hb
    have hle := hcover.proper b (by simp [hb])
    simp only [Node.within, decide_eq_true_eq]
    omega
  have hself : mid.filter (fun c => (node c).within n.start n.stop) = mid := by
    rw [List.filter_eq_self]
    intro c hc
    simp only [Node.within, decide_eq_true_eq]
    exact ⟨h.start_le hmid hc, h.le_stop hmid hc⟩
  rw [List.filter_append, List.filter_append, hfront, hself, hback, List.nil_append,
    List.append_nil]

end

end

end Spans

/-- The parent takes the place of its run in the cover. -/
theorem Covers.replace (h : Covers node (front ++ mid ++ back) rows)
    (hp : Spans node (node p) mid) : Covers node (front ++ [p] ++ back) (rows ++ [p]) where
  apart := by
    have happ := List.pairwise_append.mp h.apart
    have hfront := (List.pairwise_append.mp happ.1).1
    refine List.pairwise_append.mpr ⟨List.pairwise_append.mpr ⟨hfront, List.pairwise_singleton _ _,
        ?_⟩,
      happ.2.1, ?_⟩
    · intro a ha q hq
      rw [List.mem_singleton.mp hq]
      exact hp.lt_of_front h.toApart ha
    · intro a ha b hb
      obtain ha | ha := List.mem_append.mp ha
      · exact happ.2.2 a (List.mem_append_left _ ha) b hb
      · rw [List.mem_singleton.mp ha]
        exact hp.lt_of_back h.toApart hb
  proper := by
    have hmid : Apart node mid :=
      h.toApart.sublist ((List.sublist_append_right front mid).trans
          (List.sublist_append_left _ back))
    intro a ha
    simp only [List.append_assoc, List.mem_append, List.mem_singleton] at ha
    obtain ha | rfl | ha := ha
    · exact h.proper a (by simp [ha])
    · exact hp.proper hmid
    · exact h.proper a (by simp [ha])
  subset := by
    intro c hc
    simp only [List.append_assoc, List.mem_append, List.mem_singleton] at hc ⊢
    obtain hc | rfl | hc := hc
    · exact .inl (h.subset c (by simp [hc]))
    · exact .inr rfl
    · exact .inl (h.subset c (by simp [hc]))
  nested := by
    have hmid : Apart node mid :=
      h.toApart.sublist ((List.sublist_append_right front mid).trans
          (List.sublist_append_left _ back))
    intro r hr
    obtain hr | hr := List.mem_append.mp hr
    · obtain ⟨c, hc, hor⟩ := h.nested r hr
      simp only [List.append_assoc, List.mem_append] at hc
      obtain hc | hc | hc := hc
      · exact ⟨c, by simp [hc], hor⟩
      · -- below the run, hence below the parent
        refine ⟨p, by simp, .inr ?_⟩
        obtain rfl | hhides := hor
        · exact hp.hides hmid hc
        · exact Node.hides_trans (hp.hides hmid hc) hhides
      · exact ⟨c, by simp [hc], hor⟩
    · exact ⟨r, by rw [List.mem_singleton.mp hr]; simp, .inl rfl⟩

theorem filter_append_filter_not {l : List α} {q : α → Bool}
    (h : l.Pairwise fun a b => q b = true → q a = true) :
    l.filter q ++ l.filter (fun a => !q a) = l := by
  induction l with
  | nil => rfl
  | cons x l ih =>
    obtain ⟨hx, hl⟩ := List.pairwise_cons.mp h
    by_cases hq : q x = true
    · rw [List.filter_cons_of_pos hq, List.filter_cons_of_neg (by simp [hq]), List.cons_append,
        ih hl]
    · have hnone : l.filter q = [] := by
        rw [List.filter_eq_nil_iff]
        exact fun a ha hqa => hq (hx a ha hqa)
      have hall : l.filter (fun a => !q a) = l := by
        have hsplit := ih hl
        rwa [hnone, List.nil_append] at hsplit
      rw [List.filter_cons_of_neg hq, List.filter_cons_of_pos (by simp [hq]), hnone, hall,
        List.nil_append]

/-- The rows of a cover inside the span of some of them are a run of it. -/
theorem Apart.exists_run (h : Apart node cover) {n : Node}
    (hmid : cover.filter (fun c => (node c).within n.start n.stop) = mid) (hp : Spans node n mid) :
    ∃ front back, cover = front ++ mid ++ back := by
  obtain ⟨first, hfirst, hstart⟩ := hp.exists_head
  obtain ⟨last, hlast, hstop⟩ := hp.exists_last
  have hmem : ∀ c ∈ mid, c ∈ cover := fun c hc => List.mem_of_mem_filter (hmid ▸ hc)
  -- first what ends before the span, then what is inside, then what starts behind it
  let before : α → Bool := fun c => decide ((node c).stop < n.start)
  let upto : α → Bool := fun c => decide ((node c).stop ≤ n.stop)
  have hbefore : cover.filter before ++ cover.filter (fun a => !before a) = cover := by
    refine filter_append_filter_not (h.apart.imp_of_mem fun {a b} ha hb hlt hq => ?_)
    have hle := h.proper b hb
    simp only [before, decide_eq_true_eq] at hq ⊢
    omega
  have hupto : (cover.filter fun a => !before a).filter upto ++
      (cover.filter fun a => !before a).filter (fun a => !upto a) =
        cover.filter fun a => !before a := by
    refine filter_append_filter_not ((h.apart.filter _).imp_of_mem fun {a b} ha hb hlt hq => ?_)
    have hle := h.proper b (List.mem_of_mem_filter hb)
    simp only [upto, decide_eq_true_eq] at hq ⊢
    omega
  have hinside : (cover.filter fun a => !before a).filter upto = mid := by
    rw [List.filter_filter, ← hmid]
    refine List.filter_congr fun c hc => ?_
    -- a row of the cover that is not before the first row of the run does not start before it
    have hle := h.proper c hc
    have hfirstLe := h.proper first (hmem first hfirst)
    by_cases hlt : (node c).stop < n.start
    · have hnot : ¬ (n.start ≤ (node c).start ∧ (node c).stop ≤ n.stop) := by omega
      simp [before, upto, Node.within, hlt, hnot]
    · have hge : n.start ≤ (node c).start := by
        by_contra hcross
        have hsame : c = first := h.eq_of_meet hc (hmem first hfirst) (by omega) (by omega)
        rw [hsame] at hcross
        omega
      simp [before, upto, Node.within, hlt, hge]
  exact ⟨cover.filter before, _, by rw [List.append_assoc, ← hinside, hupto, hbefore]⟩

end NestedCover
