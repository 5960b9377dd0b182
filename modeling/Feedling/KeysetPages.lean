import Mathlib.Data.List.Sort
import Mathlib.Order.Lattice

/-!
# Paging by key

Items with keys in a linear order are listed in pages. A page starts behind a cursor, which is the
key of the last item of the page before, and the list may be another one for every page. Whatever
changes in between, the pages together are in order, and a key that is in every list is on one of
them.
-/

namespace KeysetPages

variable {α κ : Type} [LinearOrder κ] (key : α → κ)

def Behind (cursor : Option κ) (a : α) : Prop := ∀ c ∈ cursor, c < key a

instance (cursor : Option κ) (a : α) : Decidable (Behind key cursor a) :=
  match cursor with
  | none => isTrue fun _ h => by cases h
  | some c => decidable_of_iff (c < key a) ⟨fun h d hd => by cases hd; exact h, fun h => h c rfl⟩

def behind (cursor : Option κ) (l : List α) : List α :=
  l.filter fun a => decide (Behind key cursor a)

def page (limit : Nat) (cursor : Option κ) (l : List α) : List α := (behind key cursor l).take limit

/-- The cursor for the next page, when something is left. -/
def next (limit : Nat) (cursor : Option κ) (l : List α) : Option κ :=
  if limit < (behind key cursor l).length then (page key limit cursor l).getLast?.map key else none

/-- The items of the pages, each from its own list, and whether the last page was reached. -/
def walk : Option κ → List (Nat × List α) → List α × Bool
  | _, [] => ([], false)
  | cursor, (limit, l) :: rest =>
    match next key limit cursor l with
    | none => (page key limit cursor l, true)
    | some c => (page key limit cursor l ++ (walk (some c) rest).1, (walk (some c) rest).2)

/-- The list is in order, without two items of one key. -/
def Ordered (l : List α) : Prop := l.Pairwise fun a b => key a < key b

variable {key} {limit : Nat} {cursor : Option κ} {l : List α}

theorem behind_ordered (h : Ordered key l) : Ordered key (behind key cursor l) :=
  h.sublist List.filter_sublist

theorem page_sublist : (page key limit cursor l).Sublist (behind key cursor l) :=
  List.take_sublist _ _

variable {a : α} {requests : List (Nat × List α)} {cursor : Option κ}

theorem behind_of_mem_page (h : a ∈ page key limit cursor l) : Behind key cursor a :=
  of_decide_eq_true (List.mem_filter.mp (page_sublist.subset h)).2

theorem le_next (h : Ordered key l) {c : κ} (hnext : next key limit cursor l = some c)
    (ha : a ∈ page key limit cursor l) : key a ≤ c := by
  unfold next at hnext
  split_ifs at hnext
  obtain ⟨last, hlast, rfl⟩ := Option.map_eq_some_iff.mp hnext
  obtain ⟨front, hfront⟩ := List.getLast?_eq_some_iff.mp hlast
  have hpage : Ordered key (page key limit cursor l) := (behind_ordered h).sublist page_sublist
  rw [Ordered, hfront, List.pairwise_append] at hpage
  rw [hfront, List.mem_append, List.mem_singleton] at ha
  obtain ha | rfl := ha
  · exact (hpage.2.2 a ha last (List.mem_singleton.mpr rfl)).le
  · exact le_refl _

theorem behind_next {c : κ} (hnext : next key limit cursor l = some c) : ∀ d ∈ cursor, d < c := by
  unfold next at hnext
  split_ifs at hnext
  obtain ⟨last, hlast, rfl⟩ := Option.map_eq_some_iff.mp hnext
  exact behind_of_mem_page (List.mem_of_getLast? hlast)

theorem mem_page_or_behind (h : Ordered key l) (hlimit : 0 < limit) (ha : a ∈ behind key cursor l) :
    a ∈ page key limit cursor l ∨ ∃ c, next key limit cursor l = some c ∧ c < key a := by
  by_cases hmem : a ∈ page key limit cursor l
  · exact Or.inl hmem
  have hsplit : page key limit cursor l ++ (behind key cursor l).drop limit = behind key cursor l :=
    List.take_append_drop _ _
  have hdrop : a ∈ (behind key cursor l).drop limit := by
    rw [← hsplit, List.mem_append] at ha
    exact ha.resolve_left hmem
  have hmore : limit < (behind key cursor l).length := by
    by_contra hall
    rw [List.drop_eq_nil_of_le (Nat.not_lt.mp hall)] at hdrop
    cases hdrop
  have hne : page key limit cursor l ≠ [] := by
    intro hnil
    have hlength := congrArg List.length hnil
    rw [page, List.length_take, List.length_nil] at hlength
    omega
  refine Or.inr ⟨key ((page key limit cursor l).getLast hne), ?_, ?_⟩
  · rw [next, if_pos hmore, List.getLast?_eq_some_getLast hne, Option.map_some]
  · have hordered : Ordered key (behind key cursor l) := behind_ordered h
    rw [Ordered, ← hsplit, List.pairwise_append] at hordered
    exact hordered.2.2 _ (List.getLast_mem hne) a hdrop

theorem walk_ordered (h : ∀ r ∈ requests, Ordered key r.2) (cursor : Option κ) :
    Ordered key (walk key cursor requests).1 ∧ ∀ a ∈ (walk key cursor requests).1,
      Behind key cursor a := by
  induction requests generalizing cursor with
  | nil => exact ⟨List.Pairwise.nil, by simp [walk]⟩
  | cons r rest ih =>
    obtain ⟨limit, l⟩ := r
    have hl : Ordered key l := h _ List.mem_cons_self
    have hpage : Ordered key (page key limit cursor l) := (behind_ordered hl).sublist page_sublist
    rw [walk]
    cases hnext : next key limit cursor l with
    | none => exact ⟨hpage, fun a ha => behind_of_mem_page ha⟩
    | some c =>
      obtain ⟨hrest, hbehind⟩ := ih (fun r hr => h r (List.mem_cons_of_mem _ hr)) (some c)
      refine ⟨List.pairwise_append.mpr ⟨hpage, hrest, fun a ha b hb => ?_⟩, fun a ha => ?_⟩
      · exact lt_of_le_of_lt (le_next hl hnext ha) (hbehind b hb c rfl)
      · obtain ha | ha := List.mem_append.mp ha
        · exact behind_of_mem_page ha
        · exact fun d hd => (behind_next hnext d hd).trans (hbehind a ha c rfl)

theorem mem_walk (h : ∀ r ∈ requests, 0 < r.1 ∧ Ordered key r.2)
    (hend : (walk key cursor requests).2 = true) {k : κ} (hk : ∀ r ∈ requests, k ∈ r.2.map key)
    (hcursor : ∀ c ∈ cursor, c < k) :
    k ∈ (walk key cursor requests).1.map key := by
  induction requests generalizing cursor with
  | nil => cases hend
  | cons r rest ih =>
    obtain ⟨limit, l⟩ := r
    obtain ⟨hlimit, hl⟩ := h _ List.mem_cons_self
    obtain ⟨a, ha, rfl⟩ := List.mem_map.mp (hk _ List.mem_cons_self)
    have hbehind : a ∈ behind key cursor l := List.mem_filter.mpr ⟨ha, decide_eq_true hcursor⟩
    rw [walk] at hend ⊢
    obtain hpage | ⟨c, hnext, hlt⟩ := mem_page_or_behind hl hlimit hbehind
    · cases hnext : next key limit cursor l with
      | none => exact List.mem_map_of_mem hpage
      | some c => exact List.mem_map_of_mem (List.mem_append_left _ hpage)
    · rw [hnext] at hend ⊢
      have hrest := ih (fun r hr => h r (List.mem_cons_of_mem _ hr)) hend
        (fun r hr => hk r (List.mem_cons_of_mem _ hr)) fun d hd => by cases hd; exact hlt
      rw [List.map_append]
      exact List.mem_append_right _ hrest

theorem mem_of_mem_walk (h : a ∈ (walk key cursor requests).1) :
    ∃ r ∈ requests, a ∈ r.2 := by
  induction requests generalizing cursor with
  | nil => cases h
  | cons r rest ih =>
    obtain ⟨limit, l⟩ := r
    have hpage : a ∈ page key limit cursor l → a ∈ l :=
      fun ha => (List.mem_filter.mp (page_sublist.subset ha)).1
    rw [walk] at h
    cases hnext : next key limit cursor l with
    | none =>
      rw [hnext] at h
      exact ⟨_, List.mem_cons_self, hpage h⟩
    | some c =>
      rw [hnext] at h
      obtain ha | ha := List.mem_append.mp h
      · exact ⟨_, List.mem_cons_self, hpage ha⟩
      · obtain ⟨r, hr, har⟩ := ih ha
        exact ⟨r, List.mem_cons_of_mem _ hr, har⟩

/-! ## Two stable sorts -/

section Stable

variable {α : Type} (r s : α → α → Prop) [DecidableRel s]

variable (htrans : ∀ a b c, s a b → s b c → s a c) (htotal : ∀ a b, s a b ∨ s b a) {l : List α}
include htrans htotal

theorem pairwise_orderedInsert {a : α} (hfirst : ∀ b ∈ l, r a b)
    (hsorted : l.Pairwise fun a b => s a b ∧ (s b a → r a b)) :
    (l.orderedInsert s a).Pairwise fun a b => s a b ∧ (s b a → r a b) := by
  induction l with
  | nil => exact List.pairwise_singleton _ _
  | cons b l ih =>
    obtain ⟨hb, hsorted⟩ := List.pairwise_cons.mp hsorted
    rw [List.orderedInsert_cons]
    split_ifs with hab
    · refine List.pairwise_cons.mpr ⟨?_, List.pairwise_cons.mpr ⟨hb, hsorted⟩⟩
      intro c hc
      refine ⟨?_, fun _ => hfirst c hc⟩
      obtain rfl | hc := List.mem_cons.mp hc
      · exact hab
      · exact htrans a b c hab (hb c hc).1
    · refine List.pairwise_cons.mpr ⟨?_,
        ih (fun c hc => hfirst c (List.mem_cons_of_mem b hc)) hsorted⟩
      intro c hc
      obtain rfl | hc := (List.mem_orderedInsert s).mp hc
      · exact ⟨(htotal c b).resolve_left hab, fun h => absurd h hab⟩
      · exact hb c hc

/-- A stable sort of a list that is in one order puts it in the finer order. -/
theorem pairwise_insertionSort (h : l.Pairwise r) :
    (l.insertionSort s).Pairwise fun a b => s a b ∧ (s b a → r a b) := by
  induction l with
  | nil => exact List.Pairwise.nil
  | cons a l ih =>
    obtain ⟨ha, hl⟩ := List.pairwise_cons.mp h
    rw [List.insertionSort_cons]
    exact pairwise_orderedInsert r s htrans htotal
      (fun b hb => ha b ((List.mem_insertionSort s).mp hb)) (ih hl)

end Stable

end KeysetPages
