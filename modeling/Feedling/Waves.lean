import Mathlib.Data.List.Basic
import Mathlib.Data.List.Forall2
import Mathlib.Data.List.Infix
import Mathlib.Data.List.Pairwise
import Mathlib.Data.List.Perm.Basic

/-!
# Waves

A list is cut into waves from left to right; a new wave begins where an element conflicts with one
of the current wave. No other cut into blocks without conflicts has fewer blocks. If elements that
do not conflict are independent, the elements of a wave can run in any order.
-/

namespace Waves

variable {α σ ρ : Type}

section Greedy

variable (conflict : α → α → Bool)

/-- One element; the accumulators are the finished waves and the current one. -/
def add (acc : List (List α) × List α) (x : α) : List (List α) × List α :=
  if acc.2.any (conflict x) then (acc.1 ++ [acc.2], [x]) else (acc.1, acc.2 ++ [x])

def waves (l : List α) : List (List α) :=
  let (done, current) := l.foldl (add conflict) ([], [])
  if current.isEmpty then done else done ++ [current]

/-- No element conflicts with an earlier one. -/
def Free (l : List α) : Prop := l.Pairwise fun a b => conflict b a = false

/-- The accumulators hold what was seen, in waves without conflicts. -/
structure Cuts (seen : List α) (acc : List (List α) × List α) : Prop where
  flat : acc.1.flatten ++ acc.2 = seen
  finished : ∀ w ∈ acc.1, w ≠ [] ∧ Free conflict w
  current : Free conflict acc.2

variable {conflict}

theorem Free.snoc {l : List α} {x : α} (h : Free conflict l) (hx : l.any (conflict x) = false) :
    Free conflict (l ++ [x]) := by
  refine List.pairwise_append.mpr ⟨h, List.pairwise_singleton _ _, ?_⟩
  intro a ha b hb
  rw [List.mem_singleton.mp hb]
  exact Bool.eq_false_iff.mpr (List.any_eq_false.mp hx a ha)

theorem Cuts.add {seen : List α} {acc : List (List α) × List α} (h : Cuts conflict seen acc)
    (x : α) : Cuts conflict (seen ++ [x]) (Waves.add conflict acc x) := by
  rw [Waves.add]
  cases hany : acc.2.any (conflict x) with
  | true =>
    rw [if_pos rfl]
    refine ⟨by simp [← h.flat], ?_, List.pairwise_singleton _ _⟩
    intro w hw
    obtain hw | hw := List.mem_append.mp hw
    · exact h.finished w hw
    · rw [List.mem_singleton.mp hw]
      refine ⟨?_, h.current⟩
      rintro hnil
      rw [hnil] at hany
      cases hany
  | false =>
    rw [if_neg (by simp)]
    exact ⟨by simp [← h.flat], h.finished, h.current.snoc hany⟩

theorem Cuts.foldl (l : List α) {seen : List α} {acc : List (List α) × List α}
    (h : Cuts conflict seen acc) :
    Cuts conflict (seen ++ l) (l.foldl (Waves.add conflict) acc) := by
  induction l generalizing seen acc with
  | nil => simpa using h
  | cons x l ih => simpa using ih (h.add x)

/-- The waves are the list in order, and none of them is empty or has a conflict. -/
theorem waves_spec (conflict : α → α → Bool) (l : List α) :
    (waves conflict l).flatten = l ∧ ∀ w ∈ waves conflict l, w ≠ [] ∧ Free conflict w := by
  have hstart : Cuts conflict [] ([], []) := ⟨rfl, by simp, List.Pairwise.nil⟩
  have h : Cuts conflict l (l.foldl (add conflict) ([], [])) := hstart.foldl l
  rw [waves]
  generalize l.foldl (add conflict) ([], []) = acc at h
  obtain ⟨done, current⟩ := acc
  cases current with
  | nil => exact ⟨by simpa using h.flat, h.finished⟩
  | cons x current =>
    refine ⟨by simpa using h.flat, ?_⟩
    intro w hw
    simp only [List.isEmpty_cons, Bool.false_eq_true, if_false, List.mem_append,
      List.mem_singleton] at hw
    obtain hw | rfl := hw
    · exact h.finished w hw
    · exact ⟨by simp, h.current⟩

/-! ### The fewest waves -/

variable (conflict) in
/-- How often a new wave begins. -/
def breaks (current : List α) : List α → Nat
  | [] => 0
  | x :: l => if current.any (conflict x) then breaks [x] l + 1 else breaks (current ++ [x]) l

theorem foldl_add (conflict : α → α → Bool) (l : List α) (acc : List (List α) × List α) :
    (l.foldl (add conflict) acc).1.length = acc.1.length + breaks conflict acc.2 l ∧
      ((l.foldl (add conflict) acc).2 = [] → acc.2 = [] ∧ l = []) := by
  induction l generalizing acc with
  | nil => exact ⟨rfl, fun h => ⟨h, rfl⟩⟩
  | cons x l ih =>
    obtain ⟨hlength, hempty⟩ := ih (add conflict acc x)
    rw [List.foldl_cons, hlength, breaks]
    by_cases hany : acc.2.any (conflict x) = true
    · rw [if_pos hany]
      simp only [add, if_pos hany, List.length_append, List.length_singleton] at hempty ⊢
      exact ⟨by omega, fun h => absurd (hempty h).1 (by simp)⟩
    · rw [if_neg hany]
      simp only [add, if_neg hany] at hempty ⊢
      exact ⟨trivial, fun h => absurd (hempty h).1 (by simp)⟩

theorem length_waves {l : List α} (h : l ≠ []) :
    (waves conflict l).length = breaks conflict [] l + 1 := by
  obtain ⟨hlength, hempty⟩ := foldl_add conflict l ([], [])
  have hcurrent : (l.foldl (add conflict) ([], [])).2.isEmpty = false := by
    rw [List.isEmpty_eq_false_iff]
    exact fun hnil => h (hempty hnil).2
  simp only [waves, hcurrent, Bool.false_eq_true, if_false, List.length_append,
    List.length_singleton, hlength]
  simp

/-- A shorter current wave breaks no more often, and at most once less. -/
theorem breaks_suffix (conflict : α → α → Bool) (l : List α) {short long : List α}
    (h : short <:+ long) :
    breaks conflict short l ≤ breaks conflict long l ∧
      breaks conflict long l ≤ breaks conflict short l + 1 := by
  induction l generalizing short long with
  | nil => exact ⟨Nat.le_refl _, Nat.zero_le _⟩
  | cons x l ih =>
    have hsnoc : ∀ w : List α, [x] <:+ w ++ [x] := fun w => List.suffix_append w [x]
    rw [breaks, breaks]
    by_cases hshort : short.any (conflict x) = true
    · have hlong : long.any (conflict x) = true := by
        obtain ⟨a, ha, hconflict⟩ := List.any_eq_true.mp hshort
        exact List.any_eq_true.mpr ⟨a, h.subset ha, hconflict⟩
      rw [if_pos hshort, if_pos hlong]
      exact ⟨Nat.le_refl _, Nat.le_succ _⟩
    · rw [if_neg hshort]
      by_cases hlong : long.any (conflict x) = true
      · rw [if_pos hlong]
        obtain ⟨hle, hge⟩ := ih (hsnoc short)
        exact ⟨hge, Nat.succ_le_succ hle⟩
      · rw [if_neg hlong]
        obtain ⟨front, rfl⟩ := h
        exact ih ⟨front, by simp⟩

theorem breaks_block {block : List α} {current : List α} (h : Free conflict (current ++ block))
    (l : List α) : breaks conflict current (block ++ l) = breaks conflict (current ++ block) l := by
  induction block generalizing current with
  | nil => simp
  | cons x block ih =>
    have hany : ¬ current.any (conflict x) = true := by
      rw [Bool.not_eq_true, List.any_eq_false]
      intro a ha
      rw [(List.pairwise_append.mp h).2.2 a ha x (by simp)]
      simp
    have hstep : current ++ x :: block = (current ++ [x]) ++ block := by simp
    rw [List.cons_append, breaks, if_neg hany, hstep]
    rw [hstep] at h
    exact ih h

theorem breaks_lt_length {parts : List (List α)} (hfree : ∀ p ∈ parts, Free conflict p)
    (hne : parts.flatten ≠ []) : breaks conflict [] parts.flatten < parts.length := by
  induction parts with
  | nil => exact absurd rfl hne
  | cons p parts ih =>
    have hp : Free conflict ([] ++ p) := hfree p (by simp)
    rw [List.flatten_cons, breaks_block hp, List.nil_append, List.length_cons]
    by_cases hrest : parts.flatten = []
    · rw [hrest, breaks]
      exact Nat.succ_pos _
    · have hle := (breaks_suffix conflict parts.flatten (List.nil_suffix (l := p))).2
      have hlt := ih (fun q hq => hfree q (by simp [hq])) hrest
      omega

/-- No cut into blocks without conflicts has fewer blocks. -/
theorem length_waves_le {l : List α} {parts : List (List α)} (hflat : parts.flatten = l)
    (hfree : ∀ p ∈ parts, Free conflict p) : (waves conflict l).length ≤ parts.length := by
  by_cases hl : l = []
  · rw [hl]
    exact Nat.zero_le _
  · rw [length_waves hl]
    rw [← hflat] at hl ⊢
    exact breaks_lt_length hfree hl

end Greedy

/-! ## Any order -/

section Orders

variable (exec : α → σ → σ × ρ)

/-- One after the other, with what each returns. -/
def runAll : List α → σ → σ × List (α × ρ)
  | [], s => (s, [])
  | a :: l, s =>
    let first := exec a s
    let rest := runAll l first.1
    (rest.1, (a, first.2) :: rest.2)

/-- Block after block. -/
def runBlocks : List (List α) → σ → σ × List (List (α × ρ))
  | [], s => (s, [])
  | b :: blocks, s =>
    let first := runAll exec b s
    let rest := runBlocks blocks first.1
    (rest.1, first.2 :: rest.2)

/-- Neither sees what the other does, and both orders end alike. -/
structure Independent (a b : α) : Prop where
  left : ∀ s, (exec a (exec b s).1).2 = (exec a s).2
  right : ∀ s, (exec b (exec a s).1).2 = (exec b s).2
  comm : ∀ s, (exec a (exec b s).1).1 = (exec b (exec a s).1).1

variable {exec}

theorem Independent.symm {a b : α} (h : Independent exec a b) : Independent exec b a :=
  ⟨h.right, h.left, fun s => (h.comm s).symm⟩

theorem runAll_append (l l' : List α) (s : σ) :
    runAll exec (l ++ l') s =
      ((runAll exec l' (runAll exec l s).1).1, (runAll exec l s).2 ++
        (runAll exec l' (runAll exec l s).1).2) := by
  induction l generalizing s with
  | nil => rfl
  | cons a l ih => simp [runAll, ih]

theorem runAll_flatten (exec : α → σ → σ × ρ) (blocks : List (List α)) (s : σ) :
    runAll exec blocks.flatten s = ((runBlocks exec blocks s).1,
      (runBlocks exec blocks s).2.flatten) := by
  induction blocks generalizing s with
  | nil => rfl
  | cons b blocks ih => simp [runBlocks, runAll_append, ih]

theorem runAll_fst (l : List α) (s : σ) :
    (runAll exec l s).1 = l.foldl (fun s a => (exec a s).1) s := by
  induction l generalizing s with
  | nil => rfl
  | cons a l ih => exact ih _

theorem runAll_snd {l : List α} (h : l.Pairwise (Independent exec)) (s : σ) :
    (runAll exec l s).2 = l.map fun a => (a, (exec a s).2) := by
  induction l generalizing s with
  | nil => rfl
  | cons a l ih =>
    obtain ⟨ha, hl⟩ := List.pairwise_cons.mp h
    rw [runAll, List.map_cons, ih hl]
    refine congrArg _ (List.map_congr_left fun b hb => ?_)
    rw [(ha b hb).right s]

theorem runAll_perm {l l' : List α} (hperm : l'.Perm l) (h : l.Pairwise (Independent exec))
    (s : σ) :
    (runAll exec l' s).1 = (runAll exec l s).1 ∧ (runAll exec l' s).2.Perm (runAll exec l s).2 := by
  have hsymm : Std.Symm (Independent exec) := ⟨fun _ _ h => h.symm⟩
  have h' : l'.Pairwise (Independent exec) := hperm.symm.pairwise h fun h => h.symm
  constructor
  · rw [runAll_fst, runAll_fst]
    refine hperm.foldl_eq' (fun a ha b hb t => ?_) s
    by_cases hab : a = b
    · rw [hab]
    · exact ((h'.forall ha hb hab).comm t).symm
  · rw [runAll_snd h, runAll_snd h']
    exact hperm.map _

/-- Each block in an order of its own: every element returns the same and the end is the same. -/
theorem runBlocks_perm {orders blocks : List (List α)}
    (hperm : List.Forall₂ List.Perm orders blocks) (h : ∀ b ∈ blocks, b.Pairwise (Independent exec))
    (s : σ) :
    (runBlocks exec orders s).1 = (runBlocks exec blocks s).1 ∧
      List.Forall₂ List.Perm (runBlocks exec orders s).2 (runBlocks exec blocks s).2 := by
  induction hperm generalizing s with
  | nil => exact ⟨rfl, .nil⟩
  | @cons o b orders blocks hob _ ih =>
    obtain ⟨hend, hreturns⟩ := runAll_perm hob (h b (by simp)) s
    obtain ⟨hends, hrest⟩ := ih (fun b hb => h b (by simp [hb])) (runAll exec b s).1
    simp only [runBlocks, hend]
    exact ⟨hends, .cons hreturns hrest⟩

end Orders

end Waves
