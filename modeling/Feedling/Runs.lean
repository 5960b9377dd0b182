import Mathlib.Logic.Relation

/-!
# Runs of a system given by its step function

A system is a function from a state and a label to the next state. Labels carry everything
the environment chooses, so a run is a list of labels and every interleaving is one list.
`Along` says that each step of a run meets a condition in the state it is taken in.
-/

namespace Runs

variable {σ ℓ : Type} (step : σ → ℓ → σ)

def run : σ → List ℓ → σ
  | s, [] => s
  | s, l :: ls => run (step s l) ls

/-- Every step of the run from `s` satisfies `ok` in the state it starts from. -/
def Along (ok : σ → ℓ → Prop) : σ → List ℓ → Prop
  | _, [] => True
  | s, l :: ls => ok s l ∧ Along ok (step s l) ls

instance decidableAlong (ok : σ → ℓ → Prop) [∀ s l, Decidable (ok s l)] :
    ∀ (s : σ) (ls : List ℓ), Decidable (Along step ok s ls)
  | _, [] => isTrue trivial
  | s, l :: ls =>
    have := decidableAlong ok (step s l) ls
    inferInstanceAs (Decidable (ok s l ∧ Along step ok (step s l) ls))

variable {step}

variable {R : σ → σ → Prop} (s : σ) (inv : σ → Prop) (ok : σ → ℓ → Prop)

@[simp] theorem run_nil : run step s [] = s := rfl
@[simp] theorem run_cons (l : ℓ) (ls : List ℓ) :
    run step s (l :: ls) = run step (step s l) ls := rfl

theorem run_append (ls ms : List ℓ) :
    run step s (ls ++ ms) = run step (run step s ls) ms := by
  induction ls generalizing s with
  | nil => rfl
  | cons l ls ih => simpa using ih (step s l)

@[simp] theorem along_nil (s : σ) : Along step ok s [] := trivial
@[simp] theorem along_cons (s : σ) (l : ℓ) (ls : List ℓ) :
    Along step ok s (l :: ls) ↔ ok s l ∧ Along step ok (step s l) ls := Iff.rfl

theorem along_append (s : σ) (ls ms : List ℓ) :
    Along step ok s (ls ++ ms) ↔ Along step ok s ls ∧ Along step ok (run step s ls) ms := by
  induction ls generalizing s with
  | nil => simp
  | cons l ls ih => simp [ih, and_assoc]

theorem along_and {ok ok' : σ → ℓ → Prop} {s : σ} {ls : List ℓ} (h : Along step ok s ls)
    (h' : Along step ok' s ls) : Along step (fun s l => ok s l ∧ ok' s l) s ls := by
  induction ls generalizing s with
  | nil => trivial
  | cons l ls ih => exact ⟨⟨h.1, h'.1⟩, ih h.2 h'.2⟩

/-- The invariant rule: true at the start and kept by every allowed step, so true at the end. -/
theorem invariant {ok : σ → ℓ → Prop}
    (hstep : ∀ s l, inv s → ok s l → inv (step s l)) {s : σ} (hs : inv s) {ls : List ℓ}
    (hl : Along step ok s ls) : inv (run step s ls) := by
  induction ls generalizing s with
  | nil => exact hs
  | cons l ls ih => exact ih (hstep s l hs hl.1) hl.2

/-- The rule without conditions: what every step keeps, every run keeps. -/
theorem invariant_all (hstep : ∀ s l, inv s → inv (step s l)) {s : σ} (hs : inv s)
    (ls : List ℓ) : inv (run step s ls) := by
  induction ls generalizing s with
  | nil => exact hs
  | cons l ls ih => exact ih (hstep s l hs)

section

variable (hrefl : ∀ s, R s s) (htrans : ∀ s t u, R s t → R t u → R s u)
include hrefl htrans

/-- The progress rule: a preorder that every allowed step respects relates the first and the
last state of a run. -/
theorem related {ok : σ → ℓ → Prop} (hinv : ∀ s l, inv s → ok s l → inv (step s l))
    (hstep : ∀ s l, inv s → ok s l → R s (step s l)) {s : σ} (hs : inv s) {ls : List ℓ}
    (hl : Along step ok s ls) :
    R s (run step s ls) := by
  induction ls generalizing s with
  | nil => exact hrefl s
  | cons l ls ih =>
    exact htrans _ _ _ (hstep s l hs hl.1) (ih (hinv s l hs hl.1) hl.2)

theorem related_all (hinv : ∀ s l, inv s → inv (step s l)) (hstep : ∀ s l, inv s → R s (step s l))
    {s : σ} (hs : inv s) (ls : List ℓ) : R s (run step s ls) := by
  induction ls generalizing s with
  | nil => exact hrefl s
  | cons l ls ih => exact htrans _ _ _ (hstep s l hs) (ih (hinv s l hs))

end

end Runs
