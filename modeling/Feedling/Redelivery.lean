import Mathlib.Logic.Function.Basic
import Mathlib.Data.List.Basic

/-!
# Redelivery of a batch of guarded updates

A task belongs to a cell. It replaces the contents of the cell or rejects them. A delivery of a
batch runs its tasks wave by wave; the tasks of a wave have different cells and run in any order.
A task that was applied is marked and skipped from then on. A task may raise, which changes
nothing; the delivery then stops after its wave, and a later one begins again from the front.

`after` is the execution of the batch once and in order. The question is when every sequence of
deliveries comes to the same result: exactly when a task that is rejected in order is rejected at
every later point of that execution too.
-/

namespace Redelivery

structure Task (ι κ σ : Type) where
  id : ι
  cell : κ
  act : σ → Option σ

variable {ι κ σ : Type} [DecidableEq κ]

namespace Task

/-- The task on its cell; a rejection leaves the cells alone. -/
def run (t : Task ι κ σ) (c : κ → σ) : κ → σ :=
  match t.act (c t.cell) with
  | some s => Function.update c t.cell s
  | none => c

def accepts (t : Task ι κ σ) (c : κ → σ) : Bool := (t.act (c t.cell)).isSome

theorem run_other (t : Task ι κ σ) (c : κ → σ) {p : κ} (h : p ≠ t.cell) : t.run c p = c p := by
  unfold run
  cases t.act (c t.cell) with
  | none => rfl
  | some s => simp [h]

theorem run_congr (t : Task ι κ σ) {c c' : κ → σ} (h : c t.cell = c' t.cell) :
    t.run c t.cell = t.run c' t.cell := by
  unfold run
  rw [h]
  cases t.act (c' t.cell) with
  | none => exact h
  | some s => simp

/-- Tasks on different cells commute. -/
theorem run_comm {t t' : Task ι κ σ} (h : t.cell ≠ t'.cell) (c : κ → σ) :
    t.run (t'.run c) = t'.run (t.run c) := by
  funext p
  by_cases hp : p = t.cell
  · subst hp
    rw [run_other t' _ h, run_congr t (run_other t' c h)]
  · rw [run_other t _ hp]
    by_cases hp' : p = t'.cell
    · subst hp'
      rw [run_congr t' (run_other t c h.symm)]
    · rw [run_other t' c hp', run_other t' _ hp', run_other t c hp]

omit [DecidableEq κ] in
theorem accepts_congr (t : Task ι κ σ) {c c' : κ → σ} (h : c t.cell = c' t.cell) :
    t.accepts c = t.accepts c' := by
  rw [accepts, accepts, h]

end Task

/-! ## The execution in order -/

/-- The cells after the first `m` tasks. -/
def after (ts : List (Task ι κ σ)) (c : κ → σ) (m : Nat) : κ → σ :=
  (ts.take m).foldl (fun c t => t.run c) c

/-- The `i`-th task is applied. -/
def accepted (ts : List (Task ι κ σ)) (c : κ → σ) (i : Nat) : Bool :=
  ts[i]?.any fun t => t.accepts (after ts c i)

/-- A task that is rejected in order is rejected at every later point. -/
def StaysRejected (ts : List (Task ι κ σ)) (c : κ → σ) : Prop :=
  ∀ i t, ts[i]? = some t → accepted ts c i = false → ∀ m, i < m → t.accepts (after ts c m) = false

section After

variable {ts : List (Task ι κ σ)} {c : κ → σ}

@[simp] theorem after_zero : after ts c 0 = c := rfl

variable {i : Nat} {t : Task ι κ σ}

theorem after_succ (h : ts[i]? = some t) :
    after ts c (i + 1) = t.run (after ts c i) := by
  simp [after, List.take_add_one, h]

theorem after_of_length_le {m : Nat} (h : ts.length ≤ m) : after ts c m = after ts c ts.length := by
  simp [after, List.take_of_length_le h]

theorem accepted_eq (h : ts[i]? = some t) :
    accepted ts c i = t.accepts (after ts c i) := by
  simp [accepted, h]

theorem after_succ_of_rejected (h : ts[i]? = some t) (hr : accepted ts c i = false) :
    after ts c (i + 1) = after ts c i := by
  rw [accepted_eq h, Task.accepts, Option.isSome_eq_false_iff, Option.isNone_iff_eq_none] at hr
  rw [after_succ h, Task.run, hr]

theorem after_congr {p : κ} {a b : Nat} (hab : a ≤ b)
    (h : ∀ k t, a ≤ k → k < b → ts[k]? = some t → t.cell ≠ p) :
    after ts c b p = after ts c a p := by
  induction hab with
  | refl => rfl
  | step han ih =>
    rename_i n
    have hprev := ih fun k t hk hkn => h k t hk (by omega)
    cases hn : ts[n]? with
    | none =>
      rw [List.getElem?_eq_none_iff] at hn
      rw [after_of_length_le (by omega : ts.length ≤ n + 1), ← after_of_length_le hn]
      exact hprev
    | some t =>
      rw [after_succ hn, Task.run_other _ _ (Ne.symm (h n t han (by omega) hn))]
      exact hprev

end After

/-! ## Deliveries -/

/-- Where a task raises: before its mark is read, or in its action. -/
inductive Fault where
  | none | early | late
  deriving DecidableEq, Repr

inductive Answer where
  | applied | rejected | raised
  deriving DecidableEq, Repr

/-- The cells, and the marks of the applied tasks. -/
structure Progress (ι κ σ : Type) where
  cells : κ → σ
  done : ι → Bool

def start (c : κ → σ) : Progress ι κ σ := ⟨c, fun _ => false⟩

variable [DecidableEq ι]

def attempt (f : Fault) (t : Task ι κ σ) (s : Progress ι κ σ) : Progress ι κ σ × Answer :=
  match f with
  | .early => (s, .raised)
  | f =>
    if s.done t.id then (s, .applied)
    else if f = .late then (s, .raised)
    else match t.act (s.cells t.cell) with
      | some v => (⟨Function.update s.cells t.cell v, Function.update s.done t.id true⟩, .applied)
      | none => (s, .rejected)

def runWave (f : ι → Fault) :
    List (Task ι κ σ) → Progress ι κ σ → Progress ι κ σ × List (ι × Answer)
  | [], s => (s, [])
  | t :: w, s =>
    let first := attempt (f t.id) t s
    let rest := runWave f w first.1
    (rest.1, (t.id, first.2) :: rest.2)

/-- The answers of a delivery that reached the end, `none` if it raised. -/
def deliver (f : ι → Fault) :
    List (List (Task ι κ σ)) → Progress ι κ σ → Progress ι κ σ × Option (List (ι × Answer))
  | [], s => (s, some [])
  | w :: ws, s =>
    let first := runWave f w s
    if first.2.any (fun a => a.2 == .raised) then (first.1, none)
    else
      let rest := deliver f ws first.1
      (rest.1, rest.2.map (first.2 ++ ·))

/-- The waves are consecutive parts of the list, each in any order, with one task per cell. -/
inductive Waves : List (Task ι κ σ) → List (List (Task ι κ σ)) → Prop
  | nil : Waves [] []
  | cons {part rest w : List (Task ι κ σ)} {ws : List (List (Task ι κ σ))} : w.Perm part →
      part.Pairwise (fun t t' => t.cell ≠ t'.cell) → Waves rest ws → Waves (part ++ rest) (w :: ws)

/-- One delivery of the batch. -/
structure Delivery (ts : List (Task ι κ σ)) where
  faults : ι → Fault
  waves : List (List (Task ι κ σ))
  ok : Waves ts waves

variable {ts : List (Task ι κ σ)} {c : κ → σ}

def Delivery.run (d : Delivery ts) (s : Progress ι κ σ) :
    Progress ι κ σ × Option (List (ι × Answer)) :=
  deliver d.faults d.waves s

/-- The state that a sequence of deliveries leaves. -/
def deliverAll (ds : List (Delivery ts)) (s : Progress ι κ σ) : Progress ι κ σ :=
  ds.foldl (fun s d => (d.run s).1) s

/-- What the `i`-th task answers in order. -/
def answerAt (ts : List (Task ι κ σ)) (c : κ → σ) (i : Nat) : Answer :=
  if accepted ts c i then .applied else .rejected

/-! ## A rejection that stays: every delivery keeps to the order -/

/-- Each cell `p` is where the execution in order is after `m p` tasks, and the marks agree. -/
structure Sound (ts : List (Task ι κ σ)) (c : κ → σ) (m : κ → Nat) (s : Progress ι κ σ) : Prop where
  cells : ∀ p, s.cells p = after ts c (m p) p
  done : ∀ i t, ts[i]? = some t → s.done t.id = (decide (i < m t.cell) && accepted ts c i)

omit [DecidableEq ι] in
theorem start_sound : Sound ts c (fun _ => 0) (start c) := by
  constructor
  · simp [start]
  · simp [start]

/-- Every earlier task of the cell of the `i`-th task has had its turn. -/
def Turn (ts : List (Task ι κ σ)) (m : κ → Nat) (i : Nat) (t : Task ι κ σ) : Prop :=
  ∀ k t', k < i → ts[k]? = some t' → t'.cell = t.cell → k < m t.cell

variable {i : Nat} {t : Task ι κ σ}

omit [DecidableEq ι] [DecidableEq κ] in
theorem Turn.mono {m m' : κ → Nat} (h : Turn ts m i t) (hle : ∀ p, m p ≤ m' p) :
    Turn ts m' i t :=
  fun k t' hk ht' hcell => Nat.lt_of_lt_of_le (h k t' hk ht' hcell) (hle _)

variable {m : κ → Nat} {s : Progress ι κ σ}

omit [DecidableEq ι] in
/-- A task whose turn it is finds its cell as the execution in order does. -/
theorem Sound.at_turn (h : Sound ts c m s)
    (hturn : Turn ts m i t) (hge : m t.cell ≤ i) : s.cells t.cell = after ts c i t.cell := by
  rw [h.cells]
  symm
  apply after_congr hge
  intro k t' hk hki ht' hcell
  have hlt := hturn k t' hki ht' hcell
  omega

omit [DecidableEq ι] [DecidableEq κ] in
theorem index_inj (hids : (ts.map (·.id)).Nodup) {i j : Nat} {t t' : Task ι κ σ}
    (hi : ts[i]? = some t) (hj : ts[j]? = some t') (hid : t.id = t'.id) : i = j := by
  have hget : (ts.map (·.id))[i]? = (ts.map (·.id))[j]? := by simp [hi, hj, hid]
  have hlt : i < (ts.map (·.id)).length := by simpa using (List.getElem?_eq_some_iff.mp hi).1
  exact (List.getElem?_inj hlt hids).mp hget

omit [DecidableEq ι] in
/-- The `i`-th task has had its turn: its cell moves on, and its mark is set if it was applied. -/
theorem Sound.advance {s s' : Progress ι κ σ} (h : Sound ts c m s)
    (hids : (ts.map (·.id)).Nodup) (hi : ts[i]? = some t) (hturn : Turn ts m i t)
    (hge : m t.cell ≤ i) (hcell : s'.cells t.cell = after ts c (i + 1) t.cell)
    (hcells : ∀ p, p ≠ t.cell → s'.cells p = s.cells p) (hmark : s'.done t.id = accepted ts c i)
    (hmarks : ∀ k, k ≠ t.id → s'.done k = s.done k) :
    Sound ts c (Function.update m t.cell (i + 1)) s' := by
  constructor
  · intro p
    by_cases hp : p = t.cell
    · subst hp
      simpa using hcell
    · rw [hcells p hp, Function.update_of_ne hp]
      exact h.cells p
  · intro j t' hj
    by_cases hji : j = i
    · subst hji
      rw [hi] at hj
      cases hj
      simp [hmark]
    · have hid : t'.id ≠ t.id := fun hid => hji (index_inj hids hj hi hid)
      rw [hmarks _ hid, h.done j t' hj]
      by_cases hcell' : t'.cell = t.cell
      · -- between the old and the new position of the cell there is no task but the `i`-th
        have hiff : j < m t.cell ↔ j < i + 1 := by
          constructor
          · omega
          · intro hlt
            exact hturn j t' (by omega) hj hcell'
        simp [hcell', hiff]
      · rw [Function.update_of_ne hcell']

theorem attempt_done {f : Fault} (hf : f ≠ .early) (h : s.done t.id = true) :
    attempt f t s = (s, .applied) := by
  cases f <;> simp_all [attempt]

theorem attempt_late (h : s.done t.id = false) :
    attempt .late t s = (s, .raised) := by
  simp [attempt, h]

theorem attempt_accepts (h : s.done t.id = false) {v : σ}
    (hact : t.act (s.cells t.cell) = some v) :
    attempt .none t s = (⟨Function.update s.cells t.cell v, Function.update s.done t.id true⟩,
      .applied) := by
  simp [attempt, h, hact]

theorem attempt_rejects (h : s.done t.id = false)
    (hact : t.act (s.cells t.cell) = none) : attempt .none t s = (s, .rejected) := by
  simp [attempt, h, hact]

omit [DecidableEq ι] [DecidableEq κ] in
theorem Task.act_eq_none {c : κ → σ} (h : t.accepts c = false) : t.act (c t.cell) = none := by
  simpa [Task.accepts] using h

section

variable (hids : (ts.map (·.id)).Nodup) (hstay : StaysRejected ts c) (h : Sound ts c m s)
  (hi : ts[i]? = some t)
include hids hstay h hi

/-- A task without a mark runs to its end: it answers as in order. -/
theorem attempt_unmarked (hturn : Turn ts m i t) (hdone : s.done t.id = false) :
    (attempt .none t s).2 = answerAt ts c i ∧
      ∃ m', Sound ts c m' (attempt .none t s).1 ∧ i < m' t.cell ∧ ∀ p, m p ≤ m' p := by
  by_cases hlt : i < m t.cell
  · -- a repeated attempt: the task was rejected in order
    have hrejected : accepted ts c i = false := by
      have hmark := h.done i t hi
      simpa [hdone, hlt] using hmark
    have hagain := hstay i t hi hrejected _ hlt
    rw [← t.accepts_congr (h.cells t.cell)] at hagain
    rw [attempt_rejects hdone (Task.act_eq_none hagain)]
    exact ⟨by simp [answerAt, hrejected], m, h, hlt, fun _ => Nat.le_refl _⟩
  · -- the first attempt
    have hge : m t.cell ≤ i := by omega
    have hcell := h.at_turn hturn hge
    have haccepts := t.accepts_congr hcell
    have hrun : t.run s.cells t.cell = after ts c (i + 1) t.cell := by
      rw [after_succ hi]
      exact t.run_congr hcell
    rw [← accepted_eq hi] at haccepts
    have hmono : ∀ p, m p ≤ Function.update m t.cell (i + 1) p := by
      intro p
      by_cases hp : p = t.cell
      · subst hp
        simp
        omega
      · simp [hp]
    cases hact : t.act (s.cells t.cell) with
    | some v =>
      simp only [Task.accepts, hact, Option.isSome_some] at haccepts
      simp only [Task.run, hact] at hrun
      rw [attempt_accepts hdone hact]
      refine ⟨by
        simp [answerAt, ← haccepts], _, h.advance hids hi hturn hge hrun ?_ ?_ ?_, by simp, hmono⟩
      · intro p hp
        simp [hp]
      · simp [← haccepts]
      · intro k hk
        simp [hk]
    | none =>
      simp only [Task.accepts, hact, Option.isSome_none] at haccepts
      simp only [Task.run, hact] at hrun
      rw [attempt_rejects hdone hact]
      refine ⟨by
        simp [answerAt, ← haccepts], _, h.advance hids hi hturn hge hrun ?_ ?_ ?_, by simp, hmono⟩
      · exact fun _ _ => rfl
      · rw [hdone, haccepts]
      · exact fun _ _ => rfl

/-- One attempt, whether for the first time or again: it raises, or answers as in order. -/
theorem attempt_sound (hturn : Turn ts m i t) (f : Fault) : attempt f t s = (s, .raised) ∨
    (attempt f t s).2 = answerAt ts c i ∧
      ∃ m', Sound ts c m' (attempt f t s).1 ∧ i < m' t.cell ∧ ∀ p, m p ≤ m' p := by
  by_cases hearly : f = .early
  · subst hearly
    exact .inl rfl
  · cases hdone : s.done t.id with
    | true =>
      have hmark := h.done i t hi
      rw [hdone] at hmark
      simp only [Bool.true_eq, Bool.and_eq_true, decide_eq_true_eq] at hmark
      rw [attempt_done hearly hdone]
      exact .inr ⟨by simp [answerAt, hmark.2], m, h, hmark.1, fun _ => Nat.le_refl _⟩
    | false =>
      cases f with
      | early => exact absurd rfl hearly
      | late => exact .inl (attempt_late hdone)
      | none => exact .inr (attempt_unmarked hids hstay h hi hturn hdone)

end

theorem runWave_ids (f : ι → Fault) (w : List (Task ι κ σ)) (s : Progress ι κ σ) :
    (runWave f w s).2.map (·.1) = w.map (·.id) := by
  induction w generalizing s with
  | nil => rfl
  | cons t w ih => simp [runWave, ih]

variable {f : ι → Fault} {ws : List (List (Task ι κ σ))}

/-- A delivery that reaches the end has an answer for every task. -/
theorem deliver_ids {l : List (Task ι κ σ)} (hws : Waves l ws)
    {as : List (ι × Answer)} (h : (deliver f ws s).2 = some as) :
    (as.map (·.1)).Perm (l.map (·.id)) := by
  induction hws generalizing s as with
  | nil => cases h; exact .refl _
  | @cons part rest w ws hperm _ _ ih =>
    simp only [deliver] at h
    split at h
    · cases h
    · obtain ⟨as', has', rfl⟩ := Option.map_eq_some_iff.mp h
      rw [List.map_append, List.map_append, runWave_ids]
      exact (hperm.map _).append (ih has')

omit [DecidableEq ι] [DecidableEq κ] in
theorem Waves.of_parts {α : Type} {ws : List α} {part order : α → List (Task ι κ σ)}
    (hperm : ∀ w ∈ ws, (order w).Perm (part w))
    (hcells : ∀ w ∈ ws, (part w).Pairwise fun t t' => t.cell ≠ t'.cell) :
    Waves (ws.flatMap part) (ws.map order) := by
  induction ws with
  | nil => exact .nil
  | cons w ws ih =>
    rw [List.flatMap_cons, List.map_cons]
    exact .cons (hperm w (by simp)) (hcells w (by simp))
      (ih (fun v hv => hperm v (by simp [hv])) fun v hv => hcells v (by simp [hv]))

variable {w : List (Task ι κ σ)}

/-- A wave of tasks whose turn it is. Those that did not raise have answered as in order. -/
theorem runWave_sound (hids : (ts.map (·.id)).Nodup) (hstay : StaysRejected ts c) (f : ι → Fault)
    (h : Sound ts c m s)
    (hw : ∀ t ∈ w, ∃ i, ts[i]? = some t ∧ Turn ts m i t) :
    ∃ m', Sound ts c m' (runWave f w s).1 ∧ (∀ p, m p ≤ m' p) ∧
      ∀ k a, (k, a) ∈ (runWave f w s).2 → ∃ i t, ts[i]? = some t ∧ t.id = k ∧
        (a = .raised ∨ a = answerAt ts c i ∧ i < m' t.cell) := by
  induction w generalizing m s with
  | nil => exact ⟨m, h, fun _ => Nat.le_refl _, by simp [runWave]⟩
  | cons t w ih =>
    obtain ⟨i, hi, hturn⟩ := hw t (by simp)
    have hfirst : ∃ m₁, Sound ts c m₁ (attempt (f t.id) t s).1 ∧ (∀ p, m p ≤ m₁ p) ∧
        ((attempt (f t.id) t s).2 = .raised ∨
          (attempt (f t.id) t s).2 = answerAt ts c i ∧ i < m₁ t.cell) := by
      obtain hraised | ⟨hanswer, m₁, hsound, hlt, hle⟩ :=
        attempt_sound hids hstay h hi hturn (f t.id)
      · rw [hraised]
        exact ⟨m, h, fun _ => Nat.le_refl _, .inl rfl⟩
      · exact ⟨m₁, hsound, hle, .inr ⟨hanswer, hlt⟩⟩
    obtain ⟨m₁, hsound, hle, hanswer⟩ := hfirst
    -- after the first task of the wave the others still have their turn
    obtain ⟨m', hsound', hle', hanswers⟩ := ih hsound fun t' ht' => by
      obtain ⟨j, hj, hturn'⟩ := hw t' (by simp [ht'])
      exact ⟨j, hj, hturn'.mono hle⟩
    refine ⟨m', hsound', fun p => Nat.le_trans (hle p) (hle' p), fun k a hka => ?_⟩
    simp only [runWave, List.mem_cons, Prod.mk.injEq] at hka
    obtain ⟨rfl, rfl⟩ | hka := hka
    · exact ⟨i, t, hi, rfl, hanswer.imp id fun hright => ⟨hright.1,
          Nat.lt_of_lt_of_le hright.2 (hle' _)⟩⟩
    · exact hanswers k a hka

omit [DecidableEq ι] [DecidableEq κ] in
/-- In a wave every task has its turn once all earlier waves are done. -/
theorem turn_of_wave {front part rest : List (Task ι κ σ)} (hts : ts = front ++ (part ++ rest))
    (hcells : part.Pairwise fun t t' => t.cell ≠ t'.cell)
    (hfront : ∀ k t, k < front.length → ts[k]? = some t → k < m t.cell) (ht : t ∈ part) :
    ∃ i, ts[i]? = some t ∧ Turn ts m i t := by
  obtain ⟨n, hn, rfl⟩ := List.getElem_of_mem ht
  have hget : ∀ j, j < part.length → ts[front.length + j]? = part[j]? := by
    intro j hj
    rw [hts, List.getElem?_append_right (by omega), List.getElem?_append_left (by omega)]
    simp
  refine ⟨front.length + n, by rw [hget n hn]; simp [hn], fun k t' hk ht' hcell => ?_⟩
  by_cases hkf : k < front.length
  · rw [← hcell]
    exact hfront k t' hkf ht'
  · -- no two tasks of the wave share a cell
    obtain ⟨j, rfl⟩ := Nat.exists_eq_add_of_le (by omega : front.length ≤ k)
    have hj : j < part.length := by omega
    rw [hget j hj, List.getElem?_eq_getElem hj] at ht'
    cases ht'
    exact absurd hcell (List.pairwise_iff_getElem.mp hcells j n hj hn (by omega))

/-- One delivery, from any state that earlier ones may have left. -/
theorem deliver_sound (hids : (ts.map (·.id)).Nodup) (hstay : StaysRejected ts c) (f : ι → Fault)
    {rest : List (Task ι κ σ)} (hws : Waves rest ws) (front : List (Task ι κ σ))
    (hts : ts = front ++ rest) (h : Sound ts c m s)
    (hfront : ∀ k t, k < front.length → ts[k]? = some t → k < m t.cell) :
    ∃ m', Sound ts c m' (deliver f ws s).1 ∧ ∀ as, (deliver f ws s).2 = some as →
      (∀ k t, ts[k]? = some t → k < m' t.cell) ∧
      ∀ k a, (k, a) ∈ as → ∃ i t, ts[i]? = some t ∧ t.id = k ∧ a = answerAt ts c i := by
  induction hws generalizing front m s with
  | nil =>
    refine ⟨m, h, fun as has => ?_⟩
    cases has
    simp only [List.append_nil] at hts
    refine ⟨fun k t hk => hfront k t ?_ hk, by simp⟩
    rw [← hts]
    exact (List.getElem?_eq_some_iff.mp hk).1
  | @cons part rest w ws hperm hcells hws ih =>
    obtain ⟨m₁, hsound, hle, hanswers⟩ := runWave_sound hids hstay f h fun t ht =>
      turn_of_wave hts hcells hfront (hperm.mem_iff.mp ht)
    simp only [deliver]
    split
    · exact ⟨m₁, hsound, fun as has => nomatch has⟩
    · next hraised =>
      simp only [List.any_eq_true, beq_iff_eq, not_exists, not_and, Prod.forall] at hraised
      have hpart : ∀ k t, k < (front ++ part).length → ts[k]? = some t → k < m₁ t.cell := by
        intro k t hk ht
        by_cases hkf : k < front.length
        · exact Nat.lt_of_lt_of_le (hfront k t hkf ht) (hle _)
        · have hmem : t ∈ part := by
            rw [hts, List.getElem?_append_right (by omega),
              List.getElem?_append_left (by rw [List.length_append] at hk; omega)] at ht
            exact List.mem_of_getElem? ht
          have hid : t.id ∈ (runWave f w s).2.map (·.1) := by
            rw [runWave_ids]
            exact List.mem_map_of_mem (hperm.mem_iff.mpr hmem)
          obtain ⟨⟨k', a⟩, ha, hk'⟩ := List.mem_map.mp hid
          obtain ⟨i, t', hi, hid', hright⟩ := hanswers k' a ha
          obtain rfl := index_inj hids ht hi (hk'.symm.trans hid'.symm)
          rw [ht] at hi
          cases hi
          obtain hraise | ⟨-, hlt⟩ := hright
          · exact absurd hraise (hraised k' a ha)
          · exact hlt
      obtain ⟨m', hsound', hdone⟩ :=
        ih (front ++ part) (by rw [hts, List.append_assoc]) hsound hpart
      refine ⟨m', hsound', fun as has => ?_⟩
      obtain ⟨as', has', rfl⟩ := Option.map_eq_some_iff.mp has
      obtain ⟨hall, hanswers'⟩ := hdone as' has'
      refine ⟨hall, fun k a hka => ?_⟩
      obtain hka | hka := List.mem_append.mp hka
      · obtain ⟨i, t, hi, hk, hright⟩ := hanswers k a hka
        obtain hraise | ⟨hanswer, -⟩ := hright
        · exact absurd hraise (hraised k a hka)
        · exact ⟨i, t, hi, hk, hanswer⟩
      · exact hanswers' k a hka

/-- The result of a delivery is that of the execution in order: its cells and every answer. -/
def InOrder (ts : List (Task ι κ σ)) (c : κ → σ) (s : Progress ι κ σ) (as : List (ι × Answer)) :
    Prop :=
  s.cells = after ts c ts.length ∧
    ∀ i t, ts[i]? = some t → ∀ a, (t.id, a) ∈ as → a = answerAt ts c i

section

variable (hids : (ts.map (·.id)).Nodup) (hstay : StaysRejected ts c) (ds : List (Delivery ts))
include hids hstay ds

theorem deliverAll_sound (h : Sound ts c m s) : ∃ m', Sound ts c m' (deliverAll ds s) := by
  induction ds generalizing m s with
  | nil => exact ⟨m, h⟩
  | cons d ds ih =>
    obtain ⟨m₁, hsound, -⟩ := deliver_sound hids hstay d.faults d.ok [] rfl h (by simp)
    exact ih hsound

/-- If rejections stay, every sequence of deliveries comes to the result of the execution in
order. -/
theorem in_order_of_staysRejected (d : Delivery ts) {as : List (ι × Answer)}
    (has : (d.run (deliverAll ds (start c))).2 = some as) :
    InOrder ts c (d.run (deliverAll ds (start c))).1 as := by
  obtain ⟨m, hsound⟩ := deliverAll_sound hids hstay ds start_sound
  obtain ⟨m', hsound', hdone⟩ := deliver_sound hids hstay d.faults d.ok [] rfl hsound (by simp)
  obtain ⟨hall, hanswers⟩ := hdone as has
  constructor
  · funext p
    refine (hsound'.cells p).trans ?_
    by_cases hle : m' p ≤ ts.length
    · symm
      apply after_congr hle
      rintro k t hk - ht rfl
      have hlt := hall k t ht
      omega
    · rw [after_of_length_le (by omega)]
  · intro i t hi a ha
    obtain ⟨j, t', hj, hid, rfl⟩ := hanswers t.id a ha
    rw [index_inj hids hi hj hid.symm]

end

/-! ## A rejection that does not stay: a second delivery tells -/

theorem runWave_append (f : ι → Fault) (w w' : List (Task ι κ σ)) (s : Progress ι κ σ) :
    runWave f (w ++ w') s =
      ((runWave f w' (runWave f w s).1).1, (runWave f w s).2 ++
        (runWave f w' (runWave f w s).1).2) := by
  induction w generalizing s with
  | nil => rfl
  | cons t w ih => simp [runWave, ih]

theorem attempt_not_raised (t : Task ι κ σ) (s : Progress ι κ σ) :
    (attempt .none t s).2 ≠ .raised := by
  simp only [attempt]
  cases s.done t.id with
  | true => simp
  | false => cases t.act (s.cells t.cell) <;> simp

theorem attempt_state {f : Fault} (h : (attempt f t s).2 ≠ .applied) :
    (attempt f t s).1 = s := by
  cases f with
  | early => rfl
  | none | late =>
    simp only [attempt] at h ⊢
    cases hdone : s.done t.id with
    | true => rfl
    | false => cases hact : t.act (s.cells t.cell) <;> simp_all

theorem runWave_not_raised (hf : ∀ t ∈ w, f t.id = .none)
    (s : Progress ι κ σ) : (runWave f w s).2.any (fun a => a.2 == .raised) = false := by
  induction w generalizing s with
  | nil => rfl
  | cons t w ih =>
    have hfirst := attempt_not_raised t s
    simp only [runWave, List.any_cons, hf t (by simp), ih fun t' ht' => hf t' (by simp [ht'])]
    simpa using hfirst

theorem runWave_early (hf : ∀ t ∈ w, f t.id = .early)
    (s : Progress ι κ σ) : (runWave f w s).1 = s := by
  induction w generalizing s with
  | nil => rfl
  | cons t w ih =>
    simp only [runWave, hf t (by simp), attempt]
    exact ih (fun t' ht' => hf t' (by simp [ht'])) s

theorem deliver_none (hf : ∀ k, f k = .none) (ws : List (List (Task ι κ σ))) (s : Progress ι κ σ) :
    deliver f ws s = ((runWave f ws.flatten s).1, some (runWave f ws.flatten s).2) := by
  induction ws generalizing s with
  | nil => rfl
  | cons w ws ih =>
    simp only [deliver, runWave_not_raised (fun t _ => hf t.id), List.flatten_cons,
      runWave_append, ih]
    simp

/-- If all tasks from some point on raise at once, the delivery does the part before. -/
theorem deliver_cut (front rest : List (Task ι κ σ))
    (hws : ws.flatten = front ++ rest) (hfront : ∀ t ∈ front, f t.id = .none)
    (hrest : ∀ t ∈ rest, f t.id = .early) (s : Progress ι κ σ) :
    (deliver f ws s).1 = (runWave f front s).1 := by
  induction ws generalizing front rest s with
  | nil =>
    obtain ⟨rfl, rfl⟩ := List.append_eq_nil_iff.mp hws.symm
    rfl
  | cons w ws ih =>
    simp only [deliver]
    obtain ⟨x, hx, hflat⟩ | ⟨x, hx, hflat⟩ := List.append_eq_append_iff.mp hws
    · -- the whole wave lies before the cut
      subst hx
      have hquiet := runWave_not_raised (w := w) (fun t ht => hfront t (by simp [ht])) s
      rw [if_neg (by simp [hquiet]), runWave_append]
      exact ih x rest hflat (fun t ht => hfront t (by simp [ht])) hrest _
    · -- the cut lies in this wave, and nothing runs after it
      subst hx hflat
      have hcut : (runWave f (front ++ x) s).1 = (runWave f front s).1 := by
        rw [runWave_append]
        exact runWave_early (fun t ht => hrest t (by simp [ht])) _
      split
      · exact hcut
      · have hnothing := ih [] ws.flatten rfl (by simp)
          (fun t ht => hrest t (List.mem_append_right _ ht)) (runWave f (front ++ x) s).1
        rw [hcut] at hnothing ⊢
        exact hnothing

theorem runWave_take (hids : (ts.map (·.id)).Nodup) {n : Nat} (hn : n ≤ ts.length)
    (hf : ∀ t ∈ ts.take n, f t.id = .none) :
    Sound ts c (fun _ => n) (runWave f (ts.take n) (start c)).1 := by
  induction n with
  | zero => exact start_sound
  | succ n ih =>
    obtain ⟨t, hi⟩ : ∃ t, ts[n]? = some t := ⟨ts[n], List.getElem?_eq_getElem hn⟩
    rw [List.take_add_one, hi] at hf ⊢
    simp only [Option.toList_some] at hf ⊢
    have hsound := ih (by omega) fun t' ht' => hf t' (by simp [ht'])
    rw [runWave_append]
    generalize (runWave f (ts.take n) (start c)).1 = s at hsound
    have hdone : s.done t.id = false := by simpa using hsound.done n t hi
    have hturn : Turn ts (fun _ => n) n t := fun k _ hk _ _ => hk
    have hcell := hsound.at_turn hturn (Nat.le_refl n)
    have hcells : s.cells = after ts c n := funext hsound.cells
    have hall : Sound ts c (Function.update (fun _ => n) t.cell (n + 1)) (attempt .none t s).1 := by
      cases hact : t.act (s.cells t.cell) with
      | some v =>
        have haccepted : accepted ts c n = true := by
          rw [accepted_eq hi, ← hcells, Task.accepts, hact]; rfl
        rw [attempt_accepts hdone hact]
        apply hsound.advance hids hi hturn (Nat.le_refl n)
        · rw [after_succ hi, ← hcells]; simp [Task.run, hact]
        · intro p hp; simp [hp]
        · simp [haccepted]
        · intro k hk; simp [hk]
      | none =>
        have hrejected : accepted ts c n = false := by
          rw [accepted_eq hi, ← hcells, Task.accepts, hact]; rfl
        rw [attempt_rejects hdone hact]
        apply hsound.advance hids hi hturn (Nat.le_refl n)
        · rw [after_succ_of_rejected hi hrejected, hcell]
        · exact fun _ _ => rfl
        · rw [hdone, hrejected]
        · exact fun _ _ => rfl
    simp only [runWave, hf t (by simp)]
    -- the other cells have no task at this point
    constructor
    · intro p
      rw [hall.cells p]
      by_cases hp : p = t.cell
      · simp [hp]
      · rw [Function.update_of_ne hp]
        symm
        apply after_congr (Nat.le_succ n)
        intro k t' hk hk' ht'
        obtain rfl : k = n := by omega
        rw [hi] at ht'
        cases ht'
        exact Ne.symm hp
    · intro i t' ht'
      rw [hall.done i t' ht']
      by_cases hp : t'.cell = t.cell
      · simp [hp]
      · have hne : i ≠ n := by
          rintro rfl
          rw [hi] at ht'
          cases ht'
          exact hp rfl
        have hiff : i < n ↔ i < n + 1 := by omega
        simp [hp, hiff]

/-- A second delivery that answers as in order would have rejected the task again. -/
theorem second_delivery_differs {i n : Nat}
    (hi : ts[i]? = some t) (hrejected : accepted ts c i = false) (hin : i < n)
    (haccepts : t.accepts (after ts c n) = true) (hs : Sound ts c (fun _ => n) s) :
    ¬ InOrder ts c (runWave (fun _ => .none) ts s).1 (runWave (fun _ => .none) ts s).2 := by
  rintro ⟨-, hanswers⟩
  have hcells : s.cells = after ts c n := funext hs.cells
  -- the answers of a front part are answers of the whole
  have hpart : ∀ k a, (k, a) ∈ (runWave (fun _ => .none) (ts.take (i + 1)) s).2 →
      (k, a) ∈ (runWave (fun _ => Fault.none) ts s).2 := by
    intro k a hka
    rw [← List.take_append_drop (i + 1) ts, runWave_append]
    exact List.mem_append_left _ hka
  -- up to the `i`-th task nothing changes: each task is skipped or rejected again
  have hsame : ∀ k, k ≤ i → (runWave (fun _ => .none) (ts.take k) s).1 = s := by
    intro k hk
    induction k with
    | zero => rfl
    | succ k ih =>
      have hlt := (List.getElem?_eq_some_iff.mp hi).1
      obtain ⟨t', hk'⟩ : ∃ t', ts[k]? = some t' := ⟨ts[k], List.getElem?_eq_getElem (by omega)⟩
      have hanswer : (attempt .none t' s).2 = answerAt ts c k := by
        apply hanswers k t' hk'
        apply hpart
        have hmem : (t'.id, (attempt .none t' s).2) ∈
            (runWave (fun _ => .none) (ts.take (k + 1)) s).2 := by
          rw [List.take_add_one, hk', runWave_append, ih (by omega)]
          simp [runWave]
        rw [← List.take_append_drop (k + 1) (ts.take (i + 1)), runWave_append, List.take_take,
          Nat.min_eq_left (by omega)]
        exact List.mem_append_left _ hmem
      rw [List.take_add_one, hk', runWave_append, ih (by omega)]
      simp only [Option.toList_some, runWave]
      cases hacc : accepted ts c k with
      | true =>
        have hdone : s.done t'.id = true := by
          rw [hs.done k t' hk', hacc]
          simp
          omega
        rw [attempt_done (by decide) hdone]
      | false =>
        apply attempt_state
        rw [hanswer, answerAt, hacc]
        simp
  have hdone : s.done t.id = false := by rw [hs.done i t hi, hrejected]; simp
  obtain ⟨v, hv⟩ := Option.isSome_iff_exists.mp haccepts
  have happlied : (t.id, Answer.applied) ∈ (runWave (fun _ => Fault.none) ts s).2 := by
    apply hpart
    rw [List.take_add_one, hi, runWave_append, hsame i (Nat.le_refl i)]
    rw [← hcells] at hv
    simp [runWave, attempt_accepts hdone hv]
  have hanswer := hanswers i t hi _ happlied
  simp [answerAt, hrejected] at hanswer

/-- If some rejection does not stay, two deliveries in list order differ from the execution in
order. -/
theorem exists_disorder (hids : (ts.map (·.id)).Nodup) (hstay : ¬ StaysRejected ts c)
    (hws : Waves ts ws) (hflat : ws.flatten = ts) :
    ∃ d d' : Delivery ts, d.waves = ws ∧ d'.waves = ws ∧ (∀ k, d.faults k ≠ .late) ∧
      (∀ k, d'.faults k = .none) ∧ ∃ as, (d'.run (deliverAll [d] (start c))).2 = some as ∧
        ¬ InOrder ts c (d'.run (deliverAll [d] (start c))).1 as := by
  simp only [StaysRejected, not_forall, Bool.not_eq_false] at hstay
  obtain ⟨i, t, hi, hrejected, m, him, haccepts⟩ := hstay
  -- beyond the end of the batch nothing happens
  obtain ⟨n, hn, hin, haccepts⟩ : ∃ n ≤ ts.length, i < n ∧ t.accepts (after ts c n) = true := by
    by_cases hm : m ≤ ts.length
    · exact ⟨m, hm, him, haccepts⟩
    · refine ⟨ts.length, Nat.le_refl _, (List.getElem?_eq_some_iff.mp hi).1, ?_⟩
      rwa [after_of_length_le (by omega)] at haccepts
  have hsplit : ∀ t' ∈ ts.drop n, t'.id ∉ (ts.take n).map (·.id) := by
    intro t' ht' hmem
    rw [← List.take_append_drop n ts, List.map_append, List.nodup_append] at hids
    exact hids.2.2 _ hmem _ (List.mem_map_of_mem ht') rfl
  let cut : ι → Fault := fun k => if k ∈ (ts.take n).map (·.id) then .none else .early
  have hcut : ∀ t' ∈ ts.take n, cut t'.id = .none := fun t' ht' => if_pos (List.mem_map_of_mem ht')
  refine ⟨⟨cut, ws, hws⟩, ⟨fun _ => .none, ws, hws⟩, rfl, rfl, ?_, fun _ => rfl, ?_⟩
  · intro k
    simp only [cut]
    split <;> simp
  · have hfirst : deliverAll [⟨cut, ws, hws⟩] (start c) = (runWave cut (ts.take n) (start c)).1 :=
      deliver_cut (ts.take n) (ts.drop n) (by rw [hflat, List.take_append_drop]) hcut
        (fun t' ht' => if_neg (hsplit t' ht')) _
    have hsound := runWave_take (c := c) hids hn hcut
    rw [hfirst]
    simp only [Delivery.run, deliver_none (f := fun _ => Fault.none) (fun _ => rfl), hflat]
    exact ⟨_, rfl, second_delivery_differs hi hrejected hin haccepts hsound⟩

end Redelivery
