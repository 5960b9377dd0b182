import Feedling.CaptureFailure
import Feedling.Runs

/-!
# When a capture window is skipped

The three rules for giving up a window are stated over the history of failures since the last
success or skip, the latest first. The counters that the patches thread through the capture state
agree with the history, except for the account clock: a failure without a window refreshes the time
of the last failure and does not look at the gap before it.
-/

namespace Feedling

/-- A failed capture, with the window it is about or without. -/
inductive FailureEvent where
  | windowed (w : CaptureWindow) (now : Time) (reason : String)
  | windowless (now : Time) (reason : String)
  deriving DecidableEq, Repr

namespace FailureEvent

def time : FailureEvent → Time
  | .windowed _ now _ => now
  | .windowless now _ => now

def reason : FailureEvent → String
  | .windowed _ _ reason => reason
  | .windowless _ reason => reason

def key? : FailureEvent → Option String
  | .windowed w _ _ => some w.key
  | .windowless _ _ => none

end FailureEvent

/-! ## The rules -/

section Rules

variable (classify : String → String)

def FailureEvent.kind (e : FailureEvent) : FailureClass := failureClass classify e.reason

@[simp] theorem FailureEvent.kind_windowed (w : CaptureWindow) (now : Time) (reason : String) :
    (FailureEvent.windowed w now reason).kind classify = failureClass classify reason := rfl

@[simp] theorem FailureEvent.kind_windowless (now : Time) (reason : String) :
    (FailureEvent.windowless now reason).kind classify = failureClass classify reason := rfl

/-- The latest failures of one window; failures without a window may lie between them. -/
def windowRun (k : String) : List FailureEvent → List FailureEvent
  | [] => []
  | e :: past =>
    match e.key? with
    | none => windowRun k past
    | some k' => if k' = k then e :: windowRun k past else []

/-- Not a parse failure without a window. -/
def FailureEvent.counted (e : FailureEvent) : Bool := e.key?.isSome || e.kind classify != .parse

/-- The last three failures that count are parse failures of the window. -/
def ParseRule (k : String) (history : List FailureEvent) : Prop :=
  (history.filter (·.counted classify)).take 3 = (windowRun k history).take 3 ∧
    ((windowRun k history).take 3).length = 3 ∧ ∀ e ∈ (windowRun k history).take 3,
      e.kind classify = .parse

/-- Six failures of the window are not the account's. -/
def CountRule (k : String) (history : List FailureEvent) : Prop :=
  6 ≤ ((windowRun k history).filter fun e => e.kind classify != .account).length

/-- The window has an account failure at `since`, and no two failures from there on, of whatever
kind, are more than a day apart. -/
inductive FailingSince (k : String) : List FailureEvent → Time → Prop where
  | here {e : FailureEvent} {past : List FailureEvent} : e.key? = some k →
      e.kind classify = .account → FailingSince k (e :: past) e.time
  | back {e previous : FailureEvent} {past : List FailureEvent} {since : Time} :
      (e.key? = none ∨ e.key? = some k) →
      e.time ≤ previous.time + accountClockGapReset → FailingSince k (previous :: past) since →
      FailingSince k (e :: previous :: past) since

/-- The rules for a failure `e` of the window `k` at the end of a history. -/
def GivesUp (k : String) (e : FailureEvent) (past : List FailureEvent) : Prop :=
  (e.kind classify = .parse ∧ ParseRule classify k (e :: past)) ∨
  (e.kind classify ≠ .account ∧ CountRule classify k (e :: past)) ∨
  (e.kind classify = .account ∧ ∃ since, FailingSince classify k (e :: past) since ∧
    since + captureAccountSkipAfter ≤ e.time)

end Rules

/-! ### The rules along a history -/

section Lists

variable {classify : String → String} {k : String} {e : FailureEvent} {past : List FailureEvent}
  {t : Time}

/-- The window of the latest failure that has one. -/
def lastKey : List FailureEvent → String
  | [] => ""
  | e :: past => e.key?.getD (lastKey past)

variable {history : List FailureEvent}

theorem windowRun_of_ne (h : lastKey history ≠ k) : windowRun k history = [] := by
  induction history with
  | nil => rfl
  | cons e past ih =>
    cases hk : e.key? with
    | none =>
      rw [windowRun, hk]
      exact ih (by simpa [lastKey, hk] using h)
    | some k' =>
      have hne : k' ≠ k := by simpa [lastKey, hk] using h
      simp [windowRun, hk, hne]

theorem FailingSince.lastKey_eq (h : FailingSince classify k history t) :
    lastKey history = k := by
  induction h with
  | here hk _ => simp [lastKey, hk]
  | back hk _ _ ih =>
    obtain hk | hk := hk
    · rw [lastKey, hk]
      exact ih
    · simp [lastKey, hk]

theorem FailingSince.exists_mem (h : FailingSince classify k history t) :
    ∃ e ∈ history, e.time = t := by
  induction h with
  | here _ _ => exact ⟨_, by simp, rfl⟩
  | back _ _ _ ih =>
    obtain ⟨x, hx, ht⟩ := ih
    exact ⟨x, List.mem_cons_of_mem _ hx, ht⟩

/-- The parse failures of the window at the end of a history. -/
def parseRun (classify : String → String) (k : String) (history : List FailureEvent) :
    List FailureEvent :=
  (history.filter (·.counted classify)).takeWhile fun e =>
    e.key? == some k && e.kind classify == .parse

theorem parseRun_of_ne (h : lastKey history ≠ k) :
    parseRun classify k history = [] := by
  induction history with
  | nil => rfl
  | cons e past ih =>
    unfold parseRun
    cases hk : e.key? with
    | none =>
      by_cases hparse : e.kind classify = .parse
      · rw [List.filter_cons_of_neg (by simp [FailureEvent.counted, hk, hparse])]
        exact ih (by simpa [lastKey, hk] using h)
      · rw [List.filter_cons_of_pos (by simp [FailureEvent.counted, hk, hparse]),
          List.takeWhile_cons_of_neg (by simp [hk])]
    | some k' =>
      have hne : k' ≠ k := by simpa [lastKey, hk] using h
      rw [List.filter_cons_of_pos (by simp [FailureEvent.counted, hk]),
        List.takeWhile_cons_of_neg (by simp [hk, hne])]

theorem parseRun_windowed (hk : e.key? = some k) :
    parseRun classify k (e :: past) =
      if e.kind classify = .parse then e :: parseRun classify k past else [] := by
  unfold parseRun
  rw [List.filter_cons_of_pos (by simp [FailureEvent.counted, hk])]
  split
  · next hparse => rw [List.takeWhile_cons_of_pos (by simp [hk, hparse])]
  · next hparse => rw [List.takeWhile_cons_of_neg (by simp [hparse])]

theorem parseRun_windowless (hk : e.key? = none) :
    parseRun classify k (e :: past) =
      if e.kind classify = .parse then parseRun classify k past else [] := by
  unfold parseRun
  split
  · next hparse => rw [List.filter_cons_of_neg (by simp [FailureEvent.counted, hk, hparse])]
  · next hparse =>
    rw [List.filter_cons_of_pos (by simp [FailureEvent.counted, hk, hparse]),
      List.takeWhile_cons_of_neg (by simp [hk])]

/-- Failures without a window are not in the run, so leaving some of them out does not change it. -/
theorem windowRun_filter_counted (classify : String → String) (history : List FailureEvent) :
    windowRun k (history.filter (·.counted classify)) = windowRun k history := by
  induction history with
  | nil => rfl
  | cons e past ih =>
    by_cases hc : e.counted classify = true
    · rw [List.filter_cons_of_pos hc, windowRun, windowRun, ih]
    · have hk : e.key? = none := by
        cases hk : e.key? with
        | none => rfl
        | some k' => exact absurd (by simp [FailureEvent.counted, hk]) hc
      rw [List.filter_cons_of_neg hc, ih, windowRun, hk]

theorem key?_of_mem_windowRun (h : e ∈ windowRun k history) : e.key? = some k := by
  induction history with
  | nil => cases h
  | cons x past ih =>
    cases hk : x.key? with
    | none =>
      rw [windowRun, hk] at h
      exact ih h
    | some k' =>
      by_cases hsame : k' = k
      · simp only [windowRun, hk, if_pos hsame] at h
        obtain rfl | h := List.mem_cons.mp h
        · rw [hk, hsame]
        · exact ih h
      · simp [windowRun, hk, hsame] at h

theorem three_le_length_takeWhile {α : Type} (p : α → Bool) (l : List α) :
    3 ≤ (l.takeWhile p).length ↔ ∃ a b c rest, l = a :: b :: c :: rest ∧ p a = true ∧ p b = true ∧
      p c = true := by
  constructor
  · intro h
    match l with
    | [] => simp at h
    | [a] =>
      have hle := (List.takeWhile_sublist p (l := [a])).length_le
      simp at hle
      omega
    | [a, b] =>
      have hle := (List.takeWhile_sublist p (l := [a, b])).length_le
      simp at hle
      omega
    | a :: b :: c :: rest =>
      refine ⟨a, b, c, rest, rfl, ?_⟩
      by_cases ha : p a = true
      · by_cases hb : p b = true
        · by_cases hc : p c = true
          · exact ⟨ha, hb, hc⟩
          · simp [List.takeWhile, ha, hb, hc] at h
        · simp [List.takeWhile, ha, hb] at h
      · simp [List.takeWhile, ha] at h
  · rintro ⟨a, b, c, rest, rfl, ha, hb, hc⟩
    simp [List.takeWhile, ha, hb, hc]

theorem parseRule_iff (history : List FailureEvent) :
    ParseRule classify k history ↔ 3 ≤ (parseRun classify k history).length := by
  rw [parseRun, three_le_length_takeWhile, ParseRule, ← windowRun_filter_counted classify]
  generalize history.filter (·.counted classify) = failures
  constructor
  · rintro ⟨htake, hlength, hparse⟩
    have hall : ∀ e ∈ failures.take 3, e.key? = some k ∧ e.kind classify = .parse := by
      intro e he
      rw [htake] at he
      exact ⟨key?_of_mem_windowRun (List.mem_of_mem_take he), hparse e he⟩
    rw [← htake] at hlength
    match failures with
    | [] => simp at hlength
    | [a] => simp at hlength
    | [a, b] => simp at hlength
    | a :: b :: c :: rest =>
      have ha := hall a (by simp)
      have hb := hall b (by simp)
      have hc := hall c (by simp)
      exact ⟨a, b, c, rest, rfl, by simp [ha], by simp [hb], by simp [hc]⟩
  · rintro ⟨a, b, c, rest, rfl, ha, hb, hc⟩
    simp only [Bool.and_eq_true, beq_iff_eq] at ha hb hc
    have hrun : windowRun k (a :: b :: c :: rest) = a :: b :: c :: windowRun k rest := by
      simp [windowRun, ha.1, hb.1, hc.1]
    rw [hrun]
    refine ⟨by simp, by simp, ?_⟩
    intro e he
    simp only [List.take_succ_cons, List.take_zero, List.mem_cons, List.not_mem_nil, or_false] at he
    obtain rfl | rfl | rfl := he
    · exact ha.2
    · exact hb.2
    · exact hc.2

end Lists

/-! ## Histories of failures -/

/-- The capture state and the failures that led to it, the latest first. -/
structure ValveWorld where
  state : CaptureState
  history : List FailureEvent

namespace ValveWorld

variable (classify : String → String)

def step (v : ValveWorld) (e : FailureEvent) : ValveWorld where
  state :=
    match e with
    | .windowed w now reason => (captureFailurePatch classify v.state w now reason).1
    | .windowless now reason => windowlessFailurePatch classify v.state now reason
  history := e :: v.history

/-- The failure makes the runtime skip its window. -/
def skips (v : ValveWorld) : FailureEvent → Bool
  | .windowed w now reason => (captureFailurePatch classify v.state w now reason).2.2
  | .windowless _ _ => false

/-- The window is known at both ends and time does not go back. -/
structure WellFormed (v : ValveWorld) (e : FailureEvent) : Prop where
  window : ∀ w now reason, e = .windowed w now reason → w.key ≠ "" ∧
    truncate 160 w.untilMessageId ≠ ""
  positive : 0 < e.time
  ordered : ∀ previous ∈ v.history.head?, previous.time ≤ e.time

/-- A failure without a window comes within a day of the one before it, unless no account clock is
running. -/
def ClockKept (v : ValveWorld) (e : FailureEvent) : Prop :=
  e.key? = none → v.state.captureAccountFailSince ≠ 0 →
    ∀ previous ∈ v.history.head?, e.time ≤ previous.time + accountClockGapReset

/-- The steps of a history since the last success or skip. -/
structure Ok (v : ValveWorld) (e : FailureEvent) : Prop where
  wellFormed : v.WellFormed e
  unskipped : v.skips classify e = false
  clockKept : v.ClockKept e

/-- Nothing is counted yet. -/
structure Fresh (v : ValveWorld) : Prop where
  parse : v.state.captureParseFailStreak = 0
  count : v.state.captureWindowFailCount = 0
  since : v.state.captureAccountFailSince = 0
  key : v.state.captureFailWindowKey = ""
  history : v.history = []

/-- The counters say what the history says. -/
structure Inv (v : ValveWorld) : Prop where
  times : ∀ e ∈ v.history, 0 < e.time
  sorted : v.history.Pairwise fun newer older => older.time ≤ newer.time
  last : ∀ e ∈ v.history.head?, v.state.lastCaptureFailedAt = e.time
  key : v.state.captureFailWindowKey = lastKey v.history
  keyed : ∀ e ∈ v.history, e.key? ≠ some ""
  parse : v.state.captureParseFailStreak = (parseRun classify (lastKey v.history) v.history).length
  count : v.state.captureWindowFailCount =
    ((windowRun (lastKey v.history) v.history).filter fun e => e.kind classify != .account).length
  since_le : ∀ t, FailingSince classify (lastKey v.history) v.history t →
    v.state.captureAccountFailSince ≠ 0 ∧ v.state.captureAccountFailSince ≤ t
  since_mem : v.state.captureAccountFailSince ≠ 0 →
    FailingSince classify (lastKey v.history) v.history v.state.captureAccountFailSince

variable {classify} {v : ValveWorld} {w : CaptureWindow} {now : Time} {reason : String}

theorem Fresh.inv (h : v.Fresh) : v.Inv classify := by
  obtain ⟨hparse, hcount, hsince, hkey, hhistory⟩ := h
  constructor
  · simp [hhistory]
  · simp [hhistory]
  · simp [hhistory]
  · simp [hhistory, hkey, lastKey]
  · simp [hhistory]
  · simp [hhistory, hparse, parseRun]
  · simp [hhistory, hcount, windowRun]
  · intro t ht
    rw [hhistory] at ht
    cases ht
  · intro hne
    exact absurd hsince hne

/-- The three counters of one window, whichever window failed last. -/
structure Inv.Window (classify : String → String) (v : ValveWorld) (k : String) : Prop where
  parse : (if k = v.state.captureFailWindowKey then v.state.captureParseFailStreak else 0) =
    (parseRun classify k v.history).length
  count : (if k = v.state.captureFailWindowKey then v.state.captureWindowFailCount else 0) =
    ((windowRun k v.history).filter fun e => e.kind classify != .account).length
  since_le : ∀ t, FailingSince classify k v.history t →
    (if k = v.state.captureFailWindowKey then v.state.captureAccountFailSince else 0) ≠ 0 ∧
    (if k = v.state.captureFailWindowKey then v.state.captureAccountFailSince else 0) ≤ t
  since_mem : (if k = v.state.captureFailWindowKey then v.state.captureAccountFailSince
      else 0) ≠ 0 →
    FailingSince classify k v.history
      (if k = v.state.captureFailWindowKey then v.state.captureAccountFailSince else 0)

theorem Inv.window (h : v.Inv classify) (k : String) : Inv.Window classify v k := by
  by_cases hk : k = v.state.captureFailWindowKey
  · have hlast : k = lastKey v.history := hk.trans h.key
    constructor
    · rw [if_pos hk, hlast]
      exact h.parse
    · rw [if_pos hk, hlast]
      exact h.count
    · rw [if_pos hk, hlast]
      exact h.since_le
    · rw [if_pos hk, hlast]
      exact h.since_mem
  · have hlast : lastKey v.history ≠ k := fun heq => hk (heq.symm.trans h.key.symm)
    constructor
    · rw [if_neg hk, parseRun_of_ne hlast]
      rfl
    · rw [if_neg hk, windowRun_of_ne hlast]
      rfl
    · intro t ht
      exact absurd ht.lastKey_eq hlast
    · intro hne
      rw [if_neg hk] at hne
      exact absurd rfl hne

def counts (classify : String → String) (v : ValveWorld) (w : CaptureWindow) (now : Time)
    (reason : String) :
    WindowCounts := v.state.windowCounts w.key now (failureClass classify reason)

theorem Inv.earlier (h : v.Inv classify) {e : FailureEvent} (hok : v.WellFormed e)
    {x : FailureEvent} (hx : x ∈ v.history) : x.time ≤ e.time := by
  have hordered := hok.ordered
  have hsorted := h.sorted
  cases hhistory : v.history with
  | nil =>
    rw [hhistory] at hx
    cases hx
  | cons previous past =>
    rw [hhistory] at hx hordered hsorted
    have hprevious := hordered previous rfl
    obtain rfl | hx := List.mem_cons.mp hx
    · exact hprevious
    · exact Nat.le_trans ((List.pairwise_cons.mp hsorted).1 x hx) hprevious

theorem Inv.times_step (h : v.Inv classify) {e : FailureEvent} (hok : v.WellFormed e) :
    ∀ x ∈ e :: v.history, 0 < x.time := by
  intro x hx
  obtain rfl | hx := List.mem_cons.mp hx
  · exact hok.positive
  · exact h.times x hx

/-- What is left of the account clock of the window when it fails once more. -/
def running (v : ValveWorld) (w : CaptureWindow) (now : Time) : Time :=
  (accountFailureClock
    (if w.key = v.state.captureFailWindowKey then v.state.captureAccountFailSince else 0)
    v.state.lastCaptureFailedAt now false).1

theorem accountSince_eq : (v.counts classify w now reason).accountSince =
    if failureClass classify reason = .account ∧ v.running w now = 0 then now
    else v.running w now := by
  show (accountFailureClock _ _ now (decide (failureClass classify reason = .account))).1 = _
  by_cases haccount : failureClass classify reason = .account
  · simp only [haccount, decide_true, true_and, accountFailureClock_account]
    rfl
  · simp only [haccount, decide_false, false_and, if_false]
    rfl

section Clock

variable (h : v.Inv classify) (hok : v.WellFormed (.windowed w now reason))
include h

theorem Inv.failingSince_running (hne : v.running w now ≠ 0) :
    FailingSince classify w.key v.history (v.running w now) := by
  obtain ⟨hsame, _⟩ := accountFailureClock_running hne
  rw [running, hsame]
  exact (h.window w.key).since_mem (hsame ▸ hne)

theorem Inv.running_mem (hne : v.running w now ≠ 0) :
    FailingSince classify w.key (.windowed w now reason :: v.history)
      (v.running w now) := by
  obtain ⟨_, hgap⟩ := accountFailureClock_running hne
  have hsince := h.failingSince_running hne
  cases hhistory : v.history with
  | nil =>
    rw [hhistory] at hsince
    cases hsince
  | cons previous past =>
    have hlast := h.last previous (by simp [hhistory])
    have htime := h.times previous (by simp [hhistory])
    rw [hhistory] at hsince
    rw [hlast] at hgap
    exact .back (.inr rfl) (hgap (Nat.ne_of_gt htime)) hsince

/-- A failure at the end of an unbroken row is the new one or the clock has run since it. -/
theorem Inv.running_le {t : Time}
    (ht : FailingSince classify w.key (.windowed w now reason :: v.history) t) :
    (failureClass classify reason = .account ∧ t = now) ∨
      (v.running w now ≠ 0 ∧ v.running w now ≤ t) := by
  generalize hevents : FailureEvent.windowed w now reason :: v.history = events at ht
  cases ht with
  | here hk haccount =>
    injection hevents with hevent _
    rw [← hevent] at haccount ⊢
    exact .inl ⟨haccount, rfl⟩
  | @back _ previous _ _ hk hgap hsince =>
    injection hevents with hevent hhistory
    have hlast := h.last previous (by simp [hhistory])
    rw [← hevent, ← hlast] at hgap
    rw [← hhistory] at hsince
    have hkept : v.running w now = _ := accountFailureClock_kept hgap
    rw [hkept]
    exact .inr ((h.window w.key).since_le t hsince)

include hok

theorem Inv.running_le_now (hne : v.running w now ≠ 0) : v.running w now ≤ now := by
  obtain ⟨x, hx, ht⟩ := (h.failingSince_running hne).exists_mem
  rw [← ht]
  exact h.earlier hok hx

/-- The account clock after a failure of the window runs since the first account failure without a
gap behind it. -/
theorem Inv.clock :
    (∀ t, FailingSince classify w.key (.windowed w now reason :: v.history) t →
      (v.counts classify w now reason).accountSince ≠ 0 ∧
      (v.counts classify w now reason).accountSince ≤ t) ∧
    ((v.counts classify w now reason).accountSince ≠ 0 →
      FailingSince classify w.key (.windowed w now reason :: v.history)
        (v.counts classify w now reason).accountSince) := by
  rw [accountSince_eq]
  constructor
  · intro t ht
    obtain ⟨haccount, rfl⟩ | ⟨hne, hle⟩ := h.running_le ht
    · split
      · exact ⟨Nat.ne_of_gt hok.positive, Nat.le_refl _⟩
      · next hstarted =>
        have hne : v.running w t ≠ 0 := fun hzero => hstarted ⟨haccount, hzero⟩
        exact ⟨hne, h.running_le_now hok hne⟩
    · rw [if_neg fun hstarted => hne hstarted.2]
      exact ⟨hne, hle⟩
  · split
    · next hstarted => exact fun _ => .here rfl hstarted.1
    · exact fun hne => h.running_mem hne

end Clock

section Counts

variable (h : v.Inv classify)
include h

theorem Inv.parseStreak_eq : (v.counts classify w now reason).parseStreak =
    (parseRun classify w.key (.windowed w now reason :: v.history)).length := by
  rw [parseRun_windowed rfl, FailureEvent.kind_windowed]
  simp only [counts, CaptureState.windowCounts, (h.window w.key).parse]
  split <;> rfl

theorem Inv.windowCount_eq : (v.counts classify w now reason).windowCount =
    ((windowRun w.key (.windowed w now reason :: v.history)).filter
      fun e => e.kind classify != .account).length := by
  simp only [counts, CaptureState.windowCounts, (h.window w.key).count, windowRun,
    FailureEvent.key?, if_true, List.filter_cons]
  by_cases ha : failureClass classify reason = .account <;> simp [ha]

end Counts

/-- The window is given up exactly when one of the rules holds. -/
theorem Inv.gaveUp_iff (h : v.Inv classify) (hok : v.WellFormed (.windowed w now reason)) :
    (v.counts classify w now reason).gaveUp (failureClass classify reason) =
        true ↔
      GivesUp classify w.key (.windowed w now reason) v.history := by
  obtain ⟨hle, hmem⟩ := h.clock hok
  have hkey : (FailureEvent.windowed w now reason).key? = some w.key := rfl
  have hkind : (FailureEvent.windowed w now reason).kind classify = failureClass classify reason :=
    rfl
  -- the three counts in terms of the history
  have hparse : 3 ≤ (v.counts classify w now reason).parseStreak ↔
      failureClass classify reason = .parse ∧
        ParseRule classify w.key (.windowed w now reason :: v.history) := by
    rw [parseRule_iff, h.parseStreak_eq, parseRun_windowed hkey, hkind]
    split
    · next hp => simp [hp]
    · next hp => simp [hp]
  have hcount : 6 ≤ (v.counts classify w now reason).windowCount ↔
      CountRule classify w.key (.windowed w now reason :: v.history) := by
    rw [CountRule, h.windowCount_eq]
  have hexpired : (v.counts classify w now reason).accountExpired = true ↔
      failureClass classify reason = .account ∧
        ∃ since, FailingSince classify w.key (.windowed w now reason :: v.history) since ∧
          since + captureAccountSkipAfter ≤ now := by
    have hdef : (v.counts classify w now reason).accountExpired =
        (decide (failureClass classify reason = .account) &&
          decide (0 < (v.counts classify w now reason).accountSince ∧
            (v.counts classify w now reason).accountSince +
              captureAccountSkipAfter ≤ now)) := accountFailureClock_expired _ _ _ _
    rw [hdef, Bool.and_eq_true, decide_eq_true_eq, decide_eq_true_eq]
    constructor
    · rintro ⟨haccount, hpos, hlong⟩
      exact ⟨haccount, _, hmem (Nat.ne_of_gt hpos), hlong⟩
    · rintro ⟨haccount, since, hsince, hlong⟩
      obtain ⟨hne, hfirst⟩ := hle since hsince
      exact ⟨haccount, Nat.pos_of_ne_zero hne, Nat.le_trans (Nat.add_le_add_right hfirst _) hlong⟩
  rw [WindowCounts.gaveUp, Bool.or_eq_true, hexpired, Bool.and_eq_true, Bool.or_eq_true,
    decide_eq_true_eq, decide_eq_true_eq, hparse, hcount, GivesUp, hkind]
  constructor
  · rintro (haccount | ⟨hother, hp | hc⟩)
    · exact .inr (.inr haccount)
    · exact .inl hp
    · exact .inr (.inl ⟨by simpa using hother, hc⟩)
  · rintro (hp | ⟨hother, hc⟩ | haccount)
    · exact .inr ⟨by simp [hp.1], .inl hp⟩
    · exact .inr ⟨by simpa using hother, .inr hc⟩
    · exact .inl haccount

/-- A window whose end is known is skipped when it is given up. -/
theorem skips_eq (hok : v.WellFormed (.windowed w now reason)) :
    v.skips classify (.windowed w now reason) =
      (v.counts classify w now reason).gaveUp
        (failureClass classify reason) := by
  obtain ⟨hkey, huntil⟩ := hok.window w now reason rfl
  simp only [skips, captureFailurePatch, if_neg hkey, CaptureState.poisonSkip, if_neg huntil]
  split
  · next hskip =>
    split at hskip
    · next hgave => exact hgave.symm
    · cases hskip
  · next hskip =>
    split at hskip
    · simp at hskip
    · next hgave => exact (Bool.not_eq_true _ ▸ hgave : _ = false).symm

theorem state_windowed (hok : v.WellFormed (.windowed w now reason))
    (hskip : v.skips classify (.windowed w now reason) = false) :
    (v.step classify (.windowed w now reason)).state =
      { v.state with
          captureFailStreak := (v.counts classify w now reason).streak
          captureAccountErrorCode :=
            if failureClass classify reason = .account then accountErrorCode classify reason else ""
          captureParseFailStreak := (v.counts classify w now reason).parseStreak
          captureWindowFailCount := (v.counts classify w now reason).windowCount
          captureAccountFailSince := (v.counts classify w now reason).accountSince
          captureFailWindowKey := w.key
          lastCaptureFailedAt := now } := by
  have hkept := hskip
  rw [skips_eq hok] at hkept
  obtain ⟨hkey, _⟩ := hok.window w now reason rfl
  unfold counts at hkept ⊢
  simp only [step, captureFailurePatch, if_neg hkey, hkept, Bool.false_eq_true, if_false]

theorem Inv.windowed (h : v.Inv classify) (hok : v.Ok classify (.windowed w now reason)) :
    (v.step classify (.windowed w now reason)).Inv classify := by
  obtain ⟨hle, hmem⟩ := h.clock hok.wellFormed
  have hstate := state_windowed hok.wellFormed hok.unskipped
  constructor
  · exact h.times_step hok.wellFormed
  · exact List.pairwise_cons.mpr ⟨fun _ => h.earlier hok.wellFormed, h.sorted⟩
  · intro e he
    obtain rfl : FailureEvent.windowed w now reason = e := by simpa [step] using he
    rw [hstate]
    rfl
  · rw [hstate]
    rfl
  · intro e he
    obtain rfl | he := List.mem_cons.mp he
    · intro hempty
      exact (hok.wellFormed.window w now reason rfl).1 (Option.some.inj hempty)
    · exact h.keyed e he
  · rw [hstate]
    exact h.parseStreak_eq
  · rw [hstate]
    exact h.windowCount_eq
  · rw [hstate]
    exact hle
  · rw [hstate]
    exact hmem

theorem Inv.windowless (h : v.Inv classify) (hok : v.Ok classify (.windowless now reason)) :
    (v.step classify (.windowless now reason)).Inv classify := by
  constructor
  · exact h.times_step hok.wellFormed
  · exact List.pairwise_cons.mpr ⟨fun _ => h.earlier hok.wellFormed, h.sorted⟩
  · intro e he
    obtain rfl : FailureEvent.windowless now reason = e := by simpa [step] using he
    rfl
  · exact h.key
  · intro e he
    obtain rfl | he := List.mem_cons.mp he
    · intro hempty
      cases hempty
    · exact h.keyed e he
  · show (if failureClass classify reason = .parse then v.state.captureParseFailStreak else 0) =
      (parseRun classify (lastKey v.history) (.windowless now reason :: v.history)).length
    rw [parseRun_windowless rfl, h.parse, FailureEvent.kind_windowless]
    split
    · rfl
    · rfl
  · exact h.count
  · intro t ht
    have hsince : FailingSince classify (lastKey v.history) v.history t := by
      generalize hevents : FailureEvent.windowless now reason :: v.history = events at ht
      have ht : FailingSince classify (lastKey v.history) events t := by
        subst hevents
        exact ht
      cases ht with
      | here hk _ =>
        injection hevents with hevent _
        rw [← hevent] at hk
        cases hk
      | back _ _ hsince =>
        injection hevents with _ hhistory
        rw [hhistory]
        rw [hhistory] at hsince
        exact hsince
    exact h.since_le t hsince
  · intro hne
    have hsince := h.since_mem hne
    show FailingSince classify (lastKey v.history) (.windowless now reason :: v.history)
      v.state.captureAccountFailSince
    cases hhistory : v.history with
    | nil =>
      rw [hhistory] at hsince
      cases hsince
    | cons previous past =>
      have hgap := hok.clockKept rfl hne previous (by simp [hhistory])
      rw [hhistory] at hsince
      exact .back (.inl rfl) hgap hsince

theorem Inv.step (h : v.Inv classify) {e : FailureEvent} (hok : v.Ok classify e) :
    (v.step classify e).Inv classify := by
  cases e with
  | windowed w now reason => exact h.windowed hok
  | windowless now reason => exact h.windowless hok

/-- In every history since the last success or skip in which no failure without a window ends a gap
of the running account clock, a failure of a window skips it exactly when one of the rules says
so. -/
theorem window_skipped_iff_rules (classify : String → String) (v : ValveWorld) (hfresh : v.Fresh)
    (events : List FailureEvent)
    (hevents : Runs.Along (ValveWorld.step classify) (Ok classify) v events)
    (w : CaptureWindow) (now : Time) (reason : String)
    (hlast : (Runs.run (ValveWorld.step classify) v events).WellFormed (.windowed w now reason)) :
    (Runs.run (ValveWorld.step classify) v events).skips classify (.windowed w now reason) = true ↔
      GivesUp classify w.key (.windowed w now reason)
        (Runs.run (ValveWorld.step classify) v events).history := by
  have hinv : (Runs.run (ValveWorld.step classify) v events).Inv classify :=
    Runs.invariant (fun v => v.Inv classify) (fun _ _ h hok => h.step hok) hfresh.inv hevents
  rw [skips_eq hlast]
  exact hinv.gaveUp_iff hlast

/-- A capture state that has seen no failure. -/
def fresh : ValveWorld := ⟨⟨"", 0, none, none, 0, 0, 0, 0, "", "", 0, 0, 0⟩, []⟩

theorem fresh_fresh : fresh.Fresh := ⟨rfl, rfl, rfl, rfl, rfl⟩

theorem WellFormed.of_windowed (hwindow : w.key ≠ "" ∧ truncate 160 w.untilMessageId ≠ "")
    (hpos : 0 < now) (hordered : ∀ previous ∈ v.history.head?, previous.time ≤ now) :
    v.WellFormed (.windowed w now reason) where
  window := by
    rintro _ _ _ ⟨⟩
    exact hwindow
  positive := hpos
  ordered := hordered

theorem WellFormed.of_windowless (hpos : 0 < now)
    (hordered : ∀ previous ∈ v.history.head?, previous.time ≤ now) :
    v.WellFormed (.windowless now reason) where
  window := by rintro _ _ _ ⟨⟩
  positive := hpos
  ordered := hordered

/-- A window behind message `m`. -/
def sampleWindow : CaptureWindow := ⟨"m", some 4, "n", 5, 9⟩

/-- The third bad output in a row skips the window, though a crashed worker's lies between them. The
account clock runs through. -/
theorem window_skipped_iff_rules_parse :
    GivesUp (fun _ => "unknown") sampleWindow.key (.windowed sampleWindow 5 "json_decode_error")
      [.windowed sampleWindow 4 "json_decode_error", .windowless 3 "json_decode_error",
        .windowed sampleWindow 2 "json_decode_error",
        .windowed sampleWindow 1 "quota_insufficient"] := by
  have hkey : sampleWindow.key ≠ "" ∧ truncate 160 sampleWindow.untilMessageId ≠ "" := by
    decide +kernel
  have hevents : Runs.Along (ValveWorld.step fun _ => "unknown") (Ok fun _ => "unknown") fresh
      [.windowed sampleWindow 1 "quota_insufficient", .windowed sampleWindow 2 "json_decode_error",
        .windowless 3 "json_decode_error", .windowed sampleWindow 4 "json_decode_error"] := by
    refine ⟨⟨.of_windowed hkey (by decide) (by simp [fresh]), by decide +kernel, by rintro ⟨⟩⟩,
      ⟨.of_windowed hkey (by decide) (by simp [step, FailureEvent.time]), by decide +kernel,
        by rintro ⟨⟩⟩,
      ⟨.of_windowless (by decide) (by simp [step, FailureEvent.time]), rfl, ?_⟩,
      ⟨.of_windowed hkey (by decide) (by simp [step, FailureEvent.time]), by decide +kernel,
        by rintro ⟨⟩⟩, trivial⟩
    -- the clock is running and the failure before came just now
    rintro _ _ _ ⟨⟩
    exact Nat.le_trans (by decide : 3 ≤ accountClockGapReset) (Nat.le_add_left _ _)
  exact (window_skipped_iff_rules (fun _ => "unknown") fresh fresh_fresh _ hevents sampleWindow 5
    "json_decode_error" (.of_windowed hkey (by decide)
      (by simp [Runs.run, step, FailureEvent.time]))).mp (by decide +kernel)

/-- An account failure, a week of silence, a crashed worker an hour ago and another account failure:
the window is skipped although the clock should have started again. -/
theorem windowless_failure_hides_gap :
    ¬ ∀ (classify : String → String) (v : ValveWorld), v.Fresh → ∀ events : List FailureEvent,
      Runs.Along (ValveWorld.step classify)
        (fun v e => v.WellFormed e ∧ v.skips classify e = false) v events →
      ∀ (w : CaptureWindow) (now : Time) (reason : String),
      (Runs.run (ValveWorld.step classify) v events).WellFormed (.windowed w now reason) →
      ((Runs.run (ValveWorld.step classify) v events).skips classify (.windowed w now reason) =
        true ↔ GivesUp classify w.key (.windowed w now reason)
          (Runs.run (ValveWorld.step classify) v events).history) := by
  intro hclaim
  have hkey : sampleWindow.key ≠ "" ∧ truncate 160 sampleWindow.untilMessageId ≠ "" := by
    decide +kernel
  have haccount : failureClass (fun _ => "unknown") "quota_insufficient" = .account := by
    decide +kernel
  have hevents : Runs.Along (ValveWorld.step fun _ => "unknown")
      (fun v e => v.WellFormed e ∧ v.skips (fun _ => "unknown") e = false) fresh
      [.windowed sampleWindow 1 "quota_insufficient",
        .windowless 601200000001 "lease_timeout"] := by
    refine ⟨⟨.of_windowed hkey (by decide) (by simp [fresh]), by decide +kernel⟩,
      ⟨.of_windowless (by decide) ?_, rfl⟩, trivial⟩
    simp [step, FailureEvent.time]
  have hrule :=
    (hclaim (fun _ => "unknown") fresh fresh_fresh _ hevents sampleWindow 604800000001
        "quota_insufficient"
    (.of_windowed hkey (by decide) (by simp [Runs.run, step, FailureEvent.time]))).mp
      (by decide +kernel)
  -- the only account failure a week ago lies before the silence
  obtain ⟨hparse, _⟩ | ⟨hother, _⟩ | ⟨_, since, hsince, hlong⟩ := hrule
  · rw [FailureEvent.kind_windowed, haccount] at hparse
    cases hparse
  · exact hother haccount
  · cases hsince with
    | here _ _ =>
      revert hlong
      decide
    | back _ _ hsince =>
      cases hsince with
      | here hk _ => cases hk
      | back _ hgap _ =>
        revert hgap
        decide

end ValveWorld

end Feedling
