import Feedling.Store
import Feedling.Runs

/-!
# The wake circuit

Automatic wakes of a user stop after three account failures in a row. The counter lives in the
user's row of `v2_wake_schedule` and is moved by one conditional `UPDATE` in the transaction that
ends the job. An explicit reset closes the circuit and fences off the jobs that started before it.
-/

namespace Feedling

/-- `FAILURE_THRESHOLD`. -/
def failureThreshold : Nat := 3

/-- `ERROR_CLASSES`. -/
def wakeErrorClasses : List String :=
  ["quota_insufficient", "auth_invalid", "provider_account_expired"]

/-- `RESET_REASONS`. -/
def wakeResetReasons : List String :=
  ["new_chat", "credential_saved", "route_activated", "setup_saved"]

/-- `lane in LANES`. -/
def Lane.wakeCircuit : Lane → Bool
  | .heartbeat | .screenWatch => true
  | _ => false

/-- The columns of a row of `v2_wake_schedule` that the circuit reads or writes, with their
defaults. -/
structure WakeSchedule where
  providerFailStreak : Nat := 0
  wakeCircuitOpenedAt : Option Nat := none
  wakeCircuitReason : String := ""
  wakeCircuitResetAt : Option Nat := none
  paymentCooldownUntil : Option Nat := none
  proactiveBackoffUntil : Option Nat := none
  proactiveFailStreak : Nat := 0
  deriving DecidableEq, Repr

namespace WakeSchedule

/-- The `SET` of the `UPDATE`: `NULL` unless this is the failure that reaches the threshold. -/
def counting (s : WakeSchedule) (errorClass : String) (now : Nat) : WakeSchedule :=
  let targeted := wakeErrorClasses.contains errorClass
  let opens := targeted && decide (failureThreshold ≤ s.providerFailStreak + 1)
  { s with
    providerFailStreak := if targeted then min (s.providerFailStreak + 1) failureThreshold else 0
    wakeCircuitOpenedAt := if opens then some now else none
    wakeCircuitReason := if opens then errorClass else "" }

/-- The `WHERE` of the `UPDATE`, for a job with the given start time. -/
def admits (s : WakeSchedule) (startedAt : Nat) : Bool :=
  s.wakeCircuitOpenedAt.isNone && s.wakeCircuitResetAt.all fun reset => decide (reset < startedAt)

/-- The `UPDATE` of `reset`. -/
def closed (s : WakeSchedule) (now : Nat) : WakeSchedule :=
  { s with
    providerFailStreak := 0
    wakeCircuitOpenedAt := none
    wakeCircuitReason := ""
    wakeCircuitResetAt := some now
    paymentCooldownUntil := none
    proactiveBackoffUntil := none
    proactiveFailStreak := 0 }

end WakeSchedule

/-- The end of a wake job: its lane, its start time `COALESCE(started_at, claimed_at, created_at)`,
the class of its error (empty if it succeeded) and the time of the statement. -/
structure WakeResult where
  lane : Lane
  jobId : JobId
  errorClass : String
  now : Nat
  deriving DecidableEq, Repr

def WakeResult.targeted (r : WakeResult) : Bool := wakeErrorClasses.contains r.errorClass

/-- `record_result_on_cursor`: the user's row after it, and whether it opened the circuit. -/
def recordResultOnCursor (startedAt : JobId → Nat) (row : Option WakeSchedule) (r : WakeResult) :
    Option WakeSchedule × Bool :=
  if r.lane.wakeCircuit then
    match (if r.targeted then some (row.getD {}) else row) with
    | some s =>
      if s.admits (startedAt r.jobId) then
        (some (s.counting r.errorClass r.now),
            (s.counting r.errorClass r.now).wakeCircuitOpenedAt.isSome)
      else (some s, false)
    | none => (none, false)
  else (row, false)

/-- `reset`: the row, and whether the circuit was open. `hostedV2` is `hosted_runtime_state = 'v2'`;
a user of the other runtime gets no row and no write. `none` if it raises `ValueError`. -/
def resetWakeCircuit (hostedV2 : Bool) (row : Option WakeSchedule) (reason : String) (now : Nat) :
    Option (Option WakeSchedule × Bool) :=
  if wakeResetReasons.contains reason then
    if hostedV2 then
      let s := row.getD {}
      some (some (s.closed now), s.wakeCircuitOpenedAt.isSome)
    else some (row, false)
  else none

/-! ## Runs -/

/-- The row of the user, and what the run has seen: the time of the last reset and, newest first,
for every counted result since then whether it was targeted. -/
structure WakeWorld where
  row : Option WakeSchedule
  hostedV2 : Bool
  lastReset : Option Nat
  counted : List Bool
  deriving DecidableEq, Repr

inductive WakeLabel where
  | record (r : WakeResult)
  | reset (reason : String) (now : Nat)
  /-- The user moves to the other runtime, or back. -/
  | hosted (v2 : Bool)
  /-- `INSERT ... ON CONFLICT DO NOTHING` by the scheduler. -/
  | ensureRow
  deriving DecidableEq, Repr

namespace WakeWorld

variable (startedAt : JobId → Nat)

def initial (hostedV2 : Bool) : WakeWorld := ⟨none, hostedV2, none, []⟩

def isOpen (w : WakeWorld) : Bool := w.row.any fun s => s.wakeCircuitOpenedAt.isSome

/-- The circuit is closed when the result is recorded, and its job started after the last reset. -/
def counts (w : WakeWorld) (r : WakeResult) : Bool :=
  r.lane.wakeCircuit && !w.isOpen && w.lastReset.all fun reset => decide (reset < startedAt r.jobId)

def resets (w : WakeWorld) (reason : String) : Bool :=
  wakeResetReasons.contains reason && w.hostedV2

def step (w : WakeWorld) : WakeLabel → WakeWorld
  | .record r =>
    { w with
      row := (recordResultOnCursor startedAt w.row r).1
      counted := if w.counts startedAt r then r.targeted :: w.counted else w.counted }
  | .reset reason now =>
    match resetWakeCircuit w.hostedV2 w.row reason now with
    | some (row, _) =>
      { w with
        row := row
        lastReset := if w.resets reason then some now else w.lastReset
        counted := if w.resets reason then [] else w.counted }
    | none => w
  | .hosted v2 => { w with hostedV2 := v2 }
  | .ensureRow => { w with row := some (w.row.getD {}) }

/-- The length of the last unbroken series of targeted results. -/
def streak (counted : List Bool) : Nat := (counted.takeWhile id).length

/-- The columns of the row, read as their defaults if there is none, say what the run has seen. -/
structure Inv (w : WakeWorld) : Prop where
  resetAt : (w.row.getD {}).wakeCircuitResetAt = w.lastReset
  failStreak : (w.row.getD {}).providerFailStreak = min (streak w.counted) failureThreshold
  openNow : w.isOpen = decide (failureThreshold ≤ streak w.counted)

variable {startedAt} {w : WakeWorld}

theorem isOpen_eq (w : WakeWorld) : w.isOpen = (w.row.getD {}).wakeCircuitOpenedAt.isSome := by
  unfold isOpen
  cases w.row <;> rfl

theorem Inv.admits (h : Inv w) (r : WakeResult) :
    w.counts startedAt r = (r.lane.wakeCircuit && (w.row.getD {}).admits (startedAt r.jobId)) := by
  rw [counts, isOpen_eq, WakeSchedule.admits, h.resetAt, Option.not_isSome, Bool.and_assoc]

variable {r : WakeResult} (counted : List Bool)

/-- A counted result moves the row; without a row an untargeted one finds nothing to clear. -/
theorem record_counted (h : Inv w) (hcounts : w.counts startedAt r = true) :
    recordResultOnCursor startedAt w.row r =
      if r.targeted || w.row.isSome then
        (some ((w.row.getD {}).counting r.errorClass r.now),
          ((w.row.getD {}).counting r.errorClass r.now).wakeCircuitOpenedAt.isSome)
      else (none, false) := by
  rw [h.admits, Bool.and_eq_true] at hcounts
  obtain ⟨hlane, hadmits⟩ := hcounts
  rw [recordResultOnCursor, if_pos hlane]
  cases htargeted : r.targeted with
  | true => simp [hadmits]
  | false =>
    cases hrow : w.row with
    | none => simp
    | some s =>
      rw [hrow, Option.getD_some] at hadmits
      simp [hadmits]

theorem record_uncounted (h : Inv w) (hcounts : w.counts startedAt r = false) :
    (recordResultOnCursor startedAt w.row r).2 = false ∧
      ((recordResultOnCursor startedAt w.row r).1).getD {} = w.row.getD {} := by
  rw [h.admits] at hcounts
  unfold recordResultOnCursor
  by_cases hlane : r.lane.wakeCircuit = true
  · rw [hlane, Bool.true_and] at hcounts
    rw [if_pos hlane]
    cases htargeted : r.targeted with
    | true => simp [hcounts]
    | false =>
      cases hrow : w.row with
      | none => simp
      | some s =>
        rw [hrow, Option.getD_some] at hcounts
        simp [hcounts]
  · rw [if_neg hlane]
    exact ⟨rfl, rfl⟩

@[simp] theorem streak_targeted : streak (true :: counted) = streak counted + 1 := by
  simp [streak]

@[simp] theorem streak_untargeted : streak (false :: counted) = 0 := by
  simp [streak]

theorem two_le_streak {counted : List Bool} :
    2 ≤ streak counted ↔ ∃ rest, counted = true :: true :: rest := by
  match counted with
  | [] => simp [streak]
  | [true] => simp [streak]
  | false :: rest => simp
  | true :: false :: rest => simp
  | true :: true :: rest => simp

theorem Inv.counting_streak (h : Inv w) (hcounts : w.counts startedAt r = true) :
    ((w.row.getD {}).counting r.errorClass r.now).providerFailStreak =
        min (streak (r.targeted :: w.counted)) failureThreshold ∧
      ((w.row.getD {}).counting r.errorClass r.now).wakeCircuitOpenedAt.isSome =
        decide (failureThreshold ≤ streak (r.targeted :: w.counted)) := by
  have hclosed : w.isOpen = false := by
    simp only [counts, Bool.and_eq_true, Bool.not_eq_true'] at hcounts
    exact hcounts.1.2
  have hshort : streak w.counted < failureThreshold := by
    have hdecide := h.openNow.symm.trans hclosed
    have hle := of_decide_eq_false hdecide
    omega
  have hfailures : (w.row.getD {}).providerFailStreak = streak w.counted := by
    rw [h.failStreak]
    omega
  have htargeted : wakeErrorClasses.contains r.errorClass = r.targeted := rfl
  unfold WakeSchedule.counting
  dsimp only
  rw [htargeted, hfailures]
  cases r.targeted with
  | true =>
    refine ⟨by rw [if_pos rfl, streak_targeted], ?_⟩
    by_cases hle : failureThreshold ≤ streak w.counted + 1
    · simp [hle]
    · simp [hle]
  | false =>
    refine ⟨by simp, ?_⟩
    simp [failureThreshold]

theorem Inv.record (h : Inv w) (r : WakeResult) : Inv (w.step startedAt (.record r)) := by
  cases hcounts : w.counts startedAt r with
  | false =>
    have hkeep := (record_uncounted h hcounts).2
    have hstep : w.step startedAt (.record r) =
        { w with row := (recordResultOnCursor startedAt w.row r).1 } := by
      simp [step, hcounts]
    rw [hstep]
    refine ⟨?_, ?_, ?_⟩
    · rw [hkeep, h.resetAt]
    · rw [hkeep, h.failStreak]
    · rw [isOpen_eq, hkeep, ← isOpen_eq, h.openNow]
  | true =>
    obtain ⟨hstreak, hopen⟩ := h.counting_streak hcounts
    have hstep : w.step startedAt (.record r) =
        { w with row := (recordResultOnCursor startedAt w.row r).1,
                 counted := r.targeted :: w.counted } := by
      simp [step, hcounts]
    rw [hstep, record_counted h hcounts]
    by_cases hrow : (r.targeted || w.row.isSome) = true
    · rw [if_pos hrow]
      exact ⟨h.resetAt, hstreak, by rw [isOpen_eq]; exact hopen⟩
    · rw [if_neg hrow]
      rw [Bool.not_eq_true, Bool.or_eq_false_iff] at hrow
      obtain ⟨huntargeted, hnone⟩ := hrow
      have hempty : w.row = none :=
        Option.isNone_iff_eq_none.mp (Option.isSome_eq_false_iff.mp hnone)
      have hreset := h.resetAt
      rw [hempty] at hreset
      rw [huntargeted]
      exact ⟨hreset, by simp, by simp [isOpen, failureThreshold]⟩

theorem step_reset_of_not {reason : String} {now : Nat} (h : w.resets reason = false) :
    w.step startedAt (.reset reason now) = w := by
  by_cases hreason : wakeResetReasons.contains reason = true
  · have hv2 : w.hostedV2 = false := by
      rw [resets, hreason, Bool.true_and] at h
      exact h
    simp only [step, resetWakeCircuit, if_pos hreason, hv2, h, Bool.false_eq_true, if_false]
    rw [← hv2]
  · simp only [step, resetWakeCircuit, if_neg hreason]

theorem Inv.reset (h : Inv w) (reason : String) (now : Nat) :
    Inv (w.step startedAt (.reset reason now)) := by
  cases hresets : w.resets reason with
  | false =>
    rw [step_reset_of_not hresets]
    exact h
  | true =>
    obtain ⟨hreason, hv2⟩ := Bool.and_eq_true_iff.mp hresets
    have hstep : w.step startedAt (.reset reason now) =
        { w with row := some ((w.row.getD {}).closed now), lastReset := some now,
                 counted := [] } := by
      simp only [step, resetWakeCircuit, if_pos hreason, hv2, hresets, if_true]
    rw [hstep]
    exact ⟨rfl, rfl, rfl⟩

theorem Inv.step (h : Inv w) (l : WakeLabel) : Inv (w.step startedAt l) := by
  cases l with
  | record r => exact h.record r
  | reset reason now => exact h.reset reason now
  | hosted v2 => exact ⟨h.resetAt, h.failStreak, h.openNow⟩
  | ensureRow =>
    have hopen : (w.step startedAt .ensureRow).isOpen = w.isOpen := by
      rw [isOpen_eq, isOpen_eq]
      rfl
    exact ⟨h.resetAt, h.failStreak, hopen.trans h.openNow⟩

theorem inv_run (startedAt : JobId → Nat) (hostedV2 : Bool) (ls : List WakeLabel) :
    Inv (Runs.run (step startedAt) (initial hostedV2) ls) :=
  Runs.invariant_all Inv (fun _ l h => h.step l) ⟨rfl, rfl, rfl⟩ ls

/-! ## An open circuit -/

theorem row_of_open {l : WakeLabel} (hopen : w.isOpen = true)
    (hreset : ∀ reason now, l = .reset reason now → w.resets reason = false) :
    (w.step startedAt l).row = w.row := by
  obtain ⟨s, hrow, hs⟩ := (Option.any_eq_true _ _).mp hopen
  cases l with
  | record r =>
    show (recordResultOnCursor startedAt w.row r).1 = w.row
    have hrefused : s.admits (startedAt r.jobId) = false := by
      rw [WakeSchedule.admits, Option.isNone_eq_false_iff.mpr hs, Bool.false_and]
    unfold recordResultOnCursor
    rw [hrow, Option.getD_some, ite_self]
    by_cases hlane : r.lane.wakeCircuit = true
    · simp [hlane, hrefused]
    · simp [hlane]
  | reset reason now =>
    rw [step_reset_of_not (hreset reason now rfl)]
  | hosted v2 => rfl
  | ensureRow =>
    show some (w.row.getD {}) = w.row
    rw [hrow]
    rfl

/-- The step is a reset that is carried out. -/
def resetsAt (w : WakeWorld) : WakeLabel → Bool
  | .reset reason _ => w.resets reason
  | _ => false

theorem row_of_open_run {ls : List WakeLabel} (hopen : w.isOpen = true)
    (hls : Runs.Along (step startedAt) (fun w l => w.resetsAt l = false) w ls) :
    (Runs.run (step startedAt) w ls).row = w.row := by
  induction ls generalizing w with
  | nil => rfl
  | cons l ls ih =>
    have hrow : (w.step startedAt l).row = w.row := by
      refine row_of_open hopen fun reason now hl => ?_
      have hno := hls.1
      rw [hl] at hno
      exact hno
    have hstill : (w.step startedAt l).isOpen = true := by
      rw [isOpen, hrow]
      exact hopen
    rw [Runs.run_cons, ih hstill hls.2, hrow]

theorem row_of_fenced (h : Inv w) {reset : Nat} (hreset : w.lastReset = some reset)
    (hstarted : startedAt r.jobId ≤ reset) :
    (recordResultOnCursor startedAt w.row r).1 = w.row := by
  have hat := h.resetAt
  cases hrow : w.row with
  | none =>
    rw [hrow, hreset] at hat
    exact nomatch hat
  | some s =>
    rw [hrow, hreset, Option.getD_some] at hat
    have hrefused : s.admits (startedAt r.jobId) = false := by
      have hnot : decide (reset < startedAt r.jobId) = false := decide_eq_false (by omega)
      rw [WakeSchedule.admits, hat, Option.all_some, hnot, Bool.and_false]
    unfold recordResultOnCursor
    rw [Option.getD_some, ite_self]
    by_cases hlane : r.lane.wakeCircuit = true
    · simp [hlane, hrefused]
    · simp [hlane]

theorem record_answer (h : Inv w) (r : WakeResult) :
    (recordResultOnCursor startedAt w.row r).2 = true ↔
      w.counts startedAt r = true ∧ r.targeted = true ∧ 2 ≤ streak w.counted := by
  cases hcounts : w.counts startedAt r with
  | false =>
    rw [(record_uncounted h hcounts).1]
    simp
  | true =>
    have hopen := (h.counting_streak hcounts).2
    rw [record_counted h hcounts]
    cases htargeted : r.targeted with
    | true =>
      rw [Bool.true_or, if_pos rfl]
      dsimp only
      rw [hopen, htargeted, decide_eq_true_iff, streak_targeted, failureThreshold]
      simp only [true_and]
      omega
    | false =>
      rw [htargeted, streak_untargeted] at hopen
      by_cases hsome : (false || w.row.isSome) = true
      · rw [if_pos hsome]
        dsimp only
        rw [hopen]
        simp [failureThreshold]
      · rw [if_neg hsome]
        simp

/-- In every state of every run a result opens the circuit exactly if it is counted and targeted and
the two counted results before it, since the last reset, are targeted too. The circuit is then open,
no step but a reset moves the row of an open circuit, and neither does the result of a job that
started at or before the last reset. -/
theorem circuit_opens_on_three_failures (startedAt : JobId → Nat) (hostedV2 : Bool)
    (ls : List WakeLabel) :
    let w := Runs.run (step startedAt) (initial hostedV2) ls
    (∀ r, ((recordResultOnCursor startedAt w.row r).2 = true ↔
      w.counts startedAt r = true ∧ r.targeted = true ∧ ∃ rest, w.counted = true :: true :: rest)) ∧
      (∀ r, (recordResultOnCursor startedAt w.row r).2 = true →
          (w.step startedAt (.record r)).isOpen = true) ∧
      (w.isOpen = true → ∀ ms, Runs.Along (step startedAt) (fun w l => w.resetsAt l = false) w ms →
        (Runs.run (step startedAt) w ms).row = w.row) ∧
      ∀ r reset, w.lastReset = some reset → startedAt r.jobId ≤ reset →
        (w.step startedAt (.record r)).row = w.row := by
  intro w
  have h : Inv w := inv_run startedAt hostedV2 ls
  refine ⟨fun r => ?_, fun r hanswer => ?_, fun hopen ms hms => row_of_open_run hopen hms,
    fun r reset hreset hstarted => row_of_fenced h hreset hstarted⟩
  · rw [record_answer h, two_le_streak]
  · obtain ⟨hcounts, htargeted, hstreak⟩ := (record_answer h r).mp hanswer
    have hcounted : (w.step startedAt (.record r)).counted = true :: w.counted := by
      simp [step, hcounts, htargeted]
    rw [(h.record r).openNow, hcounted, streak_targeted, decide_eq_true_iff, failureThreshold]
    omega

end WakeWorld

end Feedling
