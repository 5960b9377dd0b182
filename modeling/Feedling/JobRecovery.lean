import Feedling.JobQueue

/-!
# What owners, watchdogs and the reaper do to a job

The transitions of a claimed row by its worker (`mark_running` to `reschedule_owned_job`),
the recovery of a killed claim, the lease reaper, and the ownership switch of a user.
A function returns whether it changed the row, as the source does.
-/

namespace Feedling

open KeyedTable

namespace Db

/-! ## Runtime ownership -/

/-- `VALID_TRANSITIONS`. -/
def isValidTransition : HostedState → HostedState → Bool
  | .resident, .draining | .draining, .v2 | .v2, .draining | .draining, .resident => true
  | _, _ => false

/-- The row that readers lazily insert for a known user. -/
def materializeRuntime (db : Db) (u : UserId) : Db :=
  if db.users.contains u && (db.runtime u).isNone then
    { db with runtime := put db.runtime u (some .default) }
  else db

/-- `advance_runtime_state`: a compare-and-set that bumps the generation. -/
def advanceRuntimeState (db : Db) (u : UserId) (fromState toState : HostedState) :
    Db × Option Nat :=
  if isValidTransition fromState toState then
    let db := db.materializeRuntime u
    match db.runtime u with
    | some s =>
      if s.hostedState == fromState then
        ({ db with runtime := put db.runtime u (some ⟨toState, s.generation + 1⟩) },
            some (s.generation + 1))
      else (db, none)
    | none => (db, none)
  else (db, none)

/-- The current generation of the job's user, if that user is on `v2`. -/
def v2Generation (db : Db) (u : UserId) : Option Nat :=
  (db.runtime u).bind fun s => if s.hostedState == .v2 then some s.generation else none

/-! ## The owner's transitions -/

/-- A single-row update by id under a guard on the row. -/
def updateOwned (db : Db) (job : JobId) (guard : Job → Bool) (f : Job → Job)
    (hf : ∀ j, (f j).id = j.id) : Db × Bool :=
  if (db.jobs.get? job).any guard then (db.updateJobs (fun j => j.id == job) f hf, true)
    else (db, false)

/-- `claimed_by=w AND status IN ('claimed','running') AND lease_expires_at > clock`. -/
def ownedBy (now : Time) (w : WorkerId) (j : Job) : Bool :=
  j.claimedBy == some w && j.status.held && j.leaseLive now

/-- The row pins the current generation of its user, who is on `v2`. -/
def pinsCurrent (db : Db) (j : Job) : Bool :=
  (db.v2Generation j.userId).any fun g => j.expectedRuntimeGeneration == some g

/-- `mark_running`. -/
def markRunning (cfg : Config) (db : Db) (job : JobId) (w : WorkerId) : Db × Bool :=
  db.updateOwned job
    (fun j => db.pinsCurrent j && j.status == .claimed && !passed db.clock j.leaseExpiresAt &&
      j.claimedBy == some w)
    (fun j => { j with status := .running, startedAt := some db.clock,
                       leaseExpiresAt := some (db.clock + cfg.runningTtl),
                       deadlineAt := some (db.clock + cfg.runningTtl) }) fun _ => rfl

/-- `renew_job_lease`. -/
def renewJobLease (db : Db) (job : JobId) (w : WorkerId) (ttl : Time) : Db × Bool :=
  db.updateOwned job (fun j => db.pinsCurrent j && ownedBy db.clock w j)
    (fun j => { j with leaseExpiresAt := some (db.clock + ttl),
                       deadlineAt := some (db.clock + ttl) })
    fun _ => rfl

/-- `SET status='completed', finished_at=now()`. -/
def completed (now : Time) (j : Job) : Job :=
  { j with status := .completed, finishedAt := some now }

def completeJob (db : Db) (job : JobId) : Db :=
  db.updateJobs (fun j => j.id == job) (completed db.clock) fun _ => rfl

/-- `mark_completed`. -/
def markCompleted (db : Db) (job : JobId) (w : WorkerId) : Db × Bool :=
  db.updateOwned job (ownedBy db.clock w) (completed db.clock) fun _ => rfl

/-- `mark_failed`. -/
def markFailed (db : Db) (job : JobId) (w : WorkerId) (error : String) : Db × Bool :=
  match db.updateOwned job (ownedBy db.clock w)
    (fun j => { j with status := .failed, finishedAt := some db.clock,
                       lastError := some (truncate 500 error), attemptCount := j.attemptCount + 1 })
    fun _ => rfl with
  | (failed, true) =>
    let u := ((failed.jobs.get? job).map (·.userId)).getD ""
    ((failed.queueTerminalFailure job u).reviewAfterExpiry job, true)
  | (unchanged, false) => (unchanged, false)

/-- A return to the queue at a chosen time, with one more attempt on the count. -/
def rescheduled (error : String) (availableAt : Time) (j : Job) : Job :=
  { j.clearClaim with status := .pending, availableAt := availableAt,
                      lastError := some (truncate 500 error), attemptCount := j.attemptCount + 1,
                      finishedAt := none }

/-- `reschedule_owned_job`. -/
def rescheduleOwnedJob (db : Db) (job : JobId) (w : WorkerId) (error : String)
    (availableAt : Time) : Db × Bool :=
  db.updateOwned job (fun j => db.pinsCurrent j && ownedBy db.clock w j)
    (rescheduled error availableAt) fun _ => rfl

/-- `reschedule_pristine_scheduled_failure`; a non-positive limit is refused. -/
def reschedulePristineScheduledFailure (db : Db) (job : JobId) (w : WorkerId) (error : String)
    (availableAt : Time) (expectedAttemptCount maxAttempts : Nat) : Db × Bool :=
  if maxAttempts = 0 then (db, false)
  else
    db.updateOwned job
      (fun j => db.pinsCurrent j && j.lane == .scheduled && ownedBy db.clock w j &&
        j.attemptCount == expectedAttemptCount && decide (j.attemptCount < maxAttempts - 1) &&
        db.turnIsPristine job)
      (rescheduled error availableAt) fun _ => rfl

/-- The successor a finishing turn leaves behind for input that arrived after its last read. -/
def insertSuccessor (db : Db) (j : Job) (reason : String) (queueDeadline : Option Time)
    (generation : Nat) (inputGeneration : Nat) : Db :=
  db.insertJob
    (fun n => { Job.fresh db.clock j.userId j.lane (some reason) none j.priority queueDeadline
    (some generation) n with inputGeneration := inputGeneration }) fun _ => rfl

/-- `finish_chat_job`: success, and the id of the successor. -/
def finishChatJob (cfg : Config) (db : Db) (job : JobId) (w : WorkerId) (observedGeneration : Nat)
    (forceSuccessor : Bool) : Db × Bool × Option JobId :=
  match db.jobs.get? job with
  | some j =>
    if db.pinsCurrent j && j.claimedBy == some w && j.status == .running && j.lane == .chat &&
        j.leaseLive db.clock then
      let done := db.completeJob job
      if forceSuccessor || decide (observedGeneration < j.inputGeneration) then
        (done.insertSuccessor j "coalesced_followup" (some (db.clock + cfg.pendingChatTtl))
          (j.expectedRuntimeGeneration.getD 0) 0, true, some done.jobs.next)
      else (done, true, none)
    else (db, false, none)
  | none => (db, false, none)

/-- `finish_wake_job`. `lateContext` says whether context rows newer than the consumed ones exist;
the successor then carries their number of generations. -/
def finishWakeJob (db : Db) (job : JobId) (w : WorkerId) (observedGeneration : Nat)
    (lateContext : Bool) : Db × Bool × Option JobId :=
  match db.jobs.get? job with
  | some j =>
    if db.pinsCurrent j && j.claimedBy == some w && j.lane == .heartbeat then
      if j.status == .completed then (db, true, none)
      else if j.status.held && j.leaseLive db.clock then
        let done := db.completeJob job
        if observedGeneration < j.inputGeneration then
          (done.insertSuccessor j "coalesced_perception_followup" none
              (j.expectedRuntimeGeneration.getD 0)
            (if lateContext then max 1 (j.inputGeneration - observedGeneration) else 0),
            true, some done.jobs.next)
        else (done, true, none)
      else (db, false, none)
    else (db, false, none)
  | none => (db, false, none)

/-! ## Recovery of a killed claim -/

/-- `claimed_by=w AND status IN ('claimed','running')`: the claim the watchdog is after. -/
def claimedFrom (w : WorkerId) (j : Job) : Bool := j.claimedBy == some w && j.status.held

/-- The claim goes back to the queue, with one more attempt on the count. -/
def watchdogRequeued (now : Time) (reason : String) (j : Job) : Job :=
  { j.clearClaim with status := .pending, createdAt := now, lastError := some (truncate 500 reason),
                      attemptCount := j.attemptCount + 1, finishedAt := none }

/-- The claim ends as expired, with one more attempt on the count. -/
def watchdogExpired (now : Time) (error : String) (j : Job) : Job :=
  { j.clearClaim with status := .expired, finishedAt := some now, lastError := some error,
                      attemptCount := j.attemptCount + 1 }

/-- `_general_watchdog_recover_on_cursor`. A review runner is requeued whatever its count. -/
def generalWatchdogRecover (cfg : Config) (db : Db) (j : Job) (w : WorkerId) (reason : String) :
    Db :=
  if claimedFrom w j then
    if j.lane == .trajectoryReview || decide (j.attemptCount < cfg.generalRequeueMaxAttempts) then
      (db.updateJobs (fun i => i.id == j.id) (watchdogRequeued db.clock reason) fun _ =>
          rfl).recoverReviewRunner
        j.id
    else
      (db.updateJobs (fun i => i.id == j.id)
        (watchdogExpired db.clock "watchdog_requeue_exhausted") fun _ => rfl).reviewAfterExpiry j.id
  else db

/-- The two callers of `_recover_capture_claim`. -/
inductive RecoveryMode where
  | watchdog | lease
  deriving DecidableEq, Repr

/-- `_recover_capture_claim`: the values read without a lock are compared again under it. -/
def recoverCaptureClaim (cfg : Config) (db : Db) (job : JobId) (u : UserId) (w : Option WorkerId)
    (attemptCount : Nat) (mode : RecoveryMode) (reason : String) (now : Option Time) : Db :=
  match db.jobs.get? job with
  | some j =>
    if j.lane == .capture && j.userId == u && j.status.held && j.claimedBy.getD "" == w.getD "" &&
        j.attemptCount == attemptCount &&
        (mode == .watchdog || passed (now.getD db.clock) j.leaseLimit) then
      match mode with
      | .watchdog => generalWatchdogRecover cfg db j (w.getD "None") reason
      | .lease => db.expireOverdueCapture job
    else db
  | none => db

/-- A reminder may run again only while it is pristine and has attempts left. -/
def scheduledRequeueSafe (cfg : Config) (db : Db) (j : Job) : Bool :=
  decide (j.attemptCount < cfg.scheduledRequeueMaxAttempts) && db.turnIsPristine j.id

/-- `_PRISTINE_GUARDED_WAKE_LANES`. -/
def pristineGuardedWakeLane : Lane → Bool
  | .heartbeat | .manualWake | .screenWatch => true
  | _ => false

/-- `recover_killed_job` for a claim that is still the one the watchdog saw. -/
def recoverHeldJob (cfg : Config) (db : Db) (j : Job) (w : WorkerId) (reason : String) : Db :=
  match j.lane with
  | .capture =>
    recoverCaptureClaim cfg db j.id j.userId (some w) j.attemptCount .watchdog reason none
  | .chat =>
    let expired := db.updateJobs (fun i => i.id == j.id)
      (watchdogExpired db.clock (truncate 500 reason)) fun _ => rfl
    (expired.queueTerminalFailure j.id j.userId).reviewAfterExpiry j.id
  | .scheduled =>
    if scheduledRequeueSafe cfg db j then
      db.updateJobs (fun i => i.id == j.id)
        (fun i => { watchdogRequeued db.clock reason i with queueDeadlineAt := none }) fun _ => rfl
    else
      let expired := db.updateJobs (fun i => i.id == j.id)
        (watchdogExpired db.clock (db.terminalError j.id (truncate 500 reason))) fun _ => rfl
      ((expired.settleAttempts (· == j.id)).queueTerminalFailure j.id j.userId).reviewAfterExpiry
        j.id
  | lane =>
    if pristineGuardedWakeLane lane && !db.turnIsPristine j.id then
      -- the failure of a weak wake stays silent, so no visible failure is queued here
      let expired := db.updateJobs (fun i => i.id == j.id)
        (watchdogExpired db.clock (db.terminalError j.id "wake_replay_unsafe")) fun _ => rfl
      (expired.settleAttempts (· == j.id)).reviewAfterExpiry j.id
    else generalWatchdogRecover cfg db j w reason

/-- `recover_killed_job`. -/
def recoverKilledJob (cfg : Config) (db : Db) (job : JobId) (w : WorkerId) (reason : String) : Db :=
  match db.jobs.get? job with
  | some j => if claimedFrom w j then recoverHeldJob cfg db j w reason else db
  | none => db

/-! ## The lease reaper -/

/-- The reminders the reaper puts back: their lease ran out and a replay is safe. -/
def reapRequeues (cfg : Config) (db : Db) (ts : Time) (j : Job) : Bool :=
  j.lane == .scheduled && j.status.held && passed ts j.leaseLimit && scheduledRequeueSafe cfg db j

/-- The rows the reaper ends: late admissions, and lost leases outside the capture lane. -/
def reapEnds (cfg : Config) (ts : Time) (j : Job) : Bool :=
  j.status == .pending && passed ts (j.queueLimit cfg) ||
    j.status.held && j.lane != .capture && passed ts j.leaseLimit

def reapRequeue (cfg : Config) (db : Db) (ts : Time) : Db :=
  db.updateJobs (reapRequeues cfg db ts)
    (fun j => { j.clearClaim with status := .pending, attemptCount := j.attemptCount + 1,
                                  lastError := some "scheduled_lease_timeout_requeued",
                                  finishedAt := none, queueDeadlineAt := none,
                                  createdAt := db.clock })
    fun _ => rfl

def reapExpire (cfg : Config) (db : Db) (ts : Time) : Db :=
  db.updateJobs (reapEnds cfg ts)
    (fun j => { j with status := .expired, finishedAt := some db.clock,
                       attemptCount := j.attemptCount + 1,
                       lastError := some (db.terminalError j.id
                         (if j.status == .pending then "queue_timeout" else "lease_timeout")) })
    fun _ => rfl

def reapMark (db : Db) (j : Job) : Db :=
  (db.queueTerminalFailure j.id j.userId).reviewAfterExpiry j.id

/-- The main transaction of `reap_stuck_job_rows`; `now` is injectable. Overdue capture claims are
`recoverCaptureClaim` transactions of their own. -/
def reapStuckJobRows (cfg : Config) (db : Db) (now : Option Time) : Db :=
  let ts := now.getD db.clock
  let requeued := reapRequeue cfg db ts
  let ended := requeued.jobs.rows.filter (reapEnds cfg ts)
  let expired := reapExpire cfg requeued ts
  ended.foldl reapMark (expired.settleAttempts fun job => ended.any fun j => j.id == job)

end Db

end Feedling
