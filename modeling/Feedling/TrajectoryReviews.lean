import Feedling.JobRecovery

/-!
# Trajectory streams and their reviews

A job's encrypted trajectory is an append-only stream of events with one frontier row. A failed
job may have its stream reviewed offline: a runner job claims the oldest pending review, and
settles it against the frontier that it has read. An append that moves the frontier of a completed
review opens the review again, or invalidates it.
-/

namespace Feedling

open KeyedTable

/-! ## Events -/

/-- One element of `events`. `envelopeAccepted` is the answer of `_validate_trajectory_envelope`. -/
structure TrajectoryInput where
  eventKind : String
  idempotencyKey : String
  payloadEnvelope : String
  payloadBytes : Int
  truncated : Bool
  envelopeAccepted : Bool
  deriving DecidableEq, Repr

def lowerOrDigit (c : Char) : Bool := c.isLower || c.isDigit

/-- `^[a-z][a-z0-9_]{0,63}$`. -/
def trajectoryEventKind (kind : String) : Bool :=
  match kind.toList with
  | c :: rest =>
    c.isLower && decide (rest.length ≤ 63) && rest.all fun c => lowerOrDigit c || c == '_'
  | [] => false

/-- `^[a-zA-Z0-9_.:-]{1,96}$`. -/
def trajectoryIdempotencyKey (key : String) : Bool :=
  decide (1 ≤ key.length ∧ key.length ≤ 96) &&
    key.toList.all fun c => c.isAlphanum || c == '_' || c == '.' || c == ':' || c == '-'

def TrajectoryInput.valid (e : TrajectoryInput) : Bool :=
  trajectoryEventKind e.eventKind && trajectoryIdempotencyKey e.idempotencyKey &&
    decide (1 ≤ e.payloadBytes ∧ e.payloadBytes ≤ 1024 * 1024) && e.envelopeAccepted

/-- The checks that raise `ValueError` before the database is touched. -/
def validTrajectoryBatch (events : List TrajectoryInput) : Bool :=
  decide (1 ≤ events.length ∧ events.length ≤ 4096) && events.all TrajectoryInput.valid &&
    decide (events.map (·.idempotencyKey)).Nodup

/-- The loop of `append_trajectory_events_batch`: the frontier, the rows to insert and the
answer. -/
structure AppendPlan where
  nextEventIndex : Nat
  rowsToInsert : List TrajectoryEvent
  eventIndices : List Nat
  deriving DecidableEq, Repr

namespace Db

def eventAt (db : Db) (job : JobId) (key : String) : Option TrajectoryEvent :=
  db.events.rows.find? fun e => e.jobId == job && e.idempotencyKey == key

def planEvent (db : Db) (job : JobId) (u : UserId) (p : AppendPlan) (e : TrajectoryInput) :
    AppendPlan :=
  match db.eventAt job e.idempotencyKey with
  | some prior => { p with eventIndices := p.eventIndices ++ [prior.eventIndex] }
  | none =>
    ⟨p.nextEventIndex + 1,
      p.rowsToInsert ++ [⟨job, u, p.nextEventIndex, e.eventKind, e.idempotencyKey,
        e.payloadEnvelope, e.payloadBytes.toNat, e.truncated⟩],
      p.eventIndices ++ [p.nextEventIndex]⟩

/-- The two unique indexes of `v2_trajectory_events`. -/
def conflicts (db : Db) (e : TrajectoryEvent) : Bool :=
  (db.events.get? e.key).isSome || (db.eventAt e.jobId e.idempotencyKey).isSome

/-- A plain `INSERT` of several rows, which raises on a conflict. -/
def insertEvents (db : Db) : List TrajectoryEvent → Option Db
  | [] => some db
  | e :: rows =>
    if db.conflicts e then none else insertEvents { db with events := db.events.insert e } rows

def completedReview (job : JobId) (u : UserId) (r : Review) : Bool :=
  r.sourceJobId == job && r.userId == u && r.status == .completed

/-- A completed review whose stream grew: pending again if it is admitted, invalid otherwise. -/
def reopened (admitted : Bool) (r : Review) : Review :=
  { r with
    status := if admitted then .pending else .failed
    attemptCount := 0
    claimedByJobId := none
    reviewEnvelope := none
    lastError := some (if admitted then "trajectory_frontier_advanced"
        else "trajectory_review_disabled_or_capped") }

theorem reopened_sourceJobId (admitted : Bool) (r : Review) :
    (reopened admitted r).sourceJobId = r.sourceJobId := rfl

def reopenReview (db : Db) (job : JobId) (u : UserId) : Db :=
  if db.reviews.rows.any (completedReview job u) then
    let admitted := db.reviewAdmissionAvailable
    let db :=
      db.updateReviews (completedReview job u) (reopened admitted) (reopened_sourceJobId admitted)
    if admitted then db.ensureReviewRunner u else db
  else db

/-- The frontier of the stream moves. -/
def advanceStream (db : Db) (job : JobId) (u : UserId) (nextEventIndex : Nat) : Db :=
  let streams := db.streams.modify (fun s => s.jobId == job && s.userId == u)
    (fun s => { s with nextEventIndex := nextEventIndex }) fun _ => rfl
  { db with streams := streams }

/-- The transaction on a stream that exists. -/
def appendToStream (db : Db) (job : JobId) (u : UserId) (s : Stream)
    (events : List TrajectoryInput) : Option (Db × List Nat) :=
  let plan := events.foldl (db.planEvent job u) ⟨s.nextEventIndex, [], []⟩
  if plan.rowsToInsert.isEmpty then some (db, plan.eventIndices)
  else
    (db.insertEvents plan.rowsToInsert).map fun db =>
      ((db.advanceStream job u plan.nextEventIndex).reopenReview job u, plan.eventIndices)

/-- `append_trajectory_events_batch`; `none` if it raises. -/
def appendTrajectoryEventsBatch (db : Db) (job : JobId) (u : UserId)
    (events : List TrajectoryInput) : Option (Db × List Nat) :=
  if validTrajectoryBatch events then
    match db.jobs.get? job with
    | some j =>
      if j.userId == u && db.pinsCurrent j then
        let db := db.materializeStream job
        match db.streams.get? job with
        | some s => if s.userId == u then db.appendToStream job u s events else none
        | none => none
      else none
    | none => none
  else none

/-! ## Reviews -/

def ownsRunner (db : Db) (u : UserId) (runner : JobId) (w : WorkerId) : Bool :=
  (db.jobs.get? runner).any fun j => j.userId == u && j.lane == .trajectoryReview &&
    ownedBy db.clock w j

theorem ownsRunner_spec {db : Db} {u : UserId} {runner : JobId} {w : WorkerId}
    (h : db.ownsRunner u runner w = true) :
    ∃ j, db.jobs.get? runner = some j ∧ j.userId = u ∧ j.lane = .trajectoryReview ∧
      j.status.held = true := by
  obtain ⟨j, hj, howns⟩ := (Option.any_eq_true _ _).mp h
  simp only [ownedBy, Bool.and_eq_true, beq_iff_eq] at howns
  exact ⟨j, hj, howns.1.1, howns.1.2, howns.2.1.2⟩

/-- A review that a runner of the user may claim. -/
def claimableReview (u : UserId) (r : Review) : Bool :=
  r.userId == u && r.status == .pending && decide (r.attemptCount < trajectoryReviewMaxAttempts)

/-- `claim_failure_review`. `source` is the row that its `SELECT` returns: the oldest claimable one
that no other transaction has locked. -/
def claimFailureReview (db : Db) (u : UserId) (runner : JobId) (w : WorkerId) (source : JobId) :
    Db × Bool :=
  if db.reviewEnv.trajectoryReviewEnabled && db.ownsRunner u runner w &&
      (db.reviews.get? source).any (claimableReview u) then
    (db.updateReviews (fun r => r.sourceJobId == source)
      (fun r => { r with status := .running, attemptCount := r.attemptCount + 1
                         claimedByJobId := some runner, lastError := none }) fun _ => rfl, true)
  else (db, false)

/-- `_terminal_error_code`. -/
def terminalErrorCode (error : String) : String :=
  if decide (1 ≤ error.length ∧ error.length ≤ 120) &&
      error.toList.all (fun c => lowerOrDigit c || c == '_' || c == ':' || c == '-') then error
  else "runtime_failed"

/-- What a review worker hands in: an accepted envelope with the frontier it covers, or an error. -/
inductive ReviewOutcome where
  | analysis (envelope : String) (capturedNextEventIndex : Nat)
  | error (code : String)
  deriving DecidableEq, Repr

/-- The review after the runner settled it, given the frontier of its stream. -/
def settledReview (outcome : ReviewOutcome) (nextEventIndex : Nat) (r : Review) : Review :=
  match outcome with
  | .analysis envelope captured =>
    if nextEventIndex ≠ captured then
      { r with status := .pending, claimedByJobId := none, reviewEnvelope := none
               lastError := some "trajectory_frontier_advanced",
               attemptCount := r.attemptCount - 1 }
    else { r with status := .completed, claimedByJobId := none, reviewEnvelope := some envelope,
                  lastError := none }
  | .error code =>
    { r with status := if r.attemptCount < trajectoryReviewMaxAttempts then .pending else .failed
             claimedByJobId := none, reviewEnvelope := none,
             lastError := some (terminalErrorCode code) }

theorem settledReview_sourceJobId (outcome : ReviewOutcome) (n : Nat) (r : Review) :
    (settledReview outcome n r).sourceJobId = r.sourceJobId := by
  unfold settledReview
  split
  · split <;> rfl
  · rfl

theorem settledReview_userId (outcome : ReviewOutcome) (n : Nat) (r : Review) :
    (settledReview outcome n r).userId = r.userId := by
  unfold settledReview
  split
  · split <;> rfl
  · rfl

/-- The runner that settles the review pins the current generation of its user. -/
def mayFinishReview (db : Db) (u : UserId) (runner : JobId) (w : WorkerId) : Bool :=
  db.ownsRunner u runner w && (db.jobs.get? runner).any db.pinsCurrent

def claimedReview (u : UserId) (runner : JobId) (r : Review) : Bool :=
  r.userId == u && r.status == .running && r.claimedByJobId == some runner

/-- `finish_failure_review`: whether it settled. -/
def finishFailureReview (db : Db) (runner source : JobId) (u : UserId) (w : WorkerId)
    (outcome : ReviewOutcome) : Db × Bool :=
  if db.mayFinishReview u runner w && (db.reviews.get? source).any (claimedReview u runner) then
    match db.streams.get? source with
    | some s =>
      if s.userId == u then
        let settled := db.updateReviews (fun r => r.sourceJobId == source)
          (settledReview outcome s.nextEventIndex)
          (settledReview_sourceJobId outcome s.nextEventIndex)
        ((settled.completeJob runner).ensureReviewRunner u, true)
      else (db, false)
    | none => (db, false)
  else (db, false)

/-- `finish_empty_failure_review_runner`. -/
def finishEmptyFailureReviewRunner (db : Db) (runner : JobId) (u : UserId) (w : WorkerId) :
    Db × Bool :=
  if db.ownsRunner u runner w then ((db.completeJob runner).ensureReviewRunner u, true)
    else (db, false)

end Db

end Feedling
