import Feedling.Reviews

/-!
# Admission and claim of jobs

The producers of `agent_jobs` rows (`coalesce_or_insert_on_cursor`, the foreground
preemption, `enqueue_job`) and `claim_next_job`. Each function is one transaction, or the
part of one that runs on the caller's cursor, and takes the database to the next one.

`claim_next_job` reads its candidate before it holds the runtime-state lock, so it is two
functions: `isCandidate` and `isOrphan` say what the first statement may return, `claimHead`
and `claimOrphan` are what the rest of the transaction does to the id it was given.
-/

namespace Feedling

open KeyedTable

/-- `COALESCE(queue_deadline_at, deadline_at, created_at + ttl for chat)`. -/
def Job.queueLimit (cfg : Config) (j : Job) : Option Time :=
  j.queueDeadlineAt <|> j.deadlineAt <|>
    if j.lane == .chat then some (j.createdAt + cfg.pendingChatTtl) else none

/-- `COALESCE(lease_expires_at, deadline_at)`. -/
def Job.leaseLimit (j : Job) : Option Time := j.leaseExpiresAt <|> j.deadlineAt

/-- `lease_expires_at > clock`, which is not true of `NULL`. -/
def Job.leaseLive (now : Time) (j : Job) : Bool := j.leaseExpiresAt.any fun t => decide (now < t)

/-- The claim columns that every return to the queue and most terminal transitions clear. -/
def Job.clearClaim (j : Job) : Job :=
  { j with claimedBy := none, claimedAt := none, startedAt := none, leaseExpiresAt := none,
           deadlineAt := none }

namespace Db

/-! ## Helpers on the caller's cursor -/

/-- The newest user row that is neither a verify ping nor a maintenance prompt. -/
def latestGenuineInput (db : Db) (u : UserId) : Option ChatRow :=
  (db.chat.rows.filter fun m => m.inputOf u && m.doc.source != "verify_ping" &&
    m.doc.source != "resident_maintenance").getLast?

/-- `_queue_terminal_failure_on_cursor`: only chat and scheduled jobs owe a visible failure. -/
def queueTerminalFailure (db : Db) (job : JobId) (u : UserId) : Db :=
  match db.jobs.get? job with
  | some j =>
    if j.userId == u && (j.lane == .chat || j.lane == .scheduled) then
      let input := if j.lane == .chat then db.latestGenuineInput u else none
      let row : TerminalFailure := ⟨job, u, input.map (·.seq), input.map (·.msgId)⟩
      { db with failures := db.failures.insert row }
    else db
  | none => db

/-- `_PRISTINE_TURN_SQL`: the turn has neither a remote nor a platform write on record. -/
def turnIsPristine (db : Db) (job : JobId) : Bool :=
  !db.attempts.rows.any (fun a => a.jobId == job) &&
    !db.effects.rows.any (fun e => e.jobId == some job && e.effectType.durableTool)

def ambiguousMutation (db : Db) (job : JobId) : Bool :=
  db.attempts.rows.any fun a => a.jobId == job && (a.outcome.isNone || a.outcome == some .unknown)

/-- The error a terminal transition records, which an ambiguous remote write overrides. -/
def terminalError (db : Db) (job : JobId) (otherwise : String) : String :=
  if db.ambiguousMutation job then "mcp_mutation_outcome_unknown" else otherwise

/-- Open remote writes of the jobs become `unknown`. -/
def settleAttempts (db : Db) (p : JobId → Bool) : Db :=
  let settled := db.attempts.modify (fun a => p a.jobId && a.outcome.isNone)
    (fun a => { a with outcome := some .unknown }) fun _ => rfl
  { db with attempts := settled }

/-- The reviews of a runner that ended are given back, and the failure may itself be reviewed. -/
def reviewAfterExpiry (db : Db) (job : JobId) : Db :=
  (db.recoverReviewRunner job).queueFailureReview job

/-- The row is still the one that was read: same status, same owner. -/
def unchangedSince (j : Job) (i : Job) : Bool :=
  i.id == j.id && i.status == j.status && i.claimedBy == j.claimedBy

/-! ## Coalesce or insert -/

/-- What a producer passes to the queue. `uuid` is the identifier it would generate. -/
structure Enqueue where
  userId : UserId
  lane : Lane
  reason : Option String
  traceId : Option String
  uuid : String
  priority : Option Nat
  deadlineAt : Option Time
  expectedGeneration : Option Nat
  deriving DecidableEq, Repr

/-- `_trace_id_for_enqueue`: chat ids are message ids and are never invented. -/
def Enqueue.traceIdForEnqueue (e : Enqueue) : Option String :=
  if e.lane == .chat then e.traceId
  else
    let supplied := strip (e.traceId.getD "")
    some (if supplied == "" then e.uuid else supplied)

/-- The pinned generation of the row is missing or not the expected one. -/
def generationStale (expected : Option Nat) (j : Job) : Bool :=
  expected.any fun g => j.expectedRuntimeGeneration != some g

/-- The row outlived its queue deadline while pending, or its lease while owned. -/
def rowStale (cfg : Config) (now : Time) (j : Job) : Bool :=
  if j.status == .pending then passed now (j.queueLimit cfg) else passed now j.leaseLimit

/-- The insert at the end of `coalesce_or_insert_on_cursor`. -/
def insertPending (cfg : Config) (db : Db) (e : Enqueue) (trace : Option String) (priority : Nat) :
    Db × JobId × Bool :=
  let queueDeadline := e.deadlineAt <|>
    if e.lane == .chat then some (db.clock + cfg.pendingChatTtl) else none
  (db.insertJob (Job.fresh db.clock e.userId e.lane e.reason trace priority queueDeadline
    e.expectedGeneration) fun _ => rfl, db.jobs.next, false)

def activeRow (db : Db) (u : UserId) (lane : Lane) : Option Job :=
  db.jobs.rows.find? fun j => j.userId == u && j.lane == lane && j.status.active

/-- One more input for a row that is already in flight. -/
def coalesceInto (db : Db) (job : JobId) : Db :=
  db.updateJobs (fun j => j.id == job)
    (fun j => { j with inputGeneration := j.inputGeneration + 1 }) fun _ => rfl

/-- `coalesce_or_insert_on_cursor`: the id of the row that carries the input, and whether that
row existed before. -/
def coalesceOrInsert (cfg : Config) (db : Db) (e : Enqueue) (trace : Option String)
    (priority : Nat) : Db × JobId × Bool :=
  match db.activeRow e.userId e.lane with
  | none => insertPending cfg db e trace priority
  | some existing =>
    if generationStale e.expectedGeneration existing then
      insertPending cfg (db.updateJobs (fun j => j.id == existing.id)
        (fun j => { j with status := .superseded, finishedAt := some db.clock,
                           lastError := some "stale_runtime_generation" }) fun _ => rfl)
        e trace priority
    else if rowStale cfg db.clock existing then
      -- a late enqueue may see the timeout before the reaper does, so it owes the same marks
      let expired := db.updateJobs (fun j => j.id == existing.id)
        (fun j => { j with status := .expired, finishedAt := some db.clock,
                           attemptCount := j.attemptCount + 1,
                           lastError := some (if j.status == .pending then "queue_timeout"
                             else "lease_timeout") }) fun _ => rfl
      insertPending cfg ((expired.queueTerminalFailure existing.id e.userId).queueFailureReview
        existing.id) e trace priority
    else (db.coalesceInto existing.id, existing.id, true)

/-! ## Foreground preemption -/

/-- `_expire_overdue_capture_on_cursor` on the job table and the tables beside it. -/
def expireOverdueCapture (db : Db) (job : JobId) : Db :=
  if db.jobs.rows.any (fun j => j.id == job && j.status.held) then
    let error := db.terminalError job "lease_timeout"
    let expired := db.updateJobs (fun j => j.id == job && j.status.held)
      (fun j => { j with status := .expired, finishedAt := some db.clock,
                         attemptCount := j.attemptCount + 1, lastError := some error }) fun _ => rfl
    (expired.settleAttempts (· == job)).reviewAfterExpiry job
  else db

/-- A capture or a pristine reminder returns to the queue under its own id. -/
def preemptRequeue (db : Db) (j : Job) : Db :=
  db.updateJobs (unchangedSince j)
    (fun i => { i.clearClaim with status := .pending, lastError := some "foreground_chat_preempted",
                                  finishedAt := none, createdAt := db.clock }) fun _ => rfl

/-- A reminder that already wrote something cannot be replayed: it fails visibly. -/
def preemptUnsafeScheduled (db : Db) (j : Job) : Db :=
  let error := db.terminalError j.id "foreground_chat_preempted"
  let expired := db.updateJobs (unchangedSince j)
    (fun i => { i.clearClaim with status := .expired, finishedAt := some db.clock,
                                  lastError := some error }) fun _ => rfl
  ((expired.settleAttempts (· == j.id)).queueTerminalFailure j.id j.userId).reviewAfterExpiry j.id

/-- Every other lane just gives way. -/
def preemptSupersede (db : Db) (j : Job) : Db :=
  db.updateJobs (unchangedSince j)
    (fun i => { i.clearClaim with status := .superseded, finishedAt := some db.clock,
                                  lastError := some "foreground_chat_preempted" }) fun _ => rfl

/-- One row of the preemption. `ownerDead` is the heartbeat table's answer for a capture claim. -/
def preemptRow (ownerDead : JobId → Bool) (db : Db) (j : Job) : Db :=
  if j.lane == .capture && j.status.held && (passed db.clock j.leaseLimit || ownerDead j.id) then
    db.expireOverdueCapture j.id
  else if j.lane == .capture || (j.lane == .scheduled && db.turnIsPristine j.id) then
    db.preemptRequeue j
  else if j.lane == .scheduled then db.preemptUnsafeScheduled j
  else db.preemptSupersede j

/-- `preempt_active_for_chat_on_cursor`, over the rows it has locked. -/
def preemptActiveForChat (ownerDead : JobId → Bool) (db : Db) (u : UserId) : Db :=
  (db.jobs.rows.filter fun j => j.userId == u && j.lane != .chat && j.status.active).foldl
    (preemptRow ownerDead) db

/-! ## Producers -/

/-- The generation a producer pins: the one it was given, or the current one under `v2`. -/
def effectiveGeneration (db : Db) (u : UserId) (expected : Option Nat) : Option Nat :=
  match expected with
  | some g => some g
  | none => (db.runtime u).bind fun s => if s.hostedState == .v2 then some s.generation else none

/-- `_enqueue_capture_once` without the scheduler's backoff gate. -/
def enqueueCapture (cfg : Config) (db : Db) (e : Enqueue) (trace : Option String) (priority : Nat) :
    Db × JobId × Bool :=
  let e := { e with expectedGeneration := db.effectiveGeneration e.userId e.expectedGeneration }
  match db.activeRow e.userId .capture with
  | some existing =>
    if existing.status.held && !generationStale e.expectedGeneration existing then
      -- an expired claim is settled and nothing is enqueued in its place this time
      if passed db.clock existing.leaseLimit then
        (db.expireOverdueCapture existing.id, existing.id, true)
      else (db.coalesceInto existing.id, existing.id, true)
    else coalesceOrInsert cfg db e trace priority
  | none => coalesceOrInsert cfg db e trace priority

/-- `enqueue_job`. -/
def enqueueJob (cfg : Config) (db : Db) (e : Enqueue) : Db × JobId × Bool :=
  let trace := e.traceIdForEnqueue
  let priority := e.priority.getD e.lane.priority
  if e.lane == .capture then enqueueCapture cfg db e trace priority
  else
    coalesceOrInsert cfg db
      { e with expectedGeneration := db.effectiveGeneration e.userId e.expectedGeneration } trace
        priority

/-- `enqueue_job_with_context_log` on the job table; the context row it appends is not read here. -/
def enqueueJobWithContextLog (cfg : Config) (db : Db) (e : Enqueue) : Db × JobId × Bool :=
  coalesceOrInsert cfg db
    { e with expectedGeneration := db.effectiveGeneration e.userId none, deadlineAt := none }
    e.traceIdForEnqueue (e.priority.getD e.lane.priority)

/-! ## Claim -/

/-- The row is pending, available and inside its queue deadline, and no job of its user is
owned: the common condition of the candidate, the orphan and the claim statement. -/
def claimable (cfg : Config) (db : Db) (j : Job) : Bool :=
  j.status == .pending && decide (j.availableAt ≤ db.clock) &&
    !passed db.clock (j.queueLimit cfg) &&
    !db.jobs.rows.any fun i => i.userId == j.userId && i.status.held

/-- `ORDER BY priority DESC, created_at`: no claimable row of the scan comes before `j`. Rows
that tie may be returned in any order. -/
def headOf (cfg : Config) (db : Db) (scan : Job → Bool) (j : Job) : Bool :=
  claimable cfg db j && scan j && db.users.contains j.userId &&
    !db.jobs.rows.any fun i => claimable cfg db i && scan i && db.users.contains i.userId &&
      (decide (j.priority < i.priority) || i.priority == j.priority &&
        decide (i.createdAt < j.createdAt))

def laneAllowed (lanes : Option (List Lane)) (j : Job) : Bool :=
  lanes.all fun ls => ls.contains j.lane

/-- What the first statement of `claim_next_job` may return: the queue head, if its user has a
runtime row. -/
def isCandidate (cfg : Config) (db : Db) (lanes : Option (List Lane)) (job : JobId) : Bool :=
  (db.jobs.get? job).any fun j => headOf cfg db (laneAllowed lanes) j &&
    (db.runtime j.userId).isSome

/-- What the orphan probe may return when the first statement returned nothing: the head among
the rows whose user has no runtime row. -/
def isOrphan (cfg : Config) (db : Db) (lanes : Option (List Lane)) (job : JobId) : Bool :=
  !db.jobs.rows.any (fun i => isCandidate cfg db lanes i.id) &&
    (db.jobs.get? job).any fun j =>
      headOf cfg db (fun i => laneAllowed lanes i && (db.runtime i.userId).isNone) j

/-- The two updates that retire a job whose user is not on `v2`. The statement names the id and
nothing else. -/
def retireNotV2 (db : Db) (job : JobId) : Db :=
  db.updateJobs (fun j => j.id == job)
    (fun j => { j with status := .superseded, finishedAt := some db.clock,
                       lastError := some "runtime_state_not_v2" }) fun _ => rfl

def claimOrphan (db : Db) (job : JobId) : Db := db.retireNotV2 job

/-- `claim_sql`: claim the row, or retire it when it pins another generation. -/
def claimSql (cfg : Config) (db : Db) (worker : WorkerId) (job : JobId) (generation : Nat) : Db :=
  match db.jobs.get? job with
  | some j =>
    if claimable cfg db j then
      if j.expectedRuntimeGeneration.all (· == generation) then
        db.updateJobs (fun i => i.id == job)
          (fun i => { i with status := .claimed, claimedBy := some worker,
                             claimedAt := some db.clock,
                             expectedRuntimeGeneration :=
                               some (i.expectedRuntimeGeneration.getD generation),
                             leaseExpiresAt := some (db.clock + cfg.runningTtl),
                             deadlineAt := some (db.clock + cfg.runningTtl) }) fun _ => rfl
      else
        db.updateJobs (fun i => i.id == job)
          (fun i => { i with status := .superseded, finishedAt := some db.clock,
                             lastError := some "stale_runtime_generation" }) fun _ => rfl
    else db
  | none => db

/-- The rest of the claim transaction for a candidate, under the lock of its user's runtime row. -/
def claimHead (cfg : Config) (db : Db) (worker : WorkerId) (job : JobId) : Db :=
  match db.jobs.get? job with
  | some j =>
    match db.runtime j.userId with
    | some s =>
      if s.hostedState == .v2 then claimSql cfg db worker job s.generation else db.retireNotV2 job
    | none => db
  | none => db

end Db

end Feedling
