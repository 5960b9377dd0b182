import Feedling.KeyedTable
import Mathlib.Algebra.Order.Ring.Rat
import Mathlib.Data.List.MinMax
import Mathlib.Data.Prod.Lex
import Mathlib.Data.String.Basic

/-!
# Scheduled wakes

The timers of one user are rows of the append-only log `proactive_scheduled_wakes_v2`; a state
change patches the document of the newest row with the timer's id. A due timer is claimed for a
while before it fires, and a repeating one gives birth to its successor in the transaction that
fires it.
-/

namespace Feedling

open KeyedTable

inductive ScheduledStatus where
  | pending
  | claimed
  | fired
  | canceled
  | blocked
  deriving DecidableEq, Repr

/-- `pending_like`. -/
def ScheduledStatus.pendingLike : ScheduledStatus → Bool
  | .pending | .claimed => true
  | _ => false

/-- `repeat`: the empty text is `once`. -/
inductive WakeRepeat where
  | once
  | daily
  | weekly
  deriving DecidableEq, Repr

/-- `REPEAT_INTERVALS_V2.get`. -/
def WakeRepeat.interval : WakeRepeat → Option ℚ
  | .once => none
  | .daily => some 86400
  | .weekly => some 604800

/-- `ScheduledWakeRecordV2` of the one user. -/
structure ScheduledWake where
  timerId : String
  status : ScheduledStatus
  atText : String
  timezone : String
  dueAt : ℚ
  repeatKind : WakeRepeat := .once
  repeatSeriesId : String := ""
  repeatCanceledAt : ℚ := 0
  note : String := ""
  originRefs : List String := []
  createdAt : ℚ := 0
  updatedAt : ℚ := 0
  turnId : String := ""
  wakeIds : List String := []
  claimId : String := ""
  claimOwnerId : String := ""
  claimExpiresAt : ℚ := 0
  firedAt : ℚ := 0
  firedWakeId : String := ""
  firedJobId : Int := 0
  canceledAt : ℚ := 0
  cancelReason : String := ""
  blockedAt : ℚ := 0
  blockReason : String := ""
  transparencyWakeId : String := ""
  deriving DecidableEq, Repr

namespace ScheduledWake

def pendingLike (r : ScheduledWake) : Bool := r.status.pendingLike

/-- `scheduled_record_from_doc_v2`: a repeating timer without a series is the first of its own. -/
def fromDoc (doc : ScheduledWake) : ScheduledWake :=
  { doc with
    repeatSeriesId :=
      if doc.repeatSeriesId ≠ "" then doc.repeatSeriesId else if doc.repeatKind = .once then ""
        else doc.timerId }

/-- `_next_repeat_record`; `wallTime` is `_wall_time_for_due_at` and `timerId` the new id. -/
def nextRepeatRecord (wallTime : ℚ → String → String) (record : ScheduledWake) (timerId : String)
    (now : ℚ) : Option ScheduledWake :=
  match record.repeatKind.interval with
  | none => none
  | some interval =>
    if record.repeatCanceledAt > 0 then none
    else
      some
        { timerId := timerId
          status := .pending
          atText := wallTime (record.dueAt + interval) record.timezone
          timezone := record.timezone
          dueAt := record.dueAt + interval
          repeatKind := record.repeatKind
          repeatSeriesId :=
            if record.repeatSeriesId ≠ "" then record.repeatSeriesId else record.timerId
          note := record.note
          originRefs := record.originRefs
          createdAt := now
          updatedAt := now
          turnId := record.turnId
          wakeIds := record.wakeIds }

end ScheduledWake

/-- What `_schedule_action` has parsed and checked; `timerId` is the new id. -/
structure ScheduleAction where
  timerId : String
  atText : String
  timezone : String
  dueAt : ℚ
  repeatKind : WakeRepeat
  note : String
  originRefs : List String
  turnId : String
  wakeIds : List String
  deriving DecidableEq, Repr

/-- The record that `_schedule_action` hands to the store. -/
def ScheduleAction.record (a : ScheduleAction) (now : ℚ) : ScheduledWake where
  timerId := a.timerId
  status := .pending
  atText := a.atText
  timezone := a.timezone
  dueAt := a.dueAt
  repeatKind := a.repeatKind
  repeatSeriesId := if a.repeatKind = .once then "" else a.timerId
  note := a.note
  originRefs := a.originRefs
  createdAt := now
  updatedAt := now
  turnId := a.turnId
  wakeIds := a.wakeIds

/-- A row of `user_logs`; `item_key` is the timer's id. -/
structure ScheduledRow where
  seq : Nat
  doc : ScheduledWake
  deriving DecidableEq, Repr

abbrev ScheduledLog := Serial ScheduledRow.seq

namespace ScheduledLog

/-- `ORDER BY seq DESC LIMIT 1` among the rows of the timer. -/
def latest (log : ScheduledLog) (timerId : String) : Option ScheduledRow :=
  (log.rows.filter fun r => r.doc.timerId == timerId).getLast?

/-- `UPDATE ... SET doc = doc || patch WHERE seq = seq`. -/
def patchRow (log : ScheduledLog) (seq : Nat) (patch : ScheduledWake → ScheduledWake) :
    ScheduledLog :=
  log.modify (fun r => r.seq == seq) (fun r => { r with doc := patch r.doc }) fun _ => rfl

/-- The patch of the newest row of the timer, if it meets the guard, `RETURNING doc`. -/
def patchLatest (log : ScheduledLog) (timerId : String) (guard : ScheduledWake → Bool)
    (patch : ScheduledWake → ScheduledWake) : ScheduledLog × Option ScheduledWake :=
  match log.latest timerId with
  | some row =>
    if guard row.doc then (log.patchRow row.seq patch, some (patch row.doc).fromDoc)
      else (log, none)
  | none => (log, none)

/-- `INSERT INTO user_logs`. -/
def append (log : ScheduledLog) (doc : ScheduledWake) : ScheduledLog :=
  log.insert (fun n => ⟨n, doc⟩) fun _ => rfl

/-- The row is pending or claimed for the same instant and repeat. -/
def sameSlot (dueAt : ℚ) (repeatKind : WakeRepeat) (r : ScheduledRow) : Bool :=
  r.doc.pendingLike && r.doc.dueAt == dueAt && r.doc.repeatKind == repeatKind

/-- The `SELECT` that keeps `create_unique_pending` and `mark_fired` from adding a second timer. -/
def inSlot (log : ScheduledLog) (dueAt : ℚ) (repeatKind : WakeRepeat) : Option ScheduledWake :=
  (log.rows.filter (sameSlot dueAt repeatKind)).getLast?.map (·.doc)

/-- `create_unique_pending`. -/
def createUniquePending (log : ScheduledLog) (record : ScheduledWake) :
    ScheduledLog × ScheduledWake × Bool :=
  match log.inSlot record.dueAt record.repeatKind with
  | some existing => (log, existing.fromDoc, false)
  | none => (log.append record, record.fromDoc, true)

/-- The patch of `cancel` for a single timer. -/
def canceled (reason : String) (now : ℚ) (r : ScheduledWake) : ScheduledWake :=
  { r with status := .canceled, cancelReason := reason, canceledAt := now, updatedAt := now }

/-- The patch of `cancel` for every row of a series. -/
def seriesCanceled (reason : String) (now : ℚ) (r : ScheduledWake) : ScheduledWake :=
  let common := { r with repeatCanceledAt := now, cancelReason := reason, updatedAt := now }
  if r.pendingLike then { common with status := .canceled, canceledAt := now } else common

/-- `cancel`: the whole series of a repeating timer, or the one timer if it still can fire. -/
def cancel (log : ScheduledLog) (timerId reason : String) (now : ℚ) :
    ScheduledLog × Option ScheduledWake :=
  match log.latest timerId with
  | none => (log, none)
  | some target =>
    if target.doc.repeatKind ≠ .once ∧ target.doc.repeatSeriesId ≠ "" then
      (log.modify (fun r => r.doc.repeatSeriesId == target.doc.repeatSeriesId)
        (fun r => { r with doc := seriesCanceled reason now r.doc }) fun _ => rfl,
        some (seriesCanceled reason now target.doc).fromDoc)
    else log.patchLatest timerId (·.pendingLike) (canceled reason now)

/-- The turn of `_enforce_pending_cap` over the records it has read: the oldest timer but the one to
keep goes while more than `cap` are pending. -/
def capVictim (cap : Nat) (keepTimerId : String) (records : List ScheduledWake) :
    Option ScheduledWake :=
  let pending := records.filter (·.pendingLike)
  if pending.length ≤ cap then none
  else (pending.filter fun r => r.timerId ≠ keepTimerId).argmin fun r => toLex (r.createdAt,
      r.timerId)

/-- The guard of `claim_due`: due, and pending or claimed by somebody whose claim has run out. -/
def claimable (now : ℚ) (r : ScheduledWake) : Bool :=
  decide (r.dueAt ≤ now) && (r.status == .pending || r.status == .claimed &&
      decide (r.claimExpiresAt ≤ now))

def claimedBy (claimId ownerId : String) (now ttl : ℚ) (r : ScheduledWake) : ScheduledWake :=
  { r with status := .claimed, claimId := claimId, claimOwnerId := ownerId,
           claimExpiresAt := now + ttl, updatedAt := now }

/-- `claim_due`; `claimId` is the new id. -/
def claimDue (log : ScheduledLog) (timerId claimId ownerId : String) (now ttl : ℚ) :
    ScheduledLog × Option ScheduledWake :=
  log.patchLatest timerId (claimable now) (claimedBy claimId ownerId now ttl)

/-- The guard of `mark_fired`. -/
def mayFire (claimId : String) (r : ScheduledWake) : Bool :=
  r.status == .claimed && r.claimId == claimId && r.repeatCanceledAt == 0

def firedAs (wakeId : String) (jobId : Int) (now : ℚ) (r : ScheduledWake) : ScheduledWake :=
  { r with status := .fired, firedAt := now, firedWakeId := wakeId, firedJobId := jobId,
           updatedAt := now }

/-- `mark_fired`: the fired record and its successor, or nothing if the claim is not current. -/
def markFired (log : ScheduledLog) (timerId claimId wakeId : String) (jobId : Int) (now : ℚ)
    (nextRecord : Option ScheduledWake) :
    ScheduledLog × Option (ScheduledWake × Option ScheduledWake) :=
  let fired := log.patchLatest timerId (mayFire claimId) (firedAs wakeId jobId now)
  match fired.2 with
  | none => (log, none)
  | some record =>
    match nextRecord with
    | none => (fired.1, some (record, none))
    | some next =>
      match inSlot fired.1 next.dueAt next.repeatKind with
      | some existing => (fired.1, some (record, some existing.fromDoc))
      | none => (append fired.1 next, some (record, some next.fromDoc))

def blockedBy (reason transparencyWakeId : String) (now : ℚ) (r : ScheduledWake) : ScheduledWake :=
  { r with status := .blocked, blockedAt := now, blockReason := reason
           transparencyWakeId := transparencyWakeId, updatedAt := now }

/-- `mark_blocked`; the guard on the claim is left out for an empty one. -/
def markBlocked (log : ScheduledLog) (timerId claimId reason transparencyWakeId : String)
    (now : ℚ) : ScheduledLog × Option ScheduledWake :=
  log.patchLatest timerId (fun r => r.status == .claimed && (claimId == "" || r.claimId == claimId))
    (blockedBy reason transparencyWakeId now)

end ScheduledLog

end Feedling
