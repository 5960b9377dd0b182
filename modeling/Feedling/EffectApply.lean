import Feedling.EffectOutbox

/-!
# The transaction of the effect applier

`applyEffect` is one round of `apply_pending_effects`: it locks the user's runtime row, reads the
effect again, checks state, generation and reply fence, delivers or discards the effect, and says
whether the loop goes on to the next row. A reply that ends its turn completes the source job in
the same transaction.
-/

namespace Feedling

open KeyedTable

inductive DeliveryOutcome where
  | ok
  | terminalError
  | uncertain
  | failed (name : String)
  deriving DecidableEq, Repr

/-- What the environment decides about one delivery: how the sink ends, the item results it
returns, whether the write of an ordinary sink was committed on the sink's own connection, and
the identifiers it generates. -/
structure Delivery where
  outcome : DeliveryOutcome
  results : Option (List Bool)
  landed : Bool
  uuid : Nat → String

/-- The result of one round. -/
structure Applied where
  db : Db
  dispatched : Bool
  continues : Bool

/-- `_LEGACY_SENSITIVE_EFFECT_TYPES`. -/
def EffectType.legacySensitive : EffectType → Bool
  | .memory | .identity | .schedule => true
  | _ => false

/-- `_SCRUBBED_LEGACY_PAYLOAD`. -/
def scrubbedPayload : Payload := ⟨[("legacy_payload_scrubbed", .scalar (.bool true))], .absent⟩

/-- The payload that replaces the request when the sink returned item results. -/
def resultPayload : Payload := ⟨[("_applied_result_v1", .object [("items", .other)])], .absent⟩

/-- `_pop_perception_glance_fingerprint`: the fingerprint, and whether the key was valid. -/
def Payload.glanceFingerprint (p : Payload) : Option String × Bool :=
  match p.get? "_perception_glance_fingerprint" with
  | none => (none, true)
  | some (.scalar (.str s)) =>
    if s.length == 64 && s.toList.all (fun c => "0123456789abcdef".toList.contains c) then
      (some s, true)
    else (none, false)
  | some _ => (none, false)

/-- `_sanitized_dispatch_error`. -/
def DeliveryOutcome.errorText : DeliveryOutcome → String
  | .ok => ""
  | .terminalError => "dispatch_failed:EffectTerminalError"
  | .uncertain => "delivery_uncertain: unresolved sink claim requires reconciliation"
  | .failed name => "dispatch_failed:" ++ name

/-- `int(value)` of a JSON scalar. -/
def Scalar.int? : Scalar → Option Int
  | .int n => some n
  | .bool b => some (if b then 1 else 0)
  | .str s => s.toInt?
  | _ => none

namespace Db

/-- Set the status of an open effect to `discarded`. -/
def discardEffect (db : Db) (eid : String) (reason : String) : Db :=
  db.updateEffect eid
    (fun e =>
      { e with
        status := if e.status.isOpen then .discarded else e.status
        lastError := if e.status.isOpen then reason else e.lastError })
    (fun _ => rfl) fun _ => rfl

/-- The mark of a successful delivery. -/
def markApplied (db : Db) (e : Effect) (results : Option (List Bool)) : Db :=
  db.updateEffect e.effectId
    (fun e => match results with
      | some items =>
        { e with
          status := if items.all id then .applied else .appliedWithResults
          lastError := "", payload := some resultPayload, results := some items }
      | none =>
        { e with
          status := .applied, lastError := ""
          payload := if e.effectType.legacySensitive then some scrubbedPayload else e.payload })
    (fun _ => by cases results <;> rfl) fun _ => by cases results <;> rfl

/-- A delivery that raised. A deterministic refusal is terminal and handled; any other error is
recorded and ends the loop. -/
def dispatchError (db : Db) (eid : String) (outcome : DeliveryOutcome) (dispatched : Bool) :
    Applied :=
  match outcome with
  | .terminalError => ⟨db.discardEffect eid outcome.errorText, dispatched, true⟩
  | .uncertain => ⟨db.effectRecordError eid outcome.errorText true, dispatched, false⟩
  | _ => ⟨db.effectRecordError eid outcome.errorText false, dispatched, false⟩

/-- `_complete_final_reply_job_on_cursor`; `none` when it raises. -/
def completeFinalReplyJob (db : Db) (u : UserId) (job : Option JobId) (check : FenceCheck)
    (glance : Option String) : Option Db :=
  match job.bind db.jobs.get? with
  | some j =>
    if j.userId == u && j.lane.replySource && j.status == .running && j.claimedBy.isSome &&
        j.claimedBy == check.claimedBy && some j.inputGeneration == check.inputGeneration &&
        (glance.isNone || j.lane == .heartbeat) then some (db.completeJob j.id)
    else none
  | none => none

/-- `_handoff_legacy_chat_final_on_cursor`. -/
def handoffLegacyChatFinal (cfg : Config) (db : Db) (u : UserId) (job : Option JobId)
    (claimedBy : Option WorkerId) (generation : Nat) : Db :=
  match job.bind db.jobs.get? with
  | some j =>
    if claimedBy.getD "" != "" && j.userId == u && j.lane == .chat && j.status == .running &&
        j.claimedBy == claimedBy then
      let done := db.updateJobs (fun i => i.id == j.id)
        (fun i => { completed db.clock i with lastError := some "legacy_final_regeneration" })
          fun _ => rfl
      done.insertJob (Job.fresh db.clock u .chat (some "legacy_final_regeneration") none j.priority
        (some (db.clock + cfg.pendingChatTtl)) (some generation)) fun _ => rfl
    else db
  | none => db

/-- The reason to discard a reply: its fence, a call that ended, or a fingerprint where none
belongs. -/
def discardReason (db : Db) (u : UserId) (e : Effect) (p : Payload) (check : FenceCheck) :
    Option DiscardReason :=
  let voice := strip (p.text "voice_call_id")
  let (glance, valid) := p.glanceFingerprint
  if check.reason.isSome then check.reason
  else if e.effectType.isReply && voice != "" && voiceCallEnded (db.voiceStatus u voice) then
    some .voiceCallEnded
  else if !valid then some .invalidFence
  else if glance.isSome && !((check.mode == .final || check.mode == .terminal) &&
      (e.effectType == .replyFinalFencedV1 || e.effectType == .replyTerminalFencedV1) &&
      (e.jobId.bind db.jobs.get?).any (fun j => j.userId == u && j.claimedBy == check.claimedBy &&
        j.lane == .heartbeat)) then some .invalidFence
  else none

/-- A refused reply. A reply to a call that ended still consumes its input; a legacy final reply
that lost to newer input hands that input to a successor. -/
def discardReply (cfg : Config) (db : Db) (u : UserId) (generation : Nat) (e : Effect) (p : Payload)
    (check : FenceCheck) (reason : DiscardReason) : Option Db :=
  if reason = .voiceCallEnded ∧ (check.mode = .final ∨ check.mode = .legacyFinal) then
    (db.completeFinalReplyJob u e.jobId check p.glanceFingerprint.1).map fun db =>
      (db.advanceCursor u ((p.exactNat? "reply_through_seq").getD 0)).discardEffect e.effectId
        reason.text
  else if check.mode = .legacyFinal ∧ reason = .inputAdvanced then
    some ((handoffLegacyChatFinal cfg db u e.jobId check.claimedBy generation).discardEffect
        e.effectId
      reason.text)
  else some (db.discardEffect e.effectId reason.text)

/-- The ordinary sinks that write to this database: the compatibility cursor, the follow-up job
and the plaintext reply. The others write elsewhere. -/
def ordinarySink (cfg : Config) (db : Db) (u : UserId) (e : Effect) (p : Payload)
    (d : Delivery) : Db :=
  if d.landed then
    match e.effectType with
    | .other "cursor" =>
      match p.get? "new_seq" with
      | some (.scalar v) => (v.int?.map fun n => db.advanceCursor u n.toNat).getD db
      | _ => db
    | .other "job" =>
      let current := ((db.runtime u).map (·.generation)).getD 0
      let expected := (p.exactNat? "expected_generation").getD current
      match Lane.ofName? (if p.text "lane" == "" then "chat" else p.text "lane") with
      | some lane =>
        if expected == current then
          (enqueueJob cfg db ⟨u, lane, (p.get? "reason").map Field.text, none, d.uuid 0, none, none,
            some expected⟩).1
        else db
      | none => db
    | .reply =>
      let row := replyPart [] (d.uuid 0) db.clock "" (strip (p.text "turn_failure_error_class")) ""
        (strip (p.text "voice_call_id")) none
      (db.chatInsert u row.msgId row.ts row.doc).1
    | _ => db
  else db

/-- Item results the applier accepts: between 1 and 24 of them. -/
def validResults (results : Option (List Bool)) : Bool :=
  results.all fun items => decide (1 ≤ items.length) && decide (items.length ≤ 24)

/-- Delivery of an effect that passed every check. -/
def deliver (cfg : Config) (db : Db) (u : UserId) (e : Effect) (p : Payload) (check : FenceCheck)
    (d : Delivery) : Applied :=
  if check.mode = .ordinary then
    let written := ordinarySink cfg db u e p d
    match d.outcome with
    | .ok =>
      if validResults d.results then ⟨written.markApplied e d.results, true, true⟩
      else written.dispatchError e.effectId (.failed "RuntimeError") true
    | outcome => written.dispatchError e.effectId outcome true
  else
    -- the savepoint: job completion and reply rows stand or fall together
    let completed := if check.mode.consumesJob then
      db.completeFinalReplyJob u e.jobId check p.glanceFingerprint.1 else some db
    match completed, d.outcome with
    | none, _ => db.dispatchError e.effectId (.failed "RuntimeError") false
    | some completed, .ok =>
      match sinkReplyInTransaction cfg completed u p d.uuid with
      | some published => ⟨published.markApplied e none, true, true⟩
      | none => db.dispatchError e.effectId (.failed "RuntimeError") true
    | some _, outcome => db.dispatchError e.effectId outcome true

/-- The branch for an effect of the current generation under `v2`. -/
def applyCurrent (cfg : Config) (db : Db) (u : UserId) (generation : Nat) (e : Effect)
    (d : Delivery) : Applied :=
  match e.payload with
  | none => db.dispatchError e.effectId (.failed "RuntimeError") false
  | some p =>
    match replyFenceMatches cfg db u e.jobId e.effectType p with
    | none => db.dispatchError e.effectId (.failed "RuntimeError") false
    | some check =>
      match db.discardReason u e p check with
      | some reason =>
        -- a completion that raises here undoes the transaction and ends the loop
        match discardReply cfg db u generation e p check reason with
        | some discarded => ⟨discarded, false, true⟩
        | none => ⟨db, false, false⟩
      | none => deliver cfg db u e p check d

/-- The branch for an effect of another generation, or of a user who is not on `v2`. -/
def discardStale (db : Db) (u : UserId) (e : Effect) : Db :=
  let reason := if db.isV2 u then "runtime_generation_advanced" else "runtime_state_not_v2"
  db.updateEffect e.effectId
    (fun e =>
      { e with
        status := .discarded, lastError := reason
        payload := if e.effectType.legacySensitive then some scrubbedPayload else e.payload })
    (fun _ => rfl) fun _ => rfl

/-- One round of `apply_pending_effects`. -/
def applyEffect (cfg : Config) (db : Db) (u : UserId) (eid : String) (d : Delivery) : Applied :=
  let db := db.materializeRuntime u
  match db.effects.find? eid with
  | none => ⟨db, false, true⟩
  | some e =>
    if !e.status.isOpen then ⟨db, false, true⟩
    else if !db.due e then ⟨db, false, false⟩
    else if db.v2Generation u == some e.expectedGeneration then
      applyCurrent cfg db u e.expectedGeneration e d
    else ⟨db.discardStale u e, false, true⟩

end Db

end Feedling
