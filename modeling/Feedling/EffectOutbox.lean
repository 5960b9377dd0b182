import Feedling.ReplySink
import Mathlib.Algebra.Group.Nat.Defs

/-!
# The effect outbox

Producers insert effects under a deterministic id; `apply_pending_effects` reads the due prefix
of a user's open effects and handles each listed row in a transaction of its own. The checks and
writes of that transaction are `applyEffect`. What a sink does outside this database, and
whether it raises, is chosen by the environment in `Delivery`.
-/

namespace Feedling

open KeyedTable

/-! ## Producers -/

/-- The arguments of `effect_enqueue`. -/
structure EffectRequest where
  effectId : String
  userId : UserId
  jobId : Option JobId
  effectType : EffectType
  expectedGeneration : Nat
  payload : Option Payload
  inputFrontierSeq : Option Nat
  deriving DecidableEq, Repr

namespace Db

/-- `COALESCE(MAX(seq), 0)` over the user's inputs. -/
def newestInputSeq (db : Db) (u : UserId) : Nat :=
  ((db.chat.rows.filter (ChatRow.inputOf u)).map (·.seq)).foldl max 0

/-- The insert trigger fills the frontier of a chat job's durable write. -/
def filledFrontier (db : Db) (r : EffectRequest) : Option Nat :=
  match r.inputFrontierSeq with
  | some n => some n
  | none =>
    if r.effectType.durableTool &&
        (r.jobId.bind db.jobs.get?).any (fun j => j.lane == .chat) then
        some (db.newestInputSeq r.userId)
    else none

/-- The insert of `effect_enqueue`, with its trigger. -/
def insertEffect (db : Db) (r : EffectRequest) : Db :=
  let frontier := db.filledFrontier r
  let status : EffectStatus := if r.effectType.fencedReply then .pendingFencedV1 else .pending
  let effects := db.effects.insert r.effectId
    (fun n => { enqueueSeq := n, effectId := r.effectId, userId := r.userId, jobId := r.jobId
                effectType := r.effectType, expectedGeneration := r.expectedGeneration
                payload := r.payload, status := status, attemptCount := 0, nextAttemptAt := db.clock
                lastError := "", inputFrontierSeq := frontier, results := none })
    (fun _ => rfl) fun _ => rfl
  { db with effects := effects }

/-- The source job of a fenced write: running for the caller, with a live lease. -/
def writeFenceHolds (db : Db) (u : UserId) (job : Option JobId) (w : WorkerId) : Bool :=
  (job.bind db.jobs.get?).any fun j =>
    j.userId == u && j.status == .running && j.claimedBy.getD "" == w && j.leaseLive db.clock

/-- `effect_enqueue`: without an owner it tells whether the row is new, with one whether the fence
let the write pass. -/
def effectEnqueue (db : Db) (r : EffectRequest) (claimedBy : Option WorkerId) : Db × Bool :=
  match claimedBy with
  | none => (db.insertEffect r, (db.effects.find? r.effectId).isNone)
  | some w =>
    if db.writeFenceHolds r.userId r.jobId w then (db.insertEffect r, true) else (db, false)

/-! ## Work list and error record -/

def due (db : Db) (e : Effect) : Bool := decide (e.nextAttemptAt ≤ db.clock)

/-- `effect_pending(due_prefix_only=True)`: the ids of the due prefix, in insertion order. -/
def effectPending (db : Db) (u : UserId) : List String :=
  ((db.effects.rows.filter fun e => e.userId == u && e.status.isOpen).takeWhile db.due).map
    (·.effectId)

def effectMaxAttempts : Nat := 8

/-- `LEAST(3600, 15 * (1 << LEAST(attempt_count, 8)))` seconds, in the clock's microseconds. -/
def retryDelay (attempts : Nat) : Time := min 3600 (15 * 2 ^ min attempts 8) * 1000000

/-- A change of the effect with the given id. -/
def updateEffect (db : Db) (eid : String) (f : Effect → Effect)
    (hf : ∀ e, (f e).enqueueSeq = e.enqueueSeq) (hid : ∀ e, (f e).effectId = e.effectId) : Db :=
  { db with effects := db.effects.modify (fun e => e.effectId == eid) f hf hid }

/-- What `_effect_record_error_on_cursor` makes of an open row. -/
def errorRecorded (now : Time) (error : String) (reconciliationRequired : Bool) (e : Effect) :
    Effect :=
  if e.status.isOpen then
    { e with lastError := truncate 256 error, attemptCount := e.attemptCount + 1
             nextAttemptAt := now + retryDelay e.attemptCount
             status := if reconciliationRequired || decide (effectMaxAttempts ≤ e.attemptCount + 1)
               then .needsReconciliation else e.status }
  else e

@[simp] theorem errorRecorded_enqueueSeq (now : Time) (error : String) (b : Bool) (e : Effect) :
    (errorRecorded now error b e).enqueueSeq = e.enqueueSeq := by
  unfold errorRecorded; split <;> rfl
@[simp] theorem errorRecorded_effectId (now : Time) (error : String) (b : Bool) (e : Effect) :
    (errorRecorded now error b e).effectId = e.effectId := by unfold errorRecorded; split <;> rfl

def effectRecordError (db : Db) (eid : String) (error : String) (reconciliationRequired : Bool) :
    Db :=
  db.updateEffect eid (errorRecorded db.clock error reconciliationRequired)
    (fun e => by simp) fun e => by simp

end Db

/-! ## The reply fence -/

inductive ReplyMode where
  | ordinary | transactional | final | terminal | legacyFinal
  deriving DecidableEq, Repr

/-- The modes that consume their source job. -/
def ReplyMode.consumesJob : ReplyMode → Bool
  | .final | .terminal | .legacyFinal => true
  | _ => false

inductive DiscardReason where
  | inputAdvanced | invalidFence | sourceJobInactive | voiceCallEnded | wakeChatCollision
  deriving DecidableEq, Repr

def DiscardReason.text : DiscardReason → String
  | .inputAdvanced => "input_generation_advanced"
  | .invalidFence => "invalid_final_reply_fence"
  | .sourceJobInactive => "source_job_not_active"
  | .voiceCallEnded => "voice_call_ended"
  | .wakeChatCollision => "wake_chat_collision"

/-- What `_reply_fence_matches` returns: a reason to discard, the owner and input generation of
the source job, and the mode of the reply. -/
structure FenceCheck where
  reason : Option DiscardReason
  claimedBy : Option WorkerId
  inputGeneration : Option Nat
  mode : ReplyMode
  deriving DecidableEq, Repr

namespace FenceCheck

def refuse (reason : DiscardReason) (mode : ReplyMode) : FenceCheck :=
  ⟨some reason, none, none, mode⟩

/-- A refusal that still names the locked job. -/
def refuseFor (j : Job) (reason : DiscardReason) (mode : ReplyMode) : FenceCheck :=
  ⟨some reason, j.claimedBy, some j.inputGeneration, mode⟩

def accept (mode : ReplyMode) : FenceCheck := ⟨none, none, none, mode⟩

def acceptFor (j : Job) (generation : Nat) (mode : ReplyMode) : FenceCheck :=
  ⟨none, j.claimedBy, some generation, mode⟩

end FenceCheck

/-- `_REPLY_SOURCE_LANES`. -/
def Lane.replySource : Lane → Bool
  | .chat | .heartbeat | .scheduled | .manualWake | .screenWatch => true
  | _ => false

/-- The value of a fence key; `null` counts as missing. -/
def Payload.fence? (p : Payload) (key : String) : Option Field :=
  match p.get? key with
  | some (.scalar .null) | none => none
  | some f => some f

/-- `set(entries) == set(keys)`. -/
def hasKeys (entries : List (String × Scalar)) (keys : List String) : Bool :=
  entries.all (fun e => keys.contains e.1) && keys.all fun k => entries.any fun e => e.1 == k

/-- A key that holds a non-empty text. -/
def nonemptyText? (entries : List (String × Scalar)) (key : String) : Option String :=
  match valueAt? entries key with
  | some (.str s) => if s == "" then none else some s
  | _ => none

def fenceNat? (entries : List (String × Scalar)) (key : String) : Option Nat :=
  (valueAt? entries key).bind Scalar.exactNat?

/-- The fence of a final reply: its owner, input generation and frontier, and whether queued input
is left for the next turn. A legacy reply has no fence and only a frontier. -/
structure FinalFence where
  claimedBy : Option WorkerId
  inputGeneration : Option Nat
  throughSeq : Nat
  preserveQueuedInput : Bool
  deriving DecidableEq, Repr

/-- The checks on a final fence that need no database; `none` when one fails. -/
def FinalFence.parse (p : Payload) (entries : List (String × Scalar)) : Option FinalFence :=
  let preserve := valueAt? entries "preserve_queued_input" == some (.bool true)
  if hasKeys entries ["claimed_by", "input_generation", "through_seq"] ||
      hasKeys entries ["claimed_by", "input_generation", "through_seq", "preserve_queued_input"] &&
        preserve then
    match nonemptyText? entries "claimed_by", fenceNat? entries "input_generation",
        fenceNat? entries "through_seq" with
    | some w, some g, some t =>
      if p.exactNat? "reply_through_seq" == some t then some ⟨some w, some g, t, preserve⟩ else none
    | _, _, _ => none
  else none

/-- An encrypted reply with a frontier from before the fences. -/
def FinalFence.legacy (p : Payload) : Option FinalFence :=
  (p.exactNat? "reply_through_seq").map fun t => ⟨none, none, t, false⟩

namespace Db

/-- `_lock_active_reply_source_job`. -/
def activeReplySource (db : Db) (u : UserId) (job : Option JobId) (expected : Option WorkerId) :
    Option Job :=
  (job.bind db.jobs.get?).filter fun j =>
    j.userId == u && j.status == .running && j.lane.replySource && j.claimedBy.getD "" != "" &&
      (expected.all fun w => j.claimedBy == some w) && j.leaseLive db.clock

/-- The wake kinds that must not post into a live conversation. -/
def collisionWakeKind (kind : String) : Bool :=
  kind == "heartbeat" || kind == "manual_wake" || kind == "screen_watch"

/-- A chat row that counts as live conversation. -/
def conversationRow (m : ChatRow) : Bool :=
  m.doc.source != "verify_ping" && m.doc.source != "resident_maintenance" &&
    (m.doc.role.isUser ||
      m.doc.role.isAssistant && m.doc.source != "agent_initiated_proactive" && m.doc.wakeKind == "")

/-- `_wake_reply_chat_collision`; `none` when the configured window is not a number. -/
def wakeReplyChatCollision (cfg : Config) (db : Db) (u : UserId) (p : Payload) : Option Bool :=
  if collisionWakeKind (lower (strip (p.text "wake_kind"))) then
    cfg.collisionWindow.map fun window =>
      decide (0 < window) && db.chat.rows.any fun m =>
        m.userId == u && decide (db.clock ≤ m.ts + window) && decide (m.ts ≤ db.clock + 5000000) &&
          conversationRow m
  else some false

/-- Some input of the user lies beyond the frontier. -/
def inputBeyond (db : Db) (u : UserId) (seq : Nat) : Bool :=
  db.chat.rows.any fun m => m.inputOf u && decide (seq < m.seq)

/-- The intermediate and the unfenced encrypted reply: they need a live source job and end there. -/
def transactionalFence (cfg : Config) (db : Db) (u : UserId) (job : Option JobId)
    (expected : Option WorkerId) (p : Payload) : Option FenceCheck :=
  match db.activeReplySource u job expected with
  | none => some (.refuse .sourceJobInactive .transactional)
  | some j => (wakeReplyChatCollision cfg db u p).map fun collision =>
      if collision then .refuseFor j .wakeChatCollision .transactional else .accept .transactional

/-- The terminal reply: its fence pins owner, input generation and the newest input it has seen. -/
def terminalFence (cfg : Config) (db : Db) (u : UserId) (job : Option JobId) (p : Payload)
    (entries : List (String × Scalar)) : Option FenceCheck :=
  match hasKeys entries ["claimed_by", "input_generation", "observed_user_seq"],
      nonemptyText? entries "claimed_by", fenceNat? entries "input_generation",
      fenceNat? entries "observed_user_seq" with
  | true, some w, some g, some observed =>
    match db.activeReplySource u job (some w) with
    | none => some (.refuse .sourceJobInactive .terminal)
    | some j => (wakeReplyChatCollision cfg db u p).map fun collision =>
        if collision then .refuseFor j .wakeChatCollision .terminal
        else if j.inputGeneration != g || db.inputBeyond u observed then
          .refuseFor j .inputAdvanced .terminal
        else .acceptFor j g .terminal
  | _, _, _, _ => some (.refuse .invalidFence .terminal)

/-- The final reply, fenced or legacy, once its fence is read. -/
def finalFence (cfg : Config) (db : Db) (u : UserId) (job : Option JobId) (p : Payload)
    (f : FinalFence) (mode : ReplyMode) : Option FenceCheck :=
  match db.activeReplySource u job f.claimedBy with
  | none => some (.refuse .sourceJobInactive mode)
  | some j => (wakeReplyChatCollision cfg db u p).map fun collision =>
      if collision then .refuseFor j .wakeChatCollision mode
      else if (f.inputGeneration.any fun g => j.inputGeneration != g) && !f.preserveQueuedInput then
        .refuseFor j .inputAdvanced mode
      else if db.newestInputSeq u < f.throughSeq then .refuse .invalidFence mode
      else if db.inputBeyond u f.throughSeq && !f.preserveQueuedInput then
        .refuseFor j .inputAdvanced mode
      else .acceptFor j j.inputGeneration mode

/-- A fence that was or was not read. -/
def finalFenceOr (cfg : Config) (db : Db) (u : UserId) (job : Option JobId) (p : Payload)
    (f : Option FinalFence) (mode : ReplyMode) : Option FenceCheck :=
  match f with
  | some f => finalFence cfg db u job p f mode
  | none => some (.refuse .invalidFence mode)

/-- `_reply_fence_matches`; `none` when it raises. -/
def replyFenceMatches (cfg : Config) (db : Db) (u : UserId) (job : Option JobId) (type : EffectType)
    (p : Payload) : Option FenceCheck :=
  let frontier := (p.get? "reply_through_seq").isSome
  let final := p.fence? "_final_reply_fence"
  let source := p.fence? "_reply_source_fence"
  match type with
  | .replyIntermediateFencedV1 =>
    match frontier, final, source with
    | false, none, some (.object entries) =>
      match hasKeys entries ["claimed_by"], nonemptyText? entries "claimed_by" with
      | true, some w => transactionalFence cfg db u job (some w) p
      | _, _ => some (.refuse .invalidFence .transactional)
    | _, _, _ => some (.refuse .invalidFence .transactional)
  | .replyTerminalFencedV1 =>
    match frontier, final, source with
    | false, some (.object entries), none => terminalFence cfg db u job p entries
    | _, _, _ => some (.refuse .invalidFence .terminal)
  | .replyFinalFencedV1 =>
    match final, source with
    | some (.object entries), none =>
      finalFenceOr cfg db u job p (FinalFence.parse p entries) .final
    | _, _ => some (.refuse .invalidFence .final)
  | .reply =>
    if frontier then
      match final with
      | some (.object entries) =>
        if source.isSome then some (.refuse .invalidFence .final)
        else finalFenceOr cfg db u job p (FinalFence.parse p entries) .final
      | some (.scalar _) => some (.refuse .invalidFence .ordinary)
      | none =>
        if (p.object? "envelope").isSome then
          if source.isSome then some (.refuse .invalidFence .legacyFinal)
          else finalFenceOr cfg db u job p (FinalFence.legacy p) .legacyFinal
        else some (.refuse .invalidFence .ordinary)
    else if final.isSome || source.isSome then some (.refuse .invalidFence .ordinary)
    else if (p.object? "envelope").isSome then transactionalFence cfg db u job none p
    else some (.accept .ordinary)
  | _ =>
    if final.isSome || source.isSome then some (.refuse .invalidFence .ordinary)
      else some (.accept .ordinary)

end Db

end Feedling
