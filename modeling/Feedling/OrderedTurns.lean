import Feedling.ReplyPublication
import Feedling.ChatTransactions

/-!
# Chat turns that answer one message at a time

With ordered replies a chat turn pins the oldest unanswered message, publishes the final reply to
it, and only then, in a step of its own, enqueues a job for the messages behind it. A worker may
die between the two. `reconcile_unenqueued_v2_messages` is the net below: it looks for a user
with an unanswered message and no chat job, and enqueues one catch-up for the newest message.
-/

namespace Feedling

open KeyedTable

namespace Db

/-! ## The net -/

/-- An input beyond the reply cursor that carries no reply marks. -/
def unanswered (db : Db) (u : UserId) (m : ChatRow) : Bool :=
  m.inputOf u && decide ((db.runtimeDoc u).replyCursorSeq < m.seq) && !m.replied

/-- The rows of `latest`: the newest unanswered input that is no verify ping. -/
def latestUnanswered (db : Db) (u : UserId) : Option ChatRow :=
  (db.chat.rows.filter fun m => db.unanswered u m && m.doc.source != "verify_ping").getLast?

/-- A chat job of the user with this reason and trace, in any status but `superseded`. -/
def hasMarker (db : Db) (u : UserId) (reason msgId : String) : Bool :=
  db.jobs.rows.any fun j => j.inLane u .chat && j.reason == some reason &&
    j.traceId == some msgId && j.status != .superseded

def isChatJob (db : Db) (job : JobId) : Bool := (db.jobs.get? job).any fun j => j.lane == .chat

/-- A remote or platform write of a chat job beyond the cursor. -/
def writeBeyondCursor (db : Db) (u : UserId) : Bool :=
  let cursor := (db.runtimeDoc u).replyCursorSeq
  db.attempts.rows.any (fun a => a.userId == u && decide (cursor < a.inputFrontierSeq) &&
      db.isChatJob a.jobId) ||
    db.effects.rows.any fun e => e.userId == u &&
      e.inputFrontierSeq.any (fun n => decide (cursor < n)) && e.jobId.any db.isChatJob

/-- A row of the query of `reconcile_unenqueued_v2_messages`. -/
structure Candidate where
  msgId : String
  generation : Nat
  mutationRecovery : Bool
  deriving DecidableEq, Repr

/-- The query of `reconcile_unenqueued_v2_messages` for one user. -/
def reconcileUnenqueued (db : Db) (u : UserId) : Option Candidate :=
  match db.runtime u, db.latestUnanswered u with
  | some s, some m =>
    let barrier := db.writeBeyondCursor u
    if s.hostedState == .v2 && (db.runtimeDoc u).hostedRuntimeMode == "db_action_v2" &&
        !db.hasActive u .chat && !db.hasMarker u "mutation_recovery" m.msgId &&
        (barrier || !db.hasMarker u "reconcile" m.msgId) then some ⟨m.msgId, s.generation, barrier⟩
    else none
  | _, _ => none

/-- The catch-up that the loop over the candidates enqueues. -/
def Candidate.enqueue (c : Candidate) (u : UserId) : Enqueue :=
  ⟨u, .chat, some (if c.mutationRecovery then "mutation_recovery" else "reconcile"), some c.msgId,
    "", none, none, some c.generation⟩

/-- The oldest input after the sequence number, the one an ordered turn pins. -/
def oldestInputAfter (db : Db) (u : UserId) (seq : Nat) : Option ChatRow :=
  db.chat.rows.find? fun m => m.inputOf u && decide (seq < m.seq)

/-- A message as the chat endpoint stores it: an input with a body, no verify ping, not marked yet,
and admitted under the runtime state its sender observed. -/
def ChatSend.plainInput (u : UserId) (c : ChatSend) : Bool :=
  c.userId == u && c.lane == .chat && c.doc.role.isUser && c.doc.source != "verify_ping" &&
    c.doc.body != "" &&
    c.doc.replyStatus == "" && c.doc.replyMessageId == "" && c.doc.replyErrorClass == "" &&
    (c.fence.isSome || c.expectedGeneration.isNone)

end Db

/-! ## Turns -/

/-- What a turn has read of its input. -/
inductive TurnInput where
  | unread
  | nothing
  | pinned (seq : Nat) (msgId : String)
  deriving DecidableEq, Repr

def TurnInput.seq? : TurnInput → Option Nat
  | .pinned seq _ => some seq
  | _ => none

/-- The local variables of `process_job` in a chat turn, as far as it has come. -/
structure Turn where
  worker : WorkerId
  sinceSeq : Option Nat
  observedGeneration : Option Nat
  input : TurnInput
  deriving DecidableEq, Repr

/-- The payload is a final reply to the pinned message that leaves later input alone. -/
def Turn.repliesWith (t : Turn) (p : Payload) : Bool :=
  match t.input with
  | .pinned seq msgId => p.exactNat? "reply_through_seq" == some seq && p.preservesQueuedInput &&
      p.replyParentMessageId == some msgId
  | _ => false

/-- The database, the turns that workers are in, and the candidates the net has read. -/
structure ReplyWorld where
  db : Db
  turns : JobId → Option Turn
  candidates : List Db.Candidate

inductive ReplyLabel where
  | tick (elapsed : Time)
  | send (c : Db.ChatSend) (ownerDead : JobId → Bool)
  | claim (worker : WorkerId) (job : JobId)
  /-- `mark_running`; the turn begins. -/
  | start (job : JobId) (worker : WorkerId)
  | renew (job : JobId) (ttl : Time)
  /-- The turn reads the reply cursor. -/
  | load (job : JobId)
  /-- `get_input_generation`. -/
  | observe (job : JobId)
  /-- The turn reads its input. -/
  | pin (job : JobId)
  /-- `finish_chat_job` of a turn that found no input. -/
  | finishEmpty (job : JobId)
  | publish (job : JobId) (effectId : String) (p : Payload)
  /-- One round of `apply_pending_effects`, by the turn or by anyone else. -/
  | apply (effectId : String) (d : Delivery)
  /-- The last step of a turn whose reply was published. -/
  | followup (job : JobId)
  | fail (job : JobId) (error : String)
  | crash (job : JobId)
  | recoverKilled (job : JobId) (worker : WorkerId) (reason : String)
  | reap (now : Option Time)
  /-- The query of the net. -/
  | select
  /-- The enqueue of the net for one row of its query. -/
  | reconcile (c : Db.Candidate)

namespace ReplyWorld

def start (db : Db) : ReplyWorld := ⟨db, fun _ => none, []⟩

def setTurn (w : ReplyWorld) (job : JobId) (t : Option Turn) : ReplyWorld :=
  { w with turns := Function.update w.turns job t }

@[simp] theorem setTurn_db (w : ReplyWorld) (job : JobId) (t : Option Turn) :
    (w.setTurn job t).db = w.db := rfl
@[simp] theorem setTurn_same (w : ReplyWorld) (job : JobId) (t : Option Turn) :
    (w.setTurn job t).turns job = t := by
  simp [setTurn]
theorem setTurn_other (w : ReplyWorld) {job k : JobId} (t : Option Turn) (h : k ≠ job) :
    (w.setTurn job t).turns k = w.turns k := by
  simp [setTurn, h]

/-- A step of the turn of the job, if there is one. -/
def inTurn (w : ReplyWorld) (job : JobId) (f : Turn → ReplyWorld) : ReplyWorld :=
  ((w.turns job).map f).getD w

def startTurn (cfg : Config) (u : UserId) (w : ReplyWorld) (job : JobId) (worker : WorkerId) :
    ReplyWorld :=
  match w.db.laneRow u .chat job, Db.markRunning cfg w.db job worker with
  | some _, (db, true) => { w with db := db }.setTurn job (some ⟨worker, none, none, .unread⟩)
  | _, _ => w

def loadCursor (u : UserId) (w : ReplyWorld) (job : JobId) (t : Turn) : ReplyWorld :=
  if t.sinceSeq.isNone then
    w.setTurn job (some { t with sinceSeq := some (w.db.runtimeDoc u).replyCursorSeq })
  else w

/-- `get_input_generation` answers only the owner of a live claim. -/
def observeGeneration (w : ReplyWorld) (job : JobId) (t : Turn) : ReplyWorld :=
  match w.db.jobs.get? job with
  | some j =>
    if t.sinceSeq.isSome && t.observedGeneration.isNone && Db.ownedBy w.db.clock t.worker j then
      w.setTurn job (some { t with observedGeneration := some j.inputGeneration })
    else w
  | none => w

def pinInput (u : UserId) (w : ReplyWorld) (job : JobId) (t : Turn) : ReplyWorld :=
  match t.sinceSeq, t.observedGeneration, t.input with
  | some since, some _, .unread =>
    match w.db.oldestInputAfter u since with
    | some m => w.setTurn job (some { t with input := .pinned m.seq m.msgId })
    | none => w.setTurn job (some { t with input := .nothing })
  | _, _, _ => w

/-- Whether or not `finish_chat_job` still finds its claim, the turn is over. -/
def finishEmptyTurn (cfg : Config) (w : ReplyWorld) (job : JobId) (t : Turn) : ReplyWorld :=
  match t.input, t.observedGeneration with
  | .nothing, some observed =>
    { w with db := (Db.finishChatJob cfg w.db job t.worker observed false).1 }.setTurn job none
  | _, _ => w

def publishReply (u : UserId) (w : ReplyWorld) (job : JobId) (effectId : String) (p : Payload)
    (t : Turn) : ReplyWorld :=
  if t.repliesWith p then
    let generation := ((w.db.runtime u).map (·.generation)).getD 0
    { w with db := (w.db.effectEnqueue ⟨effectId, u, some job, .replyFinalFencedV1, generation,
                 some p, none⟩
      none).1 }
  else w

/-- The job for the messages behind a published reply. -/
def orderedFollowup (u : UserId) : Db.Enqueue := ⟨u, .chat, some "ordered_followup", none, "", none,
    none, none⟩

/-- The job is completed and the cursor committed; what is behind the pinned message gets a job. -/
def followupTurn (cfg : Config) (u : UserId) (w : ReplyWorld) (job : JobId) (t : Turn) :
    ReplyWorld :=
  match t.sinceSeq, t.input with
  | some since, .pinned seq _ =>
    if (w.db.jobs.get? job).any (fun j => j.status == .completed) &&
        decide (seq ≤ (w.db.runtimeDoc u).replyCursorSeq) then
      if w.db.inputBeyond u (max since seq) then
        { w with db := (Db.enqueueJob cfg w.db (orderedFollowup u)).1 }.setTurn job none
      else w.setTurn job none
    else w
  | _, _ => w

def step (cfg : Config) (u : UserId) (w : ReplyWorld) : ReplyLabel → ReplyWorld
  | .tick elapsed => { w with db := { w.db with clock := w.db.clock + elapsed } }
  | .send c ownerDead =>
    if c.plainInput u then
      { w with db := ((Db.chatAppendAndEnqueue cfg ownerDead w.db c).map (·.1)).getD w.db }
    else w
  | .claim worker job => { w with db := Db.claimHead cfg w.db worker job }
  | .start job worker => startTurn cfg u w job worker
  | .renew job ttl => w.inTurn job fun t => { w with db := (w.db.renewJobLease job t.worker ttl).1 }
  | .load job => w.inTurn job (loadCursor u w job)
  | .observe job => w.inTurn job (observeGeneration w job)
  | .pin job => w.inTurn job (pinInput u w job)
  | .finishEmpty job => w.inTurn job (finishEmptyTurn cfg w job)
  | .publish job effectId p => w.inTurn job (publishReply u w job effectId p)
  | .apply effectId d =>
    if (w.db.effects.find? effectId).any (fun e => e.userId == u) then
      { w with db := (Db.applyEffect cfg w.db u effectId d).db }
    else w
  | .followup job => w.inTurn job (followupTurn cfg u w job)
  | .fail job error =>
    w.inTurn job fun t => { w with db := (w.db.markFailed job t.worker error).1 }.setTurn job none
  | .crash job => w.setTurn job none
  | .recoverKilled job worker reason =>
    if (w.db.laneRow u .chat job).isSome then
      { w with db := Db.recoverKilledJob cfg w.db job worker reason } else w
  | .reap now => { w with db := Db.reapStuckJobRows cfg w.db now }
  | .select => { w with candidates := (w.db.reconcileUnenqueued u).toList ++ w.candidates }
  | .reconcile c =>
    if c ∈ w.candidates then
      { w with db := (Db.enqueueJob cfg w.db (c.enqueue u)).1, candidates := w.candidates.erase c }
    else w

/-! ## What every run keeps sight of -/

/-- A worker is in a turn whose reply is published, and will still look for later input. -/
def FollowupPending (u : UserId) (w : ReplyWorld) : Prop :=
  ∃ k t j, w.turns k = some t ∧ t.input.seq?.isSome = true ∧ w.db.laneRow u .chat k = some j ∧
    j.status = .completed

/-- The user was, or will be, told that a turn failed which should have answered `m`. It is the turn
of the newest chat job, so `m` was admitted into that job or an older one. Maintenance prompts do
not count as genuine input, so a failure names no frontier for them. -/
def FailureCovers (u : UserId) (db : Db) (m : ChatRow) : Prop :=
  ∃ f ∈ db.failures.rows, f.userId = u ∧
    (∃ j, db.laneRow u .chat f.jobId = some j ∧ j.status.active = false) ∧
    (∀ k j, db.laneRow u .chat k = some j → k ≤ f.jobId) ∧
    (m.doc.source ≠ "resident_maintenance" → ∃ s, f.replyFrontierSeq = some s ∧ m.seq ≤ s)

/-- Somebody will still look after the message `m`. -/
def Tended (u : UserId) (w : ReplyWorld) (m : ChatRow) : Prop :=
  w.db.hasActive u .chat = true ∨ w.FollowupPending u ∨ (w.db.reconcileUnenqueued u).isSome = true ∨
    FailureCovers u w.db m

/-- The sequence number behind which a step leaves the messages to the net: the worker dies in a
turn whose reply is published, or a reply is applied whose worker is gone. -/
def leavesToNet (u : UserId) (w : ReplyWorld) : ReplyLabel → Option Nat
  | .crash job | .fail job _ =>
    (w.turns job).bind fun t => if (w.db.laneRow u .chat job).any
      (fun j => j.status == .completed) then
      t.input.seq? else none
  | .apply effectId _ =>
    (w.db.effects.find? effectId).bind fun e =>
      if e.jobId.any (fun job => (w.turns job).isNone && (w.db.laneRow u .chat job).any fun j =>
        j.status == .running) then e.payload.bind fun p => p.exactNat? "reply_through_seq" else none
  | _ => none

/-- The net takes the messages behind `seq`: there are none, or no catch-up for the newest one was
ever enqueued. -/
def netHolds (u : UserId) (db : Db) (seq : Nat) : Bool :=
  (db.latestUnanswered u).all fun m => decide (m.seq ≤ seq) ||
    !db.hasMarker u "reconcile" m.msgId && !db.hasMarker u "mutation_recovery" m.msgId

/-- A step leaves messages to the net only where the net takes them. -/
def netHoldsAt (u : UserId) (w : ReplyWorld) (l : ReplyLabel) : Prop :=
  (leavesToNet u w l).all (netHolds u w.db) = true

instance (u : UserId) (w : ReplyWorld) (l : ReplyLabel) : Decidable (netHoldsAt u w l) :=
  inferInstanceAs (Decidable (_ = true))

/-- A user on `v2` without chat jobs, messages, effects or failures. -/
structure Fresh (u : UserId) (g : Nat) (db : Db) : Prop where
  runtime : db.runtime u = some ⟨.v2, g⟩
  mode : (db.runtimeDoc u).hostedRuntimeMode = "db_action_v2"
  jobs : ∀ k, db.laneRow u .chat k = none
  chat : ∀ m ∈ db.chat.rows, m.inputOf u = false
  effects : ∀ e ∈ db.effects.rows, e.userId ≠ u
  failures : ∀ f ∈ db.failures.rows, ∃ j, db.jobs.get? f.jobId = some j

end ReplyWorld

end Feedling
