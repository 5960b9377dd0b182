import Mathlib.Data.List.TakeWhile
import Feedling.KeyedTable

/-!
# The durable state of the hosted runtime

The tables the queue, the effect outbox, the chat log and the failure reviews share, as one
record. A transaction is a function on this record; `clock` is the database clock that
`now()` and `clock_timestamp()` read, in microseconds.

Identifiers are text as in the source. `agent_jobs.id`, `chat_messages.seq` and
`v2_effect_outbox.enqueue_seq` come from database sequences, so those three tables are serial.
-/

namespace Feedling

open KeyedTable

abbrev UserId := String
abbrev JobId := Nat
abbrev WorkerId := String
abbrev Time := Nat

/-! ## Jobs -/

inductive Lane where
  | chat | manualWake | heartbeat | scheduled | capture | maintenance | dream | profile
  | screenWatch | trajectoryReview
  deriving DecidableEq, Repr

/-- The lane a text names, if it is one of `LANES`. -/
def Lane.ofName? : String → Option Lane
  | "chat" => some .chat
  | "manual_wake" => some .manualWake
  | "heartbeat" => some .heartbeat
  | "scheduled" => some .scheduled
  | "capture" => some .capture
  | "maintenance" => some .maintenance
  | "dream" => some .dream
  | "profile" => some .profile
  | "screen_watch" => some .screenWatch
  | "trajectory_review" => some .trajectoryReview
  | _ => none

/-- `LANE_PRIORITY`. -/
def Lane.priority : Lane → Nat
  | .chat => 100
  | .manualWake => 100
  | .heartbeat => 50
  | .scheduled => 50
  | .screenWatch => 50
  | .capture => 10
  | .maintenance => 10
  | .dream => 10
  | .profile => 10
  | .trajectoryReview => 1

inductive JobStatus where
  | pending | claimed | running | completed | failed | expired | superseded
  deriving DecidableEq, Repr

namespace JobStatus

/-- `status IN ('pending','claimed','running')`: the row holds the single-flight key. -/
def active : JobStatus → Bool
  | .pending | .claimed | .running => true
  | _ => false

/-- `status IN ('claimed','running')`: a worker owns the row. -/
def held : JobStatus → Bool
  | .claimed | .running => true
  | _ => false

def terminal : JobStatus → Bool
  | .completed | .failed | .expired | .superseded => true
  | _ => false

@[simp] theorem terminal_eq_not_active (s : JobStatus) : s.terminal = !s.active := by
  cases s <;> rfl

theorem active_of_held {s : JobStatus} (h : s.held = true) : s.active = true := by
  cases s <;> simp_all [held, active]

theorem active_iff {s : JobStatus} : s.active = true ↔ s = .pending ∨ s.held = true := by
  cases s <;> simp [held, active]

end JobStatus

/-- A row of `agent_jobs`. -/
structure Job where
  id : JobId
  userId : UserId
  lane : Lane
  status : JobStatus
  reason : Option String
  traceId : Option String
  priority : Nat
  attemptCount : Nat
  lastError : Option String
  claimedBy : Option WorkerId
  createdAt : Time
  claimedAt : Option Time
  startedAt : Option Time
  finishedAt : Option Time
  deadlineAt : Option Time
  leaseExpiresAt : Option Time
  queueDeadlineAt : Option Time
  availableAt : Time
  inputGeneration : Nat
  expectedRuntimeGeneration : Option Nat
  deriving DecidableEq, Repr

/-- The row an `INSERT INTO agent_jobs` writes: pending, with the column defaults. -/
def Job.fresh (now : Time) (userId : UserId) (lane : Lane) (reason traceId : Option String)
    (priority : Nat) (queueDeadlineAt : Option Time) (expectedRuntimeGeneration : Option Nat)
    (id : JobId) : Job where
  id := id
  userId := userId
  lane := lane
  status := .pending
  reason := reason
  traceId := traceId
  priority := priority
  attemptCount := 0
  lastError := none
  claimedBy := none
  createdAt := now
  claimedAt := none
  startedAt := none
  finishedAt := none
  deadlineAt := none
  leaseExpiresAt := none
  queueDeadlineAt := queueDeadlineAt
  availableAt := now
  inputGeneration := 0
  expectedRuntimeGeneration := expectedRuntimeGeneration

/-- `str(text)[:n]`. -/
def truncate (n : Nat) (text : String) : String := String.ofList (text.toList.take n)

/-- `c.isspace()`, which holds of these characters of Unicode. -/
def isSpace (c : Char) : Bool :=
  decide (9 ≤ c.toNat ∧ c.toNat ≤ 13 ∨ 28 ≤ c.toNat ∧ c.toNat ≤ 32 ∨
    0x2000 ≤ c.toNat ∧ c.toNat ≤ 0x200a ∨
    c.toNat ∈ [0x85, 0xa0, 0x1680, 0x2028, 0x2029, 0x202f, 0x205f, 0x3000])

/-- The characters of the categories `Cf` and `Co`, by their first and last ones. -/
def formatRanges : List (Nat × Nat) :=
  [(0xad, 0xad), (0x600, 0x605), (0x61c, 0x61c), (0x6dd, 0x6dd), (0x70f, 0x70f), (0x890, 0x891),
    (0x8e2, 0x8e2), (0x180e, 0x180e), (0x200b, 0x200f), (0x202a, 0x202e), (0x2060, 0x2064),
    (0x2066, 0x206f), (0xe000, 0xf8ff), (0xfeff, 0xfeff), (0xfff9, 0xfffb), (0x110bd, 0x110bd),
    (0x110cd, 0x110cd), (0x13430, 0x1343f), (0x1bca0, 0x1bca3), (0x1d173, 0x1d17a),
    (0xe0001, 0xe0001), (0xe0020, 0xe007f), (0xf0000, 0xffffd), (0x100000, 0x10fffd)]

/-- `c.isprintable()`; a code point without a character, which depends on the version of Unicode,
passes. -/
def isPrintable (c : Char) : Bool :=
  c == ' ' || !(isSpace c || decide (c.toNat < 32 ∨ 127 ≤ c.toNat ∧ c.toNat < 160) ||
    formatRanges.any fun range => decide (range.1 ≤ c.toNat ∧ c.toNat ≤ range.2))

/-- `str(text).strip()`. -/
def strip (text : String) : String :=
  String.ofList ((text.toList.dropWhile isSpace).reverse.dropWhile isSpace).reverse

theorem strip_ne_empty {text : String} {c : Char} {rest : List Char}
    (htext : text.toList = c :: rest) (hc : isSpace c = false) : strip text ≠ "" := by
  intro hempty
  have hchars := congrArg String.toList hempty
  rw [strip, String.toList_ofList, htext, List.dropWhile_cons_of_neg (by simp [hc])] at hchars
  have hnil := List.dropWhile_eq_nil_iff.mp (List.reverse_eq_nil_iff.mp hchars)
  rw [hnil c (by simp)] at hc
  cases hc

/-- The characters of `c.lower()`. Two characters outside ASCII have an ASCII letter there; the
others are left as they are, since the result is only compared with ASCII texts. -/
def lowerChar (c : Char) : List Char :=
  if c = '\u0130' then ['i', '\u0307'] else if c = '\u212a' then ['k'] else [c.toLower]

/-- `text.lower()`. -/
def lower (text : String) : String := String.ofList (text.toList.flatMap lowerChar)

/-- `text.startswith(front)`. -/
def startsWith (text front : String) : Bool := front.toList.isPrefixOf text.toList

/-- A limit that exists and has passed: `limit <= clock`, which is not true of `NULL`. -/
def passed (now : Time) (limit : Option Time) : Bool := limit.any fun t => decide (t ≤ now)

/-- `_memory_is_archived`, for the way in which the time is stored. -/
def memoryIsArchived {τ : Type} (blank : τ → Bool) (isArchived : Bool) (archivedAt : τ)
    (archiveReason : String) : Bool :=
  isArchived || !blank archivedAt || strip archiveReason != ""

/-! ## Runtime ownership -/

inductive HostedState where
  | resident | draining | v2
  deriving DecidableEq, Repr

/-- A row of `v2_runtime_state`; a row that is missing is inserted as `(resident, 1)`. -/
structure RuntimeState where
  hostedState : HostedState
  generation : Nat
  deriving DecidableEq, Repr

def RuntimeState.default : RuntimeState := ⟨.resident, 1⟩

/-- The keys of the user's `model_api_runtime` document that the queue reads. -/
structure RuntimeDoc where
  hostedRuntimeMode : String
  replyCursorSeq : Nat
  deriving DecidableEq, Repr

/-! ## Chat log -/

/-- The side of the conversation a text stands on. -/
inductive Speaker where
  | user | assistant
  deriving DecidableEq, Repr

/-- `_ASSISTANT_ROLES`. -/
def assistantRoles : List String := ["openclaw", "assistant", "agent"]

/-- `_norm_role`. -/
def normRole (role : String) : Speaker := if role ∈ assistantRoles then .assistant else .user

inductive Role where
  | user | human | openclaw | assistant | agent | model | other
  deriving DecidableEq, Repr

/-- `doc->>'role' IN ('user','human')`. -/
def Role.isUser : Role → Bool
  | .user | .human => true
  | _ => false

/-- `doc->>'role' IN ('openclaw','assistant','agent','model')`. -/
def Role.isAssistant : Role → Bool
  | .openclaw | .assistant | .agent | .model => true
  | _ => false

/-- The document of a chat message: the keys the runtime reads or writes. `body` stands for the
immutable envelope fields; a missing text key is the empty text, as `COALESCE` reads it. -/
structure ChatDoc where
  role : Role
  source : String
  body : String
  clientMsgId : String
  replyStatus : String
  replyMessageId : String
  replyErrorClass : String
  replyToMessageId : String
  turnFailureErrorClass : String
  wakeKind : String
  deriving DecidableEq, Repr

/-- A row of `chat_messages`. -/
structure ChatRow where
  seq : Nat
  userId : UserId
  msgId : String
  ts : Time
  doc : ChatDoc
  deriving DecidableEq, Repr

@[reducible] def ChatRow.key (m : ChatRow) : UserId × String := (m.userId, m.msgId)

theorem ChatRow.seq_mk (u : UserId) (msgId : String) (ts : Time) (doc : ChatDoc) (n : Nat) :
    (ChatRow.mk n u msgId ts doc).seq = n := rfl

theorem ChatRow.key_mk (u : UserId) (msgId : String) (ts : Time) (doc : ChatDoc) (n : Nat) :
    (ChatRow.mk n u msgId ts doc).key = (u, msgId) := rfl

/-- `doc->>'role' IN ('user','human')` for a row of the user. -/
def ChatRow.inputOf (u : UserId) (m : ChatRow) : Bool := m.userId == u && m.doc.role.isUser

/-- `reply_status='replied' OR reply_message_id<>''`. -/
def ChatRow.replied (m : ChatRow) : Bool :=
  m.doc.replyStatus == "replied" || m.doc.replyMessageId != ""

/-! ## Effect outbox -/

inductive EffectType where
  | reply | replyFinalFencedV1 | replyTerminalFencedV1 | replyIntermediateFencedV1
  | memory | identity | schedule
  | memoryEncryptedV1 | identityEncryptedV1 | scheduleEncryptedV1
  | workspaceEncryptedV1 | workspaceBatchEncryptedV1
  | other (name : String)
  deriving DecidableEq, Repr

/-- `DURABLE_TOOL_EFFECT_TYPES`. -/
def EffectType.durableTool : EffectType → Bool
  | .memoryEncryptedV1 | .identityEncryptedV1 | .scheduleEncryptedV1
  | .workspaceEncryptedV1 | .workspaceBatchEncryptedV1 => true
  | _ => false

/-- The three reply types migration 0041 stores as `pending_fenced_v1`. -/
def EffectType.fencedReply : EffectType → Bool
  | .replyFinalFencedV1 | .replyTerminalFencedV1 | .replyIntermediateFencedV1 => true
  | _ => false

/-- `_REPLY_EFFECT_TYPES`. -/
def EffectType.isReply : EffectType → Bool
  | .reply => true
  | t => t.fencedReply

inductive EffectStatus where
  | pending | pendingFencedV1 | applied | appliedWithResults | discarded | needsReconciliation
  deriving DecidableEq, Repr

/-- `_PENDING_EFFECT_STATUSES`. -/
def EffectStatus.isOpen : EffectStatus → Bool
  | .pending | .pendingFencedV1 => true
  | _ => false

/-- A JSON value inside a payload object; containers below that level are `other`. -/
inductive Scalar where
  | null | bool (b : Bool) | int (n : Int) | str (s : String) | other
  deriving DecidableEq, Repr

inductive Field where
  | scalar (v : Scalar)
  | object (entries : List (String × Scalar))
  deriving DecidableEq, Repr

/-- The reply followups of a payload: the key is missing, malformed, or a list of envelopes. -/
inductive Followups where
  | absent
  | invalid
  | valid (envelopes : List (List (String × Scalar)))
  deriving DecidableEq, Repr

structure Payload where
  fields : List (String × Field)
  followups : Followups
  deriving DecidableEq, Repr

def Payload.get? (p : Payload) (key : String) : Option Field :=
  (p.fields.find? fun e => e.1 == key).map (·.2)

/-- A row of `v2_effect_outbox`. A payload that is no JSON object is `none`; `results` is the
item list of a stored workspace batch result, `true` for an applied item. -/
structure Effect where
  enqueueSeq : Nat
  effectId : String
  userId : UserId
  jobId : Option JobId
  effectType : EffectType
  expectedGeneration : Nat
  payload : Option Payload
  status : EffectStatus
  attemptCount : Nat
  nextAttemptAt : Time
  lastError : String
  inputFrontierSeq : Option Nat
  results : Option (List Bool)
  deriving DecidableEq, Repr

/-! ## Side tables -/

inductive Outcome where
  | known | unknown
  deriving DecidableEq, Repr

/-- A row of `v2_mcp_mutation_attempts`. -/
structure McpAttempt where
  jobId : JobId
  callKey : String
  userId : UserId
  inputFrontierSeq : Nat
  outcome : Option Outcome
  deriving DecidableEq, Repr

def McpAttempt.key (a : McpAttempt) : JobId × String := (a.jobId, a.callKey)

/-- A row of `v2_terminal_failure_outbox`. -/
structure TerminalFailure where
  jobId : JobId
  userId : UserId
  replyFrontierSeq : Option Nat
  replyParentMessageId : Option String
  deriving DecidableEq, Repr

inductive ReviewStatus where
  | pending | running | completed | failed
  deriving DecidableEq, Repr

/-- `status IN ('pending','running')`: the review counts against the fleet ceiling. -/
def ReviewStatus.isOpen : ReviewStatus → Bool
  | .pending | .running => true
  | _ => false

/-- A row of `v2_trajectory_reviews`. -/
structure Review where
  sourceJobId : JobId
  userId : UserId
  status : ReviewStatus
  attemptCount : Nat
  claimedByJobId : Option JobId
  reviewEnvelope : Option String
  lastError : Option String
  createdAt : Time
  deriving DecidableEq, Repr

/-- A row of `v2_trajectory_streams`. -/
structure Stream where
  jobId : JobId
  userId : UserId
  nextEventIndex : Nat
  deriving DecidableEq, Repr

/-- A row of `v2_trajectory_events`. -/
structure TrajectoryEvent where
  jobId : JobId
  userId : UserId
  eventIndex : Nat
  eventKind : String
  idempotencyKey : String
  payloadEnvelope : String
  payloadBytes : Nat
  truncated : Bool
  deriving DecidableEq, Repr

def TrajectoryEvent.key (e : TrajectoryEvent) : JobId × Nat := (e.jobId, e.eventIndex)

/-! ## The database -/

/-- The limits read from the environment. `_positive_float_env` and `_positive_int_env` refuse to
start on a value that is not positive; a collision window that is no number is `none`. -/
structure Config where
  pendingChatTtl : Time
  runningTtl : Time
  scheduledRequeueMaxAttempts : Nat
  generalRequeueMaxAttempts : Nat
  collisionWindow : Option Time
  turnFailureSupersede : Bool
  pendingChatTtl_pos : 0 < pendingChatTtl
  runningTtl_pos : 0 < runningTtl
  scheduledRequeueMaxAttempts_pos : 0 < scheduledRequeueMaxAttempts
  generalRequeueMaxAttempts_pos : 0 < generalRequeueMaxAttempts

/-- The defaults: 120 s, 300 s, 3, 3, 90 s and on. -/
def Config.default : Config :=
  ⟨120000000, 300000000, 3, 3, some 90000000, true, by decide, by decide, by decide, by decide⟩

/-- The two review settings, parsed at each decision: the switch and the ceiling, `none` when
the text is no integer. -/
structure ReviewEnv where
  switchedOn : Bool
  maxActive : Option Int
  deriving DecidableEq, Repr

structure Db where
  clock : Time
  users : List UserId
  runtime : UserId → Option RuntimeState
  runtimeDoc : UserId → RuntimeDoc
  voiceStatus : UserId → String → String
  jobs : Serial Job.id
  chat : Indexed ChatRow.seq ChatRow.key
  effects : Indexed Effect.enqueueSeq Effect.effectId
  attempts : Table McpAttempt.key
  failures : Table TerminalFailure.jobId
  reviews : Table Review.sourceJobId
  streams : Table Stream.jobId
  events : Table TrajectoryEvent.key
  reviewEnv : ReviewEnv

/-- An empty database with the given users and no runtime row. -/
def Db.init (users : List UserId) (env : ReviewEnv) : Db where
  clock := 0
  users := users
  runtime := fun _ => none
  runtimeDoc := fun _ => ⟨"", 0⟩
  voiceStatus := fun _ _ => ""
  jobs := Serial.empty 1
  chat := Indexed.empty 1
  effects := Indexed.empty 1
  attempts := Table.empty
  failures := Table.empty
  reviews := Table.empty
  streams := Table.empty
  events := Table.empty
  reviewEnv := env

namespace Db

def updateJobs (db : Db) (p : Job → Bool) (f : Job → Job) (hf : ∀ j, (f j).id = j.id) : Db :=
  { db with jobs := db.jobs.modify p f hf }

def insertJob (db : Db) (mk : JobId → Job) (hk : ∀ n, (mk n).id = n) : Db :=
  { db with jobs := db.jobs.insert mk hk }

def updateReviews (db : Db) (p : Review → Bool) (f : Review → Review)
    (hf : ∀ r, (f r).sourceJobId = r.sourceJobId) : Db :=
  { db with reviews := db.reviews.modify p f hf }

/-- The authoritative state of the user is `v2`. -/
def isV2 (db : Db) (u : UserId) : Bool := (db.runtime u).any fun s => s.hostedState == .v2

/-- An active job of the user on the lane, the key of the partial unique index. -/
def hasActive (db : Db) (u : UserId) (lane : Lane) : Bool :=
  db.jobs.rows.any fun j => j.userId == u && j.lane == lane && j.status.active

end Db

/-- Function update, used for the per-user documents. -/
def put {β : Type} (f : UserId → β) (u : UserId) (b : β) : UserId → β :=
  fun v => if v = u then b else f v

@[simp] theorem put_same {β : Type} (f : UserId → β) (u : UserId) (b : β) : put f u b u = b := by
  simp [put]
@[simp] theorem put_other {β : Type} (f : UserId → β) {u v : UserId} (b : β) (h : v ≠ u) :
    put f u b v = f v := by simp [put, h]

end Feedling
