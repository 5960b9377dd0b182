import Feedling.ChatLog

/-!
# The transactional reply sink

`_sink_reply_in_transaction` turns one reply payload into chat messages and appends them on the
applier's connection. `chat_append_effect_with_cursor` appends one message and, for the message
that carries the consumed frontier, marks the answered inputs and advances `v2_reply_cursor_seq`.
An append that raises is `none`: the caller's savepoint undoes what was written before it.
-/

namespace Feedling

open KeyedTable

/-! ## Reading a payload -/

/-- `str(value or "")`; the text of a container is not looked at. -/
def Scalar.text : Scalar → String
  | .null | .bool false => ""
  | .bool true => "True"
  | .int n => if n = 0 then "" else toString n
  | .str s => s
  | .other => "object"

def Field.text : Field → String
  | .scalar v => v.text
  | .object [] => ""
  | .object _ => "object"

/-- `_exact_nonnegative_json_int`. -/
def Scalar.exactNat? : Scalar → Option Nat
  | .int n => if 0 ≤ n then some n.toNat else none
  | _ => none

def valueAt? (entries : List (String × Scalar)) (key : String) : Option Scalar :=
  (entries.find? fun e => e.1 == key).map (·.2)

namespace Payload

def text (p : Payload) (key : String) : String := ((p.get? key).map Field.text).getD ""

def exactNat? (p : Payload) (key : String) : Option Nat :=
  match p.get? key with
  | some (.scalar v) => v.exactNat?
  | _ => none

/-- The value of the key if it is an object. -/
def object? (p : Payload) (key : String) : Option (List (String × Scalar)) :=
  match p.get? key with
  | some (.object entries) => some entries
  | _ => none

/-- `_reply_parent_message_id`; `none` when it raises. -/
def replyParentMessageId (p : Payload) : Option String :=
  match p.get? "reply_to_message_id" with
  | none | some (.scalar .null) => some ""
  | some (.scalar (.str s)) =>
    if strip s == "" || decide (160 < (strip s).length) ||
      (strip s).toList.any fun c => !isPrintable c
    then none else some (strip s)
  | some _ => none

end Payload

/-- A message the sink is about to append. Only the last one of a reply carries `through`. -/
structure ReplyMessage where
  msgId : String
  ts : Time
  doc : ChatDoc
  voiceCallId : String
  through : Option Nat
  deriving DecidableEq, Repr

/-- The id of the envelope, or a generated one. -/
def envelopeId (envelope : List (String × Scalar)) (uuid : String) : String :=
  match valueAt? envelope "id" with
  | some (.str s) => if s == "" then uuid else s
  | _ => uuid

def envelopeBody (envelope : List (String × Scalar)) : String :=
  ((valueAt? envelope "body_ct").map Scalar.text).getD ""

/-- `_build_chat_message` for one part of a reply. -/
def replyPart (envelope : List (String × Scalar)) (uuid : String) (ts : Time)
    (parent failureClass wakeKind voiceCallId : String) (through : Option Nat) : ReplyMessage :=
  { msgId := envelopeId envelope uuid
    ts := ts
    doc :=
      { role := .openclaw, source := "model_api", body := envelopeBody envelope, clientMsgId := ""
        replyStatus := "", replyMessageId := "", replyErrorClass := "", replyToMessageId := parent
        turnFailureErrorClass := failureClass, wakeKind := wakeKind }
    voiceCallId := voiceCallId
    through := through }

/-- The followups of a reply: bare envelopes, one microsecond apart, the last one with the frontier.
`uuid i` is the identifier generated for part `i` if its envelope has none. -/
def followupParts (uuid : Nat → String) (now : Time) (parent voiceCallId : String)
    (through : Option Nat) : Nat → List (List (String × Scalar)) → List ReplyMessage
  | _, [] => []
  | i, [e] => [replyPart e (uuid i) (now + i) parent "" "" voiceCallId through]
  | i, e :: e' :: es =>
    replyPart e (uuid i) (now + i) parent "" "" voiceCallId none ::
      followupParts uuid now parent voiceCallId through (i + 1) (e' :: es)

/-- `_reply_payload_sequence` and the messages built from it; `none` when it raises. -/
def replyMessages (p : Payload) (now : Time) (uuid : Nat → String) : Option (List ReplyMessage) :=
  match p.object? "envelope", p.replyParentMessageId with
  | some envelope, some parent =>
    let voice := strip (p.text "voice_call_id")
    let through := p.exactNat? "reply_through_seq"
    let primary :=
      replyPart envelope (uuid 0) now parent (strip (p.text "turn_failure_error_class"))
      (p.text "wake_kind") voice
    match p.followups with
    | .absent => some [primary through]
    | .valid (e :: es) =>
      some (primary none :: followupParts uuid now parent voice through 1 (e :: es))
    | .valid [] | .invalid => none
  | _, _ => none

/-! ## Appending one message -/

/-- A call in one of these states takes no more replies. -/
def voiceCallEnded (status : String) : Bool :=
  status == "finalizing" || status == "cancelled" || status == "finalized"

/-- `reply_status <> 'replied' AND reply_message_id = ''`, on an input of the user in a window. -/
def ChatRow.openBetween (u : UserId) (after through : Nat) (m : ChatRow) : Bool :=
  m.inputOf u && decide (after < m.seq) && decide (m.seq ≤ through) && !m.replied

/-- The failure text of the message, if it carries one. -/
def ReplyMessage.failure (m : ReplyMessage) : String := strip m.doc.turnFailureErrorClass

/-- The marks of an input that the message answers. -/
def ReplyMessage.link (m : ReplyMessage) (r : ChatRow) : ChatRow :=
  { r with doc :=
    { r.doc with
      replyStatus := "replied", replyMessageId := m.msgId
      replyErrorClass := if m.failure == "" then r.doc.replyErrorClass else m.failure } }

/-- The marks of a parent that the message takes over from a failure. -/
def ReplyMessage.relink (m : ReplyMessage) (r : ChatRow) : ChatRow :=
  { r with doc := { r.doc with replyErrorClass := "", replyStatus := "replied",
                               replyMessageId := m.msgId } }

def ChatRow.withoutFailure (r : ChatRow) : ChatRow :=
  { r with doc := { r.doc with turnFailureErrorClass := "" } }

variable (r : ChatRow) (m : ReplyMessage)

@[simp] theorem ReplyMessage.link_seq (r : ChatRow) : (m.link r).seq = r.seq := rfl
@[simp] theorem ReplyMessage.link_key (r : ChatRow) : (m.link r).key = r.key := rfl
@[simp] theorem ReplyMessage.relink_seq (r : ChatRow) : (m.relink r).seq = r.seq := rfl
@[simp] theorem ReplyMessage.relink_key (r : ChatRow) : (m.relink r).key = r.key := rfl
@[simp] theorem ChatRow.withoutFailure_seq : r.withoutFailure.seq = r.seq := rfl
@[simp] theorem ChatRow.withoutFailure_key : r.withoutFailure.key = r.key := rfl

namespace Db

/-- `_advance_blob_int_on_cursor` on `v2_reply_cursor_seq`. -/
def advanceCursor (db : Db) (u : UserId) (seq : Nat) : Db :=
  let doc := db.runtimeDoc u
  { db with runtimeDoc := put db.runtimeDoc u
              { doc with replyCursorSeq := max doc.replyCursorSeq seq } }

/-- Some input of the window was answered by someone else. -/
def alreadyAnswered (db : Db) (u : UserId) (after through : Nat) : Bool :=
  db.chat.rows.any fun m => m.inputOf u && decide (after < m.seq) && decide (m.seq ≤ through) &&
    m.replied

/-- The columns a replayed reply must find unchanged. -/
def sameReply (d d' : ChatDoc) : Bool :=
  d.role == d'.role && d.source == d'.source && d.body == d'.body &&
    d.turnFailureErrorClass == d'.turnFailureErrorClass

/-- The input that the reply names as its parent, if a failure of the same turn stamped it. -/
def stampedParent (db : Db) (u : UserId) (parent : String) : Option ChatRow :=
  (db.chat.find? (u, parent)).filter fun m => m.doc.role.isUser && m.doc.replyErrorClass != ""

/-- The stamped parent is linked to the real reply and loses the stamp. -/
def relinkParent (db : Db) (u : UserId) (m : ReplyMessage) : Db :=
  let chat := db.chat.modify (fun r => r.key == (u, m.doc.replyToMessageId)) m.relink m.relink_seq
    m.relink_key
  { db with chat := chat }

/-- The message that carried the failure of the parent loses it. -/
def stripCarrier (db : Db) (u : UserId) (carrier parent : String) : Db :=
  let chat := db.chat.modify (fun r => strip carrier != "" && r.key == (u, strip carrier) &&
      r.doc.replyToMessageId == parent && r.doc.turnFailureErrorClass != "")
    ChatRow.withoutFailure ChatRow.withoutFailure_seq ChatRow.withoutFailure_key
  { db with chat := chat }

/-- A success after a failure of the same turn: the final result counts. -/
def supersedeFailure (db : Db) (u : UserId) (m : ReplyMessage) : Db :=
  match db.stampedParent u m.doc.replyToMessageId with
  | none => db
  | some stamped =>
    (db.relinkParent u m).stripCarrier u stamped.doc.replyMessageId m.doc.replyToMessageId

/-- Every open input of the window is linked to the reply. -/
def markReplied (db : Db) (u : UserId) (after through : Nat) (m : ReplyMessage) : Db :=
  let chat := db.chat.modify (ChatRow.openBetween u after through) m.link m.link_seq m.link_key
  { db with chat := chat }

/-- The message row: a new one, or the one an earlier delivery of the same reply left. -/
def placeReply (cfg : Config) (db : Db) (u : UserId) (m : ReplyMessage) : Option Db :=
  match db.chat.find? (u, m.msgId) with
  | some r => if sameReply r.doc m.doc then some db else none
  | none =>
    let chat := db.chat.insert (u, m.msgId) (fun n => ⟨n, u, m.msgId, m.ts,
        m.doc⟩) (fun _ => rfl) fun _ => rfl
    let inserted := { db with chat := chat }
    some (if m.failure == "" && cfg.turnFailureSupersede &&
        strip m.doc.replyToMessageId != "" then inserted.supersedeFailure u m else inserted)

/-- `chat_append_effect_with_cursor` on the applier's connection. -/
def chatAppendEffectWithCursor (cfg : Config) (db : Db) (u : UserId) (m : ReplyMessage) :
    Option Db :=
  if m.voiceCallId != "" && voiceCallEnded (db.voiceStatus u m.voiceCallId) then none
  else
    let previous := (db.runtimeDoc u).replyCursorSeq
    match m.through with
    | none => placeReply cfg db u m
    | some through =>
      if db.alreadyAnswered u previous through then none
      else (placeReply cfg db u m).map fun db =>
        (db.markReplied u previous through m).advanceCursor u through

/-- `_sink_reply_in_transaction`. -/
def sinkReplyInTransaction (cfg : Config) (db : Db) (u : UserId) (p : Payload)
    (uuid : Nat → String) : Option Db :=
  (replyMessages p db.clock uuid).bind fun ms =>
    ms.foldlM (fun db m => chatAppendEffectWithCursor cfg db u m) db

end Db

end Feedling
