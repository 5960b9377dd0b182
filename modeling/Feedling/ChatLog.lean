import Feedling.JobRecovery

/-!
# The chat log and its admission to the queue

`chat_append_and_enqueue` persists one message and enqueues or coalesces its job in one
transaction. A send on the chat lane first takes the other lanes' jobs of the user away.
-/

namespace Feedling

open KeyedTable

namespace Db

/-- `_chat_insert_on_cursor`: an upsert on `(user_id, msg_id)` that keeps the number of the row. -/
def chatInsert (db : Db) (u : UserId) (msgId : String) (ts : Time) (doc : ChatDoc) : Db × Nat :=
  match db.chat.find? (u, msgId) with
  | some m =>
    let updated :=
      db.chat.modify (fun r => r.key == (u, msgId)) (fun r => { r with ts := ts, doc := doc })
      (fun _ => rfl) fun _ => rfl
    ({ db with chat := updated }, m.seq)
  | none =>
    let inserted :=
      db.chat.insert (u, msgId) (fun n => ⟨n, u, msgId, ts, doc⟩) (fun _ => rfl) fun _ => rfl
    ({ db with chat := inserted }, db.chat.next)

/-- The arguments of `chat_append_and_enqueue`. `fence` is the runtime state and mode the sender
observed; `guard` is the client's message id with the idempotency window. -/
structure ChatSend where
  userId : UserId
  msgId : String
  ts : Time
  doc : ChatDoc
  lane : Lane
  reason : Option String
  traceId : Option String
  expectedGeneration : Option Nat
  fence : Option (HostedState × String)
  guard : Option (String × Time)
  deriving DecidableEq, Repr

/-- The argument checks that raise `ValueError`. -/
def ChatSend.wellFormed (c : ChatSend) : Bool :=
  (c.guard.all fun g => g.1 != "" && decide (0 < g.2) && c.doc.clientMsgId == g.1) &&
    (c.fence.isNone || c.expectedGeneration.isSome)

/-- The control row and mode are still the ones the sender observed. -/
def ChatSend.fenceHolds (db : Db) (c : ChatSend) : Bool :=
  c.fence.all fun f => (db.runtime c.userId).any fun s =>
    s.hostedState == f.1 && some s.generation == c.expectedGeneration &&
      (db.runtimeDoc c.userId).hostedRuntimeMode == f.2

/-- The message a retry of the same logical send recovers. -/
def ChatSend.duplicate (db : Db) (c : ChatSend) : Option ChatRow :=
  c.guard.bind fun g => (db.chat.rows.filter fun m => m.userId == c.userId &&
    m.doc.clientMsgId == g.1 && decide (db.clock ≤ m.ts + g.2)).getLast?

/-- `chat_append_and_enqueue`: the message number and the job id, or `none` when it raises. -/
def chatAppendAndEnqueue (cfg : Config) (ownerDead : JobId → Bool) (db : Db) (c : ChatSend) :
    Option (Db × Nat × Option JobId) :=
  if c.wellFormed && c.fenceHolds db then
    match c.duplicate db with
    | some m => some (db, m.seq, none)
    | none =>
      let preempted := if c.lane == .chat then preemptActiveForChat ownerDead db c.userId else db
      let (stored, seq) := preempted.chatInsert c.userId c.msgId c.ts c.doc
      let e : Enqueue :=
        ⟨c.userId, c.lane, c.reason, c.traceId, "", none, none, c.expectedGeneration⟩
      let (queued, job, _) := coalesceOrInsert cfg stored e c.traceId c.lane.priority
      some (queued, seq, some job)
  else none

end Db

end Feedling
