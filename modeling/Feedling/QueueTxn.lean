import Feedling.QueueBlocks
import Feedling.Runs

/-!
# The queue as a transition system

`Txn` lists the transactions of the queue that run as one step; `exec` is what they do. A
transaction that raises, or that finds its guard false, leaves the database as it was.

`claim_next_job` is two steps. `ClaimWorld` therefore carries, next to the database, the claims
that have read their candidate and not yet run their update. Between the two, any other
transaction may commit.
-/

namespace Feedling

open KeyedTable Relation

inductive Txn where
  | tick (elapsed : Time)
  | advanceRuntimeState (u : UserId) (fromState toState : HostedState)
  | enqueueJob (e : Db.Enqueue)
  | enqueueJobWithContextLog (e : Db.Enqueue)
  | chatAppendAndEnqueue (c : Db.ChatSend) (ownerDead : JobId → Bool)
  | markRunning (job : JobId) (w : WorkerId)
  | renewJobLease (job : JobId) (w : WorkerId) (ttl : Time)
  | markCompleted (job : JobId) (w : WorkerId)
  | markFailed (job : JobId) (w : WorkerId) (error : String)
  | finishChatJob (job : JobId) (w : WorkerId) (observedGeneration : Nat) (forceSuccessor : Bool)
  | finishWakeJob (job : JobId) (w : WorkerId) (observedGeneration : Nat) (lateContext : Bool)
  | reschedulePristineScheduledFailure (job : JobId) (w : WorkerId) (error : String)
      (availableAt : Time) (expectedAttemptCount maxAttempts : Nat)
  | recoverKilledJob (job : JobId) (w : WorkerId) (reason : String)
  | recoverCaptureClaim (job : JobId) (u : UserId) (w : Option WorkerId) (attemptCount : Nat)
      (mode : Db.RecoveryMode) (reason : String) (now : Option Time)
  | reapStuckJobRows (now : Option Time)

namespace Db

def exec (cfg : Config) (db : Db) : Txn → Db
  | .tick elapsed => { db with clock := db.clock + elapsed }
  | .advanceRuntimeState u fromState toState => (db.advanceRuntimeState u fromState toState).1
  | .enqueueJob e => (enqueueJob cfg db e).1
  | .enqueueJobWithContextLog e => (enqueueJobWithContextLog cfg db e).1
  | .chatAppendAndEnqueue c ownerDead =>
    ((chatAppendAndEnqueue cfg ownerDead db c).map (·.1)).getD db
  | .markRunning job w => (markRunning cfg db job w).1
  | .renewJobLease job w ttl => (db.renewJobLease job w ttl).1
  | .markCompleted job w => (db.markCompleted job w).1
  | .markFailed job w error => (db.markFailed job w error).1
  | .finishChatJob job w observed force => (finishChatJob cfg db job w observed force).1
  | .finishWakeJob job w observed late => (finishWakeJob db job w observed late).1
  | .reschedulePristineScheduledFailure job w error availableAt attempts limit =>
    (db.reschedulePristineScheduledFailure job w error availableAt attempts limit).1
  | .recoverKilledJob job w reason => recoverKilledJob cfg db job w reason
  | .recoverCaptureClaim job u w attempts mode reason now =>
    recoverCaptureClaim cfg db job u w attempts mode reason now
  | .reapStuckJobRows now => reapStuckJobRows cfg db now

end Db

/-- No lower generation than before. -/
def RuntimeMono (db db' : Db) : Prop :=
  ∀ u s, db.runtime u = some s → ∃ s', db'.runtime u = some s' ∧ s.generation ≤ s'.generation

theorem RuntimeMono.of_eq {db db' : Db} (h : db'.runtime = db.runtime) : RuntimeMono db db' :=
  fun u s hs => ⟨s, by rw [h]; exact hs, Nat.le_refl _⟩

theorem RuntimeMono.trans {db db' db'' : Db} (h : RuntimeMono db db') (h' : RuntimeMono db' db'') :
    RuntimeMono db db'' := by
  intro u s hs
  obtain ⟨s', hs', hle⟩ := h u s hs
  obtain ⟨s'', hs'', hle'⟩ := h' u s' hs'
  exact ⟨s'', hs'', hle.trans hle'⟩

/-- Rows change by statements, no write goes on or off record, and the outbox is left alone. -/
structure RowsStep (db db' : Db) : Prop where
  rows : JobsRun db.turnIsPristine db.jobs db'.jobs
  pristine : db'.turnIsPristine = db.turnIsPristine
  effects : db'.effects = db.effects
  runtime : RuntimeMono db db'
  attempts : db'.attemptFacts = db.attemptFacts
  runtimeDoc : db'.runtimeDoc = db.runtimeDoc
  events : db'.events = db.events

theorem QueueStep.rowsStep {db db' : Db} (h : QueueStep db db') : RowsStep db db' :=
  ⟨h.rows, h.pristine, h.effects, .of_eq h.runtime, h.attempts, h.runtimeDoc, h.events⟩

theorem RowsStep.refl (db : Db) : RowsStep db db := ⟨.refl _, rfl, rfl, .of_eq rfl, rfl, rfl, rfl⟩

theorem RowsStep.trans {db db' db'' : Db} (h : RowsStep db db') (h' : RowsStep db' db'') :
    RowsStep db db'' :=
  ⟨h.rows.trans (h.pristine ▸ h'.rows), h'.pristine.trans h.pristine, h'.effects.trans h.effects,
    h.runtime.trans h'.runtime, h'.attempts.trans h.attempts, h'.runtimeDoc.trans h.runtimeDoc,
    h'.events.trans h.events⟩

/-! ## The parts of a transaction -/

namespace Db

variable (db : Db) (u : UserId) (msgId : String)

theorem chatInsert_rest (ts : Time) (doc : ChatDoc) :
    { (db.chatInsert u msgId ts doc).1 with chat := db.chat } = db := by
  unfold chatInsert
  split <;> rfl

theorem chatInsert_step (ts : Time) (doc : ChatDoc) :
    RowsStep db (db.chatInsert u msgId ts doc).1 := by
  unfold chatInsert
  split <;> exact ⟨.refl _, rfl, rfl, .of_eq rfl, rfl, rfl, rfl⟩

theorem materializeRuntime_step : RowsStep db (db.materializeRuntime u) := by
  unfold materializeRuntime
  split
  · next h =>
    simp only [Bool.and_eq_true, Option.isNone_iff_eq_none] at h
    refine ⟨.refl _, rfl, rfl, fun v s hs => ⟨s, ?_, Nat.le_refl _⟩, rfl, rfl, rfl⟩
    have hne : v ≠ u := by rintro rfl; rw [h.2] at hs; cases hs
    simpa [put_other _ _ hne] using hs
  · exact .refl db

/-- A block of the queue, or a message of the chat log. -/
inductive Part (sc : Scope) (db : Db) : Db → Prop where
  | block {db' : Db} : Block sc db db' → Part sc db db'
  | stored (u : UserId) (msgId : String) (ts : Time) (doc : ChatDoc) :
      Part sc db (db.chatInsert u msgId ts doc).1

abbrev Parts (sc : Scope) : Db → Db → Prop := ReflTransGen (Part sc)

theorem Blocks.parts {sc : Scope} {db db' : Db} (h : Blocks sc db db') : Parts sc db db' :=
  h.lift id fun _ _ => .block

/-- Only the clock and the states of the users move. -/
structure Beside (db db' : Db) : Prop where
  rest : { db' with clock := db.clock, runtime := db.runtime } = db
  runtime : RuntimeMono db db'

theorem advanceRuntimeState_beside (fromState toState : HostedState) :
    Beside db (db.advanceRuntimeState u fromState toState).1 := by
  have hmaterialize : { db.materializeRuntime u with clock := db.clock, runtime := db.runtime } =
    db := by
    unfold materializeRuntime
    split <;> rfl
  have hmono := (materializeRuntime_step db u).runtime
  unfold advanceRuntimeState
  split
  · dsimp only
    split
    · next s hs =>
      split
      · refine ⟨hmaterialize, hmono.trans fun v s' hs' => ?_⟩
        by_cases hv : v = u
        · subst hv
          rw [hs] at hs'
          cases hs'
          exact ⟨_, put_same .., Nat.le_succ _⟩
        · exact ⟨s', by simpa [put_other _ _ hv] using hs', Nat.le_refl _⟩
      · exact ⟨hmaterialize, hmono⟩
    · exact ⟨hmaterialize, hmono⟩
  · exact ⟨rfl, .of_eq rfl⟩

/-- The messages of an accepted send are stored, and its job is not yet enqueued. -/
def chatStored (ownerDead : JobId → Bool) (db : Db) (c : ChatSend) : Db :=
  let preempted := if c.lane == .chat then preemptActiveForChat ownerDead db c.userId else db
  (preempted.chatInsert c.userId c.msgId c.ts c.doc).1

/-- The job that the transaction expires in one of the branches that do not settle its attempts. -/
def expiresUnsettled (cfg : Config) (db : Db) : Txn → Option JobId
  | .enqueueJob e => enqueueStale cfg db e
  | .enqueueJobWithContextLog e =>
    staleRow cfg db { e with expectedGeneration := db.effectiveGeneration e.userId none,
                             deadlineAt := none }
  | .chatAppendAndEnqueue c ownerDead =>
    if c.wellFormed && c.fenceHolds db && (c.duplicate db).isNone then
      staleRow cfg (chatStored ownerDead db c)
        ⟨c.userId, c.lane, c.reason, c.traceId, "", none, none, c.expectedGeneration⟩
    else none
  | .recoverKilledJob job w _ => ((db.jobs.get? job).filter (killedUnsettled cfg db w)).map (·.id)
  | .recoverCaptureClaim job u w attemptCount mode _ _ =>
    ((db.jobs.get? job).filter (claimGivenUp cfg u w attemptCount mode)).map (·.id)
  | _ => none

end Db

/-- The scope covers what the transaction does by design. -/
def Txn.Within (sc : Scope) : Txn → Prop
  | .enqueueJob e | .enqueueJobWithContextLog e =>
    sc.admits ∧ ∀ i : Job, i.userId = e.userId → i.lane = e.lane → sc.ends i
  | .chatAppendAndEnqueue c _ =>
    sc.admits ∧ ∀ i : Job, i.userId = c.userId → c.lane = .chat ∨ i.lane = c.lane → sc.ends i
  | .markCompleted job _ => ∀ i : Job, i.id = job → sc.ends i
  | .finishChatJob job .. | .finishWakeJob job .. => sc.admits ∧ ∀ i : Job, i.id = job → sc.ends i
  | _ => True

theorem Txn.within_free (t : Txn) : t.Within .free := by
  cases t <;> simp [Txn.Within, Scope.free]

namespace Db

variable {sc : Scope}

theorem chatAppendAndEnqueue_parts (cfg : Config) (ownerDead : JobId → Bool) (db : Db)
    (c : ChatSend) (hin : (Txn.chatAppendAndEnqueue c ownerDead).Within sc)
    (hunsettled : ∀ k, expiresUnsettled cfg db (.chatAppendAndEnqueue c ownerDead) = some k →
      sc.unsettled k) :
    Parts sc db (((chatAppendAndEnqueue cfg ownerDead db c).map (·.1)).getD db) := by
  simp only [expiresUnsettled] at hunsettled
  unfold chatAppendAndEnqueue
  split
  · next haccepted =>
    split
    · exact .refl
    · next hnew =>
      rw [haccepted, hnew, Option.isNone_none, Bool.and_self, if_pos rfl] at hunsettled
      have hpreempted : Blocks sc db (if c.lane == .chat then
          preemptActiveForChat ownerDead db c.userId else db) := by
        split
        · next hchat =>
            exact .preemptActiveForChat ownerDead db c.userId fun i hu _ => hin.2 i hu
              (.inl (beq_iff_eq.mp hchat))
        · exact .refl
      refine (hpreempted.parts.tail (.stored c.userId c.msgId c.ts c.doc)).trans (Blocks.parts ?_)
      exact .coalesceOrInsert cfg _ _ _ _ hin.1
        (fun i hu hlane => hin.2 i hu (.inr hlane)) hunsettled
  · exact .refl

/-- Every transaction of the queue is made of parts, or moves only the clock and states of users. -/
theorem exec_parts (cfg : Config) (db : Db) (t : Txn) (hin : t.Within sc)
    (hunsettled : ∀ k, expiresUnsettled cfg db t = some k → sc.unsettled k) :
    Beside db (exec cfg db t) ∨ Parts sc db (exec cfg db t) := by
  cases t with
  | tick => exact .inl ⟨rfl, .of_eq rfl⟩
  | advanceRuntimeState => exact .inl (advanceRuntimeState_beside db _ _ _)
  | enqueueJob e => exact .inr (Blocks.enqueueJob cfg db e hin.1 hin.2 hunsettled).parts
  | enqueueJobWithContextLog e =>
    refine .inr (Blocks.parts ?_)
    unfold exec enqueueJobWithContextLog
    exact .coalesceOrInsert cfg db _ _ _ hin.1 hin.2 hunsettled
  | chatAppendAndEnqueue c ownerDead =>
    exact .inr (chatAppendAndEnqueue_parts cfg ownerDead db c hin hunsettled)
  | markRunning => exact .inr (Blocks.markRunning cfg db _ _).parts
  | renewJobLease => exact .inr (Blocks.renewJobLease db _ _ _).parts
  | markCompleted => exact .inr (Blocks.markCompleted hin _).parts
  | markFailed => exact .inr (Blocks.markFailed db _ _ _).parts
  | finishChatJob => exact .inr (Blocks.finishChatJob hin.2 cfg hin.1 _ _ _).parts
  | finishWakeJob => exact .inr (Blocks.finishWakeJob hin.2 hin.1 _ _ _).parts
  | reschedulePristineScheduledFailure =>
    exact .inr (Blocks.reschedulePristineScheduledFailure db _ _ _ _ _ _).parts
  | recoverKilledJob job w reason =>
    refine .inr (Blocks.recoverKilledJob cfg db job w reason fun j hj hkilled =>
        hunsettled job ?_).parts
    simp [expiresUnsettled, hj, hkilled, Serial.key_of_get? hj]
  | recoverCaptureClaim job u w attempts mode reason now =>
    refine .inr (Blocks.recoverCaptureClaim cfg db job u w attempts mode reason now
        fun j hj hgiven => hunsettled job ?_).parts
    simp [expiresUnsettled, hj, hgiven, Serial.key_of_get? hj]
  | reapStuckJobRows => exact .inr (Blocks.reapStuckJobRows cfg db _).parts

theorem exec_free (cfg : Config) (db : Db) (t : Txn) :
    Beside db (exec cfg db t) ∨ Parts .free db (exec cfg db t) :=
  exec_parts cfg db t t.within_free fun _ _ => trivial

end Db

theorem Db.Parts.rowsStep {sc : Scope} {db db' : Db} (h : Db.Parts sc db db') :
    RowsStep db db' := by
  induction h with
  | refl => exact .refl db
  | tail _ hpart ih =>
    cases hpart with
    | block hblock => exact ih.trans (QueueStep.of_block hblock).rowsStep
    | stored => exact ih.trans (Db.chatInsert_step _ _ _ _ _)

/-- Every transaction changes each row by statements. -/
theorem Db.exec_step (cfg : Config) (db : Db) (t : Txn) : RowsStep db (exec cfg db t) := by
  obtain h | h := exec_free cfg db t
  · have hrest := fun {α : Type} (f : Db → α) => congrArg f h.rest
    have hjobs : (exec cfg db t).jobs = db.jobs := hrest Db.jobs
    refine ⟨hjobs ▸ .refl _, ?_, hrest Db.effects, h.runtime, hrest Db.attemptFacts,
      hrest Db.runtimeDoc, hrest Db.events⟩
    exact hrest Db.turnIsPristine
  · exact h.rowsStep

/-! ## What the transactions do to reviews and streams -/

/-- Reviews change by statements, with the users of jobs, their states and the limits as they
were. -/
structure ReviewsKept (db db' : Db) : Prop where
  step : ReviewsStep db db'
  v2 : db'.isV2 = db.isV2
  env : db'.reviewEnv = db.reviewEnv
  users : ∀ k u, db.jobUser k = some u → db'.jobUser k = some u

theorem QueueStep.reviewsKept {db db' : Db} (h : QueueStep db db') : ReviewsKept db db' :=
  ⟨h.reviews, h.isV2, h.reviewEnv, fun _ _ => h.jobUser⟩

theorem ReviewsKept.trans {db db' db'' : Db} (h : ReviewsKept db db') (h' : ReviewsKept db' db'') :
    ReviewsKept db db'' :=
  ⟨h.step.trans h'.step h.v2 h.env h'.users, h'.v2.trans h.v2, h'.env.trans h.env,
    fun k u hu => h'.users k u (h.users k u hu)⟩

theorem Db.Parts.reviewsKept {sc : Scope} {db db' : Db} (h : Db.Parts sc db db') :
    ReviewsKept db db' := by
  induction h with
  | refl => exact (QueueStep.refl db).reviewsKept
  | tail _ hpart ih =>
    cases hpart with
    | block hblock => exact ih.trans (QueueStep.of_block hblock).reviewsKept
    | stored u msgId ts doc =>
      refine ih.trans ?_
      unfold Db.chatInsert
      split <;> exact ⟨.of_eq rfl rfl, rfl, rfl, fun _ _ h => h⟩

theorem Db.exec_reviews (cfg : Config) (db : Db) (t : Txn) : ReviewsStep db (exec cfg db t) := by
  obtain h | h := exec_free cfg db t
  · have hreviews := congrArg Db.reviews h.rest
    have hstreams := congrArg Db.streams h.rest
    exact .of_eq hreviews hstreams
  · exact h.reviewsKept.step

/-! ## The claim in two steps -/

/-- A claim transaction that has read its candidate. -/
structure Pick where
  worker : WorkerId
  job : JobId
  orphan : Bool
  deriving DecidableEq, Repr

/-- The update of a claim on the candidate it has read. -/
def Db.claimStep (cfg : Config) (db : Db) (p : Pick) : Db :=
  if p.orphan then db.claimOrphan p.job else Db.claimHead cfg db p.worker p.job

structure ClaimWorld where
  db : Db
  picks : List Pick

namespace ClaimWorld

/-- The first statement: the id must be one it may return in this state. -/
def pick (cfg : Config) (w : ClaimWorld) (p : Pick) (lanes : Option (List Lane)) : ClaimWorld :=
  if (if p.orphan then Db.isOrphan cfg w.db lanes p.job
      else Db.isCandidate cfg w.db lanes p.job) then
    { w with picks := p :: w.picks }
  else w

@[simp] theorem pick_db (cfg : Config) (w : ClaimWorld) (p : Pick) (lanes : Option (List Lane)) :
    (w.pick cfg p lanes).db = w.db := by
  rw [pick, apply_ite ClaimWorld.db, ite_self]

/-- The rest of the transaction, for a claim that is under way. -/
def claim (cfg : Config) (w : ClaimWorld) (p : Pick) : ClaimWorld :=
  if p ∈ w.picks then { db := Db.claimStep cfg w.db p, picks := w.picks.erase p } else w

end ClaimWorld

/-- One update of one row, and of nothing else. -/
structure RowWrite (db db' : Db) (i j : Job) : Prop where
  before : db.jobs.get? i.id = some i
  same : SameJob i j
  rows : ∀ k, db'.jobs.get? k = if k = i.id then some j else db.jobs.get? k
  rest : { db' with jobs := db.jobs } = db

theorem RowWrite.row {db db' : Db} {i j : Job} (h : RowWrite db db' i j) {k : JobId} {l : Job}
    (hl : db.jobs.get? k = some l) :
    db'.jobs.get? k = some l ∨ k = i.id ∧ l = i ∧ db'.jobs.get? k = some j := by
  rw [h.rows]
  by_cases hk : k = i.id
  · rw [hk, h.before] at hl
    exact .inr ⟨hk, (Option.some.inj hl).symm, if_pos hk⟩
  · exact .inl ((if_neg hk).trans hl)

namespace Db

theorem updateJobs_rowWrite {db : Db} {job : JobId} {i : Job} (hi : db.jobs.get? job = some i)
    (f : Job → Job) (hf : ∀ j, (f j).id = j.id) (hsame : SameJob i (f i)) :
    RowWrite db (db.updateJobs (fun j => j.id == job) f hf) i (f i) := by
  obtain rfl : i.id = job := Serial.key_of_get? hi
  refine ⟨hi, hsame, fun k => ?_, rfl⟩
  rw [updateJobs, Serial.get?_modify]
  split
  · next h => simp [h, hi]
  · next h =>
    cases hk : db.jobs.get? k with
    | none => rfl
    | some j => simp [Serial.key_of_get? hk, h]

/-- What the update of a claim does: nothing, a claim of a pending row whose user owns no other,
the end of a pending row, or the retirement of a row whose user is not on `v2`. -/
theorem claimHead_cases (cfg : Config) (db : Db) (worker : WorkerId) (job : JobId) :
    claimHead cfg db worker job = db ∨
    (∃ i j, RowWrite db (claimHead cfg db worker job) i j ∧ i.status = .pending ∧
      j.status = .claimed ∧ j.claimedBy = some worker ∧
      ∀ k l, db.jobs.get? k = some l → l.userId = i.userId → l.status.held = false) ∨
    (∃ i j, RowWrite db (claimHead cfg db worker job) i j ∧ i.status = .pending ∧
      j.status = .superseded) ∨
    (∃ i, db.jobs.get? job = some i ∧ db.isV2 i.userId = false ∧
      claimHead cfg db worker job = db.retireNotV2 job) := by
  unfold claimHead
  split
  · next i hi =>
    split
    · next s hs =>
      split
      · rw [claimSql, hi]
        dsimp only
        split
        · next hc =>
          simp only [claimable, Bool.and_eq_true, beq_iff_eq, Bool.not_eq_true'] at hc
          obtain ⟨⟨⟨hpending, -⟩, -⟩, hfree⟩ := hc
          split
          · refine .inr (.inl ⟨i, _, updateJobs_rowWrite hi _ _ ⟨rfl, rfl, rfl, rfl, rfl⟩, hpending,
                rfl, rfl,
              fun k l hl hu => ?_⟩)
            simpa [hu] using List.any_eq_false.mp hfree l (Serial.get?_eq_some.mp hl).1
          · exact .inr (.inr (.inl ⟨i, _, updateJobs_rowWrite hi _ _ ⟨rfl, rfl, rfl, rfl, rfl⟩,
                hpending, rfl⟩))
        · exact .inl rfl
      · next hv2 => exact .inr (.inr (.inr ⟨i, hi, by simpa [isV2, hs] using hv2, rfl⟩))
    · exact .inl rfl
  · exact .inl rfl

/-- The retirement is unguarded: whatever the row's status was, it becomes `superseded`. -/
theorem retireNotV2_cases (db : Db) (job : JobId) :
    db.retireNotV2 job = db ∨
    ∃ i j, i.id = job ∧ RowWrite db (db.retireNotV2 job) i j ∧ j.status = .superseded := by
  cases hi : db.jobs.get? job with
  | some i =>
    exact .inr ⟨i, _, Serial.key_of_get? hi, updateJobs_rowWrite hi _ _ ⟨rfl, rfl, rfl, rfl, rfl⟩,
      rfl⟩
  | none =>
    refine .inl ?_
    rw [retireNotV2, updateJobs, Serial.modify_eq_self]
    intro j hj
    simpa using Serial.get?_eq_none.mp hi j hj

section

variable (cfg : Config) (db : Db) (p : Pick)
include cfg db p

/-- A claim writes at most one row: it takes a pending row whose user owns none, or ends a row. -/
theorem claimStep_cases : claimStep cfg db p = db ∨
    (∃ i j, RowWrite db (claimStep cfg db p) i j ∧ i.status = .pending ∧ j.status = .claimed ∧
      j.claimedBy = some p.worker ∧
      ∀ k l, db.jobs.get? k = some l → l.userId = i.userId → l.status.held = false) ∨
    (∃ i j, RowWrite db (claimStep cfg db p) i j ∧ j.status = .superseded ∧
      (i.status = .pending ∨ i.id = p.job ∧ (p.orphan = true ∨ db.isV2 i.userId = false))) := by
  unfold claimStep
  split
  · next horphan =>
    obtain heq | ⟨i, j, hid, hrow, hj⟩ := db.retireNotV2_cases p.job
    · exact .inl heq
    · exact .inr (.inr ⟨i, j, hrow, hj, .inr ⟨hid, .inl horphan⟩⟩)
  · obtain heq | h | ⟨i, j, hrow, hi, hj⟩ | ⟨l, hl, hv2, heq⟩ :=
      claimHead_cases cfg db p.worker p.job
    · exact .inl heq
    · exact .inr (.inl h)
    · exact .inr (.inr ⟨i, j, hrow, hj, .inl hi⟩)
    · rw [heq]
      obtain heq | ⟨i, j, hid, hrow, hj⟩ := db.retireNotV2_cases p.job
      · exact .inl heq
      · have hil : i = l := by
          have hbefore := hrow.before
          rw [hid, hl] at hbefore
          exact (Option.some.inj hbefore).symm
        exact .inr (.inr ⟨i, j, hrow, hj, .inr ⟨hid, .inr (hil ▸ hv2)⟩⟩)

theorem claimStep_rest : { claimStep cfg db p with jobs := db.jobs } = db := by
  obtain heq | ⟨i, j, hrow, -⟩ | ⟨i, j, hrow, -⟩ := claimStep_cases cfg db p
  · rw [heq]
  · exact hrow.rest
  · exact hrow.rest

theorem claimStep_proj {α : Type} (f : Db → α)
    (hf : ∀ jobs, f { claimStep cfg db p with jobs := jobs } = f (claimStep cfg db p)) :
    f (claimStep cfg db p) = f db := by
  rw [← hf db.jobs, claimStep_rest]

theorem claimStep_row {k : JobId} {i : Job} (hi : db.jobs.get? k = some i) :
    ∃ j, (claimStep cfg db p).jobs.get? k = some j ∧ SameJob i j ∧
      (j = i ∨ i.status = .pending ∧ j.status = .claimed ∨ j.status = .superseded) := by
  obtain heq | ⟨i', j, hrow, hpending, hclaimed, -⟩ | ⟨i', j, hrow, hend, -⟩ :=
    claimStep_cases cfg db p
  · exact ⟨i, by rw [heq]; exact hi, .refl i, .inl rfl⟩
  · obtain hsame | ⟨-, rfl, hj⟩ := hrow.row hi
    · exact ⟨i, hsame, .refl i, .inl rfl⟩
    · exact ⟨j, hj, hrow.same, .inr (.inl ⟨hpending, hclaimed⟩)⟩
  · obtain hsame | ⟨-, rfl, hj⟩ := hrow.row hi
    · exact ⟨i, hsame, .refl i, .inl rfl⟩
    · exact ⟨j, hj, hrow.same, .inr (.inr hend)⟩

theorem claimStep_jobUser {k : JobId} {u : UserId} (hu : db.jobUser k = some u) :
    (claimStep cfg db p).jobUser k = some u := by
  obtain ⟨i, hi, rfl⟩ := Option.map_eq_some_iff.mp hu
  obtain ⟨j, hj, hsame, -⟩ := claimStep_row cfg db p hi
  rw [jobUser, hj, Option.map_some, hsame.userId]

end

end Db

end Feedling
