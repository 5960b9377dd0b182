import Feedling.JobOwnership
import Feedling.OrderedTurns

/-!
# Writes of a chat turn, and the barrier in front of the next one

A chat turn may write before its reply is published. If it dies in between, the next turn sees
the same input again; `get_chat_mutation_recovery_barrier` tells it that an older job has already
written for that input, and it then runs without write tools. The barrier is read once, at the
start of a turn. A remote write is recorded under the claim of its job. A platform write renews
the lease in one step and inserts its row, unfenced, in another.
-/

namespace Feedling

open KeyedTable Runs

/-- A stored batch result in which every item was discarded. -/
def Effect.allDiscarded (e : Effect) : Bool :=
  e.effectType == .workspaceBatchEncryptedV1 && e.status == .appliedWithResults &&
    e.results.any fun items => !items.isEmpty && items.all fun applied => !applied

/-- What `get_chat_mutation_recovery_barrier` returns. -/
structure Barrier where
  throughSeq : Nat
  hasMcp : Bool
  hasPlatform : Bool
  deriving DecidableEq, Repr

namespace Db

/-- `start_mcp_mutation_attempt`: the intent goes on record under the claim of the job. -/
def startMcpMutationAttempt (db : Db) (job : JobId) (u : UserId) (claimedBy : WorkerId)
    (callKey : String) (inputFrontierSeq : Nat) : Db × Bool :=
  if db.writeFenceHolds u (some job) claimedBy then
    ({ db with attempts := db.attempts.insert ⟨job, callKey, u, inputFrontierSeq, none⟩ },
      (db.attempts.get? (job, callKey)).isNone)
  else (db, false)

def openAttempt (job : JobId) (callKey : String) (a : McpAttempt) : Bool :=
  a.jobId == job && a.callKey == callKey && a.outcome.isNone

/-- `finish_mcp_mutation_attempt`. -/
def finishMcpMutationAttempt (db : Db) (job : JobId) (callKey : String) (outcome : Outcome) :
    Db × Bool :=
  let settled :=
    db.attempts.modify (openAttempt job callKey) (fun a => { a with outcome := some outcome })
    fun _ => rfl
  ({ db with attempts := settled }, db.attempts.rows.any (openAttempt job callKey))

/-- The attempts of other chat jobs that the barrier counts. -/
def barrierAttempts (db : Db) (u : UserId) (afterSeq : Nat) (excludeJob : Option JobId) :
    List McpAttempt :=
  db.attempts.rows.filter fun a => a.userId == u && db.isChatJob a.jobId &&
    decide (afterSeq < a.inputFrontierSeq) && excludeJob.all (a.jobId != ·)

/-- The effects of other chat jobs that the barrier counts. -/
def barrierEffects (db : Db) (u : UserId) (afterSeq : Nat) (excludeJob : Option JobId) :
    List Effect :=
  db.effects.rows.filter fun e => e.userId == u &&
    e.jobId.any (fun k => db.isChatJob k && excludeJob.all (k != ·)) &&
    e.inputFrontierSeq.any (fun n => decide (afterSeq < n)) && !e.allDiscarded

def getChatMutationRecoveryBarrier (db : Db) (u : UserId) (afterSeq : Nat)
    (excludeJob : Option JobId) : Option Barrier :=
  let mcp := (db.barrierAttempts u afterSeq excludeJob).map (·.inputFrontierSeq)
  let platform := (db.barrierEffects u afterSeq excludeJob).filterMap (·.inputFrontierSeq)
  (mcp ++ platform).max?.map fun through => ⟨through, !mcp.isEmpty, !platform.isEmpty⟩

/-! ## The writes of a chat job -/

/-- The attempt counts for `k` as a write beyond `seq`. -/
def attemptBeyond (u : UserId) (seq : Nat) (k : JobId) (a : McpAttempt) : Bool :=
  a.jobId == k && a.userId == u && decide (seq < a.inputFrontierSeq)

/-- The effect counts for `k` as a write beyond `seq`. -/
def effectBeyond (u : UserId) (seq : Nat) (k : JobId) (e : Effect) : Bool :=
  e.jobId == some k && e.userId == u && e.effectType.durableTool && !e.allDiscarded &&
    e.inputFrontierSeq.any fun n => decide (seq < n)

/-- The chat job `k` has a write beyond the reply cursor on record. -/
def wroteBeyondCursor (db : Db) (u : UserId) (k : JobId) : Bool :=
  let cursor := (db.runtimeDoc u).replyCursorSeq
  db.isChatJob k && (db.attempts.rows.any (attemptBeyond u cursor k) ||
    db.effects.rows.any (effectBeyond u cursor k))

/-- All chat writes beyond the reply cursor are of one job. -/
def OneWriter (u : UserId) (db : Db) : Prop :=
  ∀ k k', db.wroteBeyondCursor u k = true → db.wroteBeyondCursor u k' = true → k = k'

variable {u : UserId} {k : JobId}

theorem wroteBeyondCursor_iff {db : Db} :
    db.wroteBeyondCursor u k = true ↔ db.isChatJob k = true ∧
      ((∃ a ∈ db.attempts.rows, attemptBeyond u (db.runtimeDoc u).replyCursorSeq k a = true) ∨
        ∃ e ∈ db.effects.rows, effectBeyond u (db.runtimeDoc u).replyCursorSeq k e = true) := by
  simp [wroteBeyondCursor]

theorem attemptBeyond_mono {seq seq' : Nat} {a : McpAttempt} (hle : seq ≤ seq')
    (h : attemptBeyond u seq' k a = true) : attemptBeyond u seq k a = true := by
  simp only [attemptBeyond, Bool.and_eq_true, decide_eq_true_eq] at h ⊢
  exact ⟨h.1, by omega⟩

theorem effectBeyond_mono {seq seq' : Nat} {e : Effect} (hle : seq ≤ seq')
    (h : effectBeyond u seq' k e = true) : effectBeyond u seq k e = true := by
  simp only [effectBeyond, Bool.and_eq_true, Option.any_eq_true, decide_eq_true_eq] at h ⊢
  obtain ⟨hrow, n, hn, hlt⟩ := h
  exact ⟨hrow, n, hn, by omega⟩

theorem barrier_isSome {db : Db} {afterSeq : Nat} {job k : JobId} (hchat : db.isChatJob k = true)
    (hne : k ≠ job)
    (h : (∃ a ∈ db.attempts.rows, attemptBeyond u afterSeq k a = true) ∨
      ∃ e ∈ db.effects.rows, effectBeyond u afterSeq k e = true) :
    (db.getChatMutationRecoveryBarrier u afterSeq (some job)).isSome = true := by
  have hfrontier : ∃ n, n ∈ (db.barrierAttempts u afterSeq (some job)).map (·.inputFrontierSeq) ++
      (db.barrierEffects u afterSeq (some job)).filterMap (·.inputFrontierSeq) := by
    obtain ⟨a, ha, hb⟩ | ⟨e, he, hb⟩ := h
    · simp only [attemptBeyond, Bool.and_eq_true, beq_iff_eq, decide_eq_true_eq] at hb
      obtain ⟨⟨rfl, hu⟩, hlt⟩ := hb
      refine ⟨a.inputFrontierSeq,
        List.mem_append_left _ (List.mem_map_of_mem (List.mem_filter.mpr ⟨ha, ?_⟩))⟩
      simp [hu, hchat, hlt, hne]
    · simp only [effectBeyond, Bool.and_eq_true, beq_iff_eq, Bool.not_eq_true', Option.any_eq_true,
        decide_eq_true_eq] at hb
      obtain ⟨⟨⟨⟨hjob, hu⟩, -⟩, hkept⟩, n, hn, hlt⟩ := hb
      refine ⟨n,
        List.mem_append_right _ (List.mem_filterMap.mpr ⟨e, List.mem_filter.mpr ⟨he, ?_⟩, hn⟩)⟩
      simp [hu, hjob, hchat, hne, hn, hlt, hkept]
  obtain ⟨n, hn⟩ := hfrontier
  simp only [getChatMutationRecoveryBarrier, Option.isSome_map, List.isSome_max?_iff]
  exact List.ne_nil_of_mem hn

end Db

/-! ## Turns that write -/

/-- The local variables of a chat turn that its writes depend on. `inputFrontier` is
`cursor_box["seq"]`; `renewed` says that `_before_write` has passed and the insert is due. -/
structure WritingTurn where
  worker : WorkerId
  sinceSeq : Option Nat
  barrier : Option (Option Barrier)
  inputFrontier : Nat
  renewed : Bool
  deriving DecidableEq, Repr

/-- The barrier was read and there was none. -/
def WritingTurn.mayWrite (t : WritingTurn) : Bool := t.barrier == some none

/-- The database and the chat turns that workers are in. -/
structure MutationWorld where
  db : Db
  turns : JobId → Option WritingTurn

inductive MutationLabel where
  /-- Any transaction of the queue, for any user. -/
  | txn (t : Txn)
  | claim (p : Pick)
  /-- `mark_running` of a chat job; the turn begins. -/
  | start (job : JobId) (worker : WorkerId)
  /-- The turn reads the reply cursor. -/
  | load (job : JobId)
  | readBarrier (job : JobId)
  /-- The turn takes up input, at its start or between two rounds. -/
  | foldIn (job : JobId) (through : Nat)
  | beforeWrite (job : JobId) (ttl : Time)
  /-- `_enqueue_write_effect` and `_enqueue_workspace_batch_effect`. -/
  | enqueueWriteEffect (job : JobId) (effectId : String) (type : EffectType) (generation : Nat)
      (p : Option Payload)
  | mcpMutationStarted (job : JobId) (callKey : String)
  | mcpMutationFinished (job : JobId) (callKey : String) (outcome : Outcome)
  /-- An effect that is no durable write: a reply, a cursor, a wake. -/
  | enqueueEffect (r : EffectRequest)
  /-- One round of `apply_pending_effects`, by the turn or by anyone else. -/
  | apply (effectId : String) (d : Delivery)
  | crash (job : JobId)

namespace MutationWorld

def init (db : Db) : MutationWorld := ⟨db, fun _ => none⟩

def setTurn (w : MutationWorld) (job : JobId) (t : Option WritingTurn) : MutationWorld :=
  { w with turns := Function.update w.turns job t }

/-- A step of the turn of the job, if there is one. -/
def inTurn (w : MutationWorld) (job : JobId) (f : WritingTurn → MutationWorld) : MutationWorld :=
  ((w.turns job).map f).getD w

def startTurn (cfg : Config) (u : UserId) (w : MutationWorld) (job : JobId) (worker : WorkerId) :
    MutationWorld :=
  match w.db.laneRow u .chat job, Db.markRunning cfg w.db job worker with
  | some _, (db, true) => { w with db := db }.setTurn job (some ⟨worker, none, none, 0, false⟩)
  | _, _ => w

def loadCursor (u : UserId) (w : MutationWorld) (job : JobId) (t : WritingTurn) : MutationWorld :=
  if t.sinceSeq.isNone then
    let since := (w.db.runtimeDoc u).replyCursorSeq
    w.setTurn job (some { t with sinceSeq := some since, inputFrontier := since })
  else w

def loadBarrier (u : UserId) (w : MutationWorld) (job : JobId) (t : WritingTurn) : MutationWorld :=
  match t.sinceSeq, t.barrier with
  | some since, none =>
    w.setTurn job
      (some { t with barrier := some (w.db.getChatMutationRecoveryBarrier u since (some job)) })
  | _, _ => w

/-- The frontier only grows, and only to inputs that exist. -/
def foldInput (u : UserId) (w : MutationWorld) (job : JobId) (through : Nat) (t : WritingTurn) :
    MutationWorld :=
  if t.barrier.isSome && decide (t.inputFrontier ≤ through) &&
    decide (through ≤ w.db.newestInputSeq u) then
    w.setTurn job (some { t with inputFrontier := through })
  else w

/-- `_before_write`: the lease is renewed, or the turn raises. -/
def renewForWrite (w : MutationWorld) (job : JobId) (ttl : Time) (t : WritingTurn) :
    MutationWorld :=
  match w.db.renewJobLease job t.worker ttl with
  | (db, true) => { w with db := db }.setTurn job (some { t with renewed := true })
  | (_, false) => w

/-- The insert of a platform write as the chat lane calls it: no owner is passed. -/
def insertWrite (u : UserId) (w : MutationWorld) (job : JobId) (effectId : String)
    (type : EffectType) (generation : Nat) (p : Option Payload) (t : WritingTurn) : MutationWorld :=
  if t.mayWrite && t.renewed && type.durableTool then
    let r : EffectRequest := ⟨effectId, u, some job, type, generation, p, some t.inputFrontier⟩
    { w with db := (w.db.effectEnqueue r none).1 }.setTurn job (some { t with renewed := false })
  else w

def recordMcp (u : UserId) (w : MutationWorld) (job : JobId) (callKey : String) (t : WritingTurn) :
    MutationWorld :=
  if t.mayWrite then
    { w with db := (w.db.startMcpMutationAttempt job u t.worker callKey t.inputFrontier).1 }
  else w

/-- The job of the request exists: the column is a foreign key. -/
def jobExists (db : Db) (job : Option JobId) : Bool := job.all fun k => (db.jobs.get? k).isSome

def step (cfg : Config) (u : UserId) (w : MutationWorld) : MutationLabel → MutationWorld
  | .txn t => { w with db := Db.exec cfg w.db t }
  | .claim p => { w with db := Db.claimStep cfg w.db p }
  | .start job worker => startTurn cfg u w job worker
  | .load job => w.inTurn job (loadCursor u w job)
  | .readBarrier job => w.inTurn job (loadBarrier u w job)
  | .foldIn job through => w.inTurn job (foldInput u w job through)
  | .beforeWrite job ttl => w.inTurn job (renewForWrite w job ttl)
  | .enqueueWriteEffect job effectId type generation p =>
    w.inTurn job (insertWrite u w job effectId type generation p)
  | .mcpMutationStarted job callKey => w.inTurn job (recordMcp u w job callKey)
  | .mcpMutationFinished job callKey outcome =>
    { w with db := (w.db.finishMcpMutationAttempt job callKey outcome).1 }
  | .enqueueEffect r =>
    if !r.effectType.durableTool && jobExists w.db r.jobId then
      { w with db := (w.db.effectEnqueue r none).1 }
    else w
  | .apply effectId d =>
    if (w.db.effects.find? effectId).any (fun e => e.userId == u) then
      { w with db := (Db.applyEffect cfg w.db u effectId d).db }
    else w
  | .crash job => w.setTurn job none

/-- A platform write is inserted while its job is running under the claim of the turn, with a live
lease. -/
def writesUnderClaim (u : UserId) (w : MutationWorld) : MutationLabel → Bool
  | .enqueueWriteEffect job _ _ _ _ =>
    (w.turns job).all fun t => w.db.writeFenceHolds u (some job) t.worker
  | _ => true

end MutationWorld

/-! ## What a step does to the writes on record -/

/-- A chat row only moves forward: it is never given back to the queue. -/
theorem RowStmt.stage_le {pristine : JobId → Bool} {i j : Job}
    (h : RowStmt pristine (some i) (some j)) (hchat : i.lane = .chat) :
    i.status.stage ≤ j.status.stage := by
  cases h with
  | coalesce | renew => exact Nat.le_refl _
  | start _ _ _ hs => simp [hs, JobStatus.stage]
  | finish _ _ _ hi hj =>
    have hlt := (JobStatus.active_iff_stage _).mp hi
    have hge : ¬ j.status.stage < 3 :=
      fun h => by rw [(JobStatus.active_iff_stage _).mpr h] at hj; cases hj
    omega
  | requeue _ _ _ _ _ _ hlane => exact absurd hchat hlane

theorem JobsRun.stage_le {pristine : JobId → Bool} {t t' : Serial Job.id}
    (h : JobsRun pristine t t') {k : JobId} {i : Job} (hi : t.get? k = some i) :
    ∃ j, t'.get? k = some j ∧ SameJob i j ∧ (i.lane = .chat → i.status.stage ≤ j.status.stage) := by
  have hk := h k
  rw [hi] at hk
  generalize t'.get? k = o at hk
  induction hk with
  | refl => exact ⟨i, rfl, .refl i, fun _ => Nat.le_refl _⟩
  | tail _ hstep ih =>
    obtain ⟨j, rfl, hsame, hle⟩ := ih
    obtain ⟨j', rfl, hsame'⟩ := hstep.sameJob
    exact ⟨j', rfl, hsame.trans hsame', fun hchat =>
      (hle hchat).trans (hstep.stage_le (hsame.lane.trans hchat))⟩

/-- Every write on record names a job that exists. -/
structure ForeignKeys (db : Db) : Prop where
  attempts : ∀ a ∈ db.attempts.rows, (db.jobs.get? a.jobId).isSome = true
  effects : ∀ e ∈ db.effects.rows, ∀ k, e.jobId = some k → (db.jobs.get? k).isSome = true

/-- A step of the world seen from the writes of `u`: rows of `db'` are rows of `db`, or were
inserted by `writer`, or count for nothing. -/
structure WriteStep (u : UserId) (writer : Option JobId) (db db' : Db) : Prop where
  owner : SingleOwner db → SingleOwner db'
  rows : ∀ k i, db.jobs.get? k = some i →
    ∃ j, db'.jobs.get? k = some j ∧ SameJob i j ∧ (i.lane = .chat → i.status.stage ≤ j.status.stage)
  cursor : (db.runtimeDoc u).replyCursorSeq ≤ (db'.runtimeDoc u).replyCursorSeq
  attempts : ∀ a' ∈ db'.attempts.rows, writer = some a'.jobId ∨
    ∃ a ∈ db.attempts.rows, a.jobId = a'.jobId ∧
      ∀ seq k, Db.attemptBeyond u seq k a' = Db.attemptBeyond u seq k a
  effects : ∀ e' ∈ db'.effects.rows, (writer.isSome = true ∧ e'.jobId = writer) ∨
    (∃ e ∈ db.effects.rows, e.jobId = e'.jobId ∧
      ∀ seq k, Db.effectBeyond u seq k e' = true → Db.effectBeyond u seq k e = true) ∨
    e'.effectType.durableTool = false ∧ MutationWorld.jobExists db e'.jobId = true

namespace WriteStep

variable {u : UserId} {writer : Option JobId} {db db' : Db}

variable {k : JobId}

section

variable (h : WriteStep u writer db db')
include h

theorem exists_after (hk : (db.jobs.get? k).isSome = true) : (db'.jobs.get? k).isSome = true := by
  obtain ⟨i, hi⟩ := Option.isSome_iff_exists.mp hk
  obtain ⟨j, hj, -⟩ := h.rows k i hi
  simp [hj]

theorem foreignKeys (hdb : ForeignKeys db)
    (hwriter : ∀ k, writer = some k → (db.jobs.get? k).isSome = true) : ForeignKeys db' := by
  constructor
  · intro a' ha'
    apply h.exists_after
    obtain hw | ⟨a, ha, hjob, -⟩ := h.attempts a' ha'
    · exact hwriter _ hw
    · rw [← hjob]
      exact hdb.attempts a ha
  · intro e' he' k hk
    apply h.exists_after
    obtain ⟨-, hw⟩ | ⟨e, he, hjob, -⟩ | ⟨-, hexists⟩ := h.effects e' he'
    · exact hwriter k (hw.symm.trans hk)
    · exact hdb.effects e he k (hjob.trans hk)
    · simpa [MutationWorld.jobExists, hk] using hexists

theorem isChatJob (hk : (db.jobs.get? k).isSome = true) : db'.isChatJob k = db.isChatJob k := by
  obtain ⟨i, hi⟩ := Option.isSome_iff_exists.mp hk
  obtain ⟨j, hj, hsame, -⟩ := h.rows k i hi
  simp [Db.isChatJob, hi, hj, hsame.lane]

/-- What is beyond the cursor after the step was so before, unless the step wrote it. -/
theorem wrote (hdb : ForeignKeys db) (hk : db'.wroteBeyondCursor u k = true) :
    db.wroteBeyondCursor u k = true ∨ writer = some k := by
  obtain ⟨hchat, ⟨a', ha', hb⟩ | ⟨e', he', hb⟩⟩ := Db.wroteBeyondCursor_iff.mp hk
  · have hjob : a'.jobId = k := by simp [Db.attemptBeyond] at hb; exact hb.1.1
    obtain hw | ⟨a, ha, heq, hsame⟩ := h.attempts a' ha'
    · exact .inr (hjob ▸ hw)
    · left
      rw [hsame] at hb
      have hexists := hdb.attempts a ha
      rw [heq, hjob] at hexists
      rw [h.isChatJob hexists] at hchat
      exact Db.wroteBeyondCursor_iff.mpr ⟨hchat, .inl ⟨a, ha, Db.attemptBeyond_mono h.cursor hb⟩⟩
  · have hjob : e'.jobId = some k ∧ e'.effectType.durableTool = true := by
      simp [Db.effectBeyond] at hb; exact ⟨hb.1.1.1.1, hb.1.1.2⟩
    obtain ⟨-, hw⟩ | ⟨e, he, heq, hsame⟩ | ⟨hno, -⟩ := h.effects e' he'
    · exact .inr (hw.symm.trans hjob.1)
    · left
      have hexists := hdb.effects e he k (heq.trans hjob.1)
      rw [h.isChatJob hexists] at hchat
      exact Db.wroteBeyondCursor_iff.mpr ⟨hchat,
        .inr ⟨e, he, Db.effectBeyond_mono h.cursor (hsame _ k hb)⟩⟩
    · rw [hjob.2] at hno
      cases hno

end

theorem attempts_of_facts (h : db'.attemptFacts = db.attemptFacts) {a' : McpAttempt}
    (ha' : a' ∈ db'.attempts.rows) : ∃ a ∈ db.attempts.rows, a.jobId = a'.jobId ∧
      ∀ seq k, Db.attemptBeyond u seq k a' = Db.attemptBeyond u seq k a := by
  have hfacts : (a'.key, a'.userId, a'.inputFrontierSeq) ∈ db.attemptFacts := by
    rw [← h]
    exact List.mem_map_of_mem ha'
  obtain ⟨a, ha, heq⟩ := List.mem_map.mp hfacts
  simp only [McpAttempt.key, Prod.mk.injEq] at heq
  obtain ⟨⟨hjob, -⟩, huser, hfrontier⟩ := heq
  refine ⟨a, ha, hjob, fun seq k => ?_⟩
  simp only [Db.attemptBeyond, hjob, huser, hfrontier]

theorem refl (u : UserId) (db : Db) : WriteStep u none db db where
  owner := id
  rows _ i hi := ⟨i, hi, .refl i, fun _ => Nat.le_refl _⟩
  cursor := Nat.le_refl _
  attempts a' ha' := .inr ⟨a', ha', rfl, fun _ _ => rfl⟩
  effects e' he' := .inr (.inl ⟨e', he', rfl, fun _ _ => id⟩)

theorem anyWriter (h : WriteStep u none db db') (writer : Option JobId) :
    WriteStep u writer db db' where
  owner := h.owner
  rows := h.rows
  cursor := h.cursor
  attempts a' ha' := by
    obtain hnone | hold := h.attempts a' ha'
    · cases hnone
    · exact .inr hold
  effects e' he' := by
    obtain ⟨hnone, -⟩ | hold := h.effects e' he'
    · cases hnone
    · exact .inr hold

theorem of_rowsStep (u : UserId) (h : RowsStep db db') : WriteStep u none db db' where
  owner hdb := hdb.of_ownersFrom h.ownersFrom
  rows _ _ hi := h.rows.stage_le hi
  cursor := by rw [h.runtimeDoc]
  attempts a' ha' := .inr (attempts_of_facts h.attempts ha')
  effects e' he' := by
    rw [h.effects] at he'
    exact .inr (.inl ⟨e', he', rfl, fun _ _ => id⟩)

theorem of_claim (cfg : Config) (u : UserId) (db : Db) (p : Pick) :
    WriteStep u none db (Db.claimStep cfg db p) := by
  have hdoc := Db.claimStep_proj cfg db p Db.runtimeDoc fun _ => rfl
  have hattempts := Db.claimStep_proj cfg db p Db.attempts fun _ => rfl
  have heffects := Db.claimStep_proj cfg db p Db.effects fun _ => rfl
  refine ⟨fun hdb => ?_, fun k i hi => ?_, by rw [hdoc], fun a' ha' => ?_, fun e' he' => ?_⟩
  · obtain heq | ⟨i, j, hrow, -, -, -, hfree⟩ | ⟨i, j, hrow, hj, -⟩ := Db.claimStep_cases cfg db p
    · rw [heq]; exact hdb
    · exact hrow.singleOwner hdb hfree
    · exact hdb.of_ownersFrom (hrow.ownersFrom fun h => by rw [hj] at h; cases h)
  · obtain ⟨j, hj, hsame, heq | ⟨hi, hj'⟩ | hj'⟩ := Db.claimStep_row cfg db p hi
    · exact ⟨j, hj, hsame, fun _ => by rw [heq]⟩
    · exact ⟨j, hj, hsame, fun _ => by rw [hi, hj']; decide⟩
    · exact ⟨j, hj, hsame, fun _ => by rw [hj']; cases i.status <;> decide⟩
  · rw [hattempts] at ha'
    exact .inr ⟨a', ha', rfl, fun _ _ => rfl⟩
  · rw [heffects] at he'
    exact .inr (.inl ⟨e', he', rfl, fun _ _ => id⟩)

theorem of_insertEffect (u : UserId) (db : Db) (r : EffectRequest)
    (hr : (writer.isSome = true ∧ r.jobId = writer) ∨
      r.effectType.durableTool = false ∧ MutationWorld.jobExists db r.jobId = true) :
    WriteStep u writer db (db.effectEnqueue r none).1 where
  owner := id
  rows k i hi := ⟨i, hi, .refl i, fun _ => Nat.le_refl _⟩
  cursor := Nat.le_refl _
  attempts a' ha' := .inr ⟨a', ha', rfl, fun _ _ => rfl⟩
  effects e' he' := by
    obtain hold | ⟨-, hnew⟩ := Db.effectEnqueue_find? (Indexed.mem_rows.mp he')
    · exact .inr (.inl ⟨e', Indexed.mem_rows.mpr hold, rfl, fun _ _ => id⟩)
    · rw [hnew.jobId, hnew.effectType]
      obtain hw | hother := hr
      · exact .inl hw
      · exact .inr (.inr hother)

theorem of_startMcp (db : Db) (job : JobId) (u : UserId) (worker : WorkerId) (callKey : String)
    (frontier : Nat) :
    WriteStep u (some job) db (db.startMcpMutationAttempt job u worker callKey frontier).1 := by
  unfold Db.startMcpMutationAttempt
  split
  · constructor
    · exact id
    · exact fun k i hi => ⟨i, hi, .refl i, fun _ => Nat.le_refl _⟩
    · exact Nat.le_refl _
    · intro a' ha'
      obtain hold | rfl := Table.mem_insert ha'
      · exact .inr ⟨a', hold, rfl, fun _ _ => rfl⟩
      · exact .inl rfl
    · exact fun e' he' => .inr (.inl ⟨e', he', rfl, fun _ _ => id⟩)
  · exact (refl u db).anyWriter _

theorem of_finishMcp (u : UserId) (db : Db) (job : JobId) (callKey : String) (outcome : Outcome) :
    WriteStep u none db (db.finishMcpMutationAttempt job callKey outcome).1 where
  owner := id
  rows k i hi := ⟨i, hi, .refl i, fun _ => Nat.le_refl _⟩
  cursor := Nat.le_refl _
  attempts a' ha' := by
    obtain ⟨a, ha, rfl⟩ := List.mem_map.mp ha'
    refine .inr ⟨a, ha, ?_, fun seq k => ?_⟩ <;> split <;> rfl
  effects e' he' := .inr (.inl ⟨e', he', rfl, fun _ _ => id⟩)

end WriteStep

theorem Db.Round.attemptFacts {cfg : Config} {db : Db} {u : UserId} {e : Effect} {d : Delivery}
    {r : Applied} (h : Db.Round cfg db u e d r) : r.db.attemptFacts = db.attemptFacts := by
  obtain ⟨mid, hblocks, hframe⟩ := h.queue
  have hfacts := congrArg Db.attemptFacts hframe
  exact Eq.trans hfacts (QueueStep.of_free hblocks).attempts

namespace WriteStep

variable {u : UserId} {db db' : Db}

/-- An open effect is not yet discarded, so a round makes no effect count that did not count. -/
theorem effects_of_write {e e' : Effect} (h : EffectWrite db db' e e')
    (hopen : e.status.isOpen = true) {x' : Effect} (hx' : x' ∈ db'.effects.rows) :
    ∃ x ∈ db.effects.rows, x.jobId = x'.jobId ∧
      ∀ seq k, Db.effectBeyond u seq k x' = true → Db.effectBeyond u seq k x = true := by
  have hfind := Indexed.mem_rows.mp hx'
  rw [h.find] at hfind
  split at hfind
  · cases hfind
    refine ⟨e, Indexed.mem_rows.mpr h.before, h.jobId.symm, fun seq k hk => ?_⟩
    have hkept : e.allDiscarded = false := by
      cases hs : e.status <;> simp_all [Effect.allDiscarded, EffectStatus.isOpen]
    simp only [Db.effectBeyond, h.jobId, h.userId, h.effectType, h.inputFrontierSeq,
      Bool.and_eq_true] at hk ⊢
    simp [hk, hkept]
  · exact ⟨x', Indexed.mem_rows.mpr hfind, rfl, fun _ _ => id⟩

theorem of_applyEffect (cfg : Config) (db : Db) (u : UserId) (eid : String) (d : Delivery) :
    WriteStep u none db (Db.applyEffect cfg db u eid d).db := by
  have hmat := Db.materializeRuntime_step db u
  have hjobs := Db.applyEffect_jobs cfg db u eid d
  have hcursor := (Db.applyEffect_cursor cfg db u eid d).mono
  refine ⟨fun hdb => hdb.of_ownersFrom ?_, fun _ _ hi => hjobs.stage_le hi, hcursor,
    fun a' ha' => .inr ?_, fun e' he' => .inr (.inl ?_)⟩
  · intro j' hj' hheld
    obtain ⟨j, hj, hu, hh⟩ := held_before (hjobs j'.id) (Serial.mem_rows.mp hj') hheld
    exact ⟨j, (Serial.get?_eq_some.mp hj).1, Serial.key_of_get? hj, hu, hh⟩
  · obtain ⟨hdb, -⟩ | ⟨e, -, -, -, hround⟩ := Db.applyEffect_round cfg db u eid d
    · rw [hdb] at ha'
      exact attempts_of_facts hmat.attempts ha'
    · exact attempts_of_facts (hround.attemptFacts.trans hmat.attempts) ha'
  · have hold : ∀ x ∈ (db.materializeRuntime u).effects.rows, ∃ y ∈ db.effects.rows,
        y.jobId = x.jobId ∧
          ∀ seq k, Db.effectBeyond u seq k x = true → Db.effectBeyond u seq k y = true := by
      intro x hx
      rw [hmat.effects] at hx
      exact ⟨x, hx, rfl, fun _ _ => id⟩
    obtain ⟨hdb, -⟩ | ⟨e, he, hopen, -, hround⟩ := Db.applyEffect_round cfg db u eid d
    · rw [hdb] at he'
      exact hold e' he'
    · obtain rfl := (Indexed.find?_eq_some.mp he).2
      obtain ⟨hdb, -⟩ | ⟨e'', hw, -⟩ := hround.effect he hopen
      · rw [hdb] at he'
        exact hold e' he'
      · obtain ⟨x, hx, hjob, hsame⟩ := effects_of_write (u := u) hw hopen he'
        obtain ⟨y, hy, hjob', hsame'⟩ := hold x hx
        exact ⟨y, hy, hjob'.trans hjob, fun seq k hk => hsame' seq k (hsame seq k hk)⟩

end WriteStep

/-! ## The invariant -/

/-- What a turn knows: its row has been started, its cursor is not ahead of the stored one, and
while its job runs every write beyond the cursor is its own, if it may write. -/
structure WritingTurn.Ok (u : UserId) (db : Db) (k : JobId) (t : WritingTurn) : Prop where
  row : ∃ j, db.laneRow u .chat k = some j ∧ 2 ≤ j.status.stage
  since : ∀ seq, t.sinceSeq = some seq → seq ≤ (db.runtimeDoc u).replyCursorSeq
  alone : t.mayWrite = true → ∀ j, db.laneRow u .chat k = some j → j.status = .running →
    ∀ k', db.wroteBeyondCursor u k' = true → k' = k

theorem WritingTurn.Ok.congr {u : UserId} {db : Db} {k : JobId} {t t' : WritingTurn}
    (h : t.Ok u db k) (hsince : t'.sinceSeq = t.sinceSeq) (hbarrier : t'.barrier = t.barrier) :
    t'.Ok u db k := by
  refine ⟨h.row, by rw [hsince]; exact h.since, fun hmay => h.alone ?_⟩
  rw [WritingTurn.mayWrite, hbarrier] at hmay
  exact hmay

namespace MutationWorld

structure Inv (u : UserId) (w : MutationWorld) : Prop where
  owner : SingleOwner w.db
  keys : ForeignKeys w.db
  turns : ∀ k t, w.turns k = some t → t.Ok u w.db k
  one : Db.OneWriter u w.db

/-- The turn of `k` may write, and its job is running. -/
def MayWriteNow (u : UserId) (w : MutationWorld) (k : JobId) : Prop :=
  ∃ t j, w.turns k = some t ∧ t.mayWrite = true ∧ w.db.laneRow u .chat k = some j ∧
    j.status = .running

section Step

variable {cfg : Config} {u : UserId} {w : MutationWorld}

theorem Inv.running_unique (h : Inv u w) {k k' : JobId} {j j' : Job}
    (hj : w.db.laneRow u .chat k = some j) (hj' : w.db.laneRow u .chat k' = some j')
    (hrun : j.status = .running) (hrun' : j'.status = .running) :
    k = k' := by
  obtain ⟨hget, hlane⟩ := Db.laneRow_eq_some.mp hj
  obtain ⟨hget', hlane'⟩ := Db.laneRow_eq_some.mp hj'
  rw [← Serial.key_of_get? hget, ← Serial.key_of_get? hget']
  apply h.owner j j' (Serial.get?_eq_some.mp hget).1 (Serial.get?_eq_some.mp hget').1
  · rw [hrun]; rfl
  · rw [hrun']; rfl
  · rw [(Job.inLane_iff.mp hlane).1, (Job.inLane_iff.mp hlane').1]

/-- The step lemma: whatever a turn that may write now writes, and whatever the others do. -/
theorem Inv.writeStep (h : Inv u w) {writer : Option JobId} {db' : Db}
    (hs : WriteStep u writer w.db db') (hwriter : ∀ k, writer = some k → MayWriteNow u w k) :
    Inv u { w with db := db' } := by
  -- a write beyond the cursor belongs to any turn that may write now
  have halone : ∀ k, MayWriteNow u w k → ∀ k', db'.wroteBeyondCursor u k' = true → k' = k := by
    intro k ⟨t, j, ht, hmay, hj, hrun⟩ k' hk'
    obtain hold | hnew := hs.wrote h.keys hk'
    · exact (h.turns k t ht).alone hmay j hj hrun k' hold
    · obtain ⟨t', j', -, -, hj', hrun'⟩ := hwriter k' hnew
      exact h.running_unique hj' hj hrun' hrun
  constructor
  · exact hs.owner h.owner
  · apply hs.foreignKeys h.keys
    intro k hk
    obtain ⟨-, j, -, -, hj, -⟩ := hwriter k hk
    simp [(Db.laneRow_eq_some.mp hj).1]
  · intro k t ht
    obtain ⟨⟨i, hi, hstage⟩, hsince, -⟩ := h.turns k t ht
    obtain ⟨hget, hlane⟩ := Db.laneRow_eq_some.mp hi
    obtain ⟨j, hj, hsame, hle⟩ := hs.rows k i hget
    have hle := hle (Job.inLane_iff.mp hlane).2
    have hj' : db'.laneRow u .chat k = some j :=
      Db.laneRow_eq_some.mpr ⟨hj, by rw [hsame.inLane]; exact hlane⟩
    refine ⟨⟨j, hj', hstage.trans hle⟩, fun seq hseq => (hsince seq hseq).trans hs.cursor, ?_⟩
    intro hmay l hl hrun
    rw [hj'] at hl
    cases hl
    -- a started row that still runs was running before
    have hrun' : i.status = .running := by
      rw [hrun] at hle
      cases hs : i.status <;> simp_all [JobStatus.stage]
    exact halone k ⟨t, i, ht, hmay, hi, hrun'⟩
  · intro k k' hk hk'
    obtain hold | hnew := hs.wrote h.keys hk
    · obtain hold' | hnew' := hs.wrote h.keys hk'
      · exact h.one k k' hold hold'
      · exact halone k' (hwriter k' hnew') k hk
    · exact (halone k (hwriter k hnew) k' hk').symm

theorem Inv.quiet (h : Inv u w) {db' : Db} (hs : WriteStep u none w.db db') :
    Inv u { w with db := db' } :=
  h.writeStep hs fun _ hk => nomatch hk

variable {job : JobId}

theorem Inv.setTurn (h : Inv u w) {o : Option WritingTurn}
    (ho : ∀ t, o = some t → t.Ok u w.db job) : Inv u (w.setTurn job o) := by
  refine ⟨h.owner, h.keys, fun k t ht => ?_, h.one⟩
  by_cases hk : k = job
  · subst hk
    exact ho t (by simpa [MutationWorld.setTurn] using ht)
  · exact h.turns k t (by simpa [MutationWorld.setTurn, hk] using ht)

variable {t : WritingTurn}

section

variable (h : Inv u w)
include h

theorem mayWriteNow_of_fence (ht : w.turns job = some t) (hmay : t.mayWrite = true)
    (hfence : w.db.writeFenceHolds u (some job) t.worker = true) : MayWriteNow u w job := by
  obtain ⟨⟨j, hj, -⟩, -, -⟩ := h.turns job t ht
  have hget := (Db.laneRow_eq_some.mp hj).1
  simp only [Db.writeFenceHolds, Option.bind_some, hget, Option.any_some, Bool.and_eq_true,
    beq_iff_eq] at hfence
  exact ⟨t, j, ht, hmay, hj, hfence.1.1.2⟩

theorem load_inv (ht : w.turns job = some t) : Inv u (w.loadCursor u job t) := by
  unfold loadCursor
  split
  · apply h.setTurn
    rintro _ ⟨⟩
    have hok := h.turns job t ht
    refine ⟨hok.row, fun seq hseq => ?_, hok.alone⟩
    cases hseq
    exact Nat.le_refl _
  · exact h

/-- A turn that finds no barrier is alone: what is beyond the cursor now is beyond the one it
read. -/
theorem readBarrier_inv (ht : w.turns job = some t) : Inv u (w.loadBarrier u job t) := by
  have hok := h.turns job t ht
  unfold loadBarrier
  split
  · next since hsince _ =>
    apply h.setTurn
    rintro _ ⟨⟩
    refine ⟨hok.row, hok.since, fun hmay j _ _ k hk => ?_⟩
    have hnone : w.db.getChatMutationRecoveryBarrier u since (some job) = none := by
      simpa [WritingTurn.mayWrite] using hmay
    by_contra hne
    obtain ⟨hchat, hwrite⟩ := Db.wroteBeyondCursor_iff.mp hk
    have hle := hok.since since hsince
    have hbarrier : (w.db.getChatMutationRecoveryBarrier u since (some job)).isSome = true := by
      apply Db.barrier_isSome hchat hne
      obtain ⟨a, ha, hb⟩ | ⟨e, he, hb⟩ := hwrite
      · exact .inl ⟨a, ha, Db.attemptBeyond_mono hle hb⟩
      · exact .inr ⟨e, he, Db.effectBeyond_mono hle hb⟩
    rw [hnone] at hbarrier
    cases hbarrier
  · exact h

theorem start_inv (job : JobId) (worker : WorkerId) : Inv u (w.startTurn cfg u job worker) := by
  unfold startTurn
  split
  · next i db hrow hmark =>
    obtain hnot | ⟨i', hi', -, -, -, heq⟩ := Db.markRunning_cases cfg w.db job worker
    · rw [hnot] at hmark
      cases hmark
    · have hstep := Db.markRunning_step cfg w.db job worker
      rw [hmark] at hstep
      obtain rfl : w.db.updateJobs (fun j => j.id == job) (Db.startedRow cfg w.db.clock)
        (fun _ => rfl) = db := by
        rw [heq] at hmark
        exact (Prod.mk.inj hmark).1
      have hquiet := h.quiet (.of_rowsStep u hstep.rowsStep)
      apply hquiet.setTurn
      rintro _ ⟨⟩
      have hsame : ∀ j, SameJob j (Db.startedRow cfg w.db.clock j) :=
        fun _ => ⟨rfl, rfl, rfl, rfl, rfl⟩
      have hid : i.id = job := Db.id_of_laneRow hrow
      refine ⟨⟨Db.startedRow cfg w.db.clock i, ?_, Nat.le_refl _⟩, (fun _ hseq => nomatch hseq),
        (fun hmay => nomatch hmay)⟩
      refine (Db.laneRow_updateJobs fun j _ _ => hsame j).trans ?_
      simp [hrow, hid]
  · exact h

theorem renew_inv {ttl : Time} (ht : w.turns job = some t) : Inv u (w.renewForWrite job ttl t) := by
  have hstep := Db.renewJobLease_step w.db job t.worker ttl
  unfold renewForWrite
  split
  · next db hrenew =>
    rw [hrenew] at hstep
    have hquiet := h.quiet (.of_rowsStep u hstep.rowsStep)
    apply hquiet.setTurn
    rintro _ ⟨⟩
    exact (hquiet.turns job t ht).congr rfl rfl
  · exact h

theorem insertWrite_inv {effectId : String} {type : EffectType} {generation : Nat}
    {p : Option Payload} (ht : w.turns job = some t)
    (hfence : w.db.writeFenceHolds u (some job) t.worker = true) :
    Inv u (w.insertWrite u job effectId type generation p t) := by
  unfold insertWrite
  split
  · next hmay =>
    simp only [Bool.and_eq_true] at hmay
    have hnow := mayWriteNow_of_fence h ht hmay.1.1 hfence
    have hwrite := h.writeStep (WriteStep.of_insertEffect u w.db
      ⟨effectId, u, some job, type, generation, p,
        some t.inputFrontier⟩ (.inl ⟨rfl, rfl⟩)) (by rintro _ ⟨⟩; exact hnow)
    apply hwrite.setTurn
    rintro _ ⟨⟩
    exact (hwrite.turns job t ht).congr rfl rfl
  · exact h

theorem recordMcp_inv {callKey : String} (ht : w.turns job = some t) :
    Inv u (w.recordMcp u job callKey t) := by
  unfold recordMcp
  split
  · next hmay =>
    by_cases hfence : w.db.writeFenceHolds u (some job) t.worker = true
    · apply h.writeStep (WriteStep.of_startMcp w.db job u t.worker callKey t.inputFrontier)
      rintro _ ⟨⟩
      exact mayWriteNow_of_fence h ht hmay hfence
    · rw [Db.startMcpMutationAttempt, if_neg hfence]
      exact h
  · exact h

/-- Every label keeps the invariant, if platform writes keep to their claim. -/
theorem step_inv (l : MutationLabel) (hl : writesUnderClaim u w l = true) :
    Inv u (w.step cfg u l) := by
  have inTurn_inv : ∀ job (f : WritingTurn → MutationWorld),
      (∀ t, w.turns job = some t → Inv u (f t)) →
        Inv u (w.inTurn job f) := by
    intro job f hf
    unfold inTurn
    cases ht : w.turns job with
    | none => exact h
    | some t => exact hf t ht
  cases l with
  | txn t => exact h.quiet (.of_rowsStep u (Db.exec_step cfg w.db t))
  | claim p => exact h.quiet (.of_claim cfg u w.db p)
  | start job worker => exact start_inv h job worker
  | load job => exact inTurn_inv _ _ fun t ht => load_inv h ht
  | readBarrier job => exact inTurn_inv _ _ fun t ht => readBarrier_inv h ht
  | foldIn job through =>
    apply inTurn_inv
    intro t ht
    unfold foldInput
    split
    · apply h.setTurn
      rintro _ ⟨⟩
      exact (h.turns job t ht).congr rfl rfl
    · exact h
  | beforeWrite job ttl => exact inTurn_inv _ _ fun t ht => renew_inv h ht
  | enqueueWriteEffect job effectId type generation p =>
    apply inTurn_inv
    intro t ht
    simp only [writesUnderClaim, ht, Option.all_some] at hl
    exact insertWrite_inv h ht hl
  | mcpMutationStarted job callKey => exact inTurn_inv _ _ fun t ht => recordMcp_inv h ht
  | mcpMutationFinished job callKey outcome =>
    exact h.quiet (.of_finishMcp u w.db job callKey outcome)
  | enqueueEffect r =>
    simp only [step]
    split
    · next hr =>
      simp only [Bool.and_eq_true, Bool.not_eq_true'] at hr
      exact h.quiet (.of_insertEffect u w.db r (.inr hr))
    · exact h
  | apply effectId d =>
    simp only [step]
    split
    · exact h.quiet (.of_applyEffect cfg w.db u effectId d)
    · exact h
  | crash job => exact h.setTurn (by simp)

end

end Step

/-- Over every run in which platform writes are inserted under the claim of their turn, all chat
writes beyond the reply cursor are of one job. -/
theorem unreplied_writes_are_of_one_job (cfg : Config) (u : UserId) (db : Db)
    (howner : SingleOwner db) (hkeys : ForeignKeys db) (hone : Db.OneWriter u db)
    (ls : List MutationLabel)
    (hls : Along (step cfg u) (fun w l => writesUnderClaim u w l = true) (init db) ls) :
    Db.OneWriter u (run (step cfg u) (init db) ls).db := by
  have hstart : Inv u (init db) := ⟨howner, hkeys, (fun _ _ ht => nomatch ht), hone⟩
  have hinv : Inv u (run (step cfg u) (init db) ls) :=
    invariant (Inv u) (fun w l h hl => step_inv h l hl) hstart hls
  exact hinv.one

/-- The whole start of a chat turn: it reads cursor and barrier, takes up the input up to `through`,
and renews its lease for a write. -/
def readyToWrite (job : JobId) (worker : WorkerId) (through : Nat) : List MutationLabel :=
  [.claim ⟨worker, job, false⟩, .start job worker, .load job, .readBarrier job, .foldIn job through,
    .beforeWrite job 60000000]

/-- The turn of worker `"a"` is about to insert a write when its lease runs out and it is reaped.
The job of the next message finds no barrier and writes. -/
def reapedBeforeInsert : List MutationLabel :=
  [.txn (.advanceRuntimeState "u" .resident .draining),
    .txn (.advanceRuntimeState "u" .draining .v2),
      .txn (.chatAppendAndEnqueue (DrainWorld.userMessage "m1") fun _ => false)] ++
        readyToWrite 1 "a" 1 ++
  [.txn (.tick 1000000000000), .txn (.reapStuckJobRows none),
    .txn (.chatAppendAndEnqueue (DrainWorld.userMessage "m2") fun _ => false)] ++
      readyToWrite 2 "b" 2 ++
  [.enqueueWriteEffect 2 "e2" .memoryEncryptedV1 3 none]

/-- The insert of the reaped turn still lands: two jobs have written beyond the cursor. -/
theorem reaped_turn_writes_beside_its_successor :
    let w := run (step .default "u") (init (.init ["u"] ⟨false, none⟩))
      (reapedBeforeInsert ++ [.enqueueWriteEffect 1 "e1" .memoryEncryptedV1 3 none])
    ¬ Db.OneWriter "u" w.db := by
  intro w hone
  have hfirst : w.db.wroteBeyondCursor "u" 1 = true := by decide +kernel
  have hsecond : w.db.wroteBeyondCursor "u" 2 = true := by decide +kernel
  exact absurd (hone 1 2 hfirst hsecond) (by decide)

/-- Up to that insert every write is made under its claim, and the one writer is the second job. -/
theorem unreplied_writes_are_of_one_job_reaped_before_insert :
    let db := Db.init ["u"] ⟨false, none⟩
    let w := run (step .default "u") (init db) reapedBeforeInsert
    SingleOwner db ∧ ForeignKeys db ∧ Db.OneWriter "u" db ∧
      Along (step .default "u") (fun w l => writesUnderClaim "u" w l = true)
        (init db) reapedBeforeInsert ∧
      w.db.wroteBeyondCursor "u" 2 = true ∧ Db.OneWriter "u" w.db :=
  have howner : SingleOwner (.init ["u"] ⟨false, none⟩) := fun _ _ hj => nomatch hj
  have hkeys : ForeignKeys (.init ["u"] ⟨false, none⟩) :=
    ⟨(fun _ ha => nomatch ha), (fun _ he => nomatch he)⟩
  have hone : Db.OneWriter "u" (.init ["u"] ⟨false, none⟩) := fun _ _ hk => nomatch hk
  have hls : Along (step .default "u") (fun w l => writesUnderClaim "u" w l = true)
      (init (.init ["u"] ⟨false, none⟩)) reapedBeforeInsert := by decide +kernel
  ⟨howner, hkeys, hone, hls, by decide +kernel,
    unreplied_writes_are_of_one_job .default "u" (.init ["u"] ⟨false,
      none⟩) howner hkeys hone reapedBeforeInsert hls⟩

end MutationWorld

end Feedling
