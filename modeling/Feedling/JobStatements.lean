import Mathlib.Logic.Relation
import Feedling.ChatLog

/-!
# What a queue statement can do to a row

Every transaction of the queue is a sequence of statements, and each statement changes a row of
`agent_jobs` in one of six ways. `RowStmt` lists them with the guard each of them carries.
`QueueStep` says that a transaction changes every row by such statements and leaves the tables
outside the queue alone; it is a preorder, so a transaction is proved by composing its parts.

Three transactions fall outside `QueueStep`: the claim, the retirement of a job whose user left
`v2`, and `reschedule_owned_job`. Each is one update of one row and is described by itself.
-/

namespace Feedling

open KeyedTable

/-- The columns no statement rewrites. -/
structure SameJob (i j : Job) : Prop where
  id : j.id = i.id
  userId : j.userId = i.userId
  lane : j.lane = i.lane
  reason : j.reason = i.reason
  traceId : j.traceId = i.traceId

theorem SameJob.refl (j : Job) : SameJob j j := ⟨rfl, rfl, rfl, rfl, rfl⟩

theorem SameJob.trans {i j k : Job} (h : SameJob i j) (h' : SameJob j k) : SameJob i k :=
  ⟨h'.id.trans h.id, h'.userId.trans h.userId, h'.lane.trans h.lane, h'.reason.trans h.reason,
    h'.traceId.trans h.traceId⟩

/-- The lanes whose whole turn may be replayed only while nothing was written. -/
def replayGuarded : Lane → Bool
  | .scheduled | .heartbeat | .manualWake | .screenWatch => true
  | _ => false

/-- One statement on one row. `pristine` tells for each job whether it has no write on record. -/
inductive RowStmt (pristine : JobId → Bool) : Option Job → Option Job → Prop where
  | insert (j : Job) : j.status = .pending → j.claimedBy = none → RowStmt pristine none (some j)
  | coalesce (j : Job) : j.status.active = true →
      RowStmt pristine (some j) (some { j with inputGeneration := j.inputGeneration + 1 })
  | start (j : Job) (now lease : Time) : j.status = .claimed →
      RowStmt pristine (some j) (some { j with
        status := .running, startedAt := some now, leaseExpiresAt := some lease,
        deadlineAt := some lease })
  | renew (j : Job) (lease : Time) : j.status.held = true →
      RowStmt pristine (some j)
        (some { j with leaseExpiresAt := some lease, deadlineAt := some lease })
  | finish (i j : Job) : SameJob i j → i.status.active = true → j.status.active = false →
      RowStmt pristine (some i) (some j)
  | requeue (i j : Job) : SameJob i j → i.status.active = true → j.status = .pending →
      j.claimedBy = none →
      i.lane ≠ .chat → (replayGuarded i.lane = true → i.status.held = true → pristine i.id = true) →
      RowStmt pristine (some i) (some j)

def JobsRun (pristine : JobId → Bool) (t t' : Serial Job.id) : Prop :=
  ∀ k, Relation.ReflTransGen (RowStmt pristine) (t.get? k) (t'.get? k)

namespace JobsRun

variable {pristine : JobId → Bool} {t t' t'' : Serial Job.id}

theorem refl (t : Serial Job.id) : JobsRun pristine t t := fun _ => .refl

theorem trans (h : JobsRun pristine t t') (h' : JobsRun pristine t' t'') : JobsRun pristine t t'' :=
  fun k => (h k).trans (h' k)

theorem modify {p : Job → Bool} {f : Job → Job} (hf : ∀ j, (f j).id = j.id)
    (h : ∀ j, t.get? j.id = some j → p j = true → RowStmt pristine (some j) (some (f j))) :
    JobsRun pristine t (t.modify p f hf) := by
  intro k
  rw [Serial.get?_modify]
  cases hk : t.get? k with
  | none => exact .refl
  | some j =>
    have hj : t.get? j.id = some j := by rw [Serial.key_of_get? hk]; exact hk
    by_cases hp : p j = true
    · simpa [hp] using Relation.ReflTransGen.single (h j hj hp)
    · simpa [hp] using Relation.ReflTransGen.refl

theorem insert {mk : JobId → Job} (hk : ∀ n, (mk n).id = n) (hs : (mk t.next).status = .pending)
    (hc : (mk t.next).claimedBy = none) : JobsRun pristine t (t.insert mk hk) := by
  intro k
  rw [Serial.get?_insert]
  split
  · next h =>
    subst h
    rw [Serial.get?_of_next_le (Nat.le_refl _)]
    exact .single (.insert _ hs hc)
  · exact .refl

end JobsRun

theorem RowStmt.sameJob {pristine : JobId → Bool} {i : Job} {o : Option Job}
    (h : RowStmt pristine (some i) o) : ∃ j, o = some j ∧ SameJob i j := by
  cases h with
  | coalesce | start | renew => exact ⟨_, rfl, ⟨rfl, rfl, rfl, rfl, rfl⟩⟩
  | finish _ _ hs | requeue _ _ hs => exact ⟨_, rfl, hs⟩

theorem JobsRun.sameJob {pristine : JobId → Bool} {t t' : Serial Job.id} (h : JobsRun pristine t t')
    {k : JobId} {i : Job} (hi : t.get? k = some i) : ∃ j, t'.get? k = some j ∧ SameJob i j := by
  have hk := h k
  rw [hi] at hk
  generalize t'.get? k = o at hk
  induction hk with
  | refl => exact ⟨i, rfl, .refl i⟩
  | tail _ hstep ih =>
    obtain ⟨j, rfl, hj⟩ := ih
    obtain ⟨j', rfl, hj'⟩ := hstep.sameJob
    exact ⟨j', rfl, hj.trans hj'⟩

/-- What a remote write on record says whatever its outcome: job, call, user and frontier. -/
def Db.attemptFacts (db : Db) : List ((JobId × String) × UserId × Nat) :=
  db.attempts.rows.map fun a => (a.key, a.userId, a.inputFrontierSeq)

/-- One statement of the queue on one review: it is opened for a user on `v2`, or its runner gives
it back. -/
inductive ReviewStmt (v2 : UserId → Bool) : Option Review → Option Review → Prop where
  | insert (r : Review) : r.status = .pending → r.attemptCount = 0 → v2 r.userId = true →
      ReviewStmt v2 none (some r)
  | release (r : Review) : r.status = .running → ReviewStmt v2 (some r) (some (Db.releaseReview r))

def Db.jobUser (db : Db) (k : JobId) : Option UserId := (db.jobs.get? k).map (·.userId)

/-- Reviews change by statements, the ceiling is kept, a new stream is empty, and new rows are the
user's own. -/
structure ReviewsStep (db db' : Db) : Prop where
  rows : ∀ k, Relation.ReflTransGen (ReviewStmt db.isV2) (db.reviews.get? k) (db'.reviews.get? k)
  ceiling : db'.openReviews ≤ max db.openReviews db.reviewEnv.trajectoryReviewAdmissionCap
  owners : ∀ k r, db'.reviews.get? k = some r →
    (db.reviews.get? k).map (·.userId) = some r.userId ∨ db'.jobUser k = some r.userId
  streams : ∀ k, db'.streams.get? k = db.streams.get? k ∨
    db.streams.get? k = none ∧ ∃ u, db'.jobUser k = some u ∧ db'.streams.get? k = some ⟨k, u, 0⟩

namespace ReviewsStep

variable {db db' db'' : Db}

theorem of_eq (hreviews : db'.reviews = db.reviews) (hstreams : db'.streams = db.streams) :
    ReviewsStep db db' where
  rows k := by rw [hreviews]
  ceiling := by
    rw [Db.openReviews, hreviews]
    exact Nat.le_max_left _ _
  owners k r hr := .inl (by rw [← hreviews, hr]; rfl)
  streams k := .inl (by rw [hstreams])

theorem trans (h : ReviewsStep db db') (h' : ReviewsStep db' db'') (hv2 : db'.isV2 = db.isV2)
    (henv : db'.reviewEnv = db.reviewEnv)
    (husers : ∀ k u, db'.jobUser k = some u → db''.jobUser k = some u) :
    ReviewsStep db db'' where
  rows k := (h.rows k).trans (hv2 ▸ h'.rows k)
  ceiling := by
    have h1 := h.ceiling
    have h2 := h'.ceiling
    rw [henv] at h2
    omega
  owners k r hr := by
    obtain hold | hnew := h'.owners k r hr
    · obtain ⟨r', hr', hu⟩ := Option.map_eq_some_iff.mp hold
      obtain hold | hnew := h.owners k r' hr'
      · exact .inl (hu ▸ hold)
      · exact .inr (husers k _ (hu ▸ hnew))
    · exact .inr hnew
  streams k := by
    obtain h1 | ⟨hnone, u, hu, hnew⟩ := h.streams k
    · obtain h2 | ⟨hnone, hnew⟩ := h'.streams k
      · exact .inl (h2.trans h1)
      · exact .inr ⟨h1 ▸ hnone, hnew⟩
    · obtain h2 | ⟨hnone', -⟩ := h'.streams k
      · exact .inr ⟨hnone, u, husers k u hu, h2.trans hnew⟩
      · rw [hnew] at hnone'
        cases hnone'

end ReviewsStep

/-- A transaction of the queue: rows change by statements, and nothing else moves but the side
tables of the queue (failures, reviews, streams, outcomes of remote writes). -/
structure QueueStep (db db' : Db) : Prop where
  rows : JobsRun db.turnIsPristine db.jobs db'.jobs
  pristine : db'.turnIsPristine = db.turnIsPristine
  attempts : db'.attemptFacts = db.attemptFacts
  clock : db'.clock = db.clock
  users : db'.users = db.users
  runtime : db'.runtime = db.runtime
  runtimeDoc : db'.runtimeDoc = db.runtimeDoc
  voiceStatus : db'.voiceStatus = db.voiceStatus
  chat : db'.chat = db.chat
  effects : db'.effects = db.effects
  events : db'.events = db.events
  reviewEnv : db'.reviewEnv = db.reviewEnv
  reviews : ReviewsStep db db'

namespace QueueStep

theorem isV2 {db db' : Db} (h : QueueStep db db') : db'.isV2 = db.isV2 := by
  funext u
  rw [Db.isV2, Db.isV2, h.runtime]

theorem jobUser {db db' : Db} (h : QueueStep db db') {k : JobId} {u : UserId}
    (hu : db.jobUser k = some u) : db'.jobUser k = some u := by
  obtain ⟨j, hj, rfl⟩ := Option.map_eq_some_iff.mp hu
  obtain ⟨j', hj', hsame⟩ := h.rows.sameJob hj
  rw [Db.jobUser, hj', Option.map_some, hsame.userId]

theorem refl (db : Db) : QueueStep db db :=
  ⟨.refl _, rfl, rfl, rfl, rfl, rfl, rfl, rfl, rfl, rfl, rfl, rfl, .of_eq rfl rfl⟩

theorem trans {db db' db'' : Db} (h : QueueStep db db') (h' : QueueStep db' db'') :
    QueueStep db db'' where
  rows := h.rows.trans (h.pristine ▸ h'.rows)
  pristine := h'.pristine.trans h.pristine
  attempts := h'.attempts.trans h.attempts
  clock := h'.clock.trans h.clock
  users := h'.users.trans h.users
  runtime := h'.runtime.trans h.runtime
  runtimeDoc := h'.runtimeDoc.trans h.runtimeDoc
  voiceStatus := h'.voiceStatus.trans h.voiceStatus
  chat := h'.chat.trans h.chat
  effects := h'.effects.trans h.effects
  events := h'.events.trans h.events
  reviewEnv := h'.reviewEnv.trans h.reviewEnv
  reviews := h.reviews.trans h'.reviews h.isV2 h.reviewEnv fun _ _ => h'.jobUser

theorem foldl {β : Type} {f : Db → β → Db} (hf : ∀ db b, QueueStep db (f db b)) (db : Db)
    (bs : List β) : QueueStep db (bs.foldl f db) := by
  induction bs generalizing db with
  | nil => exact refl db
  | cons b bs ih => exact (hf db b).trans (ih (f db b))

end QueueStep

namespace Db

/-! ## The statements -/

variable {f : Job → Job} (db : Db) (p : JobId → Bool) (job runner source : JobId)

theorem updateJobs_step {db : Db} {p : Job → Bool} {hf : ∀ j, (f j).id = j.id}
    (h : ∀ j, db.jobs.get? j.id = some j → p j = true →
      RowStmt db.turnIsPristine (some j) (some (f j))) : QueueStep db (db.updateJobs p f hf) :=
  ⟨.modify hf h, rfl, rfl, rfl, rfl, rfl, rfl, rfl, rfl, rfl, rfl, rfl, .of_eq rfl rfl⟩

theorem insertJob_step {db : Db} {mk : JobId → Job} {hk : ∀ n, (mk n).id = n}
    (hs : (mk db.jobs.next).status = .pending) (hc : (mk db.jobs.next).claimedBy = none) :
    QueueStep db (db.insertJob mk hk) :=
  ⟨.insert hk hs hc, rfl, rfl, rfl, rfl, rfl, rfl, rfl, rfl, rfl, rfl, rfl, .of_eq rfl rfl⟩

theorem releaseReviews_step :
    QueueStep db
      (db.updateReviews (reviewsHeldBy runner) releaseReview releaseReview_sourceJobId) := by
  refine ⟨.refl _, rfl, rfl, rfl, rfl, rfl, rfl, rfl, rfl, rfl, rfl, rfl,
    ⟨fun k => ?_, ?_, fun k r hr => .inl ?_, fun _ => .inl rfl⟩⟩
  · rw [updateReviews, Table.get?_modify]
    cases hr : db.reviews.get? k with
    | none => exact .refl
    | some r =>
      by_cases hheld : reviewsHeldBy runner r = true
      · have hrunning : r.status = .running := by
          simp only [reviewsHeldBy, Bool.and_eq_true, beq_iff_eq] at hheld
          exact hheld.2
        simpa [hheld] using Relation.ReflTransGen.single (ReviewStmt.release r hrunning)
      · simpa [hheld] using Relation.ReflTransGen.refl
  · refine Nat.le_trans ?_ (Nat.le_max_left _ _)
    simp only [openReviews, updateReviews, Table.modify, List.countP_map]
    apply List.countP_mono_left
    intro r _ hopen
    by_cases hheld : reviewsHeldBy runner r = true
    · have hrunning : r.status = .running := by
        simp only [reviewsHeldBy, Bool.and_eq_true, beq_iff_eq] at hheld
        exact hheld.2
      rw [hrunning]
      rfl
    · simpa [hheld] using hopen
  · rw [updateReviews, Table.get?_modify] at hr
    obtain ⟨r', hr', rfl⟩ := Option.map_eq_some_iff.mp hr
    rw [hr', Option.map_some, apply_ite Review.userId, releaseReview_userId, ite_self]

theorem settleAttempts_pristine :
    (db.settleAttempts p).turnIsPristine = db.turnIsPristine := by
  funext job
  have hrows : (db.settleAttempts p).attempts.rows.any (fun a => a.jobId == job)
      = db.attempts.rows.any (fun a => a.jobId == job) := by
    simp only [settleAttempts, Table.modify, List.any_map]
    congr 1
    funext a
    show ((if (p a.jobId && a.outcome.isNone) = true then _ else a).jobId == job) = (a.jobId == job)
    split <;> rfl
  simp only [turnIsPristine, hrows]
  rfl

theorem settleAttempts_facts : (db.settleAttempts p).attemptFacts = db.attemptFacts := by
  have hsame : ∀ a : McpAttempt, (({ a with outcome := some .unknown } : McpAttempt).key,
      ({ a with outcome := some .unknown } : McpAttempt).userId,
      ({ a with outcome := some .unknown } : McpAttempt).inputFrontierSeq)
      = (a.key, a.userId, a.inputFrontierSeq) := fun _ => rfl
  exact map_key_modify hsame _ _

theorem settleAttempts_step : QueueStep db (db.settleAttempts p) :=
  ⟨.refl _, settleAttempts_pristine db p, settleAttempts_facts db p, rfl, rfl, rfl, rfl, rfl, rfl,
    rfl, rfl, rfl, .of_eq rfl rfl⟩

theorem queueTerminalFailure_step (u : UserId) :
    QueueStep db (db.queueTerminalFailure job u) := by
  unfold queueTerminalFailure
  split
  · split
    · exact ⟨.refl _, rfl, rfl, rfl, rfl, rfl, rfl, rfl, rfl, rfl, rfl, rfl, .of_eq rfl rfl⟩
    · exact .refl db
  · exact .refl db

/-! ## The review helpers -/

theorem ensureReviewRunner_step (u : UserId) : QueueStep db (db.ensureReviewRunner u) := by
  unfold ensureReviewRunner
  split
  · split
    · exact insertJob_step rfl rfl
    · exact .refl db
  · exact .refl db

theorem materializeStream_step : QueueStep db (db.materializeStream source) := by
  unfold materializeStream
  split
  · next j hj =>
    refine ⟨.refl _, rfl, rfl, rfl, rfl, rfl, rfl, rfl, rfl, rfl, rfl, rfl,
      ⟨fun _ => .refl, Nat.le_max_left _ _, fun k r hr => .inl (by rw [hr]; rfl), ?_⟩⟩
    intro k
    rw [Table.get?_insert]
    by_cases hk : db.streams.get? k = none ∧ j.id = k
    · rw [if_pos hk]
      obtain ⟨hnone, rfl⟩ := hk
      have hself : db.jobs.get? j.id = some j := by rw [Serial.key_of_get? hj]; exact hj
      exact .inr ⟨hnone, j.userId, by simp [jobUser, hself], rfl⟩
    · rw [if_neg hk]
      exact .inl rfl
  · exact .refl db

theorem insertReview_step {db : Db} {r : Review} (hpending : r.status = .pending)
    (hcount : r.attemptCount = 0) (hv2 : db.isV2 r.userId = true)
    (hroom : db.reviewAdmissionAvailable = true)
    (howner : db.jobUser r.sourceJobId = some r.userId) :
    QueueStep db { db with reviews := db.reviews.insert r } := by
  refine ⟨.refl _, rfl, rfl, rfl, rfl, rfl, rfl, rfl, rfl, rfl, rfl, rfl,
    ⟨fun k => ?_, ?_, fun k r' hr' => ?_, fun _ => .inl rfl⟩⟩
  · rw [Table.get?_insert]
    by_cases hk : db.reviews.get? k = none ∧ r.sourceJobId = k
    · rw [if_pos hk, hk.1]
      exact .single (.insert r hpending hcount hv2)
    · rw [if_neg hk]
  · have hlt := of_decide_eq_true ((Bool.and_eq_true _ _).mp hroom).2
    rw [openReviews] at hlt
    simp only [openReviews, Table.insert]
    split
    · exact Nat.le_max_left _ _
    · rw [List.countP_append]
      have hone : List.countP (fun r : Review => r.status.isOpen) [r] ≤ 1 := List.countP_le_length
      omega
  · rw [Table.get?_insert] at hr'
    by_cases hk : db.reviews.get? k = none ∧ r.sourceJobId = k
    · rw [if_pos hk] at hr'
      cases hr'
      exact .inr (hk.2 ▸ howner)
    · rw [if_neg hk] at hr'
      exact .inl (by rw [hr']; rfl)

theorem queueFailureReview_step : QueueStep db (db.queueFailureReview source) := by
  refine (materializeStream_step db source).trans ?_
  unfold queueFailureReview
  dsimp only
  split
  · next hroom =>
    split
    · next j hj =>
      split
      · next hreviewable =>
        simp only [reviewable, Bool.and_eq_true] at hreviewable
        have hself : (db.materializeStream source).jobs.get? j.id = some j := by
          rw [Serial.key_of_get? hj]
          exact hj
        refine (insertReview_step rfl rfl hreviewable.1.2 hroom ?_).trans
          (ensureReviewRunner_step _ _)
        simp [jobUser, hself]
      · exact .refl _
    · exact .refl _
  · exact .refl _

theorem recoverReviewRunner_step : QueueStep db (db.recoverReviewRunner runner) := by
  unfold recoverReviewRunner
  split
  · split
    · exact (releaseReviews_step db runner).trans
        (.foldl (fun d (r : Review) => ensureReviewRunner_step d r.userId) _ _)
    · exact .refl db
  · exact .refl db

/-! ## Rows that were read -/

theorem updateRow_step {db : Db} {i : Job} {hf : ∀ j, (f j).id = j.id}
    (hi : db.jobs.get? i.id = some i) (h : RowStmt db.turnIsPristine (some i) (some (f i))) :
    QueueStep db (db.updateJobs (fun j => j.id == i.id) f hf) := by
  refine updateJobs_step fun j hj hp => ?_
  rw [beq_iff_eq] at hp
  rw [hp, hi] at hj
  obtain rfl : i = j := by simpa using hj
  exact h

theorem activeRow_spec {db : Db} {u : UserId} {lane : Lane} {j : Job}
    (h : db.activeRow u lane = some j) :
    db.jobs.get? j.id = some j ∧ j.userId = u ∧ j.lane = lane ∧ j.status.active = true := by
  obtain ⟨hg, hp⟩ := Serial.get?_of_find? h
  simp only [Bool.and_eq_true, beq_iff_eq] at hp
  exact ⟨hg, hp.1.1, hp.1.2, hp.2⟩

theorem updateOwned_cases (guard : Job → Bool) (f : Job → Job)
    (hf : ∀ j, (f j).id = j.id) :
    (∃ i, db.jobs.get? job = some i ∧ guard i = true ∧
      db.updateOwned job guard f hf = (db.updateJobs (fun j => j.id == i.id) f hf, true)) ∨
    db.updateOwned job guard f hf = (db, false) := by
  unfold updateOwned
  split
  · next h =>
    obtain ⟨i, hi, hg⟩ := (Option.any_eq_true _ _).mp h
    exact .inl ⟨i, hi, hg, by rw [Serial.key_of_get? hi]⟩
  · exact .inr rfl

theorem held_of_ownedBy {now : Time} {w : WorkerId} {j : Job} (h : ownedBy now w j = true) :
    j.status.held = true := by
  simp only [ownedBy, Bool.and_eq_true] at h
  exact h.1.2

/-- The row that `mark_running` writes. -/
def startedRow (cfg : Config) (now : Time) (j : Job) : Job :=
  { j with status := .running, startedAt := some now, leaseExpiresAt := some (now + cfg.runningTtl)
           deadlineAt := some (now + cfg.runningTtl) }

/-- `mark_running` succeeds on the claimed row of the caller, pinned to the current generation. -/
theorem markRunning_cases (cfg : Config) (db : Db) (job : JobId) (w : WorkerId) :
    markRunning cfg db job w = (db, false) ∨
    ∃ i, db.jobs.get? job = some i ∧ db.pinsCurrent i = true ∧ i.status = .claimed ∧
      i.claimedBy = some w ∧ markRunning cfg db job w =
        (db.updateJobs (fun j => j.id == job) (startedRow cfg db.clock) fun _ => rfl, true) := by
  unfold markRunning updateOwned
  split
  · next h =>
    obtain ⟨i, hi, hg⟩ := (Option.any_eq_true _ _).mp h
    simp only [Bool.and_eq_true, beq_iff_eq] at hg
    exact .inr ⟨i, hi, hg.1.1.1, hg.1.1.2, hg.2, rfl⟩
  · exact .inl rfl

theorem reconcileFailureReviewRunners_step {db db' : Db} {limit : Nat}
    (h : db.reconcileFailureReviewRunners limit = some db') : QueueStep db db' := by
  unfold reconcileFailureReviewRunners at h
  split at h
  · split at h
    · cases h; exact .foldl ensureReviewRunner_step _ _
    · cases h; exact .refl db
  · cases h

end Db

/-! ## Clearing the chat history of a user

`chat_clear` is one transaction. It bumps the runtime generation, takes every active job and open
review of the user out of the hands of its owner, and deletes what was derived from the chat: the
messages, the pending effects, the writes on record and the failures that wait for delivery. Jobs,
reviews and trajectories stay as records. -/

/-- An active job that the clear ends. -/
def Job.cleared (now : Time) (j : Job) : Job :=
  { j with status := .superseded, lastError := some "chat_history_cleared", claimedBy := none
           leaseExpiresAt := none, finishedAt := some (j.finishedAt.getD now) }

def Review.cleared (r : Review) : Review :=
  { r with status := .failed, claimedByJobId := none, lastError := some "chat_history_cleared" }

namespace Db

def clears (u : UserId) (j : Job) : Bool := j.userId == u && j.status.active

/-- `chat_clear`. A missing reply cursor reads as `0`. -/
def chatClear (db : Db) (u : UserId) : Db :=
  let runtime := (db.materializeRuntime u).runtime
  { db with
    runtime := put runtime u ((runtime u).map fun s => { s with generation := s.generation + 1 })
    jobs := db.jobs.modify (clears u) (Job.cleared db.clock) fun _ => rfl
    reviews :=
      db.reviews.modify (fun r => r.userId == u && r.status.isOpen) Review.cleared fun _ => rfl
    failures := db.failures.erase fun f => f.userId == u
    effects := db.effects.erase fun e => e.userId == u
    attempts := db.attempts.erase fun a => a.userId == u
    chat := db.chat.erase fun m => m.userId == u
    runtimeDoc := put db.runtimeDoc u { db.runtimeDoc u with replyCursorSeq := 0 } }

variable {db : Db} {u : UserId}

theorem get?_chatClear (k : JobId) :
    (db.chatClear u).jobs.get? k = (db.jobs.get? k).map fun j => if clears u j then
    j.cleared db.clock else j :=
  Serial.get?_modify db.jobs (clears u) (Job.cleared db.clock) (fun _ => rfl) k

theorem get?_reviews_chatClear (k : JobId) :
    (db.chatClear u).reviews.get? k =
      (db.reviews.get? k).map fun r => if r.userId == u && r.status.isOpen then r.cleared else r :=
  Table.get?_modify db.reviews (fun r => r.userId == u && r.status.isOpen) Review.cleared
    (fun _ => rfl) k

end Db

end Feedling
