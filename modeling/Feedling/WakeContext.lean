import Feedling.ChatLane

/-!
# Perception context of a heartbeat

Producers attach context rows to the heartbeat job that is in flight, and one row is one more input
generation of the job. The worker reads the rows with the generation, and hands what came later to
a successor when it finishes. The hand-over goes through a marker in the user's schedule row.
-/

namespace Feedling

open KeyedTable

/-- A row of `user_logs` in the stream `v2_perception_wake_context`; `jobId` is its `item_key`. -/
structure ContextRow where
  seq : Nat
  jobId : JobId
  doc : String
  deriving DecidableEq, Repr

/-- The follow-up columns of `v2_wake_schedule`. -/
structure FollowupMarker where
  generation : Option Nat := none
  sourceJobId : Option JobId := none
  consumedContextSeq : Option Nat := none
  deriving DecidableEq, Repr

/-- The database with the context rows and the marker of one user. -/
structure WakeDb where
  db : Db
  context : Serial ContextRow.seq
  marker : FollowupMarker

namespace WakeDb

/-- `item_key=job AND seq > consumed`. -/
def lateRow (job : JobId) (consumed : Nat) (r : ContextRow) : Bool :=
  r.jobId == job && decide (consumed < r.seq)

/-- `enqueue_job_with_context_log`. -/
def enqueueJobWithContextLog (cfg : Config) (s : WakeDb) (e : Db.Enqueue) (contextDoc : String) :
    WakeDb × JobId × Bool :=
  let (db, job, coalesced) := s.db.enqueueJobWithContextLog cfg e
  ({ s with db := db, context := s.context.insert (fun n => ⟨n, job, contextDoc⟩) fun _ => rfl },
      job, coalesced)

/-- `read_v2_wake_context`: the newest rows, oldest first, with the generation of the job. -/
def readV2WakeContext (s : WakeDb) (job : JobId) (limit : Nat) : List ContextRow × Nat :=
  let attached := s.context.rows.filter fun r => r.jobId == job
  let safeLimit := max 1 (min limit 10)
  (attached.drop (attached.length - safeLimit),
      ((s.db.jobs.get? job).map (·.inputGeneration)).getD 0)

/-- `get_input_generation`. -/
def getInputGeneration (s : WakeDb) (job : JobId) (w : WorkerId) : Option Nat :=
  (s.db.jobs.get? job).bind fun j => if Db.ownedBy s.db.clock w j then some j.inputGeneration
    else none

/-- `_set_followup_marker_on_cursor`; `none` if it raises. -/
def setFollowupMarker (s : WakeDb) (source : JobId) (consumedContextSeq generation : Nat) :
    Option WakeDb :=
  if s.marker.sourceJobId.any (· != source) then none
  else if s.marker.consumedContextSeq.any (· != consumedContextSeq) then none
  else some { s with marker := ⟨some (max 1 generation), some source, some consumedContextSeq⟩ }

/-- `_merge_followup_marker_on_cursor`; `none` if it raises. -/
def mergeFollowupMarker (s : WakeDb) (successor : JobId) : Option WakeDb :=
  match s.marker.sourceJobId with
  | none => none
  | some source =>
    let consumed := s.marker.consumedContextSeq.getD 0
    let generation := max 1 (s.marker.generation.getD 1)
    if s.context.rows.countP (lateRow source consumed) = 0 then none
    else
      some
        { db := s.db.updateJobs (fun j => j.id == successor)
            (fun j => { j with inputGeneration := j.inputGeneration + generation }) fun _ => rfl
          context := s.context.modify (lateRow source consumed)
            (fun r => { r with jobId := successor }) fun _ => rfl
          marker := {} }

/-- `late_context_count > 0`. -/
def hasLateContext (s : WakeDb) (job : JobId) (consumed : Nat) : Bool :=
  decide (0 < s.context.rows.countP (lateRow job consumed))

/-- The end of `finish_wake_job` for input that arrived after the observed generation. -/
def handOver (s : WakeDb) (j : Job) (observedGeneration consumedContextSeq : Nat) :
    Option (WakeDb × JobId) :=
  let successor := s.db.jobs.next
  let inserted (s : WakeDb) : WakeDb :=
    { s with db := s.db.insertSuccessor j "coalesced_perception_followup" none
               (j.expectedRuntimeGeneration.getD 0) 0 }
  if s.hasLateContext j.id consumedContextSeq then
    ((s.setFollowupMarker j.id consumedContextSeq (j.inputGeneration - observedGeneration)).bind
        fun s =>
      (inserted s).mergeFollowupMarker successor).map fun s => (s, successor)
  else some (inserted s, successor)

/-- `finish_wake_job`: success and the successor; `none` if it raises. -/
def finishWakeJob (s : WakeDb) (job : JobId) (w : WorkerId)
    (observedGeneration consumedContextSeq : Nat) : Option (WakeDb × Bool × Option JobId) :=
  match s.db.jobs.get? job with
  | some j =>
    if s.db.pinsCurrent j && j.claimedBy == some w && j.lane == .heartbeat then
      if j.status == .completed then some (s, true, none)
      else if j.status.held && j.leaseLive s.db.clock then
        let done := { s with db := s.db.completeJob job }
        if observedGeneration < j.inputGeneration then
          (done.handOver j observedGeneration consumedContextSeq).map fun (s, successor) =>
            (s, true, some successor)
        else some (done, true, none)
      else some (s, false, none)
    else some (s, false, none)
  | none => some (s, false, none)

end WakeDb

/-! ## What a producer does to the jobs -/

namespace Db

/-- The row kept its lane, and while it is owned it has got `n` more inputs. -/
structure Fed (n : Nat) (i j : Job) : Prop where
  lane : j.lane = i.lane
  held : j.status.held = true → i.status.held = true ∧ j.inputGeneration = i.inputGeneration + n

variable {db : Db} {k : JobId} {i : Job}

theorem Fed.refl (i : Job) : Fed 0 i i := ⟨rfl, fun h => ⟨h, rfl⟩⟩

theorem get?_insertJob_of_some {mk : JobId → Job} {hk : ∀ n, (mk n).id = n}
    (hi : db.jobs.get? k = some i) : (db.insertJob mk hk).jobs.get? k = some i := by
  show (db.jobs.insert mk hk).get? k = some i
  rw [Serial.get?_insert, if_neg (Nat.ne_of_lt (Serial.lt_next hi))]
  exact hi

/-- Every row of another lane than the reviews is there, and no owned one got an input. -/
def Unfed (db db' : Db) : Prop :=
  ∀ k i, db.jobs.get? k = some i → i.lane ≠ .trajectoryReview → ∃ j, db'.jobs.get? k = some j ∧
    Fed 0 i j

theorem Fed.of_ended {j : Job} (hlane : j.lane = i.lane) (hended : j.status.held = false) :
    Fed 0 i j := by
  refine ⟨hlane, fun hheld => ?_⟩
  rw [hended] at hheld
  cases hheld

theorem Unfed.updateRow (db : Db) {job : JobId} {f : Job → Job} {hf : ∀ j, (f j).id = j.id}
    (h : ∀ i, db.jobs.get? job = some i → Fed 0 i (f i)) :
    Unfed db (db.updateJobs (fun j => j.id == job) f hf) := by
  intro k i hi _
  refine ⟨if i.id == job then f i else i, by rw [updateJobs, Serial.get?_modify, hi]; rfl, ?_⟩
  by_cases hsame : (i.id == job) = true
  · rw [if_pos hsame]
    have hk : k = job := (Serial.key_of_get? hi).symm.trans (beq_iff_eq.mp hsame)
    exact h i (hk ▸ hi)
  · rw [if_neg hsame]
    exact .refl i

/-- An enqueue joins the row that is in flight, or inserts a new one and may end a stale one. -/
theorem coalesceOrInsert_cases (cfg : Config) (db : Db) (e : Enqueue) (trace : Option String)
    (priority : Nat) :
    (∃ db', Unfed db db' ∧
      coalesceOrInsert cfg db e trace priority = insertPending cfg db' e trace priority) ∨
      ∃ existing, db.activeRow e.userId e.lane = some existing ∧
        coalesceOrInsert cfg db e trace priority = (db.coalesceInto existing.id, existing.id,
          true) := by
  unfold coalesceOrInsert
  cases hrow : db.activeRow e.userId e.lane with
  | none => exact .inl ⟨db, fun k i hi _ => ⟨i, hi, .refl i⟩, rfl⟩
  | some existing =>
    dsimp only
    by_cases hgeneration : generationStale e.expectedGeneration existing = true
    · refine .inl ⟨_, ?_, if_pos hgeneration⟩
      exact .updateRow db fun i _ => .of_ended rfl rfl
    · rw [if_neg hgeneration]
      by_cases hstale : rowStale cfg db.clock existing = true
      · refine .inl ⟨_, ?_, if_pos hstale⟩
        intro k i hi hlane
        have hended : Unfed db (db.updateJobs (fun j => j.id == existing.id)
            (fun j => { j with status := .expired, finishedAt := some db.clock,
                               attemptCount := j.attemptCount + 1
                               lastError := some (if j.status == .pending then "queue_timeout"
                                   else "lease_timeout") })
            fun _ => rfl) := .updateRow db fun i _ => .of_ended rfl rfl
        obtain ⟨j, hj, hfed⟩ := hended k i hi hlane
        refine ⟨j, get?_of_side (queueFailureReview_side _ _) ?_ (by rw [hfed.lane]; exact hlane),
          hfed⟩
        rw [queueTerminalFailure_jobs]
        exact hj
      · exact .inr ⟨existing, rfl, if_neg hstale⟩

/-- `enqueue_job_with_context_log`, as the owner of a row sees it: if the context is attached to the
row, the row got one more input, and otherwise none. -/
theorem enqueueJobWithContextLog_fed (cfg : Config) (e : Enqueue) (hi : db.jobs.get? k = some i)
    (hlane : i.lane ≠ .trajectoryReview) :
    ∃ j, (db.enqueueJobWithContextLog cfg e).1.jobs.get? k = some j ∧
      Fed (if (db.enqueueJobWithContextLog cfg e).2.1 = k then 1 else 0) i j := by
  have hid := Serial.key_of_get? hi
  unfold enqueueJobWithContextLog
  rcases coalesceOrInsert_cases cfg db
    { e with expectedGeneration := db.effectiveGeneration e.userId none, deadlineAt := none }
    e.traceIdForEnqueue (e.priority.getD e.lane.priority) with ⟨db', hunfed, heq⟩ | ⟨existing,
      -, heq⟩
  · rw [heq]
    obtain ⟨j, hj, hfed⟩ := hunfed k i hi hlane
    have hlt := Serial.lt_next hj
    refine ⟨j, ?_, ?_⟩
    · exact get?_insertJob_of_some hj
    · rw [insertPending, if_neg (Nat.ne_of_lt hlt).symm]
      exact hfed
  · rw [heq]
    dsimp only
    refine ⟨if i.id == existing.id then { i with inputGeneration := i.inputGeneration + 1 } else i,
      ?_, ?_⟩
    · rw [coalesceInto, updateJobs, Serial.get?_modify, hi]
      rfl
    · by_cases hsame : existing.id = k
      · rw [if_pos hsame, if_pos (beq_iff_eq.mpr (hid.trans hsame.symm))]
        exact ⟨rfl, fun h => ⟨h, rfl⟩⟩
      · rw [if_neg hsame, if_neg fun h => hsame ((beq_iff_eq.mp h).symm.trans hid)]
        exact .refl i

theorem enqueueJobWithContextLog_job (cfg : Config) (db : Db) (e : Enqueue) :
    ∃ j, (db.enqueueJobWithContextLog cfg e).1.jobs.get? (db.enqueueJobWithContextLog cfg e).2.1 =
      some j ∧ j.lane = e.lane := by
  unfold enqueueJobWithContextLog
  rcases coalesceOrInsert_cases cfg db
    { e with expectedGeneration := db.effectiveGeneration e.userId none, deadlineAt := none }
    e.traceIdForEnqueue (e.priority.getD e.lane.priority) with ⟨db', -, heq⟩ | ⟨existing, hrow, heq⟩
  · rw [heq]
    exact ⟨_, Serial.get?_insert_next db'.jobs _ fun _ => rfl, rfl⟩
  · obtain ⟨hget, -, hlane, -⟩ := activeRow_spec hrow
    rw [heq]
    dsimp only
    refine ⟨{ existing with inputGeneration := existing.inputGeneration + 1 }, ?_, hlane⟩
    rw [coalesceInto, updateJobs, Serial.get?_modify, hget]
    simp

end Db

/-! ## The hand-over -/

namespace WakeDb

variable {s : WakeDb}

/-- No hand-over is under way: the marker lives inside one transaction. -/
def Unmarked (s : WakeDb) : Prop := s.marker = {}

theorem lateRow_iff {job : JobId} {consumed : Nat} {r : ContextRow} :
    lateRow job consumed r = true ↔ r.jobId = job ∧ consumed < r.seq := by
  simp [lateRow]

theorem insertSuccessor_add (db : Db) (j : Job) (reason : String) (queueDeadline : Option Time)
    (generation n : Nat) :
    (db.insertSuccessor j reason queueDeadline generation 0).updateJobs
      (fun i => i.id == db.jobs.next)
        (fun i => { i with inputGeneration := i.inputGeneration + n }) (fun _ => rfl) =
      db.insertSuccessor j reason queueDeadline generation n := by
  have hold : (db.jobs.rows.map fun i =>
      if i.id == db.jobs.next then { i with inputGeneration := i.inputGeneration + n }
        else i) = db.jobs.rows := by
    refine (List.map_congr_left fun i hi => ?_).trans (List.map_id _)
    rw [if_neg fun h => Nat.ne_of_lt (db.jobs.bound i hi) (beq_iff_eq.mp h)]
    rfl
  unfold Db.insertSuccessor Db.updateJobs Db.insertJob
  congr 1
  refine Serial.ext_rows ?_ rfl
  simp only [Serial.modify, Serial.insert, List.map_append, List.map_singleton, hold]
  simp [Job.fresh]

/-- The successor of a job with input that arrived late gets the late context, and the marker is
gone when the transaction ends. -/
theorem handOver_spec (hunmarked : s.Unmarked) (j : Job) (observed consumed : Nat) :
    ∃ s', s.handOver j observed consumed = some (s', s.db.jobs.next) ∧ s'.Unmarked ∧
      s'.context = s.context.modify (lateRow j.id consumed)
        (fun r => { r with jobId := s.db.jobs.next }) (fun _ => rfl) ∧
      s'.db = s.db.insertSuccessor j "coalesced_perception_followup" none
        (j.expectedRuntimeGeneration.getD 0)
        (if s.hasLateContext j.id consumed then max 1 (j.inputGeneration - observed) else 0) := by
  have hsource : s.marker.sourceJobId = none := by rw [hunmarked]
  have hcursor : s.marker.consumedContextSeq = none := by rw [hunmarked]
  unfold handOver
  by_cases hcount : 0 < s.context.rows.countP (lateRow j.id consumed)
  · have hlate : s.hasLateContext j.id consumed = true := decide_eq_true hcount
    have hgeneration : max 1 (max 1 (j.inputGeneration - observed)) =
      max 1 (j.inputGeneration - observed) := by omega
    simp only [setFollowupMarker, hsource, hcursor, mergeFollowupMarker, hlate, if_true,
      Option.any_none, Bool.false_eq_true, if_false, Option.bind_some, Option.getD_some,
        Nat.ne_of_gt hcount, Option.map_some, hgeneration]
    exact ⟨_, rfl, rfl, rfl, insertSuccessor_add _ _ _ _ _ _⟩
  · have hnone : ∀ r ∈ s.context.rows, lateRow j.id consumed r = false := by
      intro r hr
      by_contra hlate
      exact hcount (List.countP_pos_iff.mpr ⟨r, hr, Bool.not_eq_false _ ▸ hlate⟩)
    have hearly : s.hasLateContext j.id consumed = false := decide_eq_false hcount
    simp only [hearly, Bool.false_eq_true, if_false]
    exact ⟨_, rfl, hunmarked, (Serial.modify_eq_self hnone).symm, rfl⟩

section

variable (hunmarked : s.Unmarked) (job : JobId) (w : WorkerId) (observed consumed : Nat)
include hunmarked job w observed consumed

/-- `finish_wake_job` of a job that its caller owns no more, or that has ended, changes nothing. On
the job table it is the transaction that takes the presence of late context as an input. -/
theorem finishWakeJob_cases : (∃ ok, s.finishWakeJob job w observed consumed = some (s, ok, none) ∧
      s.db.finishWakeJob job w observed (s.hasLateContext job consumed) = (s.db, ok, none) ∧
      (ok = true → ∃ j, s.db.jobs.get? job = some j ∧ j.status = .completed)) ∨
      ∃ j, s.db.jobs.get? job = some j ∧ j.status.held = true ∧ j.lane = .heartbeat ∧
        (j.inputGeneration ≤ observed ∧
            s.finishWakeJob job w observed consumed = some ({ s with db := s.db.completeJob job },
              true, none) ∧
            s.db.finishWakeJob job w observed (s.hasLateContext job consumed) =
              (s.db.completeJob job, true, none) ∨
          observed < j.inputGeneration ∧
            ∃ s', s.finishWakeJob job w observed consumed = some (s', true, some s.db.jobs.next) ∧
            s.db.finishWakeJob job w observed (s.hasLateContext job consumed) = (s'.db, true,
              some s.db.jobs.next) ∧
            s'.Unmarked ∧
            s'.context = s.context.modify (lateRow job consumed)
              (fun r => { r with jobId := s.db.jobs.next }) (fun _ => rfl) ∧
            s'.db = (s.db.completeJob job).insertSuccessor j "coalesced_perception_followup" none
              (j.expectedRuntimeGeneration.getD 0)
              (if s.hasLateContext job consumed then max 1 (j.inputGeneration - observed)
                  else 0)) := by
  unfold finishWakeJob Db.finishWakeJob
  cases hj : s.db.jobs.get? job with
  | none => exact .inl ⟨false, rfl, rfl, fun h => nomatch h⟩
  | some j =>
    dsimp only
    by_cases hmine : (s.db.pinsCurrent j && j.claimedBy == some w && j.lane == .heartbeat) = true
    · simp only [if_pos hmine]
      by_cases hcompleted : (j.status == .completed) = true
      · simp only [if_pos hcompleted]
        exact .inl ⟨true, rfl, rfl, fun _ => ⟨j, rfl, beq_iff_eq.mp hcompleted⟩⟩
      · simp only [if_neg hcompleted]
        by_cases howned : (j.status.held && j.leaseLive s.db.clock) = true
        · simp only [if_pos howned]
          have hlane : j.lane = .heartbeat := beq_iff_eq.mp (Bool.and_eq_true_iff.mp hmine).2
          refine .inr ⟨j, rfl, (Bool.and_eq_true_iff.mp howned).1, hlane, ?_⟩
          by_cases hlate : observed < j.inputGeneration
          · obtain ⟨s', hs', hunmarked', hcontext, hdb⟩ :=
              handOver_spec (s := { s with db := s.db.completeJob job }) hunmarked j observed
                consumed
            rw [Serial.key_of_get? hj] at hcontext hdb
            simp only [if_pos hlate, hs', Option.map_some]
            exact .inr ⟨hlate, s', rfl, by rw [hdb]; rfl, hunmarked', hcontext, hdb⟩
          · refine .inl ⟨Nat.le_of_not_lt hlate, ?_⟩
            simp only [if_neg hlate, and_self]
        · simp only [if_neg howned]
          exact .inl ⟨false, rfl, rfl, fun h => nomatch h⟩
    · simp only [if_neg hmine]
      exact .inl ⟨false, rfl, rfl, fun h => nomatch h⟩

end

end WakeDb

end Feedling
