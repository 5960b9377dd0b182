import Feedling.QueueTxn

/-!
# The chat lane of one user

What the transactions of the queue do to the rows of one lane of one user, and to the visible
failures they owe. A row of the chat lane moves forward only: pending, claimed, running, ended.
It never returns to the queue, so a turn that started stays the only turn of its job.
-/

namespace Feedling

open KeyedTable

def Job.inLane (u : UserId) (lane : Lane) (j : Job) : Bool := j.userId == u && j.lane == lane

theorem Job.inLane_iff {u : UserId} {lane : Lane} {j : Job} :
    j.inLane u lane = true ↔ j.userId = u ∧ j.lane = lane := by
  simp [Job.inLane]

theorem SameJob.inLane {i j : Job} (h : SameJob i j) (u : UserId) (lane : Lane) :
    j.inLane u lane = i.inLane u lane := by
  rw [Job.inLane, Job.inLane, h.userId, h.lane]

namespace Db

/-- The job table as the lane of the user sees it. -/
def laneRow (db : Db) (u : UserId) (lane : Lane) (k : JobId) : Option Job :=
  (db.jobs.get? k).filter (Job.inLane u lane)

section LaneRow

variable {db : Db} {u : UserId} {lane : Lane} {k : JobId}

variable {j : Job} {p : Job → Bool} {f : Job → Job}

theorem laneRow_eq_some :
    db.laneRow u lane k = some j ↔ db.jobs.get? k = some j ∧ j.inLane u lane = true :=
  Option.filter_eq_some_iff

theorem laneRow_of_get? (h : db.jobs.get? k = some j) :
    db.laneRow u lane k = if j.inLane u lane then some j else none := by
  rw [laneRow, h, Option.filter_some]

theorem laneRow_of_next_le (h : db.jobs.next ≤ k) : db.laneRow u lane k = none := by
  rw [laneRow, Serial.get?_of_next_le h]
  rfl

theorem id_of_laneRow (h : db.laneRow u lane k = some j) : j.id = k :=
  Serial.key_of_get? (laneRow_eq_some.mp h).1

theorem laneRow_updateJobs {hf : ∀ j, (f j).id = j.id}
    (hsame : ∀ j, db.jobs.get? j.id = some j → p j = true → SameJob j (f j)) :
    (db.updateJobs p f hf).laneRow u lane k = (db.laneRow u lane k).map fun j => if p j then f j
    else j := by
  simp only [laneRow, updateJobs, Serial.get?_modify]
  cases hj : db.jobs.get? k with
  | none => rfl
  | some j =>
    have hlane : (if p j then f j else j).inLane u lane = j.inLane u lane := by
      split
      · next hp =>
        rw [← Serial.key_of_get? hj] at hj
        exact (hsame j hj hp).inLane u lane
      · rfl
    simp only [Option.map_some, Option.filter_some, hlane]
    split <;> rfl

theorem laneRow_updateJobs_off {hf : ∀ j, (f j).id = j.id}
    (hsame : ∀ j, SameJob j (f j))
    (hoff : ∀ i, db.laneRow u lane k = some i → p i = false) :
    (db.updateJobs p f hf).laneRow u lane k = db.laneRow u lane k := by
  rw [laneRow_updateJobs fun j _ _ => hsame j]
  cases hk : db.laneRow u lane k with
  | none => rfl
  | some i => simp [hoff i hk]

theorem laneRow_insertJob {mk : JobId → Job} {hk : ∀ n, (mk n).id = n} :
    (db.insertJob mk hk).laneRow u lane k =
      if k = db.jobs.next then (some (mk k)).filter (Job.inLane u lane)
      else db.laneRow u lane k := by
  rw [laneRow, insertJob, Serial.get?_insert]
  split
  · next h => rw [h]
  · rfl

theorem laneRow_congr {db' : Db} (h : db'.jobs = db.jobs) :
    db'.laneRow u lane k = db.laneRow u lane k := by
  rw [laneRow, laneRow, h]

end LaneRow

end Db

/-! ## The helpers beside the lane -/

/-- Nothing moves but review runners, and no visible failure is recorded. -/
structure SideStep (db db' : Db) : Prop where
  rows : ∀ u lane k, lane ≠ .trajectoryReview → db'.laneRow u lane k = db.laneRow u lane k
  failures : db'.failures = db.failures

namespace SideStep

theorem refl (db : Db) : SideStep db db := ⟨fun _ _ _ _ => rfl, rfl⟩

theorem trans {db db' db'' : Db} (h : SideStep db db') (h' : SideStep db' db'') :
    SideStep db db'' :=
  ⟨fun u lane k hl => (h'.rows u lane k hl).trans (h.rows u lane k hl),
    h'.failures.trans h.failures⟩

theorem of_jobs_eq {db db' : Db} (hjobs : db'.jobs = db.jobs)
    (hfailures : db'.failures = db.failures) : SideStep db db' :=
  ⟨fun _ _ _ _ => Db.laneRow_congr hjobs, hfailures⟩

theorem foldl {β : Type} {f : Db → β → Db} (hf : ∀ db b, SideStep db (f db b)) (db : Db)
    (bs : List β) : SideStep db (bs.foldl f db) := by
  induction bs generalizing db with
  | nil => exact refl db
  | cons b bs ih => exact (hf db b).trans (ih (f db b))

end SideStep

namespace Db

variable (db : Db) (source : JobId)

theorem ensureReviewRunner_side (u : UserId) : SideStep db (db.ensureReviewRunner u) := by
  unfold ensureReviewRunner
  split
  · next s _ =>
    split
    · refine ⟨fun v lane k hl => ?_, rfl⟩
      refine laneRow_insertJob.trans ?_
      split
      · next hk =>
        have hout : Job.inLane v lane
            (Job.fresh db.clock u .trajectoryReview (some "terminal_failure_review") none
              (Lane.priority .trajectoryReview) none (some s.generation) k) = false := by
          simp [Job.inLane, Job.fresh, Ne.symm hl]
        rw [Option.filter_some, hout, laneRow_of_next_le (Nat.le_of_eq hk.symm)]
        rfl
      · rfl
    · exact .refl db
  · exact .refl db

theorem materializeStream_side : SideStep db (db.materializeStream source) := by
  unfold materializeStream
  split
  · exact .of_jobs_eq rfl rfl
  · exact .refl db

theorem queueFailureReview_side : SideStep db (db.queueFailureReview source) := by
  refine (materializeStream_side db source).trans ?_
  unfold queueFailureReview
  dsimp only
  split
  · split
    · split
      · refine SideStep.trans ?_ (ensureReviewRunner_side _ _)
        exact .of_jobs_eq rfl rfl
      · exact .refl _
    · exact .refl _
  · exact .refl _

theorem recoverReviewRunner_side (runner : JobId) :
    SideStep db (db.recoverReviewRunner runner) := by
  unfold recoverReviewRunner
  split
  · split
    · refine SideStep.trans ?_
        (.foldl (fun d (r : Review) => ensureReviewRunner_side d r.userId) _ _)
      exact .of_jobs_eq rfl rfl
    · exact .refl db
  · exact .refl db

theorem settleAttempts_side (p : JobId → Bool) : SideStep db (db.settleAttempts p) :=
  .of_jobs_eq rfl rfl

end Db

/-! ## Moves of a chat row -/

/-- How far a job has come. -/
def JobStatus.stage : JobStatus → Nat
  | .pending => 0
  | .claimed => 1
  | .running => 2
  | _ => 3

theorem JobStatus.active_iff_stage (s : JobStatus) : s.active = true ↔ s.stage < 3 := by
  cases s <;> decide

/-- The job is pinned to no generation or to `g`. -/
def Job.pins (g : Nat) (j : Job) : Bool := j.expectedRuntimeGeneration.all (· == g)

/-- A move of a chat row under the generation `g`. It completes the row only if `done`. -/
structure ChatMove (g : Nat) (done : Prop) (i j : Job) : Prop where
  same : SameJob i j
  generation : i.inputGeneration ≤ j.inputGeneration
  pins : j.status.active = true → i.pins g = true → j.pins g = true
  stage : i.status.stage ≤ j.status.stage
  ended : i.status.active = false → j.status = i.status
  completes : j.status = .completed → i.status = .completed ∨ done

namespace ChatMove

variable {g : Nat} {done : Prop} {i j k : Job}

theorem refl (j : Job) : ChatMove g done j j :=
  ⟨.refl j, Nat.le_refl _, fun _ h => h, Nat.le_refl _, fun _ => rfl, .inl⟩

theorem trans (h : ChatMove g done i j) (h' : ChatMove g done j k) : ChatMove g done i k where
  same := h.same.trans h'.same
  generation := h.generation.trans h'.generation
  pins ha hp := by
    have hj : j.status.active = true := by
      have := h'.stage
      rw [JobStatus.active_iff_stage] at ha ⊢
      omega
    exact h'.pins ha (h.pins hj hp)
  stage := h.stage.trans h'.stage
  ended ha := by
    have hj := h.ended ha
    rw [h'.ended (by rw [hj]; exact ha), hj]
  completes hc := by
    obtain hj | hd := h'.completes hc
    · exact h.completes hj
    · exact .inr hd

theorem active_before (h : ChatMove g done i j) (ha : j.status.active = true) :
    i.status.active = true := by
  have := h.stage
  rw [JobStatus.active_iff_stage] at ha ⊢
  omega

theorem advance (hsame : SameJob i j) (ha : i.status.active = true) (hj : j.status.active = true)
    (hstage : i.status.stage ≤ j.status.stage) (hgen : i.inputGeneration ≤ j.inputGeneration)
    (hpins : i.pins g = true → j.pins g = true) : ChatMove g done i j where
  same := hsame
  generation := hgen
  pins _ := hpins
  stage := hstage
  ended h := by rw [ha] at h; cases h
  completes hc := by rw [hc] at hj; cases hj

theorem finish (hsame : SameJob i j) (ha : i.status.active = true) (hj : j.status.active = false)
    (hgen : i.inputGeneration ≤ j.inputGeneration) (hdone : j.status = .completed → done) :
    ChatMove g done i j where
  same := hsame
  generation := hgen
  pins h := by rw [hj] at h; cases h
  stage := by
    have hi := (JobStatus.active_iff_stage _).mp ha
    have hn : ¬ j.status.stage < 3 := by
      rw [← JobStatus.active_iff_stage, hj]; exact Bool.false_ne_true
    omega
  ended h := by rw [ha] at h; cases h
  completes hc := .inr (hdone hc)

end ChatMove

/-- The rows of the chat lane of `u` move, and none is added. -/
structure ChatMoves (u : UserId) (g : Nat) (done : JobId → Prop) (db db' : Db) : Prop where
  absent : ∀ k, db.laneRow u .chat k = none → db'.laneRow u .chat k = none
  moves : ∀ k i, db.laneRow u .chat k = some i →
    ∃ j, db'.laneRow u .chat k = some j ∧ ChatMove g (done k) i j

namespace ChatMoves

variable {u : UserId} {g : Nat} {done : JobId → Prop} {db mid db' : Db}

theorem of_eq (h : ∀ k, db'.laneRow u .chat k = db.laneRow u .chat k) : ChatMoves u g done db db' :=
  ⟨fun k hk => by rw [h]; exact hk, fun k i hi => ⟨i, by rw [h]; exact hi, .refl i⟩⟩

theorem trans (h : ChatMoves u g done db mid) (h' : ChatMoves u g done mid db') :
    ChatMoves u g done db db' := by
  refine ⟨fun k hk => h'.absent k (h.absent k hk), fun k i hi => ?_⟩
  obtain ⟨j, hj, hmove⟩ := h.moves k i hi
  obtain ⟨j', hj', hmove'⟩ := h'.moves k j hj
  exact ⟨j', hj', hmove.trans hmove'⟩

theorem before (h : ChatMoves u g done db db') {k : JobId} {j : Job}
    (hj : db'.laneRow u .chat k = some j) :
    ∃ i, db.laneRow u .chat k = some i ∧ ChatMove g (done k) i j := by
  cases hi : db.laneRow u .chat k with
  | none => rw [h.absent k hi] at hj; cases hj
  | some i =>
    obtain ⟨j', hj', hmove⟩ := h.moves k i hi
    rw [hj] at hj'
    cases hj'
    exact ⟨i, rfl, hmove⟩

theorem of_updateJobs {p : Job → Bool} {f : Job → Job} {hf : ∀ j, (f j).id = j.id}
    (hsame : ∀ j, db.jobs.get? j.id = some j → p j = true → SameJob j (f j))
    (hmove : ∀ k i, db.laneRow u .chat k = some i → p i = true → ChatMove g (done k) i (f i)) :
    ChatMoves u g done db (db.updateJobs p f hf) := by
  refine ⟨fun k hk => ?_, fun k i hi => ?_⟩
  · rw [Db.laneRow_updateJobs hsame, hk]
    rfl
  · rw [Db.laneRow_updateJobs hsame, hi, Option.map_some]
    refine ⟨_, rfl, ?_⟩
    split
    · next hp => exact hmove k i hi hp
    · exact .refl i

end ChatMoves

/-! ## Visible failures -/

/-- The failure row that the end of a chat job owes. -/
def Db.chatFailure (db : Db) (u : UserId) (job : JobId) : TerminalFailure :=
  ⟨job, u, (db.latestGenuineInput u).map (·.seq), (db.latestGenuineInput u).map (·.msgId)⟩

namespace Db

/-- The row of an ended job: a reminder has no input it could name. -/
def terminalFailure (db : Db) (j : Job) : TerminalFailure :=
  if j.lane == .chat then db.chatFailure j.userId j.id else ⟨j.id, j.userId, none, none⟩

@[simp] theorem terminalFailure_jobId (db : Db) (j : Job) :
    (db.terminalFailure j).jobId = j.id := by
  unfold terminalFailure; split <;> rfl

theorem queueTerminalFailure_cases (db : Db) (job : JobId) (v : UserId) :
    db.queueTerminalFailure job v = db ∨
      ∃ j, db.jobs.get? job = some j ∧
        db.queueTerminalFailure job v =
          { db with failures := db.failures.insert (db.terminalFailure j) } := by
  unfold queueTerminalFailure
  split
  · next j hj =>
    split
    · next h =>
      simp only [Bool.and_eq_true, beq_iff_eq] at h
      refine .inr ⟨j, hj, ?_⟩
      have hid := Serial.key_of_get? hj
      by_cases hlane : j.lane = .chat <;> simp [hlane, terminalFailure, chatFailure, h.1, hid]
    · exact .inl rfl
  · exact .inl rfl

theorem get?_of_side {db db' : Db} (h : SideStep db db') {k : JobId} {i : Job}
    (hi : db.jobs.get? k = some i) (hlane : i.lane ≠ .trajectoryReview) :
    db'.jobs.get? k = some i := by
  have hrow : db.laneRow i.userId i.lane k = some i :=
    laneRow_eq_some.mpr ⟨hi, Job.inLane_iff.mpr ⟨rfl, rfl⟩⟩
  rw [← h.rows _ _ _ hlane] at hrow
  exact (laneRow_eq_some.mp hrow).1

theorem queueTerminalFailure_recorded {db : Db} {job : JobId} {u : UserId} {j : Job}
    (hj : db.laneRow u .chat job = some j) :
    ∃ f ∈ (db.queueTerminalFailure job u).failures.rows, f.jobId = job := by
  obtain ⟨hget, hlane⟩ := laneRow_eq_some.mp hj
  obtain ⟨hu, hchat⟩ := Job.inLane_iff.mp hlane
  simp only [queueTerminalFailure, hget, hu, hchat, beq_self_eq_true, Bool.true_or, Bool.and_true,
    ↓reduceIte]
  exact Table.exists_mem_insert

end Db

/-- A transaction that moves chat rows, and records visible failures of jobs that have ended. -/
structure ChatStep (u : UserId) (g : Nat) (done : JobId → Prop) (db db' : Db) : Prop where
  queue : QueueStep db db'
  moves : ChatMoves u g done db db'
  keeps : ∀ f ∈ db.failures.rows, f ∈ db'.failures.rows
  notes : ∀ f ∈ db'.failures.rows, f ∈ db.failures.rows ∨
    (∃ j, db'.jobs.get? f.jobId = some j) ∧
      ∀ j, db'.laneRow u .chat f.jobId = some j → j.status.active = false ∧
        f = db.chatFailure u f.jobId

namespace ChatStep

variable {u : UserId} {g : Nat} {done : JobId → Prop} {db mid db' : Db}

theorem refl (db : Db) : ChatStep u g done db db :=
  ⟨.refl db, .of_eq fun _ => rfl, fun _ h => h, fun _ h => .inl h⟩

theorem trans (h : ChatStep u g done db mid) (h' : ChatStep u g done mid db') :
    ChatStep u g done db db' where
  queue := h.queue.trans h'.queue
  moves := h.moves.trans h'.moves
  keeps f hf := h'.keeps f (h.keeps f hf)
  notes f hf := by
    have hfailure : mid.chatFailure u f.jobId = db.chatFailure u f.jobId := by
      rw [Db.chatFailure, Db.chatFailure, Db.latestGenuineInput, Db.latestGenuineInput,
        h.queue.chat]
    obtain hmid | ⟨hrow, hnote⟩ := h'.notes f hf
    · obtain hold | ⟨⟨j, hj⟩, hnote⟩ := h.notes f hmid
      · exact .inl hold
      · obtain ⟨j', hj', -⟩ := h'.queue.rows.sameJob hj
        refine .inr ⟨⟨j', hj'⟩, fun k hk => ?_⟩
        obtain ⟨i, hi, hmove⟩ := h'.moves.before hk
        obtain ⟨hended, heq⟩ := hnote i hi
        exact ⟨by rw [hmove.ended hended]; exact hended, heq⟩
    · exact .inr ⟨hrow, fun j hj => by rw [← hfailure]; exact hnote j hj⟩

theorem of_side (hq : QueueStep db db') (hs : SideStep db db') : ChatStep u g done db db' :=
  ⟨hq, .of_eq fun k => hs.rows u .chat k nofun, fun f hf => by rw [hs.failures]; exact hf,
    fun f hf => .inl (by rw [← hs.failures]; exact hf)⟩

theorem of_updateJobs {p : Job → Bool} {f : Job → Job} {hf : ∀ j, (f j).id = j.id}
    (hq : QueueStep db (db.updateJobs p f hf))
    (hsame : ∀ j, db.jobs.get? j.id = some j → p j = true → SameJob j (f j))
    (hmove : ∀ k i, db.laneRow u .chat k = some i → p i = true → ChatMove g (done k) i (f i)) :
    ChatStep u g done db (db.updateJobs p f hf) :=
  ⟨hq, .of_updateJobs hsame hmove, fun _ h => h, fun _ h => .inl h⟩

theorem of_failure (db : Db) (job : JobId) (v : UserId)
    (hended : ∀ j, db.laneRow u .chat job = some j → j.status.active = false) :
    ChatStep u g done db (db.queueTerminalFailure job v) := by
  have hq := Db.queueTerminalFailure_step db job v
  obtain heq | ⟨j, hj, heq⟩ := Db.queueTerminalFailure_cases db job v
  · rw [heq]
    exact .refl db
  · rw [heq] at hq ⊢
    refine ⟨hq, .of_eq fun _ => rfl, fun f hf => Table.mem_insert_of_mem hf, fun f hf => ?_⟩
    obtain hold | rfl := Table.mem_insert hf
    · exact .inl hold
    · have hid := Serial.key_of_get? hj
      rw [Db.terminalFailure_jobId, hid]
      refine .inr ⟨⟨j, hj⟩, fun k hk => ?_⟩
      obtain ⟨hget, hlane⟩ := Db.laneRow_eq_some.mp hk
      have hkj : k = j := Option.some.inj (hget.symm.trans hj)
      rw [hkj, Job.inLane_iff] at hlane
      refine ⟨hended k hk, ?_⟩
      rw [Db.terminalFailure, hlane.1, hlane.2, hid]
      rfl

end ChatStep

/-- Every chat job that this step ends, other than by completing it, has a visible failure. -/
def Noted (u : UserId) (db db' : Db) : Prop :=
  ∀ k i j, db.laneRow u .chat k = some i → i.status.active = true → db'.laneRow u .chat k = some j →
    j.status.active = false → ∃ f ∈ db'.failures.rows, f.jobId = k

theorem Noted.of_active {u : UserId} {db db' : Db}
    (h : ∀ k i, db.laneRow u .chat k = some i → i.status.active = true →
      ∃ j, db'.laneRow u .chat k = some j ∧ j.status.active = true) : Noted u db db' := by
  intro k i j hi ha hj hended
  obtain ⟨j', hj', ha'⟩ := h k i hi ha
  rw [hj] at hj'
  cases hj'
  rw [ha'] at hended
  cases hended

end Feedling
