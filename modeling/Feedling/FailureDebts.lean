import Feedling.ChatLane
import Feedling.EffectRounds
import Feedling.RecoveryBarrier

/-!
# Visible failures and their obligations

A chat turn or a reminder that fails owes its user a visible failure: a row of
`v2_terminal_failure_outbox`. `DebtStep` follows one transaction from its start: the debts it has
made and not yet written down, the rows it has added, and that finished rows stay as they are.
-/

namespace Feedling

open KeyedTable Runs

/-- The job has failed in a way that the user is to see. -/
def Job.owes (j : Job) : Bool := j.lane.visible && (j.status == .failed || j.status == .expired)

theorem Job.owes_iff {j : Job} :
    j.owes = true ↔ j.lane.visible = true ∧ (j.status = .failed ∨ j.status = .expired) := by
  simp [Job.owes]

theorem Job.not_active_of_owes {j : Job} (h : j.owes = true) : j.status.active = false := by
  obtain ⟨-, hs | hs⟩ := Job.owes_iff.mp h <;> rw [hs] <;> rfl

namespace Db

/-- What a transaction did so far: `due` are the jobs whose failure it still has to write down. -/
structure DebtStep (due : JobId → Prop) (db db' : Db) : Prop where
  final : ∀ k i, db.jobs.get? k = some i → i.lane.visible = true → i.status.active = false →
    db'.jobs.get? k = some i
  debts : ∀ k j, db'.jobs.get? k = some j → j.owes = true →
    (∃ i, db.jobs.get? k = some i ∧ i.owes = true) ∨ due k ∨ (db'.failures.get? k).isSome = true
  rows : ∀ k, db'.failures.get? k = db.failures.get? k ∨
    db.failures.get? k = none ∧ ∃ f j, db'.failures.get? k = some f ∧ db'.jobs.get? k = some j ∧
      j.owes = true ∧ f.userId = j.userId

namespace DebtStep

variable {due due' : JobId → Prop} {db db' db'' : Db}

theorem of_eq (hjobs : db'.jobs = db.jobs) (hfailures : db'.failures = db.failures) :
    DebtStep due db db' := by
  refine ⟨?_, ?_, fun k => .inl (by rw [hfailures])⟩
  · rw [hjobs]
    exact fun k i hi _ _ => hi
  · rw [hjobs]
    exact fun k j hj howes => .inl ⟨j, hj, howes⟩

theorem refl (due : JobId → Prop) (db : Db) : DebtStep due db db := of_eq rfl rfl

theorem mono (h : DebtStep due db db') (hle : ∀ k j, db'.jobs.get? k = some j → j.owes = true →
      due k → due' k) :
    DebtStep due' db db' := by
  refine ⟨h.final, fun k j hj howes => ?_, h.rows⟩
  exact (h.debts k j hj howes).imp_right fun h => h.imp_left (hle k j hj howes)

theorem trans (h : DebtStep due db db') (h' : DebtStep due db' db'') : DebtStep due db db'' := by
  refine ⟨fun k i hi hvisible hended =>
    h'.final k i (h.final k i hi hvisible hended) hvisible hended,
    fun k j hj howes => ?_, fun k => ?_⟩
  · obtain ⟨i, hi, howes'⟩ | hdue | hrow := h'.debts k j hj howes
    · obtain hold | hdue | hrow := h.debts k i hi howes'
      · exact .inl hold
      · exact .inr (.inl hdue)
      · obtain heq | ⟨hnone, -⟩ := h'.rows k
        · exact .inr (.inr (by rw [heq]; exact hrow))
        · rw [hnone] at hrow
          cases hrow
    · exact .inr (.inl hdue)
    · exact .inr (.inr hrow)
  · obtain heq | ⟨hnone, f, j, hf, hj, howes, hu⟩ := h.rows k
    · obtain heq' | ⟨hnone, hnew⟩ := h'.rows k
      · exact .inl (heq'.trans heq)
      · exact .inr ⟨heq ▸ hnone, hnew⟩
    · obtain heq' | ⟨hnone', -⟩ := h'.rows k
      · have hstays := h'.final k j hj (Job.owes_iff.mp howes).1 (Job.not_active_of_owes howes)
        exact .inr ⟨hnone, f, j, heq'.trans hf, hstays, howes, hu⟩
      · rw [hf] at hnone'
        cases hnone'

theorem of_side (h : SideStep db db') : DebtStep due db db' := by
  have hsame : ∀ {u : UserId} {lane : Lane} {k : JobId}, lane.visible = true →
      db'.laneRow u lane k = db.laneRow u lane k :=
    fun hvisible => h.rows _ _ _ (by rintro rfl; cases hvisible)
  have hlane : ∀ j : Job, j.inLane j.userId j.lane = true := fun j => Job.inLane_iff.mpr ⟨rfl, rfl⟩
  refine ⟨fun k i hi hvisible _ => ?_, fun k j hj howes => ?_, fun k => .inl (by rw [h.failures])⟩
  · have hrow : db.laneRow i.userId i.lane k = some i := laneRow_eq_some.mpr ⟨hi, hlane i⟩
    rw [← hsame hvisible] at hrow
    exact (laneRow_eq_some.mp hrow).1
  · have hrow : db'.laneRow j.userId j.lane k = some j := laneRow_eq_some.mpr ⟨hj, hlane j⟩
    rw [hsame (Job.owes_iff.mp howes).1] at hrow
    exact .inl ⟨j, (laneRow_eq_some.mp hrow).1, howes⟩

theorem updateJobs {p : Job → Bool} {f : Job → Job} {hf : ∀ j, (f j).id = j.id}
    (h : ∀ j, db.jobs.get? j.id = some j → p j = true →
      (j.lane.visible = true → j.status.active = true) ∧ ((f j).owes = true → due j.id)) :
    DebtStep due db (db.updateJobs p f hf) := by
  have hkey : ∀ {k i}, db.jobs.get? k = some i → db.jobs.get? i.id = some i ∧ i.id = k := by
    intro k i hi
    have hk := Serial.key_of_get? hi
    exact ⟨by rw [hk]; exact hi, hk⟩
  refine ⟨fun k i hi hvisible hended => ?_, fun k j hj howes => ?_, fun k => .inl rfl⟩
  · rw [Db.updateJobs, Serial.get?_modify, hi, Option.map_some, if_neg]
    intro hp
    have hactive := (h i (hkey hi).1 hp).1 hvisible
    rw [hended] at hactive
    cases hactive
  · rw [Db.updateJobs, Serial.get?_modify] at hj
    obtain ⟨i, hi, rfl⟩ := Option.map_eq_some_iff.mp hj
    by_cases hp : p i = true
    · rw [if_pos hp] at howes
      obtain ⟨hget, hid⟩ := hkey hi
      exact .inr (.inl (hid ▸ (h i hget hp).2 howes))
    · rw [if_neg hp] at howes
      exact .inl ⟨i, hi, howes⟩

theorem updateRow {job : JobId} {i : Job} (hi : db.jobs.get? job = some i) {f : Job → Job}
    {hf : ∀ j, (f j).id = j.id} (hactive : i.status.active = true)
    (hdue : (f i).owes = true → due job) :
    DebtStep due db (db.updateJobs (fun j => j.id == job) f hf) := by
  refine updateJobs fun j hj hp => ?_
  rw [beq_iff_eq] at hp
  subst hp
  rw [hi] at hj
  cases hj
  exact ⟨fun _ => hactive, hdue⟩

theorem insertJob {mk : JobId → Job} {hk : ∀ n, (mk n).id = n}
    (hs : (mk db.jobs.next).status = .pending) : DebtStep due db (db.insertJob mk hk) := by
  have hother : ∀ {k i}, db.jobs.get? k = some i → (db.insertJob mk hk).jobs.get? k = some i := by
    intro k i hi
    rw [Db.insertJob, Serial.get?_insert, if_neg]
    · exact hi
    · rintro rfl
      rw [Serial.get?_of_next_le (Nat.le_refl _)] at hi
      cases hi
  refine ⟨fun k i hi _ _ => hother hi, fun k j hj howes => ?_, fun k => .inl rfl⟩
  rw [Db.insertJob, Serial.get?_insert] at hj
  split at hj
  · next hnext =>
    cases hj
    subst hnext
    have hended := Job.not_active_of_owes howes
    rw [hs] at hended
    cases hended
  · exact .inl ⟨j, hj, howes⟩

theorem of_rowWrite {i j : Job} (h : RowWrite db db' i j) (hactive : i.status.active = true)
    (howes : j.owes = false) : DebtStep due db db' := by
  have hfailures : db'.failures = db.failures := by
    have h := congrArg Db.failures h.rest
    exact h
  refine ⟨fun k l hl _ hended => ?_, fun k l hl howes' => ?_, fun k => .inl (by rw [hfailures])⟩
  · rw [h.rows, if_neg]
    · exact hl
    · rintro rfl
      rw [Option.some.inj (h.before.symm.trans hl), hended] at hactive
      cases hactive
  · rw [h.rows] at hl
    split at hl
    · cases hl
      rw [howes] at howes'
      cases howes'
    · exact .inl ⟨l, hl, howes'⟩

theorem settle (h : DebtStep due db db') {k : JobId} {u : UserId} {j : Job}
    (hj : db'.jobs.get? k = some j) (hu : j.userId = u)
    (hended : j.lane.visible = true → j.status = .failed ∨ j.status = .expired) :
    DebtStep (fun x => due x ∧ x ≠ k) db (db'.queueTerminalFailure k u) := by
  have hid := Serial.key_of_get? hj
  by_cases hvisible : j.lane.visible = true
  · have howes : j.owes = true := Job.owes_iff.mpr ⟨hvisible, hended hvisible⟩
    obtain ⟨row, hkey, huser, heq⟩ : ∃ row : TerminalFailure, row.jobId = k ∧ row.userId = u ∧
        db'.queueTerminalFailure k u = { db' with failures := db'.failures.insert row } := by
      have hlane : (j.lane == .chat || j.lane == .scheduled) = true := by
        cases hl : j.lane <;> rw [hl] at hvisible <;> first | rfl | cases hvisible
      let input := if j.lane == .chat then db'.latestGenuineInput u else none
      refine ⟨⟨k, u, input.map (·.seq), input.map (·.msgId)⟩, rfl, rfl, ?_⟩
      simp only [queueTerminalFailure, hj, hu, beq_self_eq_true, Bool.true_and, hlane, if_true]
      rfl
    rw [heq]
    have hnew : ∀ x, (db'.failures.insert row).get? x =
        if db'.failures.get? x = none ∧ k = x then some row else db'.failures.get? x := by
      intro x
      rw [Table.get?_insert, hkey]
    refine ⟨h.final, fun x i hi howes => ?_, fun x => ?_⟩
    · rw [hnew]
      obtain hold | hdue | hrow := h.debts x i hi howes
      · exact .inl hold
      · by_cases hx : x = k
        · subst hx
          refine .inr (.inr ?_)
          cases db'.failures.get? x <;> simp
        · exact .inr (.inl ⟨hdue, hx⟩)
      · refine .inr (.inr ?_)
        rw [if_neg]
        · exact hrow
        · rintro ⟨hnone, -⟩
          rw [hnone] at hrow
          cases hrow
    · rw [hnew]
      by_cases hx : db'.failures.get? x = none ∧ k = x
      · rw [if_pos hx]
        obtain ⟨hnone, rfl⟩ := hx
        obtain heq | ⟨-, f, i, hf, -⟩ := h.rows k
        · exact .inr ⟨heq ▸ hnone, row, j, rfl, hj, howes, huser.trans hu.symm⟩
        · rw [hnone] at hf
          cases hf
      · rw [if_neg hx]
        exact h.rows x
  · have heq : db'.queueTerminalFailure k u = db' := by
      have hlane : (j.lane == .chat || j.lane == .scheduled) = false := by
        cases hl : j.lane <;> rw [hl] at hvisible <;> first | rfl | exact absurd rfl hvisible
      simp [queueTerminalFailure, hj, hlane]
    rw [heq]
    refine h.mono fun x i hi howes hdue => ⟨hdue, ?_⟩
    rintro rfl
    rw [hj] at hi
    cases hi
    exact hvisible (Job.owes_iff.mp howes).1

theorem trans_side (h : DebtStep due db db') (hs : SideStep db' db'') : DebtStep due db db'' :=
  h.trans (of_side hs)

end DebtStep

/-! ## The transactions -/

variable {db : Db}

theorem DebtStep.foldl_closeMark {how : Marks} (hnotes : how.notes = true) (js : List Job)
    {due : JobId → Prop} {start db : Db} (h : DebtStep due start db)
    (hrows : ∀ j ∈ js, ∃ i, db.jobs.get? j.id = some i ∧ i.userId = j.userId ∧
      (i.status = .failed ∨ i.status = .expired)) :
    DebtStep (fun k => due k ∧ ∀ j ∈ js, j.id ≠ k) start (js.foldl (closeMark how) db) := by
  induction js generalizing db due with
  | nil => exact h.mono fun _ _ _ _ hdue => ⟨hdue, fun _ hj => nomatch hj⟩
  | cons j js ih =>
    obtain ⟨i, hi, huser, hended⟩ := hrows j (by simp)
    have hside := closeMark_side how db j
    rw [hnotes] at hside
    have hnoted := trans_side (h.settle hi huser fun _ => hended) hside
    refine (ih hnoted fun j' hj' => ?_).mono fun k _ _ _ hdue => ⟨hdue.1.1, fun j' hj' => ?_⟩
    · obtain ⟨i', hi', hrow⟩ := hrows j' (by simp [hj'])
      exact ⟨i', closeMark_keeps how db j _ _ hi', hrow⟩
    · obtain rfl | hj' := List.mem_cons.mp hj'
      · exact hdue.1.2.symm
      · exact hdue.2 j' hj'

theorem DebtStep.of_edits {sc : Scope} {due : JobId → Prop} {p : Job → Bool} {f : Job → Job}
    {hf : ∀ j, (f j).id = j.id}
    (h : ∀ j, db.jobs.get? j.id = some j → p j = true → RowEdit sc db.turnIsPristine j (f j)) :
    DebtStep due db (db.updateJobs p f hf) := by
  refine updateJobs fun j hj hp => ⟨fun _ => (h j hj hp).active, fun howes => ?_⟩
  obtain hs | hs := (Job.owes_iff.mp howes).2
  · exact absurd hs (h j hj hp).succeeds.1
  · exact absurd hs (h j hj hp).succeeds.2

theorem DebtStep.of_block {sc : Scope} {db' : Db} (h : Block sc db db') :
    DebtStep (fun _ => False) db db' := by
  cases h with
  | insert _ hs => exact insertJob hs
  | write h => exact of_edits h
  | @giveBack i f hf hi _ h =>
    have hrow : ∀ j, db.jobs.get? j.id = some j → (j.id == i.id) = true →
        RowEdit { sc with ends := fun _ => True } db.turnIsPristine j (f j) := by
      intro j hj hp
      rw [(id_beq_iff hi j hj).mp hp]
      exact h
    exact trans_side (of_edits hrow) (recoverReviewRunner_side _ _)
  | @close how p f hf h =>
    have hwritten : DebtStep (fun k => how.notes = true ∧ ∃ j ∈ db.jobs.rows.filter p, j.id = k) db
        (db.updateJobs p f hf) := by
      refine updateJobs fun j hj hp => ⟨fun _ => (h j hj hp).active, fun howes => ?_⟩
      refine ⟨(h j hj hp).noted ?_, j, List.mem_filter.mpr ⟨Serial.mem_rows.mpr hj, hp⟩, rfl⟩
      rw [← (h j hj hp).same.lane]
      exact (Job.owes_iff.mp howes).1
    have hrows : ∀ j ∈ db.jobs.rows.filter p, (db.updateJobs p f hf).jobs.get? j.id = some (f j) ∧
        (f j).userId = j.userId ∧ ((f j).status = .failed ∨ (f j).status = .expired) := by
      intro j hj
      obtain ⟨hmem, hp⟩ := List.mem_filter.mp hj
      have hj := Serial.mem_rows.mp hmem
      refine ⟨?_, (h j hj hp).same.userId, (h j hj hp).ended⟩
      rw [Db.updateJobs, Serial.get?_modify, hj, Option.map_some, if_pos hp]
    unfold close
    dsimp only
    generalize hmid : (bif how.settles then (db.updateJobs p f hf).settleAttempts fun k =>
      (db.jobs.rows.filter p).any fun j => j.id == k else db.updateJobs p f hf) = mid
    have hsettled : SideStep (db.updateJobs p f hf) mid ∧
        mid.jobs = (db.updateJobs p f hf).jobs := by
      rw [← hmid]
      cases how.settles with
      | true =>
        rw [cond_true]
        exact ⟨settleAttempts_side _ _, rfl⟩
      | false => exact ⟨.refl _, rfl⟩
    have hwritten := hwritten.trans_side hsettled.1
    cases hnotes : how.notes with
    | true =>
      refine (foldl_closeMark hnotes _ hwritten fun j hj => ?_).mono fun k _ _ _ hdue => ?_
      · rw [hsettled.2]
        exact ⟨f j, hrows j hj⟩
      · obtain ⟨⟨-, j, hj, hid⟩, hnone⟩ := hdue
        exact hnone j hj hid
    | false =>
      refine DebtStep.trans (hwritten.mono fun k _ _ _ hdue => ?_)
        (of_side (.foldl (fun d j => ?_) _ _))
      · rw [hnotes] at hdue
        cases hdue.1
      · have hside := closeMark_side how d j
        rw [hnotes] at hside
        exact hside

theorem DebtStep.chatInsert (db : Db) (u : UserId) (msgId : String) (ts : Time) (doc : ChatDoc) :
    DebtStep (fun _ => False) db (db.chatInsert u msgId ts doc).1 := by
  have hjobs := congrArg Db.jobs (db.chatInsert_rest u msgId ts doc)
  have hfailures := congrArg Db.failures (db.chatInsert_rest u msgId ts doc)
  exact of_eq hjobs hfailures

theorem DebtStep.of_parts {db' : Db} (h : Parts .free db db') :
    DebtStep (fun _ => False) db db' := by
  induction h with
  | refl => exact refl _ db
  | tail _ hpart ih =>
    cases hpart with
    | block hblock => exact ih.trans (of_block hblock)
    | stored u msgId ts doc => exact ih.trans (chatInsert _ u msgId ts doc)

theorem DebtStep.of_blocks {db' : Db} (h : Blocks .free db db') :
    DebtStep (fun _ => False) db db' := of_parts h.parts

/-- Every transaction of the queue writes down the failures it causes. -/
theorem DebtStep.exec (cfg : Config) (db : Db) (t : Txn) :
    DebtStep (fun _ => False) db (Db.exec cfg db t) := by
  obtain h | h := exec_free cfg db t
  · have hjobs := congrArg Db.jobs h.rest
    have hfailures := congrArg Db.failures h.rest
    exact of_eq hjobs hfailures
  · exact of_parts h

theorem DebtStep.rescheduleOwnedJob (db : Db) (job : JobId) (w : WorkerId) (error : String)
    (availableAt : Time) :
    DebtStep (fun _ => False) db (db.rescheduleOwnedJob job w error availableAt).1 := by
  unfold Db.rescheduleOwnedJob
  obtain ⟨i, hi, hguard, heq⟩ | heq :=
    updateOwned_cases db job _ (rescheduled error availableAt) fun _ => rfl
  · rw [heq]
    obtain rfl : i.id = job := Serial.key_of_get? hi
    refine updateRow hi
      (JobStatus.active_of_held (held_of_ownedBy (Bool.and_eq_true _ _ ▸ hguard).2)) fun howes => ?_
    simp [Job.owes, rescheduled] at howes
  · rw [heq]
    exact refl _ db

theorem DebtStep.of_round {cfg : Config} {u : UserId} {e : Effect} {d : Delivery} {r : Applied}
    (h : Round cfg db u e d r) : DebtStep (fun _ => False) db r.db := by
  obtain ⟨mid, hblocks, hframe⟩ := h.queue
  have hjobs := congrArg Db.jobs hframe
  have hfailures := congrArg Db.failures hframe
  exact (of_blocks hblocks).trans (of_eq hjobs hfailures)

theorem DebtStep.applyEffect (cfg : Config) (db : Db) (u : UserId) (eid : String) (d : Delivery) :
    DebtStep (fun _ => False) db (Db.applyEffect cfg db u eid d).db := by
  have hmaterialize : DebtStep (fun _ => False) db (db.materializeRuntime u) := by
    unfold materializeRuntime
    split <;> exact of_eq rfl rfl
  obtain ⟨heq, -⟩ | ⟨e, -, -, -, hround⟩ := applyEffect_round cfg db u eid d
  · rw [heq]
    exact hmaterialize
  · exact hmaterialize.trans (of_round hround)

end Db

/-! ## The system -/

/-- The database, and the failed jobs whose user was cleared after they failed. -/
structure DebtWorld where
  db : Db
  cleared : JobId → Bool

inductive DebtLabel where
  | txn (t : Txn)
  /-- The update of a claim on a candidate that it may have read at any earlier time. -/
  | claim (p : Pick)
  | rescheduleOwnedJob (job : JobId) (w : WorkerId) (error : String) (availableAt : Time)
  | startMcpMutationAttempt (job : JobId) (u : UserId) (worker : WorkerId) (callKey : String)
      (inputFrontierSeq : Nat)
  | effectEnqueue (r : EffectRequest) (claimedBy : Option WorkerId)
  | applyEffect (u : UserId) (eid : String) (d : Delivery)
  | chatClear (u : UserId)

namespace DebtWorld

def start (db : Db) : DebtWorld := ⟨db, fun _ => false⟩

def stepDb (cfg : Config) (db : Db) : DebtLabel → Db
  | .txn t => Db.exec cfg db t
  | .claim p => Db.claimStep cfg db p
  | .rescheduleOwnedJob job w error availableAt => (db.rescheduleOwnedJob job w error availableAt).1
  | .startMcpMutationAttempt job u worker callKey frontier =>
    (db.startMcpMutationAttempt job u worker callKey frontier).1
  | .effectEnqueue r claimedBy => (db.effectEnqueue r claimedBy).1
  | .applyEffect u eid d => (Db.applyEffect cfg db u eid d).db
  | .chatClear u => db.chatClear u

/-- The failed job belongs to the user whose history the step clears. -/
def clears (db : Db) (l : DebtLabel) (k : JobId) : Bool :=
  match l with
  | .chatClear u => (db.jobs.get? k).any fun j => j.userId == u && j.owes
  | _ => false

def step (cfg : Config) (w : DebtWorld) (l : DebtLabel) : DebtWorld where
  db := stepDb cfg w.db l
  cleared k := w.cleared k || clears w.db l k

/-- Failures of jobs that were not cleared are written down, and a failure is only written down for
a job of a visible lane that has ended. -/
structure Inv (w : DebtWorld) : Prop where
  paid : ∀ k j, w.db.jobs.get? k = some j → j.owes = true → w.cleared k = false →
    (w.db.failures.get? k).isSome = true
  ended : ∀ k f, w.db.failures.get? k = some f →
    ∃ j, w.db.jobs.get? k = some j ∧ f.userId = j.userId ∧ j.lane.visible = true ∧
      j.status.active = false

theorem stepDb_cases (cfg : Config) (db : Db) (l : DebtLabel) :
    Db.DebtStep (fun _ => False) db (stepDb cfg db l) ∨
    (∃ i j, RowWrite db (stepDb cfg db l) i j ∧ j.status = .superseded) ∨
      ∃ u, l = .chatClear u := by
  cases l with
  | txn t => exact .inl (.exec cfg db t)
  | rescheduleOwnedJob job w error availableAt =>
    exact .inl (.rescheduleOwnedJob db job w error availableAt)
  | startMcpMutationAttempt job u worker callKey frontier =>
    refine .inl ?_
    rw [stepDb, Db.startMcpMutationAttempt]
    split <;> exact .of_eq rfl rfl
  | effectEnqueue r claimedBy =>
    refine .inl ?_
    rw [stepDb]
    cases claimedBy with
    | none => exact .of_eq rfl rfl
    | some w =>
      simp only [Db.effectEnqueue]
      split <;> exact .of_eq rfl rfl
  | applyEffect u eid d => exact .inl (.applyEffect cfg db u eid d)
  | chatClear u => exact .inr (.inr ⟨u, rfl⟩)
  | claim p =>
    obtain heq | ⟨i, j, hrow, hpending, hclaimed, -⟩ | ⟨i, j, hrow, hs, -⟩ :=
      Db.claimStep_cases cfg db p
    · rw [stepDb, heq]
      exact .inl (.refl _ db)
    · exact .inl (.of_rowWrite hrow (by rw [hpending]; rfl) (by simp [Job.owes, hclaimed]))
    · exact .inr (.inl ⟨i, j, hrow, hs⟩)

/-- What the step does to debts and rows. -/
structure StepFacts (w w' : DebtWorld) : Prop where
  debts : ∀ k j, w'.db.jobs.get? k = some j → j.owes = true →
    (∃ i, w.db.jobs.get? k = some i ∧ i.owes = true) ∨
    w.db.failures.get? k = none ∧ (w'.db.failures.get? k).isSome = true
  rows : ∀ k f, w'.db.failures.get? k = some f → w.db.failures.get? k = some f ∨
    ∃ j, w'.db.jobs.get? k = some j ∧ (j.status = .failed ∨ j.status = .expired)

theorem facts_of_debtStep {w : DebtWorld} (hi : Inv w) {db' : Db} {cleared : JobId → Bool}
    (h : Db.DebtStep (fun _ => False) w.db db')
    (hcleared : ∀ k, cleared k = false → w.cleared k = false) :
    Inv ⟨db', cleared⟩ ∧ StepFacts w ⟨db', cleared⟩ := by
  have hkept : ∀ k, (w.db.failures.get? k).isSome = true → (db'.failures.get? k).isSome = true := by
    intro k hk
    obtain heq | ⟨hnone, -⟩ := h.rows k
    · rw [heq]
      exact hk
    · rw [hnone] at hk
      cases hk
  refine ⟨⟨fun k j hj howes hc => ?_, fun k f hf => ?_⟩, fun k j hj howes => ?_, fun k f hf => ?_⟩
  · obtain ⟨i, hi', howes'⟩ | hdue | hrow := h.debts k j hj howes
    · exact hkept k (hi.paid k i hi' howes' (hcleared k hc))
    · exact hdue.elim
    · exact hrow
  · obtain heq | ⟨-, f', j, hf', hj, howes, hu⟩ := h.rows k
    · obtain ⟨i, hi', hu, hvisible, hended⟩ := hi.ended k f (by rw [← heq]; exact hf)
      exact ⟨i, h.final k i hi' hvisible hended, hu, hvisible, hended⟩
    · have hff : f' = f := Option.some.inj (hf'.symm.trans hf)
      exact ⟨j, hj, hff ▸ hu, (Job.owes_iff.mp howes).1, Job.not_active_of_owes howes⟩
  · obtain hold | hdue | hrow := h.debts k j hj howes
    · exact .inl hold
    · exact hdue.elim
    · obtain heq | ⟨hnone, -⟩ := h.rows k
      · obtain ⟨f, hf⟩ := Option.isSome_iff_exists.mp hrow
        obtain ⟨i, hi', -, hvisible, hended⟩ := hi.ended k f (by rw [← heq]; exact hf)
        have hij : i = j := Option.some.inj ((h.final k i hi' hvisible hended).symm.trans hj)
        exact .inl ⟨i, hi', hij ▸ howes⟩
      · exact .inr ⟨hnone, hrow⟩
  · obtain heq | ⟨-, f', j, -, hj, howes, -⟩ := h.rows k
    · exact .inl (by rw [← heq]; exact hf)
    · exact .inr ⟨j, hj, (Job.owes_iff.mp howes).2⟩

theorem facts_of_retired {w : DebtWorld} (hi : Inv w) {db' : Db} {cleared : JobId → Bool}
    {i j : Job} (h : RowWrite w.db db' i j) (hs : j.status = .superseded)
    (hcleared : ∀ k, cleared k = false → w.cleared k = false) :
    Inv ⟨db', cleared⟩ ∧ StepFacts w ⟨db', cleared⟩ := by
  have hfailures : db'.failures = w.db.failures := by
    have h := congrArg Db.failures h.rest
    exact h
  have hbefore : ∀ k l, db'.jobs.get? k = some l → l.owes = true → w.db.jobs.get? k = some l := by
    intro k l hl howes
    rw [h.rows] at hl
    split at hl
    · cases hl
      simp [Job.owes, hs] at howes
    · exact hl
  refine ⟨⟨fun k l hl howes hc => ?_, fun k f hf => ?_⟩, fun k l hl howes => ?_, fun k f hf => ?_⟩
  · show (db'.failures.get? k).isSome = true
    rw [hfailures]
    exact hi.paid k l (hbefore k l hl howes) howes (hcleared k hc)
  · have hf' : w.db.failures.get? k = some f := by
      rw [← hfailures]
      exact hf
    obtain ⟨l, hl, hu, hvisible, hended⟩ := hi.ended k f hf'
    by_cases hk : k = i.id
    · have hli : l = i := Option.some.inj (hl.symm.trans (hk ▸ h.before))
      refine ⟨j,
        by rw [h.rows, if_pos hk], by rw [h.same.userId, ← hli]; exact hu, ?_, by rw [hs]; rfl⟩
      rw [h.same.lane, ← hli]
      exact hvisible
    · exact ⟨l, by rw [h.rows, if_neg hk]; exact hl, hu, hvisible, hended⟩
  · exact .inl ⟨l, hbefore k l hl howes, howes⟩
  · refine .inl ?_
    rw [← hfailures]
    exact hf

/-- A clear ends the jobs of its user without a failure, and drops the failures on record. -/
theorem facts_of_clear {w : DebtWorld} (hi : Inv w) (u : UserId) {cleared : JobId → Bool}
    (hcleared : ∀ k, cleared k = false → w.cleared k = false ∧
      clears w.db (.chatClear u) k = false) :
    Inv ⟨w.db.chatClear u, cleared⟩ ∧ StepFacts w ⟨w.db.chatClear u, cleared⟩ := by
  have hfailures : ∀ k, (w.db.chatClear u).failures.get? k = (w.db.failures.get? k).filter fun f =>
      !(f.userId == u) :=
    fun k => Table.get?_erase w.db.failures (fun f => f.userId == u) k
  have hbefore : ∀ k l, (w.db.chatClear u).jobs.get? k = some l → l.owes = true →
      w.db.jobs.get? k = some l := by
    intro k l hl howes
    rw [Db.get?_chatClear] at hl
    obtain ⟨i, hi', rfl⟩ := Option.map_eq_some_iff.mp hl
    by_cases hc : Db.clears u i = true
    · rw [if_pos hc] at howes
      simp [Job.owes, Job.cleared] at howes
    · rw [if_neg hc]
      exact hi'
  refine ⟨⟨fun k l hl howes hc => ?_, fun k f hf => ?_⟩, fun k l hl howes => ?_, fun k f hf => ?_⟩
  · obtain ⟨hc', hclears⟩ := hcleared k hc
    have hl' := hbefore k l hl howes
    obtain ⟨f, hf⟩ := Option.isSome_iff_exists.mp (hi.paid k l hl' howes hc')
    obtain ⟨l', hl'', hu, -⟩ := hi.ended k f hf
    have hll : l' = l := Option.some.inj (hl''.symm.trans hl')
    have hother : (f.userId == u) = false := by
      simp only [clears, hl', Option.any_some, howes, Bool.and_true] at hclears
      rw [hu, hll]
      exact hclears
    show ((w.db.chatClear u).failures.get? k).isSome = true
    rw [hfailures, hf, Option.filter_some, hother]
    rfl
  · have hf' : w.db.failures.get? k = some f := by
      have h := hfailures k
      rw [show (w.db.chatClear u).failures.get? k = some f from hf] at h
      exact (Option.filter_eq_some_iff.mp h.symm).1
    obtain ⟨l, hl, hu, hvisible, hended⟩ := hi.ended k f hf'
    refine ⟨l, ?_, hu, hvisible, hended⟩
    show (w.db.chatClear u).jobs.get? k = some l
    rw [Db.get?_chatClear, hl, Option.map_some, if_neg]
    simp [Db.clears, hended]
  · exact .inl ⟨l, hbefore k l hl howes, howes⟩
  · refine .inl ?_
    have h := hfailures k
    rw [show (w.db.chatClear u).failures.get? k = some f from hf] at h
    exact (Option.filter_eq_some_iff.mp h.symm).1

theorem step_facts (cfg : Config) {w : DebtWorld} (hi : Inv w) (l : DebtLabel) :
    Inv (step cfg w l) ∧ StepFacts w (step cfg w l) := by
  have hcleared : ∀ k, (step cfg w l).cleared k = false → w.cleared k = false ∧
      clears w.db l k = false := by
    intro k hk
    simpa [step] using hk
  obtain h | ⟨i, j, hrow, hs⟩ | ⟨u, rfl⟩ := stepDb_cases cfg w.db l
  · exact facts_of_debtStep hi h fun k hk => (hcleared k hk).1
  · exact facts_of_retired hi hrow hs fun k hk => (hcleared k hk).1
  · exact facts_of_clear hi u hcleared

theorem start_inv {db : Db} (hjobs : db.jobs.rows = []) (hfailures : db.failures.rows = []) :
    Inv (start db) := by
  refine ⟨fun k j hj => ?_, fun k f hf => ?_⟩
  · have hmem : j ∈ db.jobs.rows := (Serial.get?_eq_some.mp hj).1
    rw [hjobs] at hmem
    cases hmem
  · have hmem : f ∈ db.failures.rows := (Table.get?_eq_some.mp hf).1
    rw [hfailures] at hmem
    cases hmem

/-- From a database without jobs. In every state of every run, a chat turn or reminder that failed
or expired, and whose user was not cleared since, has exactly one row in the failure outbox. Every
step that makes a job fail or expire finds no row for it and leaves one; and every row that a step
adds is about a job that has failed or expired when the step is over. -/
theorem visible_failures_leave_obligations (cfg : Config) (db : Db) (hjobs : db.jobs.rows = [])
    (hfailures : db.failures.rows = []) (ls : List DebtLabel) :
    let w := run (step cfg) (start db) ls
    (∀ j ∈ w.db.jobs.rows, j.owes = true → w.cleared j.id = false → ∃! f, f ∈ w.db.failures.rows ∧
        f.jobId = j.id) ∧
    ∀ l, let w' := step cfg w l
      (∀ j ∈ w'.db.jobs.rows, j.owes = true → (∀ i ∈ w.db.jobs.rows, i.id = j.id → i.owes = false) →
        (∀ f ∈ w.db.failures.rows, f.jobId ≠ j.id) ∧ ∃ f ∈ w'.db.failures.rows, f.jobId = j.id) ∧
      ∀ f ∈ w'.db.failures.rows, f ∉ w.db.failures.rows →
        ∃ j ∈ w'.db.jobs.rows, j.id = f.jobId ∧ (j.status = .failed ∨ j.status = .expired) := by
  intro w
  have hi : Inv w :=
    invariant_all Inv (fun _ l hi => (step_facts cfg hi l).1) (start_inv hjobs hfailures) ls
  refine ⟨fun j hj howes hc => ?_, fun l => ⟨fun j hj howes hnew => ?_, fun f hf hnew => ?_⟩⟩
  · obtain ⟨f, hf⟩ := Option.isSome_iff_exists.mp (hi.paid j.id j (Serial.mem_rows.mp hj) howes hc)
    obtain ⟨hmem, hkey⟩ := Table.get?_eq_some.mp hf
    refine ⟨f, ⟨hmem, hkey⟩, fun f' hf' => ?_⟩
    have hget := Table.get?_eq_some.mpr hf'
    exact Option.some.inj (hget.symm.trans hf)
  · obtain ⟨i, hget, howes'⟩ | ⟨hnone, hsome⟩ :=
      (step_facts cfg hi l).2.debts j.id j (Serial.mem_rows.mp hj) howes
    · obtain ⟨hmem, hid⟩ := Serial.get?_eq_some.mp hget
      rw [hnew i hmem hid] at howes'
      cases howes'
    · obtain ⟨f, hf⟩ := Option.isSome_iff_exists.mp hsome
      obtain ⟨hmem, hkey⟩ := Table.get?_eq_some.mp hf
      exact ⟨Table.get?_eq_none.mp hnone, f, hmem, hkey⟩
  · obtain hold | ⟨j, hj, hended⟩ := (step_facts cfg hi l).2.rows f.jobId f (Table.mem_rows.mp hf)
    · exact absurd (Table.get?_eq_some.mp hold).1 hnew
    · obtain ⟨hmem, hid⟩ := Serial.get?_eq_some.mp hj
      exact ⟨j, hmem, hid, hended⟩

/-- A reminder writes remotely, loses its lease and cannot be replayed. -/
def reminderLost : List DebtLabel :=
  [.txn (.advanceRuntimeState "u" .resident .draining),
    .txn (.advanceRuntimeState "u" .draining .v2), .txn (.enqueueJob ⟨"u", .scheduled, none, none,
      "t", none, none, none⟩), .claim ⟨"a", 1, false⟩,
    .txn (.markRunning 1 "a"), .startMcpMutationAttempt 1 "u" "a" "k" 0, .txn (.tick 600000000),
    .txn (.reapStuckJobRows none)]

/-- The reminder has expired, and its user will be told. -/
theorem visible_failures_leave_obligations_reaped :
    let w := run (step .default) (start (.init ["u"] ⟨false, none⟩)) reminderLost
    (w.db.jobs.get? 1).map (·.status) = some .expired ∧ ∃! f, f ∈ w.db.failures.rows ∧
      f.jobId = 1 := by
  intro w
  have hstatus : (w.db.jobs.get? 1).map (fun j => (j.status, j.owes)) = some (.expired, true) := by
    decide +kernel
  obtain ⟨j, hj, hpair⟩ := Option.map_eq_some_iff.mp hstatus
  obtain ⟨hmem, hid⟩ := Serial.get?_eq_some.mp hj
  obtain ⟨hpaid, -⟩ :=
    visible_failures_leave_obligations .default (.init ["u"] ⟨false, none⟩) rfl rfl reminderLost
  have hone := hpaid j hmem (congrArg Prod.snd hpair) (by rw [hid]; decide +kernel)
  rw [hid] at hone
  exact ⟨by rw [hj]; exact congrArg (fun x => some x.1) hpair, hone⟩

/-- A user is told only about their own turns and reminders, and no job with a notice runs again. -/
theorem noticed_jobs_are_over (cfg : Config) (db : Db) (hjobs : db.jobs.rows = [])
    (hfailures : db.failures.rows = []) (ls : List DebtLabel) :
    let w := run (step cfg) (start db) ls
    ∀ f ∈ w.db.failures.rows, ∃ j ∈ w.db.jobs.rows,
      j.id = f.jobId ∧ f.userId = j.userId ∧ j.lane.visible = true ∧ j.status.active = false := by
  intro w f hf
  have hi : Inv w :=
    invariant_all Inv (fun _ l hi => (step_facts cfg hi l).1) (start_inv hjobs hfailures) ls
  obtain ⟨j, hj, hended⟩ := hi.ended f.jobId f (Table.mem_rows.mp hf)
  obtain ⟨hmem, hid⟩ := Serial.get?_eq_some.mp hj
  exact ⟨j, hmem, hid, hended⟩

theorem noticed_jobs_are_over_reminder :
    let w := run (step .default) (start (.init ["u"] ⟨false, none⟩)) reminderLost
    w.db.failures.rows.map (·.jobId) = [1] ∧ ∀ f ∈ w.db.failures.rows, ∃ j ∈ w.db.jobs.rows,
      j.id = f.jobId ∧ f.userId = j.userId ∧ j.lane.visible = true ∧ j.status.active = false :=
  ⟨by decide +kernel, noticed_jobs_are_over .default _ rfl rfl reminderLost⟩

end DebtWorld

end Feedling
