import Feedling.RecoveryBarrier

/-!
# A turn that wrote is never run again

The watchdog, the reaper and foreground preemption may give a wake back to the queue, which runs
the whole turn again. They do so only for a turn without a write on record. A clear deletes the
records, but it ends the job as well. So over every interleaving a job of a replayed lane that has
had a write is running under the claim that made it, or finished.

The world counts the claims of each job and lists every row that a step brings, with the worker that
the call names and the claim that is current then; the rows themselves may be gone later.
-/

namespace Feedling

open KeyedTable Runs

/-- A row of `v2_mcp_mutation_attempts`, or of the outbox with a durable type, at its insert. -/
structure WriteEvent where
  job : JobId
  worker : WorkerId
  /-- Which claim of the job it was. -/
  claim : Nat
  deriving DecidableEq, Repr

structure ReplayWorld where
  db : Db
  claims : JobId → Nat
  writes : List WriteEvent

inductive ReplayLabel where
  | txn (t : Txn)
  /-- The update of a claim on a candidate that it may have read at any earlier time. -/
  | claim (p : Pick)
  | chatClear (u : UserId)
  | startMcpMutationAttempt (job : JobId) (u : UserId) (worker : WorkerId) (callKey : String)
      (inputFrontierSeq : Nat)
  | effectEnqueue (r : EffectRequest) (worker : WorkerId)

namespace ReplayWorld

def start (db : Db) : ReplayWorld := ⟨db, fun _ => 0, []⟩

/-- The row went from pending to claimed. -/
def claimed (db db' : Db) (job : JobId) : Bool :=
  (db.jobs.get? job).any (fun j => j.status == .pending) &&
    (db'.jobs.get? job).any fun j => j.status == .claimed

/-- The jobs of the attempts and durable effects that are there after a step and were not before. -/
def appeared (db db' : Db) : List JobId :=
  (db'.attempts.rows.filter fun a => (db.attempts.get? a.key).isNone).map (·.jobId) ++
    (db'.effects.rows.filter fun e =>
      e.effectType.durableTool && (db.effects.find? e.effectId).isNone).filterMap (·.jobId)

/-- The worker that the call names. -/
def callWorker : ReplayLabel → WorkerId
  | .startMcpMutationAttempt _ _ worker _ _ | .effectEnqueue _ worker => worker
  | _ => ""

def stepDb (cfg : Config) (db : Db) : ReplayLabel → Db
  | .txn t => Db.exec cfg db t
  | .claim p => Db.claimStep cfg db p
  | .chatClear u => db.chatClear u
  | .startMcpMutationAttempt job u worker callKey frontier =>
    (db.startMcpMutationAttempt job u worker callKey frontier).1
  | .effectEnqueue r worker => (db.effectEnqueue r (some worker)).1

def step (cfg : Config) (w : ReplayWorld) (l : ReplayLabel) : ReplayWorld :=
  let db := stepDb cfg w.db l
  { db := db
    claims := fun k => if claimed w.db db k then w.claims k + 1 else w.claims k
    writes := (appeared w.db db).map (fun k => ⟨k, callWorker l, w.claims k⟩) ++ w.writes }

/-! ## What keeps a job from being replayed -/

/-- A write of the job is on record, under the user of the job. -/
def OnRecord (db : Db) (j : Job) : Prop :=
  (∃ a ∈ db.attempts.rows, a.jobId = j.id ∧ a.userId = j.userId) ∨
    ∃ e ∈ db.effects.rows, e.jobId = some j.id ∧ e.userId = j.userId ∧
      e.effectType.durableTool = true

variable {db : Db} {k : JobId}

theorem not_pristine_iff :
    db.turnIsPristine k = false ↔ (∃ a ∈ db.attempts.rows, a.jobId = k) ∨
      ∃ e ∈ db.effects.rows, e.jobId = some k ∧ e.effectType.durableTool = true := by
  rw [Db.turnIsPristine, Bool.and_eq_false_iff]
  simp

theorem OnRecord.not_pristine {j : Job} (h : OnRecord db j) : db.turnIsPristine j.id = false := by
  rw [not_pristine_iff]
  obtain ⟨a, ha, hjob, -⟩ | ⟨e, he, hjob, -, htype⟩ := h
  · exact .inl ⟨a, ha, hjob⟩
  · exact .inr ⟨e, he, hjob, htype⟩

/-- The job is running under its current claim, with a write on record, or it is finished. -/
def Settled (w : ReplayWorld) (x : WriteEvent) (j : Job) : Prop :=
  j.status.terminal = true ∨
    (j.status = .running ∧ j.claimedBy.getD "" = x.worker ∧ x.claim = w.claims x.job ∧
      OnRecord w.db j)

structure Inv (w : ReplayWorld) : Prop where
  /-- Every write on record is listed. -/
  listed : ∀ k, w.db.turnIsPristine k = false → ∃ x ∈ w.writes, x.job = k
  settled : ∀ x ∈ w.writes, ∃ j, w.db.jobs.get? x.job = some j ∧
    (replayGuarded j.lane = true → Settled w x j)
  oneClaim : ∀ x ∈ w.writes, ∀ y ∈ w.writes, x.job = y.job →
    ∀ j, w.db.jobs.get? x.job = some j → replayGuarded j.lane = true → x.claim = y.claim ∧
      x.worker = y.worker

/-! ## What a step does -/

/-- A finished row stays finished, and a replayed lane keeps a run that wrote. -/
def KeepsRow (db db' : Db) (i j : Job) : Prop :=
  SameJob i j ∧ (i.status.terminal = true → j.status.terminal = true) ∧
    (replayGuarded i.lane = true → i.status = .running → OnRecord db i →
      j.status.terminal = true ∨ j.status = .running ∧ j.claimedBy = i.claimedBy ∧ OnRecord db' j)

/-- A step keeps the rows, and what it inserts has passed the fence of this worker. -/
structure ReplayStep (worker : WorkerId) (db db' : Db) : Prop where
  rows : ∀ k i, db.jobs.get? k = some i → ∃ j, db'.jobs.get? k = some j ∧ KeepsRow db db' i j
  attempts : ∀ a ∈ db'.attempts.rows, db.attempts.get? a.key = none →
    db'.jobs = db.jobs ∧ db.writeFenceHolds a.userId (some a.jobId) worker = true
  effects : ∀ e ∈ db'.effects.rows, e ∈ db.effects.rows ∨ db.effects.find? e.effectId = none ∧
    db'.jobs = db.jobs ∧ db.writeFenceHolds e.userId e.jobId worker = true

/-- Statements do not take a run that wrote out of its claim. -/
theorem running_stays {pristine : JobId → Bool} {i : Job} {o : Option Job}
    (hrun : i.status = .running) (hguard : replayGuarded i.lane = true)
    (hwrote : pristine i.id = false)
    (h : Relation.ReflTransGen (RowStmt pristine) (some i) o) :
    ∃ j, o = some j ∧ SameJob i j ∧
      (j.status.terminal = true ∨ j.status = .running ∧ j.claimedBy = i.claimedBy) := by
  induction h with
  | refl => exact ⟨i, rfl, .refl i, .inr ⟨hrun, rfl⟩⟩
  | tail _ hstep ih =>
    obtain ⟨j, rfl, hsame, hterm | ⟨hj, hclaim⟩⟩ := ih
    · rw [hstep.not_terminal] at hterm
      cases hterm
    · cases hstep with
      | coalesce =>
        exact ⟨_, rfl, ⟨hsame.id, hsame.userId, hsame.lane, hsame.reason, hsame.traceId⟩,
          .inr ⟨hj, hclaim⟩⟩
      | start _ _ _ hs => rw [hj] at hs; cases hs
      | renew =>
        exact ⟨_, rfl, ⟨hsame.id, hsame.userId, hsame.lane, hsame.reason, hsame.traceId⟩,
          .inr ⟨hj, hclaim⟩⟩
      | finish _ j' hs _ hinactive => exact ⟨j', rfl, hsame.trans hs, .inl (by simp [hinactive])⟩
      | requeue _ _ _ _ _ _ _ hpristine =>
        have hp := hpristine (by rw [hsame.lane]; exact hguard) (by rw [hj]; rfl)
        rw [hsame.id, hwrote] at hp
        cases hp

variable {db db' : Db}

theorem onRecord_congr {i j : Job} (hattempts : db'.attemptFacts = db.attemptFacts)
    (heffects : db'.effects = db.effects) (hsame : SameJob i j) (h : OnRecord db i) :
    OnRecord db' j := by
  obtain ⟨a, ha, hjob, hu⟩ | ⟨e, he, hjob, hu, htype⟩ := h
  · have hfact : (a.key, a.userId, a.inputFrontierSeq) ∈ db'.attemptFacts := by
      rw [hattempts]
      exact List.mem_map.mpr ⟨a, ha, rfl⟩
    obtain ⟨b, hb, heq⟩ := List.mem_map.mp hfact
    simp only [McpAttempt.key, Prod.mk.injEq] at heq
    exact .inl ⟨b, hb, by rw [heq.1.1, hjob, hsame.id], by rw [heq.2.1, hu, hsame.userId]⟩
  · exact .inr ⟨e, heffects ▸ he, by rw [hjob, hsame.id], by rw [hu, hsame.userId], htype⟩

theorem attempt_kept (hattempts : db'.attemptFacts = db.attemptFacts) {a : McpAttempt}
    (ha : a ∈ db'.attempts.rows) : db.attempts.get? a.key ≠ none := by
  intro hnone
  have hfact : (a.key, a.userId, a.inputFrontierSeq) ∈ db.attemptFacts := by
    rw [← hattempts]
    exact List.mem_map.mpr ⟨a, ha, rfl⟩
  obtain ⟨b, hb, heq⟩ := List.mem_map.mp hfact
  rw [Table.get?_eq_some.mpr ⟨hb, congrArg Prod.fst heq⟩] at hnone
  cases hnone

theorem of_rowsStep (worker : WorkerId) (h : RowsStep db db') : ReplayStep worker db db' := by
  refine ⟨?_, fun a ha hnone => absurd hnone (attempt_kept h.attempts ha),
    fun e he => .inl (h.effects ▸ he)⟩
  · intro k i hi
    obtain ⟨j, hj, hsame⟩ := h.rows.sameJob hi
    have hrun := h.rows k
    rw [hi, hj] at hrun
    refine ⟨j, hj, hsame, ?_, ?_⟩
    · intro hterm
      cases terminal_stays hrun hterm
      exact hterm
    · intro hguard hrunning hrecord
      obtain ⟨j', hj', -, hkept⟩ := running_stays hrunning hguard hrecord.not_pristine hrun
      cases hj'
      obtain hterm | ⟨hs, hclaim⟩ := hkept
      · exact .inl hterm
      · exact .inr ⟨hs, hclaim, onRecord_congr h.attempts h.effects hsame hrecord⟩

theorem of_claim (cfg : Config) (db : Db) (p : Pick) (worker : WorkerId) :
    ReplayStep worker db (Db.claimStep cfg db p) := by
  have hattempts := Db.claimStep_proj cfg db p Db.attempts fun _ => rfl
  have heffects := Db.claimStep_proj cfg db p Db.effects fun _ => rfl
  have hfacts : (Db.claimStep cfg db p).attemptFacts = db.attemptFacts := by
    rw [Db.attemptFacts, hattempts]; rfl
  refine ⟨?_, fun a ha hnone => absurd hnone (attempt_kept hfacts ha),
    fun e he => .inl (heffects ▸ he)⟩
  · intro k i hi
    obtain ⟨j, hj, hsame, rfl | ⟨hpending, -⟩ | hend⟩ := Db.claimStep_row cfg db p hi
    · exact ⟨j, hj, hsame, id, fun _ hs hrecord => .inr ⟨hs, rfl,
          onRecord_congr hfacts heffects hsame hrecord⟩⟩
    · -- the claimed row was pending
      refine ⟨j, hj, hsame, ?_, ?_⟩
      · rw [hpending]
        exact fun h => nomatch h
      · intro _ hs
        rw [hpending] at hs
        cases hs
    · have hterm : j.status.terminal = true := by rw [hend]; rfl
      exact ⟨j, hj, hsame, fun _ => hterm, fun _ _ _ => .inl hterm⟩

/-- A clear deletes the records of the user together with the runs that they protect. -/
theorem of_chatClear (db : Db) (u : UserId) (worker : WorkerId) :
    ReplayStep worker db (db.chatClear u) := by
  refine ⟨?_, fun a ha hnone => ?_, fun e he => .inl (List.mem_filter.mp he).1⟩
  · intro k i hi
    refine ⟨if Db.clears u i then i.cleared db.clock else i, by rw [Db.get?_chatClear, hi]; rfl, ?_⟩
    cases hclears : Db.clears u i with
    | true => exact ⟨⟨rfl, rfl, rfl, rfl, rfl⟩, fun _ => rfl, fun _ _ _ => .inl rfl⟩
    | false =>
      refine ⟨.refl i, id, fun _ hs hrecord => .inr ⟨hs, rfl, ?_⟩⟩
      have hother : (i.userId == u) = false := by
        simpa [Db.clears, hs, JobStatus.active] using hclears
      obtain ⟨a, ha, hjob, hu⟩ | ⟨e, he, hjob, hu, htype⟩ := hrecord
      · exact .inl ⟨a, List.mem_filter.mpr ⟨ha, by simpa [hu] using hother⟩, hjob, hu⟩
      · exact .inr ⟨e, List.mem_filter.mpr ⟨he, by simpa [hu] using hother⟩, hjob, hu, htype⟩
  · rw [Table.mem_rows.mp (List.mem_filter.mp ha).1] at hnone
    cases hnone

theorem rows_of_insert (hjobs : db'.jobs = db.jobs)
    (hattempts : ∀ a ∈ db.attempts.rows, a ∈ db'.attempts.rows) (heffects : ∀ e ∈ db.effects.rows,
      e ∈ db'.effects.rows) (k : JobId) (i : Job) (hi : db.jobs.get? k = some i) :
    ∃ j, db'.jobs.get? k = some j ∧ KeepsRow db db' i j := by
  refine ⟨i, by rw [hjobs]; exact hi, .refl i, id, fun _ hs hrecord => .inr ⟨hs, rfl, ?_⟩⟩
  obtain ⟨a, ha, h⟩ | ⟨e, he, h⟩ := hrecord
  · exact .inl ⟨a, hattempts a ha, h⟩
  · exact .inr ⟨e, heffects e he, h⟩

theorem of_startMcp (db : Db) (job : JobId) (u : UserId) (worker : WorkerId) (callKey : String)
    (frontier : Nat) :
    ReplayStep worker db (db.startMcpMutationAttempt job u worker callKey frontier).1 := by
  rw [Db.startMcpMutationAttempt]
  cases hfence : db.writeFenceHolds u (some job) worker with
  | false => exact of_rowsStep worker (.refl db)
  | true =>
    refine ⟨rows_of_insert rfl (fun _ h => Table.mem_insert_of_mem h) fun _ h => h,
      fun a ha hnone => ?_, fun e he => .inl he⟩
    obtain ha | rfl := Table.mem_insert ha
    · rw [Table.mem_rows.mp ha] at hnone
      cases hnone
    · exact ⟨rfl, hfence⟩

theorem insertEffect_keeps {e : Effect} (h : e ∈ db.effects.rows) (r : EffectRequest) :
    e ∈ (db.insertEffect r).effects.rows := by
  rw [Indexed.mem_rows] at h ⊢
  simp [Db.insertEffect, Indexed.find?_insert, h]

theorem of_effectEnqueue (db : Db) (r : EffectRequest) (worker : WorkerId) :
    ReplayStep worker db (db.effectEnqueue r (some worker)).1 := by
  rw [Db.effectEnqueue]
  cases hfence : db.writeFenceHolds r.userId r.jobId worker with
  | false => exact of_rowsStep worker (.refl db)
  | true =>
    refine ⟨rows_of_insert rfl (fun _ h => h) fun _ h => insertEffect_keeps h r,
      fun a ha hnone => ?_, fun e he => ?_⟩
    · have hold : db.attempts.get? a.key = some a := Table.mem_rows.mp ha
      rw [hold] at hnone
      cases hnone
    · obtain hold | ⟨hnone, hnew⟩ := Db.insertEffect_find? (Indexed.mem_rows.mp he)
      · exact .inl (Indexed.mem_rows.mpr hold)
      · exact .inr ⟨hnone, rfl, by rw [hnew.userId, hnew.jobId]; exact hfence⟩

theorem stepDb_step (cfg : Config) (db : Db) (l : ReplayLabel) :
    ReplayStep (callWorker l) db (stepDb cfg db l) := by
  cases l with
  | txn t => exact of_rowsStep _ (Db.exec_step cfg db t)
  | claim p => exact of_claim cfg db p _
  | chatClear u => exact of_chatClear db u _
  | startMcpMutationAttempt job u worker callKey frontier =>
    exact of_startMcp db job u worker callKey frontier
  | effectEnqueue r worker => exact of_effectEnqueue db r worker

def RunningUnder (db : Db) (k : JobId) (worker : WorkerId) : Prop :=
  ∃ j, db.jobs.get? k = some j ∧ j.status = .running ∧ j.claimedBy.getD "" = worker

theorem fence_spec {u : UserId} {job : Option JobId} {worker : WorkerId}
    (h : db.writeFenceHolds u job worker = true) :
    ∃ k j, job = some k ∧ db.jobs.get? k = some j ∧ j.id = k ∧ j.userId = u ∧ j.status = .running ∧
      j.claimedBy.getD "" = worker := by
  obtain ⟨j, hj, howned⟩ := (Option.any_eq_true _ _).mp h
  obtain ⟨k, hk, hget⟩ := Option.bind_eq_some_iff.mp hj
  simp only [Bool.and_eq_true, beq_iff_eq] at howned
  exact ⟨k, j, hk, hget, Serial.key_of_get? hget, howned.1.1.1, howned.1.1.2, howned.1.2⟩

theorem mem_appeared : k ∈ appeared db db' ↔
    (∃ a ∈ db'.attempts.rows, db.attempts.get? a.key = none ∧ a.jobId = k) ∨
      ∃ e ∈ db'.effects.rows, e.effectType.durableTool = true ∧ db.effects.find? e.effectId = none ∧
        e.jobId = some k := by
  simp [appeared, and_assoc]

namespace ReplayStep

variable {worker : WorkerId} (h : ReplayStep worker db db')
include h

theorem records (hk : db'.turnIsPristine k = false) :
    db.turnIsPristine k = false ∨ k ∈ appeared db db' := by
  rw [not_pristine_iff] at hk ⊢
  rw [mem_appeared]
  obtain ⟨a, ha, hjob⟩ | ⟨e, he, hjob, htype⟩ := hk
  · cases hold : db.attempts.get? a.key with
    | none => exact .inr (.inl ⟨a, ha, hold, hjob⟩)
    | some b =>
      obtain ⟨hb, hkey⟩ := Table.get?_eq_some.mp hold
      exact .inl (.inl ⟨b, hb, (congrArg Prod.fst hkey).trans hjob⟩)
  · obtain hold | ⟨hnone, -⟩ := h.effects e he
    · exact .inl (.inr ⟨e, hold, hjob, htype⟩)
    · exact .inr (.inr ⟨e, he, htype, hnone, hjob⟩)

/-- A row that appears is of a job that is running under the claim named in the call. -/
theorem of_appeared (hk : k ∈ appeared db db') :
    ∃ j, db.jobs.get? k = some j ∧ j.status = .running ∧ j.claimedBy.getD "" = worker ∧
      db'.jobs = db.jobs ∧ OnRecord db' j := by
  obtain ⟨a, ha, hnone, rfl⟩ | ⟨e, he, htype, hnone, hjob⟩ := mem_appeared.mp hk
  · obtain ⟨hjobs, hfence⟩ := h.attempts a ha hnone
    obtain ⟨k, j, hk, hj, hid, hu, hs, hworker⟩ := fence_spec hfence
    cases hk
    exact ⟨j, hj, hs, hworker, hjobs, .inl ⟨a, ha, hid.symm, hu.symm⟩⟩
  · obtain hold | ⟨-, hjobs, hfence⟩ := h.effects e he
    · rw [Indexed.mem_rows.mp hold] at hnone
      cases hnone
    · obtain ⟨k', j, hk', hj, hid, hu, hs, hworker⟩ := fence_spec hfence
      obtain rfl : k = k' := Option.some.inj (hjob.symm.trans hk')
      exact ⟨j, hj, hs, hworker, hjobs, .inr ⟨e, he, by rw [hjob, hid], hu.symm, htype⟩⟩

end ReplayStep

variable {l : ReplayLabel}

/-! ## Runs -/

theorem start_inv (h : ∀ k, db.turnIsPristine k = true) : Inv (start db) := by
  refine ⟨fun k hk => ?_, fun x hx => (nomatch hx), fun x hx => (nomatch hx)⟩
  have hk' : db.turnIsPristine k = false := hk
  rw [h k] at hk'
  cases hk'

variable {cfg : Config} {w : ReplayWorld}

theorem not_claimed {i : Job}
    (hi : w.db.jobs.get? k = some i) (hs : i.status ≠ .pending) :
    (step cfg w l).claims k = w.claims k := by
  have hnot : claimed w.db (stepDb cfg w.db l) k = false := by simp [claimed, hi, hs]
  simp [step, hnot]

variable {x : WriteEvent}

theorem settled_stays (hi : Inv w) (l : ReplayLabel)
    (hx : x ∈ w.writes) :
    ∃ j, (step cfg w l).db.jobs.get? x.job = some j ∧
      (replayGuarded j.lane = true → Settled (step cfg w l) x j) := by
  obtain ⟨i, hget, hset⟩ := hi.settled x hx
  obtain ⟨j, hj, hsame, hterm, hrun⟩ := (stepDb_step cfg w.db l).rows x.job i hget
  refine ⟨j, hj, fun hguard => ?_⟩
  rw [hsame.lane] at hguard
  obtain hdone | ⟨hs, hworker, hclaim, hrecord⟩ := hset hguard
  · exact .inl (hterm hdone)
  · obtain hdone | ⟨hs', hclaimed, hrecord'⟩ := hrun hguard hs hrecord
    · exact .inl hdone
    · refine .inr ⟨hs', by rw [hclaimed]; exact hworker, ?_, hrecord'⟩
      rw [not_claimed hget (by rw [hs]; exact fun h => nomatch h)]
      exact hclaim

theorem mem_writes (hx : x ∈ (step cfg w l).writes) :
    x ∈ w.writes ∨
      x.job ∈ appeared w.db (stepDb cfg w.db l) ∧ x.worker = callWorker l ∧
        x.claim = w.claims x.job := by
  simp only [step, List.mem_append, List.mem_map] at hx
  obtain ⟨k, hk, rfl⟩ | hx := hx
  · exact .inr ⟨hk, rfl, rfl⟩
  · exact .inl hx

/-- A write that a step lists is settled: its job is running under the claim. -/
theorem settled_new (hnew : x.job ∈ appeared w.db (stepDb cfg w.db l))
    (hworker : x.worker = callWorker l) (hclaim : x.claim = w.claims x.job) :
    ∃ j, (step cfg w l).db.jobs.get? x.job = some j ∧ w.db.jobs.get? x.job = some j ∧
      j.status = .running ∧ j.claimedBy.getD "" = x.worker ∧ Settled (step cfg w l) x j := by
  obtain ⟨j, hj, hs, howner, hjobs, hrecord⟩ := (stepDb_step cfg w.db l).of_appeared hnew
  rw [← hworker] at howner
  refine ⟨j, ?_, hj, hs, howner, .inr ⟨hs, howner, ?_, hrecord⟩⟩
  · show (stepDb cfg w.db l).jobs.get? x.job = some j
    rw [hjobs]
    exact hj
  · rw [not_claimed hj (by rw [hs]; exact fun h => nomatch h)]
    exact hclaim

theorem step_inv (cfg : Config) (hi : Inv w) (l : ReplayLabel) : Inv (step cfg w l) := by
  constructor
  · intro k hk
    obtain hold | hnew := (stepDb_step cfg w.db l).records hk
    · obtain ⟨x, hx, hjob⟩ := hi.listed k hold
      exact ⟨x, List.mem_append_right _ hx, hjob⟩
    · exact ⟨⟨k, callWorker l, w.claims k⟩,
        List.mem_append_left _ (List.mem_map.mpr ⟨k, hnew, rfl⟩), rfl⟩
  · intro x hx
    obtain hx | ⟨hnew, hworker, hclaim⟩ := mem_writes hx
    · exact settled_stays hi l hx
    · obtain ⟨j, hj, -, -, -, hset⟩ := settled_new hnew hworker hclaim
      exact ⟨j, hj, fun _ => hset⟩
  · intro x hx y hy hxy j hj hguard
    -- a new write meets a listed one in a running job, so both are of its current claim
    have hmeets : ∀ x y : WriteEvent, x.job ∈ appeared w.db (stepDb cfg w.db l) →
        x.worker = callWorker l →
          x.claim = w.claims x.job → y ∈ w.writes → x.job = y.job →
          (∀ j, (step cfg w l).db.jobs.get? x.job = some j → replayGuarded j.lane = true) →
          x.claim = y.claim ∧ x.worker = y.worker := by
      intro x y hnew hworker hclaim hy hxy hguard
      obtain ⟨i, hafter, hbefore, hs, howner, -⟩ := settled_new hnew hworker hclaim
      obtain ⟨j, hj, hset⟩ := hi.settled y hy
      rw [← hxy, hbefore] at hj
      cases hj
      obtain hdone | ⟨-, hyworker, hyclaim, -⟩ := hset (hguard i hafter)
      · rw [hs] at hdone
        cases hdone
      · exact ⟨by rw [hclaim, hyclaim, hxy], by rw [← howner, hyworker]⟩
    have hlane : ∀ i, (step cfg w l).db.jobs.get? x.job = some i → replayGuarded i.lane = true := by
      intro i hi'
      rw [hj] at hi'
      cases hi'
      exact hguard
    obtain hx | ⟨hnewx, hworkerx, hclaimx⟩ := mem_writes hx
    · obtain hy | ⟨hnewy, hworkery, hclaimy⟩ := mem_writes hy
      · obtain ⟨i, hget, -⟩ := hi.settled x hx
        obtain ⟨j', hj', hsame, -⟩ := (stepDb_step cfg w.db l).rows x.job i hget
        have hjj : j' = j := Option.some.inj (hj'.symm.trans hj)
        subst hjj
        exact hi.oneClaim x hx y hy hxy i hget (by rw [← hsame.lane]; exact hguard)
      · obtain ⟨h1, h2⟩ :=
          hmeets y x hnewy hworkery hclaimy hx hxy.symm (by rw [← hxy]; exact hlane)
        exact ⟨h1.symm, h2.symm⟩
    · obtain hy | ⟨-, hworkery, hclaimy⟩ := mem_writes hy
      · exact hmeets x y hnewx hworkerx hclaimx hy hxy hlane
      · exact ⟨by rw [hclaimx, hclaimy, hxy], by rw [hworkerx, hworkery]⟩

/-- A write on the list, of a job that the watchdog may give back to the queue. -/
def GuardedWrite (w : ReplayWorld) (x : WriteEvent) : Prop :=
  x ∈ w.writes ∧ ∃ j, w.db.jobs.get? x.job = some j ∧ replayGuarded j.lane = true

/-- From a database without writes on record: in every state of every run, every write on record is
listed, no job with a listed write can be started again, and the writes of a job are of one claim.
Every row that the next step brings is of a job that is running under the claim named in the
call. -/
theorem replayed_turns_wrote_nothing (cfg : Config) (db : Db)
    (hclean : ∀ k, db.turnIsPristine k = true) (ls : List ReplayLabel) :
    let w := run (step cfg) (start db) ls
    (∀ k, w.db.turnIsPristine k = false → ∃ x ∈ w.writes, x.job = k) ∧
    (∀ x, GuardedWrite w x → ∀ worker, (Db.markRunning cfg w.db x.job worker).2 = false) ∧
    (∀ x y, GuardedWrite w x → GuardedWrite w y → x.job = y.job → x.claim = y.claim ∧
        x.worker = y.worker) ∧
    ∀ l, (∀ a ∈ (step cfg w l).db.attempts.rows, w.db.attempts.get? a.key = none →
        RunningUnder w.db a.jobId (callWorker l) ∧
          ⟨a.jobId, callWorker l, w.claims a.jobId⟩ ∈ (step cfg w l).writes) ∧
      ∀ e ∈ (step cfg w l).db.effects.rows, e.effectType.durableTool = true →
        w.db.effects.find? e.effectId = none → ∃ k, e.jobId = some k ∧
          RunningUnder w.db k (callWorker l) ∧
            ⟨k, callWorker l, w.claims k⟩ ∈ (step cfg w l).writes := by
  intro w
  have hi : Inv w := invariant_all Inv (fun _ l hi => step_inv cfg hi l) (start_inv hclean) ls
  refine ⟨hi.listed, ?_, ?_, fun l => ?_⟩
  · rintro x ⟨hx, j, hj, hguard⟩ worker
    obtain heq | ⟨i, hget, -, hclaimed, -⟩ := Db.markRunning_cases cfg w.db x.job worker
    · rw [heq]
    · obtain ⟨j', hj', hset⟩ := hi.settled x hx
      rw [hget] at hj hj'
      cases hj
      cases hj'
      obtain hdone | ⟨hs, -⟩ := hset hguard
      · rw [hclaimed] at hdone
        cases hdone
      · rw [hclaimed] at hs
        cases hs
  · rintro x y ⟨hx, j, hj, hguard⟩ ⟨hy, -⟩ hxy
    exact hi.oneClaim x hx y hy hxy j hj hguard
  · have hstep := stepDb_step cfg w.db l
    have hlists : ∀ k ∈ appeared w.db (stepDb cfg w.db l), RunningUnder w.db k (callWorker l) ∧
        ⟨k, callWorker l, w.claims k⟩ ∈ (step cfg w l).writes := by
      intro k hk
      obtain ⟨j, hj, hs, howner, -⟩ := hstep.of_appeared hk
      exact ⟨⟨j, hj, hs, howner⟩, List.mem_append_left _ (List.mem_map.mpr ⟨k, hk, rfl⟩)⟩
    refine ⟨fun a ha hnone => hlists _ (mem_appeared.mpr (.inl ⟨a, ha, hnone, rfl⟩)),
      fun e he htype hnone => ?_⟩
    obtain hold | ⟨-, -, hfence⟩ := hstep.effects e he
    · rw [Indexed.mem_rows.mp hold] at hnone
      cases hnone
    · obtain ⟨k, -, hk, -⟩ := fence_spec hfence
      exact ⟨k, hk, hlists k (mem_appeared.mpr (.inr ⟨e, he, htype, hnone, hk⟩))⟩

/-- A scheduled wake writes remotely, its lease runs out, and the reaper finds it. -/
def writesThenReaped : List ReplayLabel :=
  [.txn (.advanceRuntimeState "u" .resident .draining),
    .txn (.advanceRuntimeState "u" .draining .v2), .txn (.enqueueJob ⟨"u", .scheduled, none, none,
      "t", none, none, none⟩), .claim ⟨"a", 1, false⟩,
    .txn (.markRunning 1 "a"), .startMcpMutationAttempt 1 "u" "a" "k" 0, .txn (.tick 600000000),
    .txn (.reapStuckJobRows none)]

/-- The wake is not given back: no worker can start it again. -/
theorem replayed_turns_wrote_nothing_reaped :
    let w := run (step .default) (start (.init ["u"] ⟨false, none⟩)) writesThenReaped
    w.writes = [⟨1, "a", 1⟩] ∧ (w.db.jobs.get? 1).map (·.status) = some .expired ∧
      ∀ worker, (Db.markRunning .default w.db 1 worker).2 = false := by
  intro w
  have hwrites : w.writes = [⟨1, "a", 1⟩] := by decide +kernel
  have hlane : (w.db.jobs.get? 1).map (·.lane) = some .scheduled := by decide +kernel
  obtain ⟨j, hj, hscheduled⟩ := Option.map_eq_some_iff.mp hlane
  refine ⟨hwrites, by decide +kernel, ?_⟩
  obtain ⟨-, hstart, -⟩ :=
    replayed_turns_wrote_nothing .default (.init ["u"] ⟨false, none⟩) (fun _ => rfl)
    writesThenReaped
  exact hstart ⟨1, "a", 1⟩ ⟨hwrites ▸ List.mem_singleton.mpr rfl, j, hj, by rw [hscheduled]; rfl⟩

end ReplayWorld

end Feedling
