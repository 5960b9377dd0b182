import Feedling.ExpiredAttempts

/-!
# Runs in which jobs expire

Remote writes start and finish between the transactions of the queue, and any of these may expire
the job that wrote. The world remembers of each job whether one of its attempts was ambiguous in the
state in which it expired.
-/

namespace Feedling

open KeyedTable Runs

/-- The database, and the jobs that had an ambiguous attempt when they expired. -/
structure ExpiryWorld where
  db : Db
  ambiguousAtExpiry : JobId → Bool

inductive ExpiryLabel where
  | txn (t : Txn)
  /-- The update of a claim on a candidate that it may have read at any earlier time. -/
  | claim (p : Pick)
  | rescheduleOwnedJob (job : JobId) (w : WorkerId) (error : String) (availableAt : Time)
  | startMcpMutationAttempt (job : JobId) (u : UserId) (worker : WorkerId) (callKey : String)
      (inputFrontierSeq : Nat)
  | finishMcpMutationAttempt (job : JobId) (callKey : String) (outcome : Outcome)

namespace ExpiryWorld

def start (db : Db) : ExpiryWorld := ⟨db, fun _ => false⟩

def stepDb (cfg : Config) (db : Db) : ExpiryLabel → Db
  | .txn t => Db.exec cfg db t
  | .claim p => Db.claimStep cfg db p
  | .rescheduleOwnedJob job w error availableAt => (db.rescheduleOwnedJob job w error availableAt).1
  | .startMcpMutationAttempt job u worker callKey frontier =>
    (db.startMcpMutationAttempt job u worker callKey frontier).1
  | .finishMcpMutationAttempt job callKey outcome =>
    (db.finishMcpMutationAttempt job callKey outcome).1

def isExpired (db : Db) (k : JobId) : Bool := (db.jobs.get? k).any fun j => j.status == .expired

def step (cfg : Config) (w : ExpiryWorld) (l : ExpiryLabel) : ExpiryWorld where
  db := stepDb cfg w.db l
  ambiguousAtExpiry k :=
    if isExpired (stepDb cfg w.db l) k && !isExpired w.db k then w.db.ambiguousMutation k
    else w.ambiguousAtExpiry k

/-- The step expires no job with an open or unknown attempt in a branch that leaves attempts as they
are. -/
def settlesWhatItExpires (cfg : Config) (w : ExpiryWorld) : ExpiryLabel → Prop
  | .txn t => (Db.expiresUnsettled cfg w.db t).all (fun k => !w.db.ambiguousMutation k) = true
  | _ => True

instance (cfg : Config) (w : ExpiryWorld) (l : ExpiryLabel) :
    Decidable (settlesWhatItExpires cfg w l) :=
  match l with
  | .txn t => inferInstanceAs (Decidable ((Db.expiresUnsettled cfg w.db t).all _ = true))
  | .claim
    _ | .rescheduleOwnedJob .. | .startMcpMutationAttempt .. | .finishMcpMutationAttempt .. =>
      isTrue trivial

/-- An expired job has no open attempt, and it says so if one was ambiguous when it expired. -/
def Inv (w : ExpiryWorld) : Prop :=
  ∀ k j, w.db.jobs.get? k = some j → j.status = .expired → w.db.openMutation k = false ∧
    (w.ambiguousAtExpiry k = true → j.lastError = some "mcp_mutation_outcome_unknown")

/-- What a step says of a row that is expired after it: the row is as it was and gains no open
attempt, or it was not expired and is settled and labelled. -/
def Settled (db db' : Db) (k : JobId) (j : Job) : Prop :=
  db.jobs.get? k = some j ∧ (db'.openMutation k = true → db.openMutation k = true) ∨
  isExpired db k = false ∧ db'.openMutation k = false ∧
    (db.ambiguousMutation k = true → j.lastError = some "mcp_mutation_outcome_unknown")

variable {k : JobId} {j : Job} {db : Db} {callKey : String} (cfg : Config)

theorem isExpired_of_get? (hj : db.jobs.get? k = some j) :
    isExpired db k = (j.status == .expired) := by
  rw [isExpired, hj, Option.any_some]

theorem settled_of_expiryStep {db db' : Db} (hrows : RowsStep db db')
    (h : Db.ExpiryStep (fun _ => False) db db') (hj : db'.jobs.get? k = some j)
    (hs : j.status = .expired) : Settled db db' k j := by
  obtain hsame | ⟨hnone | hclosed, herror⟩ := h.expired k j hj hs
  · exact .inl ⟨hsame, h.opened k⟩
  · exact hnone.elim
  · cases hi : db.jobs.get? k with
    | none =>
      refine .inr ⟨?_, hclosed, herror⟩
      rw [isExpired, hi, Option.any_none]
    | some i =>
      by_cases hexpired : i.status = .expired
      · have hrun := hrows.rows k
        rw [hi] at hrun
        have hstays := terminal_stays hrun (by rw [hexpired]; rfl)
        have hij : i = j := Option.some.inj (hstays.symm.trans hj)
        exact .inl ⟨hij ▸ hi, h.opened k⟩
      · refine .inr ⟨?_, hclosed, herror⟩
        rw [isExpired_of_get? hi]
        exact beq_false_of_ne hexpired

theorem settled_of_rowWrite {db db' : Db} {i l : Job} (h : RowWrite db db' i l)
    (hl : l.status ≠ .expired) (hj : db'.jobs.get? k = some j) (hs : j.status = .expired) :
    Settled db db' k j := by
  have hattempts : db'.attempts = db.attempts := by
    have h := congrArg Db.attempts h.rest
    exact h
  refine .inl ⟨?_, fun hopen => ?_⟩
  · rw [h.rows] at hj
    split at hj
    · cases hj
      exact absurd hs hl
    · exact hj
  · rw [Db.openMutation, hattempts] at hopen
    exact hopen

theorem settled_of_start {job : JobId} {u : UserId} {worker : WorkerId} {frontier : Nat}
    (hj : (db.startMcpMutationAttempt job u worker callKey frontier).1.jobs.get? k = some j)
    (hs : j.status = .expired) :
    Settled db (db.startMcpMutationAttempt job u worker callKey frontier).1 k j := by
  unfold Db.startMcpMutationAttempt at hj ⊢
  by_cases hfence : db.writeFenceHolds u (some job) worker = true
  · rw [if_pos hfence] at hj ⊢
    refine .inl ⟨hj, fun hopen => ?_⟩
    obtain ⟨a, ha, hak⟩ := List.any_eq_true.mp hopen
    obtain hold | rfl := Table.mem_insert ha
    · exact List.any_eq_true.mpr ⟨a, hold, hak⟩
    · rw [Bool.and_eq_true, beq_iff_eq] at hak
      obtain ⟨i, hi, hrunning⟩ := (Option.any_eq_true _ _).mp hfence
      rw [Option.bind_some, show job = k from hak.1, show db.jobs.get? k = some j from hj] at hi
      cases hi
      simp [hs] at hrunning
  · rw [if_neg hfence] at hj ⊢
    exact .inl ⟨hj, fun hopen => hopen⟩

theorem settled_of_finish {job : JobId} {outcome : Outcome}
    (hj : (db.finishMcpMutationAttempt job callKey outcome).1.jobs.get? k = some j) :
    Settled db (db.finishMcpMutationAttempt job callKey outcome).1 k j := by
  refine .inl ⟨hj, fun hopen => ?_⟩
  simp only [Db.openMutation, Db.finishMcpMutationAttempt, Table.modify, List.any_map] at hopen
  obtain ⟨a, ha, hak⟩ := List.any_eq_true.mp hopen
  rw [Function.comp_apply] at hak
  split at hak
  · simp at hak
  · exact List.any_eq_true.mpr ⟨a, ha, hak⟩

theorem stepDb_settled {w : ExpiryWorld} {l : ExpiryLabel} (hok : settlesWhatItExpires cfg w l)
    (hj : (stepDb cfg w.db l).jobs.get? k = some j) (hs : j.status = .expired) :
    Settled w.db (stepDb cfg w.db l) k j := by
  cases l with
  | txn t =>
    refine settled_of_expiryStep (Db.exec_step cfg w.db t) (.exec cfg w.db t fun k hk => ?_) hj hs
    rw [settlesWhatItExpires, hk, Option.all_some, Bool.not_eq_true'] at hok
    exact hok
  | claim p =>
    obtain heq | ⟨i, l, hrow, -, hclaimed, -⟩ | ⟨i, l, hrow, hsuperseded, -⟩ :=
      Db.claimStep_cases cfg w.db p
    · rw [stepDb, heq] at hj ⊢
      exact .inl ⟨hj, fun hopen => hopen⟩
    · exact settled_of_rowWrite hrow (by rw [hclaimed]; exact fun h => nomatch h) hj hs
    · exact settled_of_rowWrite hrow (by rw [hsuperseded]; exact fun h => nomatch h) hj hs
  | rescheduleOwnedJob job worker error availableAt =>
    obtain heq | ⟨i, l, hrow, -, hpending⟩ :=
      w.db.rescheduleOwnedJob_cases job worker error availableAt
    · rw [stepDb, heq] at hj ⊢
      exact .inl ⟨hj, fun hopen => hopen⟩
    · exact settled_of_rowWrite hrow (by rw [hpending]; exact fun h => nomatch h) hj hs
  | startMcpMutationAttempt => exact settled_of_start hj hs
  | finishMcpMutationAttempt => exact settled_of_finish hj

theorem step_inv (w : ExpiryWorld) (l : ExpiryLabel) (hi : Inv w)
    (hok : settlesWhatItExpires cfg w l) : Inv (step cfg w l) := by
  intro k j hj hs
  have hrow : (stepDb cfg w.db l).jobs.get? k = some j := hj
  have hexpired : isExpired (stepDb cfg w.db l) k = true := by
    rw [isExpired_of_get? hrow, hs]
    rfl
  obtain ⟨hsame, hopened⟩ | ⟨hfresh, hclosed, herror⟩ := stepDb_settled cfg hok hrow hs
  · obtain ⟨hclosed, herror⟩ := hi k j hsame hs
    have hbefore : isExpired w.db k = true := by
      rw [isExpired_of_get? hsame, hs]
      rfl
    refine ⟨?_, fun hambiguous => herror ?_⟩
    · by_contra hopen
      rw [hopened (Bool.not_eq_false _ ▸ hopen)] at hclosed
      cases hclosed
    · simpa [step, hbefore] using hambiguous
  · refine ⟨hclosed, fun hambiguous => herror ?_⟩
    simpa [step, hexpired, hfresh] using hambiguous

/-- From a database without jobs, in every state of every run whose steps expire no job with an open
or unknown attempt in one of the three branches that leave attempts alone: no attempt of an expired
job is open, and a job that had an ambiguous attempt when it expired carries that as its error. -/
theorem expired_jobs_settled (cfg : Config) (db : Db) (hjobs : db.jobs.rows = [])
    (ls : List ExpiryLabel) (hok : Along (step cfg) (settlesWhatItExpires cfg) (start db) ls) :
    let w := run (step cfg) (start db) ls
    ∀ j ∈ w.db.jobs.rows, j.status = .expired →
      (∀ a ∈ w.db.attempts.rows, a.jobId = j.id → a.outcome ≠ none) ∧
      (w.ambiguousAtExpiry j.id = true → j.lastError = some "mcp_mutation_outcome_unknown") := by
  intro w j hj hs
  have hstart : Inv (start db) := by
    intro k i hi
    have hmem : i ∈ db.jobs.rows := (Serial.get?_eq_some.mp hi).1
    rw [hjobs] at hmem
    cases hmem
  have hi : Inv w := invariant Inv (step_inv cfg) hstart hok
  obtain ⟨hclosed, herror⟩ := hi j.id j (Serial.mem_rows.mp hj) hs
  refine ⟨fun a ha hjob hnone => ?_, herror⟩
  have hopen : w.db.openMutation j.id = true := List.any_eq_true.mpr ⟨a, ha, by simp [hjob, hnone]⟩
  rw [hopen] at hclosed
  cases hclosed

/-- A job of the lane writes remotely, and its worker dies. -/
def writesThenDies (lane : Lane) : List ExpiryLabel :=
  [.txn (.advanceRuntimeState "u" .resident .draining),
    .txn (.advanceRuntimeState "u" .draining .v2), .txn (.enqueueJob ⟨"u", lane, none, none, "t",
      none, none, none⟩), .claim ⟨"a", 1, false⟩,
    .txn (.markRunning 1 "a"), .startMcpMutationAttempt 1 "u" "a" "k" 0,
    .txn (.recoverKilledJob 1 "a" "slot_watchdog_timeout")]

/-- The watchdog expires a reminder that has written. -/
theorem expired_jobs_settled_reminder :
    let w := run (step .default) (start (.init ["u"] ⟨false, none⟩)) (writesThenDies .scheduled)
    (w.db.jobs.get? 1).map (fun j => (j.status, j.lastError)) = some (.expired,
        some "mcp_mutation_outcome_unknown") ∧
    ∀ a ∈ w.db.attempts.rows, a.jobId = 1 → a.outcome ≠ none := by
  intro w
  have hstatus : (w.db.jobs.get? 1).map (fun j => (j.status, j.lastError)) =
      some (.expired, some "mcp_mutation_outcome_unknown") := by decide +kernel
  obtain ⟨j, hj, hpair⟩ := Option.map_eq_some_iff.mp hstatus
  obtain ⟨hmem, hid⟩ := Serial.get?_eq_some.mp hj
  have hsettled :=
    expired_jobs_settled .default (.init ["u"] ⟨false, none⟩) rfl (writesThenDies .scheduled)
    (by decide +kernel) j hmem (congrArg Prod.fst hpair)
  rw [hid] at hsettled
  exact ⟨hstatus, hsettled.1⟩

/-- The watchdog expires a chat turn that has written: its attempt stays open, and the error does
not tell. -/
theorem killed_chat_turn_unsettled :
    let w := run (step .default) (start (.init ["u"] ⟨false, none⟩)) (writesThenDies .chat)
    (w.db.jobs.get? 1).map (fun j => (j.status, j.lastError)) = some (.expired,
        some "slot_watchdog_timeout") ∧
    w.ambiguousAtExpiry 1 = true ∧
      w.db.attempts.rows.map (fun a => (a.jobId, a.outcome)) = [(1, none)] := by
  decide +kernel

end ExpiryWorld

end Feedling
