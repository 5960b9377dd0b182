import Feedling.QueueTxn

/-!
# One owner per user, and jobs that stay finished

Over every interleaving of the queue transactions a user has at most one job that is claimed or
running. A finished job keeps its status as long as the retirement inside `claim_next_job` finds
its candidate still pending: that update names the id alone, and between the candidate read and
the runtime-state lock the row may have been claimed, run and finished by another worker.
-/

namespace Feedling

open KeyedTable Runs

/-- No two held jobs of one user. -/
def SingleOwner (db : Db) : Prop :=
  ∀ j₁ j₂, j₁ ∈ db.jobs.rows → j₂ ∈ db.jobs.rows → j₁.status.held = true → j₂.status.held = true →
    j₁.userId = j₂.userId → j₁.id = j₂.id

/-- Every finished job of `db` has the same status in `db'`. -/
def StaysFinished (db db' : Db) : Prop :=
  ∀ j ∈ db.jobs.rows, j.status.terminal = true →
    ∃ j', db'.jobs.get? j.id = some j' ∧ j'.status = j.status

theorem StaysFinished.refl (db : Db) : StaysFinished db db :=
  fun j hj _ => ⟨j, Serial.mem_rows.mp hj, rfl⟩

theorem StaysFinished.trans {db db' db'' : Db} (h : StaysFinished db db')
    (h' : StaysFinished db' db'') : StaysFinished db db'' := by
  intro j hj hterm
  obtain ⟨j', hj', hs⟩ := h j hj hterm
  have hid := Serial.key_of_get? hj'
  obtain ⟨j'', hj'', hs'⟩ :=
    h' j' (Serial.mem_rows.mpr (by rw [hid]; exact hj')) (by rw [hs]; exact hterm)
  exact ⟨j'', by rw [← hid]; exact hj'', hs'.trans hs⟩

/-- Every held row of `db'` was held by the same user in `db`. -/
def OwnersFrom (db db' : Db) : Prop :=
  ∀ j' ∈ db'.jobs.rows, j'.status.held = true →
    ∃ j ∈ db.jobs.rows, j.id = j'.id ∧ j.userId = j'.userId ∧ j.status.held = true

theorem SingleOwner.of_ownersFrom {db db' : Db} (h : SingleOwner db) (hfrom : OwnersFrom db db') :
    SingleOwner db' := by
  intro j₁ j₂ hj₁ hj₂ hheld₁ hheld₂ hu
  obtain ⟨i₁, hi₁, hid₁, hu₁, hh₁⟩ := hfrom j₁ hj₁ hheld₁
  obtain ⟨i₂, hi₂, hid₂, hu₂, hh₂⟩ := hfrom j₂ hj₂ hheld₂
  rw [← hid₁, ← hid₂]
  exact h i₁ i₂ hi₁ hi₂ hh₁ hh₂ (by rw [hu₁, hu₂, hu])

/-! ## What the statements do to owners -/

section Statements

variable {pristine : JobId → Bool} {o o' : Option Job}

/-- A statement finds a held row held: only the claim makes an owner. -/
theorem RowStmt.held_before (h : RowStmt pristine o o') {j' : Job} (ho : o' = some j')
    (hheld : j'.status.held = true) :
    ∃ j, o = some j ∧ j.userId = j'.userId ∧ j.status.held = true := by
  cases h with
  | insert _ hs => cases ho; simp [hs, JobStatus.held] at hheld
  | coalesce j => cases ho; exact ⟨j, rfl, rfl, hheld⟩
  | start j _ _ hs => cases ho; exact ⟨j, rfl, rfl, by rw [hs]; rfl⟩
  | renew j => cases ho; exact ⟨j, rfl, rfl, hheld⟩
  | finish i j _ _ hinactive =>
    cases ho
    rw [JobStatus.active_of_held hheld] at hinactive
    cases hinactive
  | requeue i j _ _ hs => cases ho; simp [hs, JobStatus.held] at hheld

theorem held_before (h : Relation.ReflTransGen (RowStmt pristine) o o') {j' : Job}
    (ho : o' = some j') (hheld : j'.status.held = true) : ∃ j, o = some j ∧ j.userId = j'.userId ∧
      j.status.held = true := by
  induction h using Relation.ReflTransGen.head_induction_on with
  | refl => exact ⟨j', ho, rfl, hheld⟩
  | head hstep _ ih =>
    obtain ⟨j, hj, hu, hh⟩ := ih
    obtain ⟨i, hi, hu', hh'⟩ := hstep.held_before hj hh
    exact ⟨i, hi, hu'.trans hu, hh'⟩

/-- No statement touches a finished row. -/
theorem RowStmt.not_terminal {i : Job} (h : RowStmt pristine (some i) o') :
    i.status.terminal = false := by
  have hactive : i.status.active = true := by
    cases h with
    | coalesce _ ha => exact ha
    | start _ _ _ hs => rw [hs]; rfl
    | renew _ _ hh => exact JobStatus.active_of_held hh
    | finish _ _ _ ha => exact ha
    | requeue _ _ _ ha => exact ha
  rw [JobStatus.terminal_eq_not_active, hactive]; rfl

theorem terminal_stays {i : Job} (h : Relation.ReflTransGen (RowStmt pristine) (some i) o')
    (hterm : i.status.terminal = true) : o' = some i := by
  cases h.cases_head with
  | inl h => exact h.symm
  | inr h =>
    obtain ⟨o, hstep, -⟩ := h
    rw [hstep.not_terminal] at hterm
    cases hterm

end Statements

theorem RowsStep.ownersFrom {db db' : Db} (h : RowsStep db db') : OwnersFrom db db' := by
  intro j' hj' hheld
  obtain ⟨j, hj, hu, hh⟩ := held_before (h.rows j'.id) (Serial.mem_rows.mp hj') hheld
  exact ⟨j, (Serial.get?_eq_some.mp hj).1, Serial.key_of_get? hj, hu, hh⟩

theorem RowsStep.staysFinished {db db' : Db} (h : RowsStep db db') : StaysFinished db db' := by
  intro j hj hterm
  have hrun := h.rows j.id
  rw [Serial.mem_rows.mp hj] at hrun
  exact ⟨j, terminal_stays hrun hterm, rfl⟩

/-! ## What one written row does to them -/

namespace RowWrite

variable {db db' : Db} {i j : Job}

section

variable (h : RowWrite db db' i j)
include h

theorem get?_of_mem {l : Job} (hl : l ∈ db'.jobs.rows) :
    l = j ∨ l ∈ db.jobs.rows ∧ l.id ≠ i.id := by
  have hget := h.rows l.id
  rw [Serial.mem_rows.mp hl] at hget
  split at hget
  · exact .inl (Option.some.inj hget)
  · next hne => exact .inr ⟨Serial.mem_rows.mpr hget.symm, hne⟩

theorem mem_before : i ∈ db.jobs.rows := Serial.mem_rows.mpr h.before

/-- The write makes no owner: it ends an ownership or leaves the row as held as it was. -/
theorem ownersFrom (hj : j.status.held = true → i.status.held = true) : OwnersFrom db db' := by
  intro l hl hheld
  obtain rfl | ⟨hl, -⟩ := h.get?_of_mem hl
  · exact ⟨i, h.mem_before, h.same.id.symm, h.same.userId.symm, hj hheld⟩
  · exact ⟨l, hl, rfl, rfl, hheld⟩

/-- The write makes an owner where the user had none. -/
theorem singleOwner (hdb : SingleOwner db)
    (hfree : ∀ k l, db.jobs.get? k = some l → l.userId = i.userId → l.status.held = false) :
    SingleOwner db' := by
  have hother : ∀ l ∈ db.jobs.rows, l.status.held = true → l.userId ≠ i.userId := by
    intro l hl hheld hu
    rw [hfree l.id l (Serial.mem_rows.mp hl) hu] at hheld
    cases hheld
  intro j₁ j₂ hj₁ hj₂ hheld₁ hheld₂ hu
  obtain rfl | ⟨hj₁, -⟩ := h.get?_of_mem hj₁ <;> obtain rfl | ⟨hj₂, -⟩ := h.get?_of_mem hj₂
  · rfl
  · exact absurd (by rw [← hu, h.same.userId]) (hother j₂ hj₂ hheld₂)
  · exact absurd (by rw [hu, h.same.userId]) (hother j₁ hj₁ hheld₁)
  · exact hdb j₁ j₂ hj₁ hj₂ hheld₁ hheld₂ hu

theorem staysFinished (hi : i.status.terminal = false) : StaysFinished db db' := by
  intro l hl hterm
  have hne : l.id ≠ i.id := by
    intro heq
    have := Serial.mem_rows.mp hl
    rw [heq, h.before] at this
    cases this
    rw [hi] at hterm
    cases hterm
  exact ⟨l, by rw [h.rows, if_neg hne]; exact Serial.mem_rows.mp hl, rfl⟩

end

end RowWrite

namespace Db

/-- `reschedule_owned_job` gives up an ownership. -/
theorem rescheduleOwnedJob_cases (db : Db) (job : JobId) (w : WorkerId) (error : String)
    (availableAt : Time) : (db.rescheduleOwnedJob job w error availableAt).1 = db ∨
    ∃ i j, RowWrite db (db.rescheduleOwnedJob job w error availableAt).1 i j ∧
      i.status.held = true ∧ j.status = .pending := by
  unfold rescheduleOwnedJob
  obtain ⟨i, hi, hg, heq⟩ | heq := updateOwned_cases db job
    (fun j => db.pinsCurrent j && ownedBy db.clock w j) (rescheduled error availableAt) fun _ => rfl
  · rw [Bool.and_eq_true] at hg
    refine .inr ⟨i, rescheduled error availableAt i, ?_, held_of_ownedBy hg.2, rfl⟩
    rw [heq]
    exact updateJobs_rowWrite (by rw [Serial.key_of_get? hi]; exact hi) _ _ ⟨rfl, rfl, rfl,
      rfl, rfl⟩
  · exact .inl (by rw [heq])

end Db

/-! ## Runs -/

inductive QueueLabel where
  | txn (t : Txn)
  | rescheduleOwnedJob (job : JobId) (w : WorkerId) (error : String) (availableAt : Time)
  | pick (p : Pick) (lanes : Option (List Lane))
  | claim (p : Pick)

namespace ClaimWorld

def queueStep (cfg : Config) (w : ClaimWorld) : QueueLabel → ClaimWorld
  | .txn t => { w with db := Db.exec cfg w.db t }
  | .rescheduleOwnedJob job worker error availableAt =>
    { w with db := (w.db.rescheduleOwnedJob job worker error availableAt).1 }
  | .pick p lanes => w.pick cfg p lanes
  | .claim p => w.claim cfg p

/-- The claim that is about to update finds its row pending, or its user on `v2`: then the
revalidating statement runs. -/
def candidateStillPending (w : ClaimWorld) : QueueLabel → Prop
  | .claim p =>
    ∀ j ∈ w.db.jobs.rows, j.id = p.job → (p.orphan = true ∨ w.db.isV2 j.userId = false) →
      j.status = .pending
  | _ => True

instance (w : ClaimWorld) : ∀ l, Decidable (w.candidateStillPending l)
  | .claim p => inferInstanceAs (Decidable (∀ j ∈ w.db.jobs.rows, j.id = p.job →
      (p.orphan = true ∨ w.db.isV2 j.userId = false) → j.status = .pending))
  | .txn _ | .rescheduleOwnedJob .. | .pick .. => isTrue trivial

variable (cfg : Config) (w : ClaimWorld)

/-- What one update of a claim does to owners and finished jobs. -/
theorem claim_step (p : Pick) (hw : SingleOwner w.db) :
    SingleOwner (w.claim cfg p).db ∧
      (w.candidateStillPending (.claim p) → StaysFinished w.db (w.claim cfg p).db) := by
  unfold claim
  split
  · obtain heq | ⟨i, j, hrow, hi, hj, -, hfree⟩ | ⟨i, j, hrow, hj, hi⟩ :=
      Db.claimStep_cases cfg w.db p
    · rw [heq]; exact ⟨hw, fun _ => .refl _⟩
    · exact ⟨hrow.singleOwner hw hfree, fun _ => hrow.staysFinished (by rw [hi]; rfl)⟩
    · refine ⟨hw.of_ownersFrom (hrow.ownersFrom (by simp [hj, JobStatus.held])), fun hok => ?_⟩
      -- a retirement writes `superseded` whatever the row was, hence the condition
      have hpending : i.status = .pending :=
        hi.elim id fun h => hok i hrow.mem_before h.1 h.2
      exact hrow.staysFinished (by rw [hpending]; rfl)
  · exact ⟨hw, fun _ => .refl _⟩

theorem queueStep_step (l : QueueLabel) (hw : SingleOwner w.db) :
    SingleOwner (w.queueStep cfg l).db ∧
      (w.candidateStillPending l → StaysFinished w.db (w.queueStep cfg l).db) := by
  cases l with
  | txn t =>
    have h := Db.exec_step cfg w.db t
    exact ⟨hw.of_ownersFrom h.ownersFrom, fun _ => h.staysFinished⟩
  | rescheduleOwnedJob job worker error availableAt =>
    simp only [queueStep]
    obtain heq | ⟨i, j, hrow, hi, hj⟩ := w.db.rescheduleOwnedJob_cases job worker error availableAt
    · rw [heq]; exact ⟨hw, fun _ => .refl _⟩
    · refine ⟨hw.of_ownersFrom (hrow.ownersFrom fun _ => hi), fun _ => hrow.staysFinished ?_⟩
      rw [JobStatus.terminal_eq_not_active, JobStatus.active_of_held hi]; rfl
  | pick p lanes =>
    simp only [queueStep, pick_db]
    exact ⟨hw, fun _ => .refl _⟩
  | claim p => exact claim_step cfg w p hw

theorem singleOwner_run {w : ClaimWorld} (hw : SingleOwner w.db) (ls : List QueueLabel) :
    SingleOwner (run (queueStep cfg) w ls).db :=
  invariant_all (fun w => SingleOwner w.db) (fun w l h => (queueStep_step cfg w l h).1) hw ls

/-- Every user has at most one job claimed or running, whatever the interleaving; and a job that
is finished at some point of a run has the same status at every later point, if every claim that
takes the not-on-`v2` branch finds its candidate still pending. -/
theorem one_owner_and_finished_stay (cfg : Config) (w : ClaimWorld) (hw : SingleOwner w.db)
    (earlier later : List QueueLabel) :
    SingleOwner (run (queueStep cfg) w (earlier ++ later)).db ∧
      (Along (queueStep cfg) candidateStillPending w (earlier ++ later) →
        StaysFinished (run (queueStep cfg) w earlier).db (run (queueStep cfg) w (earlier ++
          later)).db) := by
  refine ⟨singleOwner_run cfg hw _, fun hok => ?_⟩
  rw [run_append]
  exact related (fun w => SingleOwner w.db) (R := fun w w' => StaysFinished w.db w'.db)
    (fun w => .refl w.db) (fun _ _ _ => .trans)
    (fun w l h _ => (queueStep_step cfg w l h).1) (fun w l h hl => (queueStep_step cfg w l h).2 hl)
    (singleOwner_run cfg hw earlier) ((along_append ..).mp hok).2

/-- A user on `v2` with one queued heartbeat, and a worker `b` that has read it as its candidate. -/
def heartbeatPicked : List QueueLabel :=
  [.txn (.advanceRuntimeState "u" .resident .draining),
    .txn (.advanceRuntimeState "u" .draining .v2), .txn (.enqueueJob ⟨"u", .heartbeat, none, none,
      "t", none, none, none⟩), .pick ⟨"b", 1, false⟩ none]

/-- Worker `a` takes the job and completes it; then the user leaves `v2`. -/
def heartbeatCompleted : List QueueLabel :=
  [.pick ⟨"a", 1, false⟩ none, .claim ⟨"a", 1, false⟩, .txn (.markRunning 1 "a"),
    .txn (.markCompleted 1 "a"), .txn (.advanceRuntimeState "u" .v2 .draining)]

/-- The update of `b` turns the completed job into a superseded one. -/
theorem stale_candidate_supersedes_completed :
    let w : ClaimWorld := ⟨.init ["u"] ⟨false, none⟩, []⟩
    let earlier := heartbeatPicked ++ heartbeatCompleted
    ((run (queueStep .default) w earlier).db.jobs.get? 1).map (·.status) = some .completed ∧
      ((run (queueStep .default) w (earlier ++ [.claim ⟨"b", 1, false⟩])).db.jobs.get? 1).map
        (·.status) = some .superseded := by
  decide

/-- Without the other worker the same retirement finds its candidate pending, and what is
finished then stays so. -/
theorem one_owner_and_finished_stay_retired :
    let w : ClaimWorld := ⟨.init ["u"] ⟨false, none⟩, []⟩
    let earlier := heartbeatPicked ++ [.txn (.advanceRuntimeState "u" .v2 .draining),
      .claim ⟨"b", 1, false⟩]
    let later : List QueueLabel := [.txn (.advanceRuntimeState "u" .draining .v2), .txn (.tick 5),
      .txn (.markRunning 1 "b")]
    StaysFinished (run (queueStep .default) w earlier).db
      (run (queueStep .default) w (earlier ++ later)).db :=
  (one_owner_and_finished_stay .default ⟨.init ["u"] ⟨false, none⟩,
      []⟩ (by intro _ _ h; cases h) _ _).2
    (by decide)

end ClaimWorld

end Feedling
