import Feedling.ChatLane
import Feedling.RecoveryBarrier

/-!
# Remote writes of jobs that expired

A remote write is on record before it is sent, with an open outcome. When its job expires nobody
will learn the outcome any more: the attempt is to become `unknown`, and the job is to say so in its
`last_error`. `ExpiryStep` follows one transaction from its start: the jobs it has expired, those
among them whose attempts are still to be settled, and the error each of them carries.

Three branches expire a job and do neither: the watchdog on a chat turn, the watchdog on a job that
has used up its requeues, and an enqueue that finds a timed out row in its way.
-/

namespace Feedling

open KeyedTable

namespace Db

def openMutation (db : Db) (job : JobId) : Bool :=
  db.attempts.rows.any fun a => a.jobId == job && a.outcome.isNone

section Outcomes

variable {db : Db} {k : JobId}

theorem ambiguousMutation_of_open (h : db.openMutation k = true) :
    db.ambiguousMutation k = true := by
  obtain ⟨a, ha, hopen⟩ := List.any_eq_true.mp h
  refine List.any_eq_true.mpr ⟨a, ha, ?_⟩
  rw [Bool.and_eq_true] at hopen
  rw [hopen.1, hopen.2]
  rfl

theorem openMutation_of_unambiguous (h : db.ambiguousMutation k = false) :
    db.openMutation k = false := by
  by_contra hopen
  rw [Bool.not_eq_false] at hopen
  rw [ambiguousMutation_of_open hopen] at h
  cases h

theorem terminalError_of_ambiguous (h : db.ambiguousMutation k = true) (otherwise : String) :
    db.terminalError k otherwise = "mcp_mutation_outcome_unknown" := if_pos h

theorem ambiguousMutation_settleAttempts (db : Db) (p : JobId → Bool) (k : JobId) :
    (db.settleAttempts p).ambiguousMutation k = db.ambiguousMutation k := by
  simp only [ambiguousMutation, settleAttempts, Table.modify, List.any_map]
  congr 1
  funext a
  rw [Function.comp_apply]
  by_cases hp : (p a.jobId && a.outcome.isNone) = true
  · have hnone : a.outcome.isNone = true := (Bool.and_eq_true _ _ ▸ hp).2
    rw [if_pos hp, hnone]
    rfl
  · rw [if_neg hp]

theorem openMutation_settleAttempts (db : Db) (p : JobId → Bool) (k : JobId) :
    (db.settleAttempts p).openMutation k = (db.openMutation k && !p k) := by
  simp only [openMutation, settleAttempts, Table.modify, List.any_map]
  induction db.attempts.rows with
  | nil => rfl
  | cons a rows ih =>
    rw [List.any_cons, List.any_cons, ih, Bool.and_or_distrib_right, Function.comp_apply]
    congr 1
    by_cases hk : a.jobId = k
    · subst hk
      cases p a.jobId <;> cases ho : a.outcome <;> simp [ho]
    · split <;> simp [hk]

end Outcomes

/-! ## What a transaction did so far -/

/-- `due` are the jobs that the transaction has expired and whose attempts it still has to
settle. -/
structure ExpiryStep (due : JobId → Prop) (db db' : Db) : Prop where
  ambiguous : ∀ k, db'.ambiguousMutation k = db.ambiguousMutation k
  opened : ∀ k, db'.openMutation k = true → db.openMutation k = true
  expired : ∀ k j, db'.jobs.get? k = some j → j.status = .expired → db.jobs.get? k = some j ∨
    (due k ∨ db'.openMutation k = false) ∧
      (db.ambiguousMutation k = true → j.lastError = some "mcp_mutation_outcome_unknown")

namespace ExpiryStep

variable {due : JobId → Prop} {db db' db'' : Db}

theorem of_eq (hjobs : db'.jobs = db.jobs) (hattempts : db'.attempts = db.attempts) :
    ExpiryStep due db db' := by
  refine ⟨fun k => ?_, fun k h => ?_, fun k j hj _ => .inl ?_⟩
  · rw [ambiguousMutation, ambiguousMutation, hattempts]
  · rw [openMutation, hattempts] at h
    exact h
  · rw [← hjobs]
    exact hj

theorem refl (due : JobId → Prop) (db : Db) : ExpiryStep due db db := of_eq rfl rfl

theorem trans (h : ExpiryStep due db db') (h' : ExpiryStep due db' db'') :
    ExpiryStep due db db'' := by
  refine ⟨fun k => (h'.ambiguous k).trans (h.ambiguous k), fun k hk => h.opened k (h'.opened k hk),
    fun k j hj hs => ?_⟩
  obtain hj' | ⟨hsettled, herror⟩ := h'.expired k j hj hs
  · obtain hsame | ⟨hdue | hclosed, herror⟩ := h.expired k j hj' hs
    · exact .inl hsame
    · exact .inr ⟨.inl hdue, herror⟩
    · refine .inr ⟨.inr ?_, herror⟩
      by_contra hopen
      rw [h'.opened k (Bool.not_eq_false _ ▸ hopen)] at hclosed
      cases hclosed
  · exact .inr ⟨hsettled, h.ambiguous k ▸ herror⟩

theorem mono {due' : JobId → Prop} (h : ExpiryStep due db db') (hle : ∀ k, due k → due' k) :
    ExpiryStep due' db db' :=
  ⟨h.ambiguous, h.opened,
    fun k j hj hs => (h.expired k j hj hs).imp_right (·.imp_left (·.imp_left (hle k)))⟩

theorem foldl {β : Type} {f : Db → β → Db} (hf : ∀ db b, ExpiryStep due db (f db b)) (db : Db)
    (bs : List β) : ExpiryStep due db (bs.foldl f db) := by
  induction bs generalizing db with
  | nil => exact refl due db
  | cons b bs ih => exact (hf db b).trans (ih (f db b))

theorem insertJob {mk : JobId → Job} {hk : ∀ n, (mk n).id = n}
    (hs : (mk db.jobs.next).status = .pending) : ExpiryStep due db (db.insertJob mk hk) := by
  refine ⟨fun _ => rfl, fun _ h => h, fun k j hj hexpired => ?_⟩
  rw [Db.insertJob, Serial.get?_insert] at hj
  split at hj
  · next hnext =>
    cases hj
    subst hnext
    rw [hs] at hexpired
    cases hexpired
  · exact .inl hj

theorem updateJobs {p : Job → Bool} {f : Job → Job} {hf : ∀ j, (f j).id = j.id}
    (h : ∀ j, db.jobs.get? j.id = some j → p j = true → (f j).status = .expired →
      (due j.id ∨ db.openMutation j.id = false) ∧
        (db.ambiguousMutation j.id = true →
          (f j).lastError = some "mcp_mutation_outcome_unknown")) :
    ExpiryStep due db (db.updateJobs p f hf) := by
  refine ⟨fun _ => rfl, fun _ h => h, fun k j hj hs => ?_⟩
  rw [Db.updateJobs, Serial.get?_modify] at hj
  obtain ⟨i, hi, rfl⟩ := Option.map_eq_some_iff.mp hj
  by_cases hp : p i = true
  · rw [if_pos hp] at hs ⊢
    obtain rfl : i.id = k := Serial.key_of_get? hi
    exact .inr (h i hi hp hs)
  · rw [if_neg hp]
    exact .inl hi

theorem of_unambiguous {P : Prop} {k : JobId} (h : db.ambiguousMutation k = false)
    {error : Option String} : (P ∨ db.openMutation k = false) ∧
      (db.ambiguousMutation k = true → error = some "mcp_mutation_outcome_unknown") := by
  refine ⟨.inr (openMutation_of_unambiguous h), fun hambiguous => ?_⟩
  rw [h] at hambiguous
  cases hambiguous

/-- A job expires under its terminal error, and its attempts are due. -/
theorem of_terminalError {P : Prop} {k : JobId} (hdue : P) (otherwise : String) :
    (P ∨ db.openMutation k = false) ∧
      (db.ambiguousMutation k = true →
        some (db.terminalError k otherwise) = some "mcp_mutation_outcome_unknown") :=
  ⟨.inl hdue, fun hambiguous => congrArg some (terminalError_of_ambiguous hambiguous otherwise)⟩

theorem settle (h : ExpiryStep due db db') {p : JobId → Bool} (hp : ∀ k, due k → p k = true) :
    ExpiryStep (fun _ => False) db (db'.settleAttempts p) := by
  refine ⟨fun k => ?_, fun k hk => ?_, fun k j hj hs => ?_⟩
  · rw [ambiguousMutation_settleAttempts, h.ambiguous]
  · rw [openMutation_settleAttempts, Bool.and_eq_true] at hk
    exact h.opened k hk.1
  · refine (h.expired k j hj hs).imp_right fun ⟨hsettled, herror⟩ => ⟨.inr ?_, herror⟩
    rw [openMutation_settleAttempts]
    obtain hdue | hclosed := hsettled
    · rw [hp k hdue, Bool.not_true, Bool.and_false]
    · rw [hclosed, Bool.false_and]

end ExpiryStep

/-! ## The helpers that expire nothing -/

section Helpers

variable (due : JobId → Prop) (db : Db)

theorem ExpiryStep.queueTerminalFailure (job : JobId) (u : UserId) :
    ExpiryStep due db (db.queueTerminalFailure job u) := by
  obtain heq | ⟨j, -, heq⟩ := queueTerminalFailure_cases db job u
  · rw [heq]
    exact refl due db
  · rw [heq]
    exact of_eq rfl rfl

theorem ExpiryStep.ensureReviewRunner (u : UserId) :
    ExpiryStep due db (db.ensureReviewRunner u) := by
  unfold Db.ensureReviewRunner
  split
  · split
    · exact insertJob rfl
    · exact refl due db
  · exact refl due db

theorem ExpiryStep.queueFailureReview (source : JobId) :
    ExpiryStep due db (db.queueFailureReview source) := by
  have hstream : ExpiryStep due db (db.materializeStream source) := by
    unfold materializeStream
    split
    · exact of_eq rfl rfl
    · exact refl due db
  refine hstream.trans ?_
  unfold Db.queueFailureReview
  dsimp only
  split
  · split
    · split
      · refine ExpiryStep.trans ?_ (ensureReviewRunner due _ _)
        exact of_eq rfl rfl
      · exact refl due _
    · exact refl due _
  · exact refl due _

theorem ExpiryStep.recoverReviewRunner (runner : JobId) :
    ExpiryStep due db (db.recoverReviewRunner runner) := by
  unfold Db.recoverReviewRunner
  split
  · split
    · refine ExpiryStep.trans ?_
        (.foldl (fun d (r : Review) => ensureReviewRunner due d r.userId) _ _)
      exact of_eq rfl rfl
    · exact refl due db
  · exact refl due db

end Helpers

/-! ## The transactions -/

variable {db : Db}

theorem ExpiryStep.closeMark (due : JobId → Prop) (how : Marks) (db : Db) (j : Job) :
    ExpiryStep due db (Db.closeMark how db j) := by
  refine ExpiryStep.trans ?_ (queueFailureReview due _ j.id)
  have hnoted : ExpiryStep due db (bif how.notes then db.queueTerminalFailure j.id j.userId
      else db) := by
    cases how.notes with
    | true => exact queueTerminalFailure due db j.id j.userId
    | false => exact refl due db
  cases how.releases with
  | true => exact hnoted.trans (recoverReviewRunner due _ j.id)
  | false => exact hnoted

theorem ExpiryStep.of_edits {sc : Scope} {due : JobId → Prop} {p : Job → Bool} {f : Job → Job}
    {hf : ∀ j, (f j).id = j.id}
    (h : ∀ j, db.jobs.get? j.id = some j → p j = true → RowEdit sc db.turnIsPristine j (f j)) :
    ExpiryStep due db (db.updateJobs p f hf) :=
  updateJobs fun j hj hp hs => absurd hs (h j hj hp).succeeds.2

/-- A block expires a job with its attempts settled, if it had an ambiguous one. -/
theorem ExpiryStep.of_block {sc : Scope}
    (hsafe : ∀ k, sc.unsettled k → db.ambiguousMutation k = false) {db' : Db}
    (h : Block sc db db') : ExpiryStep (fun _ => False) db db' := by
  cases h with
  | insert _ hs => exact insertJob hs
  | write h => exact of_edits h
  | @giveBack i f hf hi _ h =>
    have hrow : ∀ j, db.jobs.get? j.id = some j → (j.id == i.id) = true →
        RowEdit { sc with ends := fun _ => True } db.turnIsPristine j (f j) := by
      intro j hj hp
      rw [(id_beq_iff hi j hj).mp hp]
      exact h
    exact (of_edits hrow).trans (recoverReviewRunner _ _ _)
  | @close how p f hf h =>
    refine ExpiryStep.trans ?_ (foldl (closeMark _ how) _ _)
    have hwritten : ExpiryStep (fun k => how.settles = true ∧ ∃ j ∈ db.jobs.rows.filter p,
        j.id = k) db (db.updateJobs p f hf) := by
      refine updateJobs fun j hj hp hs => ?_
      obtain hunsettled | ⟨hsettles, otherwise, herror⟩ := (h j hj hp).settled hs
      · exact of_unambiguous (hsafe j.id hunsettled)
      · rw [herror]
        exact of_terminalError ⟨hsettles, j, List.mem_filter.mpr ⟨Serial.mem_rows.mpr hj, hp⟩,
          rfl⟩ otherwise
    cases hsettles : how.settles with
    | true =>
      rw [cond_true]
      refine hwritten.settle fun k ⟨_, j, hj, hid⟩ => ?_
      exact List.any_eq_true.mpr ⟨j, hj, beq_iff_eq.mpr hid⟩
    | false =>
      refine hwritten.mono fun k hdue => ?_
      rw [hsettles] at hdue
      cases hdue.1

/-- A transaction that expires no job with an ambiguous attempt in a branch that does not settle. -/
theorem ExpiryStep.exec (cfg : Config) (db : Db) (t : Txn)
    (hsafe : ∀ k, expiresUnsettled cfg db t = some k → db.ambiguousMutation k = false) :
    ExpiryStep (fun _ => False) db (Db.exec cfg db t) := by
  have hin : t.Within ⟨True, fun _ => True, fun k => db.ambiguousMutation k = false⟩ := by
    cases t <;> simp [Txn.Within]
  obtain h | h := exec_parts cfg db t hin hsafe
  · have hjobs := congrArg Db.jobs h.rest
    have hattempts := congrArg Db.attempts h.rest
    exact of_eq hjobs hattempts
  · generalize Db.exec cfg db t = after at h
    induction h with
    | refl => exact refl _ db
    | @tail mid _ _ hpart ih =>
      refine ih.trans ?_
      cases hpart with
      | block hblock => exact of_block (fun k hk => (ih.ambiguous k).trans hk) hblock
      | stored u msgId ts doc =>
        have hjobs := congrArg Db.jobs (mid.chatInsert_rest u msgId ts doc)
        have hattempts := congrArg Db.attempts (mid.chatInsert_rest u msgId ts doc)
        exact of_eq hjobs hattempts

end Db

end Feedling
