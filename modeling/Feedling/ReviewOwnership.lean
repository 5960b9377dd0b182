import Feedling.ReviewRunners

/-!
# Review claims and their owners

Attempts and the global ceiling hold in every run. The owner of a running review is alive as long
as nothing ends its runner without giving the review back. A foreground message of the user does
that, because preemption supersedes a review runner like any other background job; so does an
admission on the review lane that finds a stale runner, and a runner that reports an empty queue, or
another review, while it still holds one.
-/

namespace Feedling

open KeyedTable Runs

/-- The attempts of a review are within their limit, with one left if it is pending. -/
def Review.AttemptsOk (r : Review) : Prop :=
  r.attemptCount ≤ trajectoryReviewMaxAttempts ∧
    (r.status = .pending → r.attemptCount < trajectoryReviewMaxAttempts)

namespace Db

/-- Attempts within their limit, and reviews of users on `v2` only. -/
def ReviewsOk (db : Db) : Prop :=
  ∀ k r, db.reviews.get? k = some r → r.AttemptsOk ∧ db.isV2 r.userId = true

/-- A step that keeps the limits. -/
structure LimitsStep (db db' : Db) : Prop where
  rows : ReviewsOk db → ReviewsOk db'
  ceiling : db'.openReviews ≤ max db.openReviews db.reviewEnv.trajectoryReviewAdmissionCap
  env : db'.reviewEnv = db.reviewEnv
  v2 : db'.isV2 = db.isV2
  users : ∀ k u, db.jobUser k = some u → db'.jobUser k = some u

namespace LimitsStep

variable {db db' db'' : Db}

theorem refl (db : Db) : LimitsStep db db := ⟨id, Nat.le_max_left _ _, rfl, rfl, fun _ _ h => h⟩

theorem trans (h : LimitsStep db db') (h' : LimitsStep db' db'') : LimitsStep db db'' := by
  refine ⟨fun hok => h'.rows (h.rows hok), ?_, h'.env.trans h.env, h'.v2.trans h.v2,
    fun k u hu => h'.users k u (h.users k u hu)⟩
  have h1 := h.ceiling
  have h2 := h'.ceiling
  rw [h.env] at h2
  omega

theorem attemptsOk_of_stmts {v2 : UserId → Bool} {o o' : Option Review}
    (h : Relation.ReflTransGen (ReviewStmt v2) o o')
    (ho : ∀ r, o = some r → r.AttemptsOk ∧ v2 r.userId = true) :
    ∀ r, o' = some r → r.AttemptsOk ∧ v2 r.userId = true := by
  induction h with
  | refl => exact ho
  | tail _ hstep ih =>
    cases hstep with
    | insert r hpending hcount hv2 =>
      rintro _ ⟨⟩
      refine ⟨?_, hv2⟩
      simp [Review.AttemptsOk, hcount, trajectoryReviewMaxAttempts]
    | release r hrunning =>
      rintro _ ⟨⟩
      obtain ⟨hattempts, hv2⟩ := ih r rfl
      refine ⟨?_, by rw [releaseReview_userId]; exact hv2⟩
      rw [releaseReview]
      by_cases hleft : r.attemptCount < trajectoryReviewMaxAttempts
      · rw [if_pos hleft]
        exact ⟨hattempts.1, fun _ => hleft⟩
      · rw [if_neg hleft]
        exact ⟨hattempts.1, fun h => nomatch h⟩

theorem of_reviewsStep (h : ReviewsStep db db') (henv : db'.reviewEnv = db.reviewEnv)
    (hv2 : db'.isV2 = db.isV2) (husers : ∀ k u, db.jobUser k = some u → db'.jobUser k = some u) :
    LimitsStep db db' := by
  refine ⟨fun hok k r hr => ?_, h.ceiling, henv, hv2, husers⟩
  rw [hv2]
  exact attemptsOk_of_stmts (h.rows k) (hok k) r hr

theorem of_reviewsKept (h : ReviewsKept db db') : LimitsStep db db' :=
  of_reviewsStep h.step h.env h.v2 h.users

theorem of_queueStep (h : QueueStep db db') : LimitsStep db db' := of_reviewsKept h.reviewsKept

theorem of_blocks (h : Blocks .free db db') : LimitsStep db db' := of_queueStep (.of_blocks h)

section

variable {p : Review → Bool} {f : Review → Review} {hf : ∀ r, (f r).sourceJobId = r.sourceJobId}
  (huser : ∀ r, (f r).userId = r.userId)
  (hattempts : ∀ r, db.reviews.get? r.sourceJobId = some r → p r = true → r.AttemptsOk →
      (f r).AttemptsOk)
include huser hattempts

theorem reviewsOk_updateReviews (hok : ReviewsOk db) : ReviewsOk (db.updateReviews p f hf) := by
  intro k r hr
  rw [updateReviews, Table.get?_modify] at hr
  obtain ⟨r', hr', rfl⟩ := Option.map_eq_some_iff.mp hr
  obtain ⟨hbefore, hv2⟩ := hok k r' hr'
  show _ ∧ db.isV2 _ = true
  by_cases hp : p r' = true
  · rw [if_pos hp, huser]
    exact ⟨hattempts r' (by rw [Table.key_of_get? hr']; exact hr') hp hbefore, hv2⟩
  · rw [if_neg hp]
    exact ⟨hbefore, hv2⟩

theorem of_updateReviews
    (hopen : ∀ r, db.reviews.get? r.sourceJobId = some r → p r = true → (f r).status.isOpen = true →
      r.status.isOpen = true) : LimitsStep db (db.updateReviews p f hf) := by
  refine ⟨reviewsOk_updateReviews huser hattempts, Nat.le_trans ?_ (Nat.le_max_left _ _), rfl, rfl,
    fun _ _ h => h⟩
  simp only [openReviews, updateReviews, Table.modify, List.countP_map]
  apply List.countP_mono_left
  intro r hr h
  by_cases hp : p r = true
  · exact hopen r (Table.mem_rows.mp hr) hp (by simpa [hp] using h)
  · simpa [hp] using h

end

theorem of_claim (cfg : Config) (db : Db) (p : Pick) : LimitsStep db (claimStep cfg db p) := by
  have hruntime := claimStep_proj cfg db p Db.runtime fun _ => rfl
  refine of_reviewsStep (.of_eq (claimStep_proj cfg db p Db.reviews fun _ => rfl)
    (claimStep_proj cfg db p Db.streams fun _ => rfl))
      (claimStep_proj cfg db p Db.reviewEnv fun _ => rfl) ?_
    fun _ _ => claimStep_jobUser cfg db p
  funext u
  rw [isV2, isV2, hruntime]

theorem isV2_chatClear (db : Db) (u : UserId) : (db.chatClear u).isV2 = db.isV2 := by
  have hruntime : (db.chatClear u).runtime = put (db.materializeRuntime u).runtime u
      (((db.materializeRuntime u).runtime u).map fun s =>
        { s with generation := s.generation + 1 }) := rfl
  funext v
  rw [isV2, isV2, hruntime]
  by_cases hv : v = u
  · subst hv
    rw [put_same, materializeRuntime]
    split
    · next h =>
      simp only [Bool.and_eq_true, Option.isNone_iff_eq_none] at h
      simp [put_same, h.2, RuntimeState.default]
    · cases db.runtime v <;> rfl
  · rw [put_other _ _ hv, materializeRuntime]
    split
    · simp [put_other _ _ hv]
    · rfl

theorem of_chatClear (db : Db) (u : UserId) : LimitsStep db (db.chatClear u) := by
  have hcleared : LimitsStep db (db.updateReviews (fun r => r.userId == u &&
      r.status.isOpen) Review.cleared fun _ => rfl) := by
    refine of_updateReviews (fun _ => rfl) (fun r _ _ h => ⟨h.1,
        fun h => nomatch h⟩) fun r _ hp _ => ?_
    simp only [Bool.and_eq_true] at hp
    exact hp.2
  refine ⟨fun hok k r hr => ?_, hcleared.ceiling, rfl, isV2_chatClear db u, fun k v hv => ?_⟩
  · rw [isV2_chatClear]
    exact hcleared.rows hok k r hr
  · rw [jobUser_chatClear]
    exact hv

theorem of_claimFailureReview (db : Db) (u : UserId) (runner : JobId) (w : WorkerId)
    (source : JobId) : LimitsStep db (db.claimFailureReview u runner w source).1 := by
  rw [claimFailureReview]
  split
  · next hguard =>
    simp only [Bool.and_eq_true] at hguard
    obtain ⟨i, hi, hclaimable⟩ := (Option.any_eq_true _ _).mp hguard.2
    simp only [claimableReview, Bool.and_eq_true, beq_iff_eq, decide_eq_true_eq] at hclaimable
    have hrow : ∀ r, db.reviews.get? r.sourceJobId = some r → (r.sourceJobId == source) = true →
        r = i := by
      intro r hr hp
      rw [beq_iff_eq.mp hp, hi] at hr
      exact (Option.some.inj hr).symm
    refine of_updateReviews (fun _ => rfl) (fun r hr hp _ => ?_) fun r hr hp _ => ?_
    · rw [hrow r hr hp]
      exact ⟨hclaimable.2, by simp⟩
    · rw [hrow r hr hp, hclaimable.1.2]
      rfl
  · exact refl db

theorem settledReview_attemptsOk (outcome : ReviewOutcome) (n : Nat) {r : Review}
    (h : r.AttemptsOk) : (settledReview outcome n r).AttemptsOk := by
  cases outcome with
  | analysis envelope captured =>
    by_cases hn : n ≠ captured
    · simp only [settledReview, if_pos hn]
      have hle := h.1
      constructor
      · show r.attemptCount - 1 ≤ trajectoryReviewMaxAttempts
        omega
      · intro _
        show r.attemptCount - 1 < trajectoryReviewMaxAttempts
        simp only [trajectoryReviewMaxAttempts] at hle ⊢
        omega
    · simp only [settledReview, if_neg hn]
      exact ⟨h.1, fun h => nomatch h⟩
  | error code =>
    refine ⟨h.1, fun hpending => ?_⟩
    show r.attemptCount < trajectoryReviewMaxAttempts
    by_contra hleft
    simp [settledReview, hleft] at hpending

theorem of_settledReview {db : Db} {u : UserId} {runner source : JobId}
    (hclaimed : (db.reviews.get? source).any (claimedReview u runner) = true)
    (outcome : ReviewOutcome) (n : Nat) :
    LimitsStep db (db.updateReviews (fun r => r.sourceJobId == source) (settledReview outcome n)
      (settledReview_sourceJobId outcome n)) := by
  refine of_updateReviews (settledReview_userId outcome n)
    (fun r _ _ => settledReview_attemptsOk outcome n) fun r hr hp _ => ?_
  obtain ⟨i, hi, hclaim⟩ := (Option.any_eq_true _ _).mp hclaimed
  simp only [claimedReview, Bool.and_eq_true, beq_iff_eq] at hclaim
  rw [beq_iff_eq.mp hp, hi] at hr
  cases hr
  rw [hclaim.1.2]
  rfl

theorem of_reopenReview (db : Db) (job : JobId) (u : UserId) :
    LimitsStep db (db.reopenReview job u) := by
  rw [reopenReview]
  split
  · dsimp only
    cases hroom : db.reviewAdmissionAvailable with
    | false =>
      refine of_updateReviews (fun _ => rfl) (fun r _ _ _ => ⟨Nat.zero_le _,
          by rintro ⟨⟩⟩) fun r _ _ h => ?_
      cases h
    | true =>
      simp only [if_true]
      have hreopened : LimitsStep db (db.updateReviews (completedReview job u) (reopened true)
          (reopened_sourceJobId true)) := by
        have hattempts : ∀ r : Review, (reopened true r).AttemptsOk :=
          fun _ => ⟨Nat.zero_le _, fun _ => Nat.zero_lt_succ _⟩
        refine ⟨reviewsOk_updateReviews (fun _ => rfl) fun r _ _ _ => hattempts r, ?_, rfl, rfl,
          fun _ _ h => h⟩
        have hlt := of_decide_eq_true ((Bool.and_eq_true _ _).mp hroom).2
        have hone : ∀ r, completedReview job u r = true → r.sourceJobId = job := by
          intro r hr
          simp only [completedReview, Bool.and_eq_true, beq_iff_eq] at hr
          exact hr.1.1
        have hle :=
          countP_modify_le hone (reopened true) (fun r => r.status.isOpen) db.reviews.nodup
        exact Nat.le_trans (Nat.le_trans hle hlt) (Nat.le_max_right _ _)
      exact hreopened.trans (of_queueStep (ensureReviewRunner_step _ u))
  · exact refl db

end LimitsStep

/-! ## Appends and settled reviews -/

theorem insertEvents_rest {db db' : Db} {rows : List TrajectoryEvent}
    (h : db.insertEvents rows = some db') : { db' with events := db.events } = db := by
  induction rows generalizing db with
  | nil => cases h; rfl
  | cons e rows ih =>
    rw [insertEvents] at h
    split at h
    · cases h
    · have hrest := ih h
      have hset := congrArg (fun d : Db => { d with events := db.events }) hrest
      exact hset

theorem appendTrajectoryEventsBatch_cases {db db' : Db} {job : JobId} {u : UserId}
    {events : List TrajectoryInput} {answer : List Nat}
    (h : db.appendTrajectoryEventsBatch job u events = some (db', answer)) :
    ∃ mid : Db, { mid with events := db.events, streams := db.streams } = db ∧
      (db' = mid ∨ db' = mid.reopenReview job u) := by
  have hmat : { db.materializeStream job with events := db.events, streams := db.streams } =
    db := by
    unfold materializeStream
    split <;> rfl
  unfold appendTrajectoryEventsBatch at h
  split at h
  · split at h
    · split at h
      · dsimp only at h
        split at h
        · split at h
          · unfold appendToStream at h
            dsimp only at h
            split at h
            · cases h
              exact ⟨_, hmat, .inl rfl⟩
            · obtain ⟨stored, hstored, heq⟩ := Option.map_eq_some_iff.mp h
              cases heq
              refine ⟨_, ?_, .inr rfl⟩
              have hrest := insertEvents_rest hstored
              have hset :=
                congrArg (fun d : Db => { d with events := db.events, streams := db.streams }) hrest
              exact hset.trans hmat
          · cases h
        · cases h
      · cases h
    · cases h
  · cases h

section

variable (db : Db) (job : JobId) (u : UserId)
include db job u

theorem LimitsStep.of_append (events : List TrajectoryInput) :
    LimitsStep db (((db.appendTrajectoryEventsBatch job u events).map (·.1)).getD db) := by
  cases h : db.appendTrajectoryEventsBatch job u events with
  | none => exact refl db
  | some r =>
    obtain ⟨mid, hrest, hcases⟩ := appendTrajectoryEventsBatch_cases h
    have hmid : LimitsStep db mid := by
      rw [← hrest]
      exact ⟨id, Nat.le_max_left _ _, rfl, rfl, fun _ _ h => h⟩
    rw [Option.map_some, Option.getD_some]
    obtain heq | heq := hcases
    · exact heq ▸ hmid
    · exact heq ▸ hmid.trans (of_reopenReview mid job u)

theorem RunnerStep.reopenReview {ended : JobId → UserId → Prop} :
    RunnerStep ended db (db.reopenReview job u) := by
  have hreopened : ∀ admitted,
      RunnerStep ended db (db.updateReviews (completedReview job u) (reopened admitted)
        (reopened_sourceJobId admitted)) := by
    refine fun admitted => updateReviews fun r h => ?_
    cases admitted <;> cases h
  rw [Db.reopenReview]
  split
  · dsimp only
    split
    · exact (hreopened _).trans (ensureReviewRunner _ u)
    · exact hreopened _
  · exact refl ended db

theorem RunnerStep.append {ended : JobId → UserId → Prop} (events : List TrajectoryInput) :
    RunnerStep ended db (((db.appendTrajectoryEventsBatch job u events).map (·.1)).getD db) := by
  cases h : db.appendTrajectoryEventsBatch job u events with
  | none => exact refl ended db
  | some r =>
    obtain ⟨mid, hrest, hcases⟩ := appendTrajectoryEventsBatch_cases h
    have hmid : RunnerStep ended db mid := by
      rw [← hrest]
      exact of_eq rfl rfl
    rw [Option.map_some, Option.getD_some]
    obtain heq | heq := hcases
    · exact heq ▸ hmid
    · exact heq ▸ hmid.trans (reopenReview mid job u)

end

theorem LimitsStep.of_finishFailureReview (db : Db) (runner source : JobId) (u : UserId)
    (w : WorkerId) (outcome : ReviewOutcome) :
    LimitsStep db (db.finishFailureReview runner source u w outcome).1 := by
  obtain heq | ⟨s, -, hclaimed, heq, hstep⟩ :=
    finishFailureReview_cases db runner source u w outcome
  · rw [heq]
    exact refl db
  · rw [heq]
    exact (of_settledReview hclaimed outcome s.nextEventIndex).trans (of_queueStep hstep)

theorem LimitsStep.of_finishEmpty (db : Db) (runner : JobId) (u : UserId) (w : WorkerId) :
    LimitsStep db (db.finishEmptyFailureReviewRunner runner u w).1 :=
  of_queueStep (finishEmptyFailureReviewRunner_step db runner u w)

theorem RunnerStep.completeJob (db : Db) (runner : JobId) :
    RunnerStep (fun k _ => k = runner) db (db.completeJob runner) :=
  updateRow (fun _ => ⟨rfl, rfl, rfl, rfl, rfl⟩) fun _ _ _ _ => .inr rfl

theorem settledReview_status (outcome : ReviewOutcome) (n : Nat) (r : Review) :
    (settledReview outcome n r).status ≠ .running := by
  cases outcome with
  | analysis envelope captured =>
    simp only [settledReview]
    split <;> exact fun h => nomatch h
  | error code =>
    simp only [settledReview]
    split <;> exact fun h => nomatch h

variable {db : Db}

section

variable (ho : Owned db)
include ho

theorem Owned.complete {runner : JobId} (u : UserId)
    (hfree : ∀ k r, db.reviews.get? k = some r → r.status = .running →
      r.claimedByJobId ≠ some runner) :
    Owned ((db.completeJob runner).ensureReviewRunner u) := by
  have hstep := (RunnerStep.completeJob db runner).trans (.ensureReviewRunner _ u)
  refine (hstep.owned (ho.but _)).owned fun k r runner' hr hrunning hclaim heq => ?_
  subst heq
  exact hfree k r (hstep.reviews k r hr hrunning) hrunning hclaim

theorem Owned.finishFailureReview (runner source : JobId) (u : UserId) (w : WorkerId)
    (outcome : ReviewOutcome) (honly : ∀ r ∈ db.reviews.rows, r.claimedByJobId = some runner →
      r.status = .running → r.sourceJobId = source) :
    Owned (db.finishFailureReview runner source u w outcome).1 := by
  obtain heq | ⟨s, -, -, heq, -⟩ := finishFailureReview_cases db runner source u w outcome
  · rw [heq]
    exact ho
  · rw [heq]
    generalize s.nextEventIndex = n
    have hsettled : RunnerStep (fun _ _ => False) db
        (db.updateReviews (fun r => r.sourceJobId == source)
          (settledReview outcome n) (settledReview_sourceJobId outcome n)) :=
      .updateReviews (settledReview_status outcome n)
    refine (hsettled.keeps ho).complete u fun k r hr hrunning hclaim => ?_
    have hbefore := hsettled.reviews k r hr hrunning
    have hsource := honly r (Table.get?_eq_some.mp hbefore).1 hclaim hrunning
    rw [updateReviews, Table.get?_modify, hbefore, Option.map_some,
      if_pos (beq_iff_eq.mpr hsource)] at hr
    exact settledReview_status outcome n r (by rw [Option.some.inj hr]; exact hrunning)

theorem Owned.finishEmpty (runner : JobId) (u : UserId) (w : WorkerId)
    (hfree : ∀ r ∈ db.reviews.rows, r.claimedByJobId = some runner → r.status ≠ .running) :
    Owned (db.finishEmptyFailureReviewRunner runner u w).1 := by
  rw [finishEmptyFailureReviewRunner]
  split
  · exact ho.complete u fun k r hr hrunning hclaim => hfree r
      (Table.get?_eq_some.mp hr).1 hclaim hrunning
  · exact ho

theorem Owned.claimFailureReview (u : UserId) (runner : JobId) (w : WorkerId) (source : JobId) :
    Owned (db.claimFailureReview u runner w source).1 := by
  rw [Db.claimFailureReview]
  split
  · next hguard =>
    simp only [Bool.and_eq_true] at hguard
    obtain ⟨j, hj, huser, hlane, hheld⟩ := ownsRunner_spec hguard.1.2
    obtain ⟨i, hi, hclaimable⟩ := (Option.any_eq_true _ _).mp hguard.2
    simp only [claimableReview, Bool.and_eq_true, beq_iff_eq] at hclaimable
    intro k r hr hrunning
    rw [updateReviews, Table.get?_modify] at hr
    obtain ⟨r', hr', rfl⟩ := Option.map_eq_some_iff.mp hr
    by_cases hk : (r'.sourceJobId == source) = true
    · have hri : r' = i := by
        rw [← Table.key_of_get? hr', beq_iff_eq.mp hk, hi] at hr'
        exact (Option.some.inj hr').symm
      rw [if_pos hk, hri]
      exact ⟨runner, j, rfl, hj, hlane, huser.trans hclaimable.1.1.symm, .inl hheld⟩
    · rw [if_neg hk] at hrunning ⊢
      exact ho k r' hr' hrunning
  · exact ho

theorem Owned.chatClear (u : UserId) : Owned (db.chatClear u) := by
  intro k r hr hrunning
  rw [get?_reviews_chatClear] at hr
  obtain ⟨r', hr', rfl⟩ := Option.map_eq_some_iff.mp hr
  by_cases hopen : (r'.userId == u && r'.status.isOpen) = true
  · rw [if_pos hopen] at hrunning
    cases hrunning
  · rw [if_neg hopen] at hrunning ⊢
    obtain ⟨runner, j, hclaim, hj, hlane, huser, hheld⟩ := ho k r' hr' hrunning
    have hother : clears u j = false := by
      have hne : r'.userId ≠ u := by
        rintro rfl
        simp [hrunning, ReviewStatus.isOpen] at hopen
      simp [clears, huser, hne]
    refine ⟨runner, j, hclaim, ?_, hlane, huser, hheld⟩
    rw [get?_chatClear, hj, Option.map_some, hother, if_neg (by simp)]

/-- A claim ends a held job only if its user is not on `v2`, and such a user has no review. -/
theorem Owned.claimStep (hok : ReviewsOk db) (cfg : Config) {p : Pick}
    (horphan : p.orphan = true → ∀ i, db.jobs.get? p.job = some i → db.isV2 i.userId = false) :
    Owned (Db.claimStep cfg db p) := by
  have hwrite : ∀ {ended : JobId → UserId → Prop} {i j : Job},
      RowWrite db (Db.claimStep cfg db p) i j →
        (i.status.held = true → ended i.id i.userId) →
          RunnerStep ended db (Db.claimStep cfg db p) := by
    intro ended i j hrow hended
    refine ⟨fun k l hl => ?_, fun k r hr _ => ?_⟩
    · obtain hsame | ⟨hk, rfl, hj⟩ := hrow.row hl
      · exact ⟨l, hsame, .refl l, fun _ h => .inl h⟩
      · exact ⟨j, hj, hrow.same, fun _ hheld => .inr (hk ▸ hended hheld)⟩
    · have hreviews := congrArg Db.reviews hrow.rest
      rw [← hreviews]
      exact hr
  obtain heq | ⟨i, j, hrow, hpending, -⟩ | ⟨i, j, hrow, -, hwhy⟩ := claimStep_cases cfg db p
  · rw [heq]
    exact ho
  · refine RunnerStep.keeps (hwrite hrow fun hheld => ?_) ho
    rw [hpending] at hheld
    cases hheld
  · obtain hpending | ⟨hid, hwhy⟩ := hwhy
    · refine RunnerStep.keeps (hwrite hrow fun hheld => ?_) ho
      rw [hpending] at hheld
      cases hheld
    · have hstep : RunnerStep (fun _ v => v = i.userId) db (Db.claimStep cfg db p) :=
        hwrite hrow fun _ => rfl
      have hv2 : db.isV2 i.userId = false := by
        obtain horphan' | hv2 := hwhy
        · exact horphan horphan' i (by rw [← hid]; exact hrow.before)
        · exact hv2
      refine (hstep.owned (ho.but _)).owned fun k r runner hr hrunning hclaim huser => ?_
      have htrue := (hok k r (hstep.reviews k r hr hrunning)).2
      rw [huser, hv2] at htrue
      cases htrue

end

end Db

/-! ## The system -/

/-- The transactions that move reviews, their runners or the jobs they are about. -/
inductive ReviewOp where
  | tick (elapsed : Time)
  | enqueueJob (e : Db.Enqueue)
  | enqueueJobWithContextLog (e : Db.Enqueue)
  | chatAppendAndEnqueue (c : Db.ChatSend) (ownerDead : JobId → Bool)
  | markRunning (job : JobId) (w : WorkerId)
  | renewJobLease (job : JobId) (w : WorkerId) (ttl : Time)
  | markFailed (job : JobId) (w : WorkerId) (error : String)
  | recoverKilledJob (job : JobId) (w : WorkerId) (reason : String)
  | recoverCaptureClaim (job : JobId) (u : UserId) (w : Option WorkerId) (attemptCount : Nat)
      (mode : Db.RecoveryMode) (reason : String) (now : Option Time)
  | reapStuckJobRows (now : Option Time)
  | appendTrajectoryEventsBatch (job : JobId) (u : UserId) (events : List TrajectoryInput)
  | claimFailureReview (u : UserId) (runner : JobId) (w : WorkerId) (source : JobId)
  | finishFailureReview (runner source : JobId) (u : UserId) (w : WorkerId)
      (outcome : Db.ReviewOutcome)
  | finishEmptyFailureReviewRunner (runner : JobId) (u : UserId) (w : WorkerId)
  | reconcileFailureReviewRunners (limit : Nat)
  | chatClear (u : UserId)

namespace ReviewOp

def apply (cfg : Config) (db : Db) : ReviewOp → Db
  | tick elapsed => { db with clock := db.clock + elapsed }
  | enqueueJob e => (Db.enqueueJob cfg db e).1
  | enqueueJobWithContextLog e => (Db.enqueueJobWithContextLog cfg db e).1
  | chatAppendAndEnqueue c ownerDead =>
    ((Db.chatAppendAndEnqueue cfg ownerDead db c).map (·.1)).getD db
  | markRunning job w => (Db.markRunning cfg db job w).1
  | renewJobLease job w ttl => (db.renewJobLease job w ttl).1
  | markFailed job w error => (db.markFailed job w error).1
  | recoverKilledJob job w reason => Db.recoverKilledJob cfg db job w reason
  | recoverCaptureClaim job u w attempts mode reason now =>
    Db.recoverCaptureClaim cfg db job u w attempts mode reason now
  | reapStuckJobRows now => Db.reapStuckJobRows cfg db now
  | appendTrajectoryEventsBatch job u events =>
    ((db.appendTrajectoryEventsBatch job u events).map (·.1)).getD db
  | claimFailureReview u runner w source => (db.claimFailureReview u runner w source).1
  | finishFailureReview runner source u w outcome =>
    (db.finishFailureReview runner source u w outcome).1
  | finishEmptyFailureReviewRunner runner u w => (db.finishEmptyFailureReviewRunner runner u w).1
  | reconcileFailureReviewRunners limit => (db.reconcileFailureReviewRunners limit).getD db
  | chatClear u => db.chatClear u

/-- No review of the user is running. -/
def quiet (db : Db) (u : UserId) : Bool :=
  db.reviews.rows.all fun r => r.userId != u || r.status != .running

/-- The reviews that the runner holds, apart from those that `p` excepts. -/
def holdsOnly (db : Db) (runner : JobId) (p : Review → Bool) : Bool :=
  db.reviews.rows.all fun r => r.claimedByJobId != some runner || r.status != .running || p r

/-- The condition under which no runner is ended over a review that it holds: a foreground message
or an admission on the review lane comes while no review of the user is running, and a runner
reports an empty queue, or a settled review, while it holds no other. -/
def letsRunnersFinish (db : Db) : ReviewOp → Bool
  | enqueueJob e | enqueueJobWithContextLog e => e.lane != .trajectoryReview || quiet db e.userId
  | chatAppendAndEnqueue c _ => c.lane != .chat && c.lane != .trajectoryReview || quiet db c.userId
  | finishFailureReview runner source _ _ _ => holdsOnly db runner fun r => r.sourceJobId == source
  | finishEmptyFailureReviewRunner runner _ _ => holdsOnly db runner fun _ => false
  | _ => true

theorem limits (cfg : Config) (db : Db) (op : ReviewOp) : Db.LimitsStep db (op.apply cfg db) := by
  cases op with
  | tick => exact ⟨id, Nat.le_max_left _ _, rfl, rfl, fun _ _ h => h⟩
  | enqueueJob e => exact .of_queueStep (Db.enqueueJob_step cfg db e)
  | enqueueJobWithContextLog e =>
    exact .of_blocks (.coalesceOrInsert cfg db _ _ _ trivial (fun _ _ _ => trivial) fun _ _ =>
        trivial)
  | chatAppendAndEnqueue c ownerDead =>
    exact .of_reviewsKept (Db.chatAppendAndEnqueue_parts cfg ownerDead db c (Txn.within_free _)
        fun _ _ => trivial).reviewsKept
  | markRunning job w => exact .of_blocks (.markRunning cfg db job w)
  | renewJobLease job w ttl => exact .of_blocks (.renewJobLease db job w ttl)
  | markFailed job w error => exact .of_blocks (.markFailed db job w error)
  | recoverKilledJob job w reason =>
    exact .of_blocks (.recoverKilledJob cfg db job w reason fun _ _ _ => trivial)
  | recoverCaptureClaim =>
    exact .of_blocks (.recoverCaptureClaim cfg db _ _ _ _ _ _ _ fun _ _ _ => trivial)
  | reapStuckJobRows now => exact .of_blocks (.reapStuckJobRows cfg db now)
  | appendTrajectoryEventsBatch job u events => exact .of_append db job u events
  | claimFailureReview u runner w source => exact .of_claimFailureReview db u runner w source
  | finishFailureReview runner source u w outcome =>
    exact .of_finishFailureReview db runner source u w outcome
  | finishEmptyFailureReviewRunner runner u w => exact .of_finishEmpty db runner u w
  | reconcileFailureReviewRunners limit =>
    rw [apply]
    cases h : db.reconcileFailureReviewRunners limit with
    | none => exact .refl db
    | some db' => exact .of_queueStep (Db.reconcileFailureReviewRunners_step h)
  | chatClear u => exact .of_chatClear db u

theorem running_before {db db' : Db} (h : ReviewsStep db db') {k : JobId} {r : Review}
    (hr : db'.reviews.get? k = some r) (hrunning : r.status = .running) :
    db.reviews.get? k = some r := by
  have hrows := h.rows k
  rw [hr] at hrows
  generalize ho : some r = o at hrows
  cases hrows with
  | refl => rfl
  | tail _ hstmt =>
    cases hstmt with
    | insert r' hpending =>
      cases ho
      rw [hpending] at hrunning
      cases hrunning
    | release r' =>
      cases ho
      exact absurd hrunning (Db.RunnerStep.releaseReview_status r')

theorem owned_of_keeps {db : Db} (ho : Db.Owned db) (cfg : Config) (t : Txn)
    (hin : t.Within ⟨False, fun _ => False, fun _ => True⟩) : Db.Owned (Db.exec cfg db t) :=
  Db.exec_owned (fun _ (h : False) => h.elim) cfg t hin (fun _ => trivial) ho

/-- An admission off the review lane ends no runner; on it, it may end those of a user without
running reviews. -/
theorem owned_of_admission {db : Db} {u : UserId} {p : Prop} (ho : Db.Owned db)
    (hquiet : p → quiet db u = true) (cfg : Config) (t : Txn)
    (hin : t.Within ⟨True, fun i => i.userId = u ∧ (i.lane = .trajectoryReview → p),
      fun _ => True⟩) :
    Db.Owned (Db.exec cfg db t) := by
  have hbut : Db.OwnedBut (fun _ v => v = u ∧ p) (Db.exec cfg db t) :=
    Db.exec_owned (fun i hi hlane => ⟨hi.1, hi.2 hlane⟩) cfg t hin (fun _ => trivial) (ho.but _)
  refine hbut.owned fun k r runner hr hrunning _ hended => ?_
  have hbefore := running_before (Db.exec_reviews cfg db t) hr hrunning
  have hmem := List.all_eq_true.mp (hquiet hended.2) r (Table.get?_eq_some.mp hbefore).1
  simp [hended.1, hrunning] at hmem

theorem owned (cfg : Config) {db : Db} (ho : Db.Owned db) {op : ReviewOp}
    (hop : op.letsRunnersFinish db = true) : Db.Owned (op.apply cfg db) := by
  cases op with
  | tick => exact ho
  | enqueueJob e =>
    refine owned_of_admission (p := e.lane = .trajectoryReview) ho (fun ht => ?_) cfg
      (.enqueueJob e) ⟨trivial, fun i hu hlane => ⟨hu, fun hreview => hlane.symm.trans hreview⟩⟩
    simpa [letsRunnersFinish, ht] using hop
  | enqueueJobWithContextLog e =>
    refine owned_of_admission (p := e.lane = .trajectoryReview) ho (fun ht => ?_) cfg
      (.enqueueJobWithContextLog e)
      ⟨trivial, fun i hu hlane => ⟨hu, fun hreview => hlane.symm.trans hreview⟩⟩
    simpa [letsRunnersFinish, ht] using hop
  | chatAppendAndEnqueue c ownerDead =>
    refine owned_of_admission (p := c.lane = .chat ∨ c.lane = .trajectoryReview) ho
      (fun ht => ?_) cfg (.chatAppendAndEnqueue c ownerDead)
      ⟨trivial,
        fun i hu hlane => ⟨hu, fun hreview => hlane.imp_right fun h => h.symm.trans hreview⟩⟩
    obtain ht | ht := ht <;> simpa [letsRunnersFinish, ht] using hop
  | markRunning job w => exact owned_of_keeps ho cfg (.markRunning job w) trivial
  | renewJobLease job w ttl => exact owned_of_keeps ho cfg (.renewJobLease job w ttl) trivial
  | markFailed job w error => exact owned_of_keeps ho cfg (.markFailed job w error) trivial
  | recoverKilledJob job w reason =>
    exact owned_of_keeps ho cfg (.recoverKilledJob job w reason) trivial
  | recoverCaptureClaim job u w attempts mode reason now =>
    exact owned_of_keeps ho cfg (.recoverCaptureClaim job u w attempts mode reason now) trivial
  | reapStuckJobRows now => exact owned_of_keeps ho cfg (.reapStuckJobRows now) trivial
  | appendTrajectoryEventsBatch job u events =>
    exact (Db.RunnerStep.append db job u events).keeps ho
  | claimFailureReview u runner w source => exact ho.claimFailureReview u runner w source
  | finishFailureReview runner source u w outcome =>
    refine ho.finishFailureReview runner source u w outcome fun r hr hclaim hrunning => ?_
    have h := List.all_eq_true.mp hop r hr
    simpa [hclaim, hrunning] using h
  | finishEmptyFailureReviewRunner runner u w =>
    refine ho.finishEmpty runner u w fun r hr hclaim hrunning => ?_
    have h := List.all_eq_true.mp hop r hr
    simp [hclaim, hrunning] at h
  | reconcileFailureReviewRunners limit =>
    show Db.Owned ((db.reconcileFailureReviewRunners limit).getD db)
    unfold Db.reconcileFailureReviewRunners
    split
    · split
      · exact (Db.RunnerStep.foldl Db.RunnerStep.ensureReviewRunner _ _).keeps ho
      · exact ho
    · exact ho
  | chatClear u => exact ho.chatClear u

end ReviewOp

inductive ReviewLabel where
  | op (op : ReviewOp)
  | pick (p : Pick) (lanes : Option (List Lane))
  | claim (p : Pick)

namespace ReviewLabel

def step (cfg : Config) (w : ClaimWorld) : ReviewLabel → ClaimWorld
  | .op o => { w with db := o.apply cfg w.db }
  | .pick p lanes => w.pick cfg p lanes
  | .claim p => w.claim cfg p

def letsRunnersFinish (w : ClaimWorld) : ReviewLabel → Prop
  | .op o => o.letsRunnersFinish w.db = true
  | .pick _ _ | .claim _ => True

instance (w : ClaimWorld) : (l : ReviewLabel) → Decidable (l.letsRunnersFinish w)
  | .op o => inferInstanceAs (Decidable (o.letsRunnersFinish w.db = true))
  | .pick _ _ | .claim _ => isTrue trivial

/-- The limits hold, and an orphan that was picked belongs to a user who is not on `v2`. -/
structure Limits (cap : Nat) (w : ClaimWorld) : Prop where
  rows : w.db.ReviewsOk
  env : w.db.reviewEnv.trajectoryReviewAdmissionCap = cap
  ceiling : w.db.openReviews ≤ cap
  orphans : ∀ p ∈ w.picks, p.orphan = true → ∃ u, w.db.jobUser p.job = some u ∧ w.db.isV2 u = false

theorem Limits.of_step {cap : Nat} {w : ClaimWorld} (h : Limits cap w) {db' : Db}
    (hstep : Db.LimitsStep w.db db') {picks : List Pick} (hpicks : ∀ p ∈ picks, p ∈ w.picks) :
    Limits cap ⟨db', picks⟩ := by
  refine ⟨hstep.rows h.rows, by rw [hstep.env]; exact h.env, ?_, fun p hp horphan => ?_⟩
  · have hle := hstep.ceiling
    rw [h.env, Nat.max_eq_right h.ceiling] at hle
    exact hle
  · obtain ⟨u, hu, hv2⟩ := h.orphans p (hpicks p hp) horphan
    exact ⟨u, hstep.users _ _ hu, by rw [hstep.v2]; exact hv2⟩

theorem Limits.pick {cap : Nat} {w : ClaimWorld} (h : Limits cap w) (cfg : Config) (p : Pick)
    (lanes : Option (List Lane)) : Limits cap (w.pick cfg p lanes) := by
  rw [ClaimWorld.pick]
  by_cases hpick :
      (if p.orphan then Db.isOrphan cfg w.db lanes p.job else Db.isCandidate cfg w.db lanes p.job) =
        true
  · rw [if_pos hpick]
    refine ⟨h.rows, h.env, h.ceiling, fun q hq horphan => ?_⟩
    obtain rfl | hq := List.mem_cons.mp hq
    · rw [if_pos horphan, Db.isOrphan, Bool.and_eq_true] at hpick
      obtain ⟨j, hj, hhead⟩ := (Option.any_eq_true _ _).mp hpick.2
      simp only [Db.headOf, Bool.and_eq_true, Option.isNone_iff_eq_none] at hhead
      exact ⟨j.userId, by rw [Db.jobUser, hj, Option.map_some], by rw [Db.isV2, hhead.1.1.2.2]; rfl⟩
    · exact h.orphans q hq horphan
  · rw [if_neg hpick]
    exact h

theorem step_limits (cfg : Config) {cap : Nat} {w : ClaimWorld} (h : Limits cap w)
    (l : ReviewLabel) : Limits cap (step cfg w l) := by
  cases l with
  | op o => exact h.of_step (o.limits cfg w.db) fun _ hp => hp
  | pick p lanes => exact h.pick cfg p lanes
  | claim p =>
    rw [step, ClaimWorld.claim]
    split
    · exact h.of_step (.of_claim cfg w.db p) fun _ hp => List.mem_of_mem_erase hp
    · exact h

theorem step_owned (cfg : Config) {cap : Nat} {w : ClaimWorld} (h : Limits cap w) (ho : w.db.Owned)
    {l : ReviewLabel} (hl : l.letsRunnersFinish w) : (step cfg w l).db.Owned := by
  cases l with
  | op o => exact o.owned cfg ho hl
  | pick p lanes =>
    rw [step, ClaimWorld.pick_db]
    exact ho
  | claim p =>
    rw [step, ClaimWorld.claim]
    split
    · next hp =>
      refine ho.claimStep h.rows cfg fun horphan i hi => ?_
      obtain ⟨u, hu, hv2⟩ := h.orphans p hp horphan
      rw [Db.jobUser, hi, Option.map_some] at hu
      cases hu
      exact hv2
    · exact ho

/-- From a database without reviews and without claims under way. In every state of every run the
attempts and the ceiling are kept; and in every state of every run whose steps let runners finish,
each running review is claimed by a job of its user on the review lane that is claimed or
running. -/
theorem running_reviews_have_live_owners (cfg : Config) (db : Db) (hnone : db.reviews.rows = [])
    (ls : List ReviewLabel) :
    let w := run (step cfg) ⟨db, []⟩ ls
    (∀ r ∈ w.db.reviews.rows, r.attemptCount ≤ 3 ∧ (r.status = .pending → r.attemptCount < 3)) ∧
    w.db.openReviews ≤ db.reviewEnv.trajectoryReviewAdmissionCap ∧
    (Along (step cfg) (fun w l => l.letsRunnersFinish w) ⟨db, []⟩ ls →
      ∀ r ∈ w.db.reviews.rows, r.status = .running → ∃ j ∈ w.db.jobs.rows,
        r.claimedByJobId = some j.id ∧
        j.lane = .trajectoryReview ∧ j.userId = r.userId ∧
          (j.status = .claimed ∨ j.status = .running)) := by
  intro w
  have hempty : ∀ k r, db.reviews.get? k ≠ some r := by
    intro k r hr
    have hmem := (Table.get?_eq_some.mp hr).1
    rw [hnone] at hmem
    cases hmem
  have hstart : Limits db.reviewEnv.trajectoryReviewAdmissionCap ⟨db, []⟩ := by
    refine ⟨fun k r hr => absurd hr (hempty k r), rfl, ?_, fun _ hp => nomatch hp⟩
    show db.reviews.rows.countP _ ≤ _
    rw [hnone]
    exact Nat.zero_le _
  have hlimits : Limits db.reviewEnv.trajectoryReviewAdmissionCap w :=
    invariant_all (Limits db.reviewEnv.trajectoryReviewAdmissionCap)
      (fun _ l h => step_limits cfg h l) hstart ls
  refine ⟨fun r hr => (hlimits.rows r.sourceJobId r (Table.mem_rows.mp hr)).1, hlimits.ceiling,
    fun hl r hr hrunning => ?_⟩
  have howned : Limits db.reviewEnv.trajectoryReviewAdmissionCap w ∧ w.db.Owned :=
    invariant (fun w => Limits db.reviewEnv.trajectoryReviewAdmissionCap w ∧ w.db.Owned)
      (fun _ l h hl => ⟨step_limits cfg h.1 l, step_owned cfg h.1 h.2 hl⟩)
      ⟨hstart, fun k r hr => absurd hr (hempty k r)⟩ hl
  obtain ⟨runner, j, hclaim, hj, hlane, huser, hheld⟩ :=
    howned.2 r.sourceJobId r (Table.mem_rows.mp hr) hrunning
  obtain ⟨hmem, rfl⟩ := Serial.get?_eq_some.mp hj
  refine ⟨j, hmem, hclaim, hlane, huser, ?_⟩
  have hheld := hheld.resolve_right id
  cases hs : j.status <;> simp [hs, JobStatus.held] at hheld ⊢

/-- A user on `v2`, with reviews switched on and a ceiling of five. -/
def reviewedUser : Db := { Db.init ["u"] ⟨true, some 5⟩ with runtime := fun _ => some ⟨.v2, 1⟩ }

/-- A wake fails, its review is queued, and a runner claims it. -/
def failedThenReviewed : List ReviewLabel :=
  [.op (.enqueueJob ⟨"u", .heartbeat, none, none, "t", none, none, none⟩),
    .pick ⟨"a", 1, false⟩ none, .claim ⟨"a", 1, false⟩, .op (.markRunning 1 "a"),
      .op (.markFailed 1 "a" "boom"), .pick ⟨"b", 2, false⟩ none,
    .claim ⟨"b", 2, false⟩, .op (.markRunning 2 "b"), .op (.claimFailureReview "u" 2 "b" 1)]

/-- The review is running and its runner is, too. -/
theorem running_reviews_have_live_owners_claimed :
    let w := run (step .default) ⟨reviewedUser, []⟩ failedThenReviewed
    (w.db.reviews.get? 1).map (·.status) = some .running ∧
      ∃ j ∈ w.db.jobs.rows, j.lane = .trajectoryReview ∧ j.userId = "u" ∧
        (j.status = .claimed ∨ j.status = .running) := by
  intro w
  have hstatus : (w.db.reviews.get? 1).map (fun r => (r.status, r.userId)) =
    some (.running, "u") := by decide +kernel
  obtain ⟨r, hr, hpair⟩ := Option.map_eq_some_iff.mp hstatus
  obtain ⟨-, -, howned⟩ :=
    running_reviews_have_live_owners .default reviewedUser rfl failedThenReviewed
  obtain ⟨j, hj, -, hlane, huser, hheld⟩ :=
    howned (by decide +kernel) r (Table.get?_eq_some.mp hr).1 (congrArg Prod.fst hpair)
  exact ⟨by
    rw [hr]; exact congrArg (fun x => some x.1) hpair, j, hj, hlane,
      huser.trans (congrArg Prod.snd hpair), hheld⟩

/-- A message of the user arrives while the review runs. -/
def messageWhileReviewed : List ReviewLabel :=
  failedThenReviewed ++
    [.op (.chatAppendAndEnqueue ⟨"u", "m", 0, ⟨.user, "chat", "hi", "", "", "", "", "", "", ""⟩,
      .chat, none, some "m", none, none, none⟩ fun _ => false)]

/-- The message supersedes the runner, and the review stays running under its name. -/
theorem preempted_runner_leaves_its_review_running :
    let w := run (step .default) ⟨reviewedUser, []⟩ messageWhileReviewed
    (w.db.reviews.get? 1).map (fun r => (r.status, r.claimedByJobId)) = some (.running, some 2) ∧
      (w.db.jobs.get? 2).map (·.status) = some .superseded := by
  decide +kernel

end ReviewLabel

end Feedling
