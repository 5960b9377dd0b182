import Feedling.QueueTxn
import Feedling.TrajectoryReviews

/-!
# Who holds a running review

A running review names the runner job that has claimed it. A transaction that ends a runner and
gives its reviews back first leaves them without an owner, so the statement about owners carries
the runners that were ended so far in the transaction.
-/

namespace Feedling

open KeyedTable

namespace Db

theorem jobUser_chatClear (db : Db) (u : UserId) (k : JobId) :
    (db.chatClear u).jobUser k = db.jobUser k := by
  rw [jobUser, jobUser, get?_chatClear, Option.map_map]
  congr 1
  funext j
  rw [Function.comp_apply, apply_ite Job.userId]
  simp [Job.cleared]

section

variable (db : Db) (runner source : JobId) (u : UserId) (w : WorkerId)

theorem endRunner_step {mid : Db} (howns : db.ownsRunner u runner w = true)
    (hjobs : mid.jobs = db.jobs) :
    QueueStep mid ((mid.completeJob runner).ensureReviewRunner u) := by
  obtain ⟨j, hj, -, -, hheld⟩ := ownsRunner_spec howns
  rw [← hjobs] at hj
  exact (completeJob_step hj (JobStatus.active_of_held hheld)).trans (ensureReviewRunner_step _ u)

theorem finishFailureReview_cases (outcome : ReviewOutcome) :
    db.finishFailureReview runner source u w outcome = (db, false) ∨
    ∃ s, db.streams.get? source = some s ∧
      (db.reviews.get? source).any (claimedReview u runner) = true ∧
      let settled :=
        db.updateReviews (fun r => r.sourceJobId == source) (settledReview outcome s.nextEventIndex)
        (settledReview_sourceJobId outcome s.nextEventIndex)
      db.finishFailureReview runner source u w outcome =
        ((settled.completeJob runner).ensureReviewRunner u, true) ∧
        QueueStep settled ((settled.completeJob runner).ensureReviewRunner u) := by
  rw [finishFailureReview]
  split
  · next hguard =>
    simp only [Bool.and_eq_true, mayFinishReview] at hguard
    split
    · next s hs =>
      split
      · exact .inr ⟨s, hs, hguard.2, rfl, endRunner_step db runner u w hguard.1.1 rfl⟩
      · exact .inl rfl
    · exact .inl rfl
  · exact .inl rfl

theorem finishEmptyFailureReviewRunner_step :
    QueueStep db (db.finishEmptyFailureReviewRunner runner u w).1 := by
  rw [finishEmptyFailureReviewRunner]
  split
  · next howns => exact endRunner_step db runner u w howns rfl
  · exact .refl db

end

/-- Every running review is claimed by a runner of its user that is claimed or running, or was
ended. -/
def OwnedBut (ended : JobId → UserId → Prop) (db : Db) : Prop :=
  ∀ k r, db.reviews.get? k = some r → r.status = .running →
    ∃ runner j, r.claimedByJobId = some runner ∧ db.jobs.get? runner = some j ∧
      j.lane = .trajectoryReview ∧
      j.userId = r.userId ∧ (j.status.held = true ∨ ended runner r.userId)

/-- Runners stay held unless they are `ended`, and a review that runs was running before. -/
structure RunnerStep (ended : JobId → UserId → Prop) (db db' : Db) : Prop where
  jobs : ∀ k i, db.jobs.get? k = some i → ∃ j, db'.jobs.get? k = some j ∧ SameJob i j ∧
    (i.lane = .trajectoryReview → i.status.held = true → j.status.held = true ∨ ended k i.userId)
  reviews : ∀ k r, db'.reviews.get? k = some r → r.status = .running → db.reviews.get? k = some r

namespace RunnerStep

variable {ended : JobId → UserId → Prop} {db db' db'' : Db}

theorem refl (ended : JobId → UserId → Prop) (db : Db) : RunnerStep ended db db :=
  ⟨fun _ i hi => ⟨i, hi, .refl i, fun _ h => .inl h⟩, fun _ _ h _ => h⟩

theorem trans (h : RunnerStep ended db db') (h' : RunnerStep ended db' db'') :
    RunnerStep ended db db'' := by
  constructor
  · intro k i hi
    obtain ⟨j, hj, hsame, hheld⟩ := h.jobs k i hi
    obtain ⟨j', hj', hsame', hheld'⟩ := h'.jobs k j hj
    refine ⟨j', hj', hsame.trans hsame', fun hlane hi' => ?_⟩
    obtain hj | hended := hheld hlane hi'
    · rw [← hsame.userId]
      exact hheld' (hsame.lane.trans hlane) hj
    · exact .inr hended
  · intro k r hr hrunning
    exact h.reviews k r (h'.reviews k r hr hrunning) hrunning

theorem of_eq (hjobs : db'.jobs = db.jobs) (hreviews : db'.reviews = db.reviews) :
    RunnerStep ended db db' := by
  constructor
  · rw [hjobs]
    exact fun k i hi => ⟨i, hi, .refl i, fun _ h => .inl h⟩
  · rw [hreviews]
    exact fun _ _ h _ => h

theorem foldl {β : Type} {f : Db → β → Db} (hf : ∀ db b, RunnerStep ended db (f db b)) (db : Db)
    (bs : List β) : RunnerStep ended db (bs.foldl f db) := by
  induction bs generalizing db with
  | nil => exact refl ended db
  | cons b bs ih => exact (hf db b).trans (ih (f db b))

theorem owned (h : RunnerStep ended db db') (ho : OwnedBut ended db) : OwnedBut ended db' := by
  intro k r hr hrunning
  obtain ⟨runner, i, hclaim, hi, hlane, huser, hheld⟩ := ho k r (h.reviews k r hr hrunning) hrunning
  obtain ⟨j, hj, hsame, hstays⟩ := h.jobs runner i hi
  refine ⟨runner, j, hclaim, hj, hsame.lane.trans hlane, hsame.userId.trans huser, ?_⟩
  obtain hheld | hended := hheld
  · rw [← huser]
    exact hstays hlane hheld
  · exact .inr hended

theorem updateJobs {p : Job → Bool} {f : Job → Job} {hf : ∀ j, (f j).id = j.id}
    (h : ∀ j, db.jobs.get? j.id = some j → p j = true →
      SameJob j (f j) ∧ (j.lane = .trajectoryReview → j.status.held = true →
        (f j).status.held = true ∨ ended j.id j.userId)) :
    RunnerStep ended db (db.updateJobs p f hf) := by
  refine ⟨fun k i hi => ?_, fun _ _ h _ => h⟩
  rw [Db.updateJobs, Serial.get?_modify, hi, Option.map_some]
  by_cases hp : p i = true
  · have hkey := Serial.key_of_get? hi
    obtain ⟨hsame, hheld⟩ := h i (by rw [hkey]; exact hi) hp
    rw [hkey] at hheld
    exact ⟨f i, by rw [if_pos hp], hsame, hheld⟩
  · exact ⟨i, by rw [if_neg hp], .refl i, fun _ h => .inl h⟩

theorem updateRow {job : JobId} {f : Job → Job} {hf : ∀ j, (f j).id = j.id}
    (hsame : ∀ j, SameJob j (f j))
    (h : ∀ j, db.jobs.get? job = some j → j.lane = .trajectoryReview → j.status.held = true →
      (f j).status.held = true ∨ ended job j.userId) :
      RunnerStep ended db (db.updateJobs (fun j => j.id == job) f hf) := by
  refine updateJobs fun j hj hp => ⟨hsame j, ?_⟩
  rw [beq_iff_eq] at hp
  subst hp
  exact h j hj

theorem insertJob {mk : JobId → Job} {hk : ∀ n, (mk n).id = n} :
    RunnerStep ended db (db.insertJob mk hk) := by
  refine ⟨fun k i hi => ⟨i, ?_, .refl i, fun _ h => .inl h⟩, fun _ _ h _ => h⟩
  rw [Db.insertJob, Serial.get?_insert, if_neg]
  · exact hi
  · rintro rfl
    rw [Serial.get?_of_next_le (Nat.le_refl _)] at hi
    cases hi

theorem updateReviews {p : Review → Bool} {f : Review → Review}
    {hf : ∀ r, (f r).sourceJobId = r.sourceJobId} (h : ∀ r, (f r).status ≠ .running) :
    RunnerStep ended db (db.updateReviews p f hf) := by
  refine ⟨fun k i hi => ⟨i, hi, .refl i, fun _ h => .inl h⟩, fun k r hr hrunning => ?_⟩
  rw [Db.updateReviews, Table.get?_modify] at hr
  obtain ⟨r', hr', rfl⟩ := Option.map_eq_some_iff.mp hr
  cases hp : p r' with
  | true => exact absurd hrunning (by simpa [hp] using h r')
  | false => simpa [hp] using hr'

theorem insertReview {r : Review} (h : r.status ≠ .running) :
    RunnerStep ended db { db with reviews := db.reviews.insert r } := by
  refine ⟨fun k i hi => ⟨i, hi, .refl i, fun _ h => .inl h⟩, fun k r' hr' hrunning => ?_⟩
  rw [Table.get?_insert] at hr'
  split at hr'
  · cases hr'
    exact absurd hrunning h
  · exact hr'

/-! ## The helpers on the cursor of another transaction -/

theorem queueTerminalFailure (db : Db) (job : JobId) (u : UserId) :
    RunnerStep ended db (db.queueTerminalFailure job u) := by
  unfold Db.queueTerminalFailure
  split
  · split
    · exact of_eq rfl rfl
    · exact refl ended db
  · exact refl ended db

theorem settleAttempts (db : Db) (p : JobId → Bool) : RunnerStep ended db (db.settleAttempts p) :=
  of_eq rfl rfl

theorem ensureReviewRunner (db : Db) (u : UserId) :
    RunnerStep ended db (db.ensureReviewRunner u) := by
  unfold Db.ensureReviewRunner
  split
  · split
    · exact insertJob
    · exact refl ended db
  · exact refl ended db

theorem materializeStream (db : Db) (source : JobId) :
    RunnerStep ended db (db.materializeStream source) := by
  unfold Db.materializeStream
  split
  · exact of_eq rfl rfl
  · exact refl ended db

theorem queueFailureReview (db : Db) (source : JobId) :
    RunnerStep ended db (db.queueFailureReview source) := by
  refine (materializeStream db source).trans ?_
  unfold Db.queueFailureReview
  dsimp only
  split
  · split
    · split
      · refine RunnerStep.trans (insertReview ?_) (ensureReviewRunner _ _)
        rintro ⟨⟩
      · exact refl ended _
    · exact refl ended _
  · exact refl ended _

theorem releaseReview_status (r : Review) : (releaseReview r).status ≠ .running := by
  unfold releaseReview
  split <;> exact fun h => nomatch h

theorem recoverReviewRunner (db : Db) (runner : JobId) :
    RunnerStep ended db (db.recoverReviewRunner runner) := by
  unfold Db.recoverReviewRunner
  split
  · split
    · exact (updateReviews releaseReview_status).trans
        (foldl (fun d (r : Review) => ensureReviewRunner d r.userId) _ _)
    · exact refl ended db
  · exact refl ended db

end RunnerStep

variable {ended : JobId → UserId → Prop} {db : Db}

theorem not_held_recoverReviewRunner (ho : OwnedBut ended db) (runner : JobId) {k : JobId}
    {r : Review} (hr : (db.recoverReviewRunner runner).reviews.get? k = some r)
    (hrunning : r.status = .running) :
    r.claimedByJobId ≠ some runner := by
  intro hclaim
  have hbefore :=
    (RunnerStep.recoverReviewRunner db runner : RunnerStep ended db _).reviews k r hr hrunning
  obtain ⟨runner', j, hclaim', hj, hlane, -⟩ := ho k r hbefore hrunning
  rw [hclaim] at hclaim'
  cases hclaim'
  have hheld : reviewsHeldBy runner r = true := by simp [reviewsHeldBy, hclaim, hrunning]
  have hfold : RunnerStep ended
      (db.updateReviews (reviewsHeldBy runner) releaseReview releaseReview_sourceJobId) _ :=
    .foldl (fun d (r : Review) => .ensureReviewRunner d r.userId) _
      (db.reviews.rows.filter (reviewsHeldBy runner))
  have heq : db.recoverReviewRunner runner = (db.reviews.rows.filter (reviewsHeldBy runner)).foldl
      (fun d (r : Review) => d.ensureReviewRunner r.userId)
      (db.updateReviews (reviewsHeldBy runner) releaseReview releaseReview_sourceJobId) := by
    simp [recoverReviewRunner, hj, hlane]
  rw [heq] at hr
  have hreleased := hfold.reviews k r hr hrunning
  rw [updateReviews, Table.get?_modify, hbefore, Option.map_some, if_pos hheld] at hreleased
  have hstatus := RunnerStep.releaseReview_status r
  rw [Option.some.inj hreleased] at hstatus
  exact hstatus hrunning

theorem OwnedBut.recover (ho : OwnedBut ended db) (runner : JobId) :
    OwnedBut (fun k v => ended k v ∧ k ≠ runner) (db.recoverReviewRunner runner) := by
  intro k r hr hrunning
  obtain ⟨runner', j, hclaim, hj, hlane, huser, hheld⟩ :=
    (RunnerStep.recoverReviewRunner db runner).owned ho k r hr hrunning
  refine ⟨runner', j, hclaim, hj, hlane, huser, hheld.imp id fun hended => ⟨hended, ?_⟩⟩
  rintro rfl
  exact not_held_recoverReviewRunner ho runner' hr hrunning hclaim

theorem OwnedBut.mono {ended' : JobId → UserId → Prop} (ho : OwnedBut ended db)
    (h : ∀ k v, ended k v → ended' k v) : OwnedBut ended' db := by
  intro k r hr hrunning
  obtain ⟨runner, j, hclaim, hj, hlane, huser, hheld⟩ := ho k r hr hrunning
  exact ⟨runner, j, hclaim, hj, hlane, huser, hheld.imp id (h runner _)⟩

/-- Every running review has a live owner. -/
def Owned (db : Db) : Prop := OwnedBut (fun _ _ => False) db

theorem Owned.but (h : Owned db) (ended : JobId → UserId → Prop) : OwnedBut ended db :=
  h.mono fun _ _ h => h.elim

theorem OwnedBut.owned (ho : OwnedBut ended db)
    (h : ∀ k r runner, db.reviews.get? k = some r → r.status = .running →
      r.claimedByJobId = some runner → ¬ ended runner r.userId) : Owned db := by
  intro k r hr hrunning
  obtain ⟨runner, j, hclaim, hj, hlane, huser, hheld⟩ := ho k r hr hrunning
  refine ⟨runner, j, hclaim, hj, hlane, huser, .inl (hheld.resolve_right ?_)⟩
  exact h k r runner hr hrunning hclaim

theorem RunnerStep.keeps {db' : Db} (h : RunnerStep (fun _ _ => False) db db') (ho : Owned db) :
    Owned db' := h.owned ho

/-! ## The transactions of the queue -/

theorem OwnedBut.closeMark (ho : OwnedBut ended db) (how : Marks) (j : Job) :
    OwnedBut (fun k v => ended k v ∧ (how.releases = true → k ≠ j.id)) (Db.closeMark how db j) := by
  refine (RunnerStep.queueFailureReview _ j.id).owned ?_
  have hnoted : OwnedBut ended (bif how.notes then db.queueTerminalFailure j.id j.userId
      else db) := by
    cases how.notes with
    | true => exact (RunnerStep.queueTerminalFailure db _ _).owned ho
    | false => exact ho
  cases how.releases with
  | true => exact (hnoted.recover j.id).mono fun k v h => ⟨h.1, fun _ => h.2⟩
  | false => exact hnoted.mono fun k v h => ⟨h, fun hrel => nomatch hrel⟩

theorem OwnedBut.foldl_closeMark (how : Marks) (js : List Job) {db : Db}
    {ended : JobId → UserId → Prop} (ho : OwnedBut ended db) :
    OwnedBut (fun k v => ended k v ∧ (how.releases = true → ∀ j ∈ js, j.id ≠ k))
      (js.foldl (Db.closeMark how) db) := by
  induction js generalizing db ended with
  | nil => exact ho.mono fun _ _ h => ⟨h, fun _ _ hj => nomatch hj⟩
  | cons j js ih =>
    refine (ih (ho.closeMark how j)).mono fun k v hk => ⟨hk.1.1, fun hrel j' hj' => ?_⟩
    obtain rfl | hj' := List.mem_cons.mp hj'
    · exact (hk.1.2 hrel).symm
    · exact hk.2 hrel j' hj'

section Blocks

variable {sc : Scope} (hends : ∀ i : Job, sc.ends i → i.lane = .trajectoryReview →
    ended i.id i.userId)
include hends

theorem Block.owned {db' : Db} (h : Block sc db db') (ho : OwnedBut ended db) :
    OwnedBut ended db' := by
  cases h with
  | insert => exact RunnerStep.insertJob.owned ho
  | write h =>
    refine RunnerStep.owned (.updateJobs fun j hj hp => ⟨(h j hj hp).sameJob,
        fun hlane hheld => ?_⟩) ho
    exact ((h j hj hp).holds hlane hheld).imp id fun hend => hends j hend hlane
  | @giveBack i f hf hi _ h =>
    have hstep : RunnerStep (fun k v => ended k v ∨
        k = i.id) db (db.updateJobs (fun j => j.id == i.id) f hf) := by
      refine .updateJobs fun j hj hp => ?_
      rw [(id_beq_iff hi j hj).mp hp]
      exact ⟨h.sameJob, fun _ _ => .inr (.inr rfl)⟩
    exact ((hstep.owned (ho.mono fun _ _ => .inl)).recover i.id).mono fun _ _ hk =>
      hk.1.resolve_right hk.2
  | @close how p f hf h =>
    let due : JobId → UserId → Prop :=
      fun k v => ended k v ∨ how.releases = true ∧ ∃ j ∈ db.jobs.rows.filter p, j.id = k
    have hwritten : RunnerStep due db (db.updateJobs p f hf) := by
      refine .updateJobs fun j hj hp => ⟨(h j hj hp).same, fun hlane _ => .inr ?_⟩
      obtain hrel | hend := (h j hj hp).released hlane
      · exact .inr ⟨hrel, j, List.mem_filter.mpr ⟨Serial.mem_rows.mpr hj, hp⟩, rfl⟩
      · exact .inl (hends j hend hlane)
    have hsettled : ∀ q, OwnedBut due
        (bif how.settles then (db.updateJobs p f hf).settleAttempts q
          else db.updateJobs p f hf) := by
      intro q
      have ho := hwritten.owned (ho.mono fun _ _ => .inl)
      cases how.settles with
      | true => exact (RunnerStep.settleAttempts _ q).owned ho
      | false => exact ho
    refine ((hsettled _).foldl_closeMark how (db.jobs.rows.filter p)).mono fun k v hk => ?_
    obtain ⟨hended | ⟨hrel, j, hj, hid⟩, hnone⟩ := hk
    · exact hended
    · exact absurd hid (hnone hrel j hj)

theorem Parts.owned {db' : Db} (h : Parts sc db db') (ho : OwnedBut ended db) :
    OwnedBut ended db' := by
  induction h with
  | refl => exact ho
  | @tail mid db' _ hpart ih =>
    cases hpart with
    | block hblock => exact hblock.owned hends ih
    | stored u msgId ts doc =>
      have hrest := chatInsert_rest mid u msgId ts doc
      have hjobs := congrArg Db.jobs hrest
      have hreviews := congrArg Db.reviews hrest
      exact (RunnerStep.of_eq hjobs hreviews).owned ih

theorem exec_owned (cfg : Config) (t : Txn) (hin : t.Within sc) (hunsettled : ∀ k, sc.unsettled k)
    (ho : OwnedBut ended db) : OwnedBut ended (exec cfg db t) := by
  obtain h | h := exec_parts cfg db t hin fun k _ => hunsettled k
  · have hjobs := congrArg Db.jobs h.rest
    have hreviews := congrArg Db.reviews h.rest
    exact (RunnerStep.of_eq hjobs hreviews).owned ho
  · exact h.owned hends ho

end Blocks

end Db

end Feedling
