import Mathlib.Data.List.Sort
import Feedling.Store

/-!
# The failure-review queue, as other transactions drive it

A terminal failure may open a review of its trajectory. Reviews are drained by one generic
job per user on the `trajectory_review` lane. These are the helpers that run on the cursor
of another transaction, and the sweep that recreates missing runners.
-/

namespace Feedling

/-- `_TRAJECTORY_REVIEW_MAX_ATTEMPTS`. -/
def trajectoryReviewMaxAttempts : Nat := 3

/-- The ceiling from the environment, zero when it is malformed or out of range. -/
def ReviewEnv.trajectoryReviewAdmissionCap (env : ReviewEnv) : Nat :=
  match env.maxActive with
  | some value => if 1 ≤ value ∧ value ≤ 10000 then value.toNat else 0
  | none => 0

def ReviewEnv.trajectoryReviewEnabled (env : ReviewEnv) : Bool :=
  env.switchedOn && env.trajectoryReviewAdmissionCap != 0

namespace Db

def openReviews (db : Db) : Nat := db.reviews.rows.countP fun r => r.status.isOpen

def reviewAdmissionAvailable (db : Db) : Bool :=
  db.reviewEnv.trajectoryReviewEnabled &&
    decide (db.openReviews < db.reviewEnv.trajectoryReviewAdmissionCap)

/-- The user has a pending review and no runner on the lane. -/
def lacksReviewRunner (db : Db) (u : UserId) : Bool :=
  db.reviews.rows.any (fun r => r.userId == u && r.status == .pending) &&
    !db.hasActive u .trajectoryReview

/-- `_ensure_review_runner_on_cursor`. -/
def ensureReviewRunner (db : Db) (u : UserId) : Db :=
  match db.runtime u with
  | some s =>
    if db.reviewEnv.trajectoryReviewEnabled && s.hostedState == .v2 && db.lacksReviewRunner u then
      db.insertJob (Job.fresh db.clock u .trajectoryReview (some "terminal_failure_review") none
        (Lane.priority .trajectoryReview) none (some s.generation)) fun _ => rfl
    else db
  | none => db

/-- The stream row that `_queue_failure_review_on_cursor` materialises for the job. -/
def materializeStream (db : Db) (source : JobId) : Db :=
  match db.jobs.get? source with
  | some j => { db with streams := db.streams.insert ⟨j.id, j.userId, 0⟩ }
  | none => db

/-- `j.status IN ('failed','expired') AND j.lane<>'trajectory_review'` for a user on `v2`. -/
def reviewable (db : Db) (j : Job) : Bool :=
  (j.status == .failed || j.status == .expired) && j.lane != .trajectoryReview && db.isV2 j.userId

/-- `_queue_failure_review_on_cursor`. -/
def queueFailureReview (db : Db) (source : JobId) : Db :=
  let db := db.materializeStream source
  if db.reviewAdmissionAvailable then
    match db.jobs.get? source with
    | some j =>
      if db.reviewable j && (db.reviews.get? source).isNone then
        let opened : Review := ⟨j.id, j.userId, .pending, 0, none, none, none, db.clock⟩
        ensureReviewRunner { db with reviews := db.reviews.insert opened } j.userId
      else db
    | none => db
  else db

def reviewsHeldBy (runner : JobId) (r : Review) : Bool :=
  r.claimedByJobId == some runner && r.status == .running

/-- What `_recover_review_runner_on_cursor` writes to a review it releases. -/
def releaseReview (r : Review) : Review :=
  if r.attemptCount < trajectoryReviewMaxAttempts then
    { r with status := .pending, claimedByJobId := none }
  else
    { r with status := .failed, claimedByJobId := none,
             lastError := some (r.lastError.getD "review_runner_failed") }

@[simp] theorem releaseReview_sourceJobId (r : Review) :
    (releaseReview r).sourceJobId = r.sourceJobId := by
  unfold releaseReview; split <;> rfl

@[simp] theorem releaseReview_userId (r : Review) : (releaseReview r).userId = r.userId := by
  unfold releaseReview; split <;> rfl

/-- `_recover_review_runner_on_cursor`: give back the reviews of a runner that left. -/
def recoverReviewRunner (db : Db) (runner : JobId) : Db :=
  match db.jobs.get? runner with
  | some j =>
    if j.lane == .trajectoryReview then
      let released := db.reviews.rows.filter (reviewsHeldBy runner)
      released.foldl (fun d r => d.ensureReviewRunner r.userId)
        (db.updateReviews (reviewsHeldBy runner) releaseReview releaseReview_sourceJobId)
    else db
  | none => db

/-- The users whose pending reviews have no runner, oldest review first. -/
def usersLackingRunner (db : Db) : List UserId :=
  let waiting := db.reviews.rows.filter fun r =>
    r.status == .pending && decide (r.attemptCount < trajectoryReviewMaxAttempts) &&
      db.isV2 r.userId && !db.hasActive r.userId .trajectoryReview
  ((waiting.insertionSort fun a b =>
    a.createdAt < b.createdAt ∨
      (a.createdAt = b.createdAt ∧ a.userId ≤ b.userId)).map (·.userId)).eraseDups

/-- `reconcile_failure_review_runners`; a limit outside `1..1000` is refused. -/
def reconcileFailureReviewRunners (db : Db) (limit : Nat) : Option Db :=
  if 1 ≤ limit ∧ limit ≤ 1000 then
    if db.reviewEnv.trajectoryReviewEnabled then
      some ((db.usersLackingRunner.take limit).foldl (fun d u => d.ensureReviewRunner u) db)
    else some db
  else none

end Db

end Feedling
