import Mathlib.Data.List.Perm.Basic
import Feedling.JobStatements

/-!
# What a transaction of the queue is made of

A transaction of the queue is a sequence of blocks. A block inserts a pending row, writes rows that
go on or end without a failure, or ends rows as failed or expired together with what such an end
entails: open remote writes become `unknown`, the user is told, and reviews that a runner held are
given back. `Blocks` is proved once for every transaction; what holds of each block then holds of
every transaction.

Not every end entails all of it. `Scope` names the jobs for which a transaction falls short.
-/

namespace Feedling

open KeyedTable Relation

/-- The lanes whose failure the user is to see. -/
def Lane.visible : Lane → Bool
  | .chat | .scheduled => true
  | _ => false

/-- What a transaction may do: admit a job, finish a job without a failure or take a runner from its
reviews, and expire a job with open writes. -/
structure Scope where
  admits : Prop
  ends : Job → Prop
  unsettled : JobId → Prop

def Scope.free : Scope := ⟨True, fun _ => True, fun _ => True⟩

/-- No job is admitted, and a chat job ends only by failing. -/
def Scope.offChat : Scope := ⟨False, fun i => i.lane ≠ .chat, fun _ => True⟩

/-- A row goes on, or ends without a failure. -/
structure RowEdit (sc : Scope) (pristine : JobId → Bool) (i j : Job) : Prop where
  stmt : RowStmt pristine (some i) (some j)
  pins : j.expectedRuntimeGeneration = i.expectedRuntimeGeneration
  inputs : i.inputGeneration ≤ j.inputGeneration
  succeeds : j.status ≠ .failed ∧ j.status ≠ .expired
  ends : j.status.active = false → sc.ends i
  holds : i.lane = .trajectoryReview → i.status.held = true → j.status.held = true ∨ sc.ends i

/-- What the end of a row entails. -/
structure Marks where
  settles : Bool
  notes : Bool
  releases : Bool

/-- A row ends as failed or expired. -/
structure RowEnd (sc : Scope) (db : Db) (how : Marks) (i j : Job) : Prop where
  same : SameJob i j
  active : i.status.active = true
  ended : j.status = .failed ∨ j.status = .expired
  inputs : j.inputGeneration = i.inputGeneration
  noted : i.lane.visible = true → how.notes = true
  settled : j.status = .expired → sc.unsettled i.id ∨
    how.settles = true ∧ ∃ otherwise, j.lastError = some (db.terminalError i.id otherwise)
  released : i.lane = .trajectoryReview → how.releases = true ∨ sc.ends i

namespace RowEdit

variable {sc : Scope} {pristine : JobId → Bool} {i j : Job}

theorem sameJob (h : RowEdit sc pristine i j) : SameJob i j := by
  obtain ⟨j', heq, hsame⟩ := h.stmt.sameJob
  rw [Option.some.inj heq]
  exact hsame

theorem active (h : RowEdit sc pristine i j) : i.status.active = true := by
  cases h.stmt with
  | coalesce _ ha | finish _ _ _ ha | requeue _ _ _ ha => exact ha
  | start _ _ _ hs => rw [hs]; rfl
  | renew _ _ hheld => exact JobStatus.active_of_held hheld

theorem requeue (hsame : SameJob i j) (ha : i.status.active = true) (hs : j.status = .pending)
    (hc : j.claimedBy = none) (hpins : j.expectedRuntimeGeneration = i.expectedRuntimeGeneration)
    (hinputs : j.inputGeneration = i.inputGeneration) (hchat : i.lane ≠ .chat)
    (hguard : replayGuarded i.lane = true → i.status.held = true → pristine i.id = true)
    (hends : i.lane = .trajectoryReview → sc.ends i) : RowEdit sc pristine i j where
  stmt := .requeue i j hsame ha hs hc hchat hguard
  pins := hpins
  inputs := Nat.le_of_eq hinputs.symm
  succeeds := by simp [hs]
  ends h := by rw [hs] at h; cases h
  holds hlane _ := .inr (hends hlane)

theorem finish (hsame : SameJob i j) (ha : i.status.active = true)
    (hs : j.status = .completed ∨ j.status = .superseded)
    (hpins : j.expectedRuntimeGeneration = i.expectedRuntimeGeneration)
    (hinputs : j.inputGeneration = i.inputGeneration) (hends : sc.ends i) :
    RowEdit sc pristine i j where
  stmt := .finish i j hsame ha (by obtain hs | hs := hs <;> rw [hs] <;> rfl)
  pins := hpins
  inputs := Nat.le_of_eq hinputs.symm
  succeeds := by obtain hs | hs := hs <;> simp [hs]
  ends _ := hends
  holds _ _ := .inr hends

theorem advance (hstmt : RowStmt pristine (some i) (some j))
    (hpins : j.expectedRuntimeGeneration = i.expectedRuntimeGeneration)
    (hinputs : i.inputGeneration ≤ j.inputGeneration)
    (ha : j.status.active = true) (hheld : i.status.held = true → j.status.held = true) :
    RowEdit sc pristine i j where
  stmt := hstmt
  pins := hpins
  inputs := hinputs
  succeeds := by constructor <;> intro h <;> rw [h] at ha <;> cases ha
  ends h := by rw [h] at ha; cases ha
  holds _ h := .inl (hheld h)

end RowEdit

namespace Db

/-- The marks of one row that has ended. -/
def closeMark (how : Marks) (db : Db) (j : Job) : Db :=
  let noted := bif how.notes then db.queueTerminalFailure j.id j.userId else db
  (bif how.releases then noted.recoverReviewRunner j.id else noted).queueFailureReview j.id

/-- The rows are written, their remote writes are settled, and each of them is marked. -/
def close (db : Db) (how : Marks) (p : Job → Bool) (f : Job → Job) (hf : ∀ j, (f j).id = j.id) :
    Db :=
  let ended := db.jobs.rows.filter p
  let written := db.updateJobs p f hf
  ended.foldl (closeMark how)
    (bif how.settles then written.settleAttempts fun k => ended.any fun j => j.id == k else written)

inductive Block (sc : Scope) (db : Db) : Db → Prop where
  | insert {mk : JobId → Job} {hk : ∀ n, (mk n).id = n} : sc.admits →
      (mk db.jobs.next).status = .pending →
      (mk db.jobs.next).claimedBy = none → Block sc db (db.insertJob mk hk)
  | write {p : Job → Bool} {f : Job → Job} {hf : ∀ j, (f j).id = j.id} :
      (∀ j, db.jobs.get? j.id = some j → p j = true → RowEdit sc db.turnIsPristine j (f j)) →
      Block sc db (db.updateJobs p f hf)
  /-- A runner returns to the queue, and its reviews are given back. -/
  | giveBack {i : Job} {f : Job → Job} {hf : ∀ j, (f j).id = j.id} : db.jobs.get? i.id = some i →
      (f i).status = .pending → RowEdit { sc with ends := fun _ => True } db.turnIsPristine i
        (f i) →
      Block sc db ((db.updateJobs (fun j => j.id == i.id) f hf).recoverReviewRunner i.id)
  | close {how : Marks} {p : Job → Bool} {f : Job → Job} {hf : ∀ j, (f j).id = j.id} :
      (∀ j, db.jobs.get? j.id = some j → p j = true → RowEnd sc db how j (f j)) →
        Block sc db (db.close how p f hf)

abbrev Blocks (sc : Scope) : Db → Db → Prop := ReflTransGen (Block sc)

variable {sc : Scope} {db : Db}

/-! ## Admission -/

/-- The row that `coalesce_or_insert_on_cursor` expires because it timed out. -/
def staleRow (cfg : Config) (db : Db) (e : Enqueue) : Option JobId :=
  ((db.activeRow e.userId e.lane).filter fun j =>
    !generationStale e.expectedGeneration j && rowStale cfg db.clock j).map (·.id)

theorem id_beq_iff {i : Job} (hi : db.jobs.get? i.id = some i) (j : Job)
    (hj : db.jobs.get? j.id = some j) : (j.id == i.id) = true ↔ j = i := by
  rw [beq_iff_eq]
  constructor
  · intro h
    rw [h, hi] at hj
    exact (Option.some.inj hj).symm
  · rintro rfl
    rfl

theorem Blocks.closeRow (how : Marks) {i : Job} (hi : db.jobs.get? i.id = some i) {p : Job → Bool}
    {f : Job → Job} {hf : ∀ j, (f j).id = j.id}
    (hp : ∀ j, db.jobs.get? j.id = some j → (p j = true ↔ j = i))
    (hend : RowEnd sc db how i (f i)) :
    Blocks sc db (closeMark how
      (bif how.settles then (db.updateJobs p f hf).settleAttempts (· == i.id)
        else db.updateJobs p f hf) i) := by
  have hrows : db.jobs.rows.filter p = [i] := by
    refine List.perm_singleton.mp
      ((List.perm_ext_iff_of_nodup (db.jobs.nodup.filter p) (List.nodup_singleton i)).mpr ?_)
    intro j
    rw [List.mem_filter, List.mem_singleton]
    constructor
    · exact fun h => (hp j (Serial.mem_rows.mp h.1)).mp h.2
    · rintro rfl
      exact ⟨Serial.mem_rows.mpr hi, (hp j hi).mpr rfl⟩
  have hkey : (fun k => [i].any fun j => j.id == k) = (· == i.id) := by
    funext k
    simp [Bool.beq_eq_decide_eq, eq_comm]
  have hclose : Block sc db (db.close how p f hf) := .close fun j hj hpj => by
    rw [(hp j hj).mp hpj]
    exact hend
  unfold close at hclose
  simp only [hrows, hkey, List.foldl_cons, List.foldl_nil] at hclose
  exact .single hclose

theorem Blocks.insertJob {mk : JobId → Job} {hk : ∀ n, (mk n).id = n} (hadmits : sc.admits)
    (hs : (mk db.jobs.next).status = .pending) (hc : (mk db.jobs.next).claimedBy = none) :
    Blocks sc db (db.insertJob mk hk) := .single (.insert hadmits hs hc)

theorem Blocks.writeRow {i : Job} (hi : db.jobs.get? i.id = some i) {f : Job → Job}
    {hf : ∀ j, (f j).id = j.id} (h : RowEdit sc db.turnIsPristine i (f i)) :
    Blocks sc db (db.updateJobs (fun j => j.id == i.id) f hf) := by
  refine .single (.write fun j hj hp => ?_)
  rw [(id_beq_iff hi j hj).mp hp]
  exact h

theorem Blocks.coalesceInto {i : Job} (hi : db.jobs.get? i.id = some i)
    (ha : i.status.active = true) :
    Blocks sc db (db.coalesceInto i.id) :=
  writeRow hi (.advance (.coalesce i ha) rfl (Nat.le_succ _) ha id)

theorem Blocks.coalesceOrInsert (cfg : Config) (db : Db) (e : Enqueue) (trace : Option String)
    (priority : Nat) (hadmits : sc.admits) (hends : ∀ i, i.userId = e.userId → i.lane = e.lane →
      sc.ends i)
    (hunsettled : ∀ k, staleRow cfg db e = some k → sc.unsettled k) :
    Blocks sc db (Db.coalesceOrInsert cfg db e trace priority).1 := by
  unfold Db.coalesceOrInsert
  split
  · exact insertJob hadmits rfl rfl
  · next existing hrow =>
    obtain ⟨hget, huser, hlane, hactive⟩ := activeRow_spec hrow
    have hend : sc.ends existing := hends existing huser hlane
    split
    · exact (writeRow hget (.finish ⟨rfl, rfl, rfl, rfl,
          rfl⟩ hactive (.inr rfl) rfl rfl hend)).trans
        (insertJob hadmits rfl rfl)
    · next hcurrent =>
      split
      · next hstale =>
        refine ReflTransGen.trans ?_ (insertJob hadmits rfl rfl)
        rw [← huser]
        refine closeRow ⟨false, true, false⟩ hget (id_beq_iff hget) ?_
        refine ⟨⟨rfl, rfl, rfl, rfl, rfl⟩, hactive, .inr rfl, rfl, fun _ => rfl, fun _ => .inl ?_,
          fun _ => .inr hend⟩
        exact hunsettled existing.id (by simp [staleRow, hrow, hcurrent, hstale])
      · exact coalesceInto hget hactive

theorem Blocks.expireOverdueCapture {i : Job} (hi : db.jobs.get? i.id = some i)
    (hlane : i.lane = .capture) : Blocks sc db (db.expireOverdueCapture i.id) := by
  unfold Db.expireOverdueCapture
  split
  · next hany =>
    obtain ⟨j, hj, hheld⟩ := List.any_eq_true.mp hany
    rw [Bool.and_eq_true, id_beq_iff hi j (Serial.mem_rows.mp hj)] at hheld
    rw [hheld.1] at hheld
    refine closeRow ⟨true, false, true⟩ hi (fun l hl => ?_) ?_
    · rw [Bool.and_eq_true, id_beq_iff hi l hl]
      exact ⟨fun h => h.1, fun h => ⟨h, by rw [h]; exact hheld.2⟩⟩
    · refine ⟨⟨rfl, rfl, rfl, rfl, rfl⟩, JobStatus.active_of_held hheld.2, .inr rfl, rfl,
        fun hvisible => ?_, fun _ => .inr ⟨rfl, "lease_timeout", rfl⟩, fun _ => .inl rfl⟩
      rw [hlane] at hvisible
      cases hvisible
  · exact .refl

/-- The row that an enqueue expires because it timed out. A live capture claim is expired on another
path. -/
def enqueueStale (cfg : Config) (db : Db) (e : Enqueue) : Option JobId :=
  let e := { e with expectedGeneration := db.effectiveGeneration e.userId e.expectedGeneration }
  if e.lane == .capture && (db.activeRow e.userId .capture).any (fun j =>
      j.status.held && !generationStale e.expectedGeneration j) then none
  else staleRow cfg db e

theorem Blocks.enqueueJob (cfg : Config) (db : Db) (e : Enqueue) (hadmits : sc.admits)
    (hends : ∀ i, i.userId = e.userId → i.lane = e.lane → sc.ends i)
    (hunsettled : ∀ k, enqueueStale cfg db e = some k → sc.unsettled k) :
    Blocks sc db (Db.enqueueJob cfg db e).1 := by
  simp only [enqueueStale] at hunsettled
  unfold Db.enqueueJob
  dsimp only
  split
  · next hcapture =>
    rw [hcapture, Bool.true_and] at hunsettled
    unfold enqueueCapture
    dsimp only
    split
    · next existing hrow =>
      obtain ⟨hget, -, hlane, hactive⟩ := activeRow_spec hrow
      split
      · split
        · exact expireOverdueCapture hget hlane
        · exact coalesceInto hget hactive
      · next hheld =>
        rw [hrow, Option.any_some, if_neg hheld] at hunsettled
        exact coalesceOrInsert cfg db _ _ _ hadmits hends hunsettled
    · next hrow =>
      rw [hrow, Option.any_none, if_neg Bool.false_ne_true] at hunsettled
      exact coalesceOrInsert cfg db _ _ _ hadmits hends hunsettled
  · next hcapture =>
    rw [Bool.not_eq_true] at hcapture
    rw [hcapture, Bool.false_and, if_neg Bool.false_ne_true] at hunsettled
    exact coalesceOrInsert cfg db _ _ _ hadmits hends hunsettled

/-! ## Foreground preemption -/

def KeepsRows (db db' : Db) : Prop := ∀ k i, db.jobs.get? k = some i → db'.jobs.get? k = some i

theorem KeepsRows.trans {db db' db'' : Db} (h : KeepsRows db db') (h' : KeepsRows db' db'') :
    KeepsRows db db'' :=
  fun k i hi => h' k i (h k i hi)

theorem queueTerminalFailure_jobs (db : Db) (job : JobId) (u : UserId) :
    (db.queueTerminalFailure job u).jobs = db.jobs := by
  unfold queueTerminalFailure
  split
  · split <;> rfl
  · rfl

theorem insertJob_keeps {mk : JobId → Job} {hk : ∀ n, (mk n).id = n} :
    KeepsRows db (db.insertJob mk hk) := by
  intro k i hi
  unfold insertJob
  rw [Serial.get?_insert, if_neg (Nat.ne_of_lt (Serial.lt_next hi))]
  exact hi

theorem ensureReviewRunner_keeps (db : Db) (u : UserId) :
    KeepsRows db (db.ensureReviewRunner u) := by
  unfold ensureReviewRunner
  split
  · split
    · exact insertJob_keeps
    · exact fun _ _ hi => hi
  · exact fun _ _ hi => hi

theorem queueFailureReview_keeps (db : Db) (source : JobId) :
    KeepsRows db (db.queueFailureReview source) := by
  have hstream : KeepsRows db (db.materializeStream source) := by
    unfold materializeStream
    split <;> exact fun _ _ hi => hi
  refine hstream.trans ?_
  unfold queueFailureReview
  dsimp only
  split
  · split
    · split
      · exact fun k i hi => ensureReviewRunner_keeps _ _ k i hi
      · exact fun _ _ hi => hi
    · exact fun _ _ hi => hi
  · exact fun _ _ hi => hi

theorem recoverReviewRunner_keeps (db : Db) (runner : JobId) :
    KeepsRows db (db.recoverReviewRunner runner) := by
  have hfold : ∀ (rs : List Review) (d : Db),
      KeepsRows d (rs.foldl (fun d r => d.ensureReviewRunner r.userId) d) := by
    intro rs
    induction rs with
    | nil => exact fun _ _ _ hi => hi
    | cons r rs ih => exact fun d => (ensureReviewRunner_keeps d r.userId).trans (ih _)
  unfold recoverReviewRunner
  split
  · split
    · exact fun k i hi => hfold _ _ k i hi
    · exact fun _ _ hi => hi
  · exact fun _ _ hi => hi

theorem reviewAfterExpiry_keeps (db : Db) (job : JobId) : KeepsRows db (db.reviewAfterExpiry job) :=
  (recoverReviewRunner_keeps db job).trans (queueFailureReview_keeps _ job)

theorem closeMark_keeps (how : Marks) (db : Db) (j : Job) : KeepsRows db (closeMark how db j) := by
  refine KeepsRows.trans ?_ (queueFailureReview_keeps _ j.id)
  have hnoted : KeepsRows db (bif how.notes then db.queueTerminalFailure j.id j.userId
      else db) := by
    cases how.notes with
    | true =>
      intro k i hi
      rw [cond_true, queueTerminalFailure_jobs]
      exact hi
    | false => exact fun _ _ hi => hi
  cases how.releases with
  | true => exact hnoted.trans (recoverReviewRunner_keeps _ j.id)
  | false => exact hnoted

section

variable (ownerDead : JobId → Bool)
include ownerDead

theorem get?_preemptRow {j : Job} {k : JobId} {i : Job} (hi : db.jobs.get? k = some i)
    (hk : k ≠ j.id) : (preemptRow ownerDead db j).jobs.get? k = some i := by
  have hother : ∀ (p : Job → Bool) (f : Job → Job) (hf : ∀ j, (f j).id = j.id),
      (∀ l, p l = true → l.id = j.id) →
        (db.updateJobs p f hf).jobs.get? k = some i := by
    intro p f hf hp
    rw [updateJobs, Serial.get?_modify, hi, Option.map_some, if_neg]
    exact fun h => hk ((Serial.key_of_get? hi).symm.trans (hp i h))
  have hunchanged : ∀ l, unchangedSince j l = true → l.id = j.id := by
    intro l hl
    simp only [unchangedSince, Bool.and_eq_true, beq_iff_eq] at hl
    exact hl.1.1
  unfold preemptRow
  split
  · unfold expireOverdueCapture
    split
    · refine reviewAfterExpiry_keeps _ _ k i (hother _ _ (by exact fun _ => rfl) fun l hl => ?_)
      exact beq_iff_eq.mp (Bool.and_eq_true _ _ ▸ hl).1
    · exact hi
  · split
    · exact hother _ _ (by exact fun _ => rfl) hunchanged
    · split
      · unfold preemptUnsafeScheduled
        refine reviewAfterExpiry_keeps _ _ k i ?_
        rw [queueTerminalFailure_jobs]
        exact hother _ _ (by exact fun _ => rfl) hunchanged
      · exact hother _ _ (by exact fun _ => rfl) hunchanged

theorem Blocks.preemptRow {j : Job} (hj : db.jobs.get? j.id = some j) (ha : j.status.active = true)
    (hchat : j.lane ≠ .chat) (hends : sc.ends j) : Blocks sc db (Db.preemptRow ownerDead db j) := by
  have hread : ∀ i, db.jobs.get? i.id = some i → (unchangedSince j i = true ↔ i = j) := by
    intro i hi
    simp only [unchangedSince, Bool.and_eq_true, id_beq_iff hj i hi, beq_iff_eq]
    exact ⟨fun h => h.1.1, fun h => by rw [h]; exact ⟨⟨rfl, rfl⟩, rfl⟩⟩
  have hwrite : ∀ {f : Job → Job} {hf : ∀ j, (f j).id = j.id},
      RowEdit sc db.turnIsPristine j (f j) →
        Blocks sc db (db.updateJobs (unchangedSince j) f hf) := by
    intro f hf h
    refine .single (.write fun i hi hp => ?_)
    rw [(hread i hi).mp hp]
    exact h
  unfold Db.preemptRow
  split
  · next hcapture =>
    simp only [Bool.and_eq_true, beq_iff_eq] at hcapture
    exact expireOverdueCapture hj hcapture.1.1
  · split
    · next hsafe =>
      refine hwrite (.requeue ⟨rfl, rfl, rfl, rfl,
          rfl⟩ ha rfl rfl rfl rfl hchat (fun hguard _ => ?_) fun _ => hends)
      obtain hc | hp := Bool.or_eq_true _ _ ▸ hsafe
      · rw [beq_iff_eq.mp hc] at hguard
        cases hguard
      · exact (Bool.and_eq_true _ _ ▸ hp).2
    · split
      · exact closeRow ⟨true, true, true⟩ hj hread ⟨⟨rfl, rfl, rfl, rfl, rfl⟩, ha, .inr rfl, rfl,
          fun _ => rfl, fun _ => .inr ⟨rfl, "foreground_chat_preempted", rfl⟩, fun _ => .inl rfl⟩
      · exact hwrite (.finish ⟨rfl, rfl, rfl, rfl, rfl⟩ ha (.inr rfl) rfl rfl hends)

/-- The loop of the preemption: the rows that are still to come are as they were read. -/
theorem Blocks.foldl_preemptRow (js : List Job) (hnodup : (js.map (·.id)).Nodup)
    (hactive : ∀ j ∈ js, j.status.active = true ∧ j.lane ≠ .chat ∧ sc.ends j) {db : Db}
    (hread : ∀ j ∈ js, db.jobs.get? j.id = some j) :
    Blocks sc db (js.foldl (Db.preemptRow ownerDead) db) := by
  induction js generalizing db with
  | nil => exact .refl
  | cons j js ih =>
    rw [List.map_cons, List.nodup_cons] at hnodup
    obtain ⟨ha, hchat, hends⟩ := hactive j (by simp)
    refine (preemptRow ownerDead (hread j (by simp)) ha hchat hends).trans ?_
    refine ih hnodup.2 (fun j' hj' => hactive j' (by simp [hj'])) fun j' hj' => ?_
    refine get?_preemptRow ownerDead (hread j' (by simp [hj'])) fun heq => ?_
    exact hnodup.1 (List.mem_map.mpr ⟨j', hj', heq⟩)

theorem Blocks.preemptActiveForChat (db : Db) (u : UserId)
    (hends : ∀ i, i.userId = u → i.lane ≠ .chat → sc.ends i) :
    Blocks sc db (Db.preemptActiveForChat ownerDead db u) := by
  refine foldl_preemptRow ownerDead _ ?_ (fun j hj => ?_) fun j hj => ?_
  · exact db.jobs.toTable.nodup.sublist (List.filter_sublist.map _)
  · simp only [List.mem_filter, Bool.and_eq_true, beq_iff_eq, bne_iff_ne] at hj
    exact ⟨hj.2.2, hj.2.1.2, hends j hj.2.1.1 hj.2.1.2⟩
  · exact Serial.mem_rows.mp (List.mem_of_mem_filter hj)

end

/-! ## The owner's transitions -/

theorem Blocks.updateOwned {job : JobId} {guard : Job → Bool} {f : Job → Job}
    {hf : ∀ j, (f j).id = j.id}
    (h : ∀ i, i.id = job → guard i = true → RowEdit sc db.turnIsPristine i (f i)) :
    Blocks sc db (db.updateOwned job guard f hf).1 := by
  obtain ⟨i, hi, hguard, heq⟩ | heq := updateOwned_cases db job guard f hf
  · obtain rfl : i.id = job := Serial.key_of_get? hi
    rw [heq]
    exact writeRow hi (h i rfl hguard)
  · rw [heq]

theorem Blocks.markRunning (cfg : Config) (db : Db) (job : JobId) (w : WorkerId) :
    Blocks sc db (Db.markRunning cfg db job w).1 := by
  refine updateOwned fun i _ hguard => ?_
  simp only [Bool.and_eq_true, beq_iff_eq] at hguard
  exact .advance (.start i _ _ hguard.1.1.2) rfl (Nat.le_refl _) rfl fun _ => rfl

theorem Blocks.renewJobLease (db : Db) (job : JobId) (w : WorkerId) (ttl : Time) :
    Blocks sc db (db.renewJobLease job w ttl).1 := by
  refine updateOwned fun i _ hguard => ?_
  have hheld := held_of_ownedBy (Bool.and_eq_true _ _ ▸ hguard).2
  exact .advance (.renew i _ hheld) rfl (Nat.le_refl _) (JobStatus.active_of_held hheld) id

section Owner

variable {job : JobId} (hends : ∀ i : Job, i.id = job → sc.ends i)
include hends

theorem Blocks.markCompleted (w : WorkerId) : Blocks sc db (db.markCompleted job w).1 := by
  refine updateOwned fun i hid hguard => ?_
  exact .finish ⟨rfl, rfl, rfl, rfl,
    rfl⟩ (JobStatus.active_of_held (held_of_ownedBy hguard)) (.inl rfl) rfl rfl (hends i hid)

theorem Blocks.completeJob {i : Job} (hi : db.jobs.get? job = some i)
    (ha : i.status.active = true) : Blocks sc db (db.completeJob job) := by
  obtain rfl : i.id = job := Serial.key_of_get? hi
  exact writeRow hi (.finish ⟨rfl, rfl, rfl, rfl, rfl⟩ ha (.inl rfl) rfl rfl (hends i rfl))

theorem Blocks.finishChatJob (cfg : Config) (hadmits : sc.admits) (w : WorkerId) (observed : Nat)
    (force : Bool) : Blocks sc db (Db.finishChatJob cfg db job w observed force).1 := by
  unfold Db.finishChatJob
  split
  · next j hj =>
    split
    · next hguard =>
      simp only [Bool.and_eq_true, beq_iff_eq] at hguard
      have hcompleted := completeJob hends hj (by rw [hguard.1.1.2]; rfl)
      dsimp only
      split
      · exact hcompleted.trans (insertJob hadmits rfl rfl)
      · exact hcompleted
    · exact .refl
  · exact .refl

theorem Blocks.finishWakeJob (hadmits : sc.admits) (w : WorkerId) (observed : Nat) (late : Bool) :
    Blocks sc db (Db.finishWakeJob db job w observed late).1 := by
  unfold Db.finishWakeJob
  split
  · next j hj =>
    split
    · split
      · exact .refl
      · split
        · next hguard =>
          have hcompleted :=
            completeJob hends hj (JobStatus.active_of_held (Bool.and_eq_true _ _ ▸ hguard).1)
          dsimp only
          split
          · exact hcompleted.trans (insertJob hadmits rfl rfl)
          · exact hcompleted
        · exact .refl
    · exact .refl
  · exact .refl

end Owner

theorem get?_updateRow {job : JobId} {i : Job} (hi : db.jobs.get? job = some i) (f : Job → Job)
    (hf : ∀ j, (f j).id = j.id) :
    (db.updateJobs (fun j => j.id == job) f hf).jobs.get? job = some (f i) := by
  rw [updateJobs, Serial.get?_modify, hi, Option.map_some, if_pos]
  rw [Serial.key_of_get? hi]
  exact beq_self_eq_true job

theorem Blocks.markFailed (db : Db) (job : JobId) (w : WorkerId) (error : String) :
    Blocks sc db (db.markFailed job w error).1 := by
  unfold Db.markFailed
  obtain ⟨i, hi, hguard, heq⟩ | heq := updateOwned_cases db job (ownedBy db.clock w)
    (fun j => { j with status := .failed, finishedAt := some db.clock,
                       lastError := some (truncate 500 error),
                       attemptCount := j.attemptCount + 1 }) fun _ => rfl
  · obtain rfl : i.id = job := Serial.key_of_get? hi
    have hrow := get?_updateRow hi (fun j => { j with
      status := .failed, finishedAt := some db.clock
      lastError := some (truncate 500 error), attemptCount := j.attemptCount + 1 }) fun _ => rfl
    rw [heq]
    dsimp only
    rw [hrow]
    exact closeRow ⟨false, true, true⟩ hi (id_beq_iff hi) ⟨⟨rfl, rfl, rfl, rfl, rfl⟩,
      JobStatus.active_of_held (held_of_ownedBy hguard), .inl rfl, rfl, fun _ => rfl,
        fun h => (nomatch h), fun _ => .inl rfl⟩
  · rw [heq]

theorem Blocks.reschedulePristineScheduledFailure (db : Db) (job : JobId) (w : WorkerId)
    (error : String) (availableAt : Time) (attempts limit : Nat) :
    Blocks sc db
      (db.reschedulePristineScheduledFailure job w error availableAt attempts limit).1 := by
  unfold Db.reschedulePristineScheduledFailure
  split
  · exact .refl
  · refine updateOwned fun i hid hguard => ?_
    simp only [Bool.and_eq_true, beq_iff_eq] at hguard
    obtain ⟨⟨⟨⟨⟨-, hlane⟩, howned⟩, -⟩, -⟩, hpristine⟩ := hguard
    exact .requeue ⟨rfl, rfl, rfl, rfl,
      rfl⟩ (JobStatus.active_of_held (held_of_ownedBy howned)) rfl rfl rfl rfl
      (by simp [hlane]) (fun _ _ => by rw [hid]; exact hpristine) (by simp [hlane])

/-! ## Recovery of a killed claim -/

/-- `_general_watchdog_recover_on_cursor` gives up on the claim. -/
def watchdogGivesUp (cfg : Config) (w : WorkerId) (j : Job) : Bool :=
  claimedFrom w j && j.lane != .trajectoryReview &&
    !decide (j.attemptCount < cfg.generalRequeueMaxAttempts)

theorem Blocks.generalWatchdogRecover (cfg : Config) {j : Job} (hj : db.jobs.get? j.id = some j)
    (w : WorkerId) (reason : String) (hvisible : j.lane.visible = false)
    (hsafe : replayGuarded j.lane = true → db.turnIsPristine j.id = true)
    (hunsettled : watchdogGivesUp cfg w j = true → sc.unsettled j.id) :
    Blocks sc db (Db.generalWatchdogRecover cfg db j w reason) := by
  unfold Db.generalWatchdogRecover
  split
  · next hclaim =>
    have hactive := JobStatus.active_of_held (Bool.and_eq_true _ _ ▸ hclaim).2
    split
    · refine .single (.giveBack hj rfl (.requeue ⟨rfl, rfl, rfl, rfl,
          rfl⟩ hactive rfl rfl rfl rfl ?_ (fun hg _ => hsafe hg)
        fun _ => trivial))
      intro hchat
      rw [hchat] at hvisible
      cases hvisible
    · next hexhausted =>
      refine closeRow ⟨false, false, true⟩ hj (id_beq_iff hj) ⟨⟨rfl, rfl, rfl, rfl, rfl⟩, hactive,
        .inr rfl, rfl, fun h => ?_, fun _ => .inl (hunsettled ?_), fun _ => .inl rfl⟩
      · rw [hvisible] at h
        cases h
      · simp only [Bool.or_eq_true, beq_iff_eq, not_or, Bool.not_eq_true] at hexhausted
        simp only [watchdogGivesUp, hclaim, hexhausted.2, Bool.not_false, Bool.and_true,
          Bool.true_and, bne_iff_ne]
        exact hexhausted.1
  · exact .refl

/-- `_recover_capture_claim` on behalf of the watchdog expires the claim. -/
def claimGivenUp (cfg : Config) (u : UserId) (w : Option WorkerId) (attemptCount : Nat)
    (mode : RecoveryMode) (j : Job) : Bool :=
  mode == .watchdog && j.lane == .capture && j.userId == u && j.claimedBy.getD "" == w.getD "" &&
    j.attemptCount == attemptCount && watchdogGivesUp cfg (w.getD "None") j

theorem Blocks.recoverCaptureClaim (cfg : Config) (db : Db) (job : JobId) (u : UserId)
    (w : Option WorkerId) (attempts : Nat) (mode : RecoveryMode) (reason : String)
    (now : Option Time)
    (hunsettled : ∀ j, db.jobs.get? job = some j → claimGivenUp cfg u w attempts mode j = true →
      sc.unsettled job) :
    Blocks sc db (Db.recoverCaptureClaim cfg db job u w attempts mode reason now) := by
  unfold Db.recoverCaptureClaim
  split
  · next j hj =>
    obtain rfl : j.id = job := Serial.key_of_get? hj
    split
    · next hguard =>
      simp only [Bool.and_eq_true] at hguard
      have hlane : j.lane = .capture := beq_iff_eq.mp hguard.1.1.1.1.1
      cases mode with
      | watchdog =>
        refine generalWatchdogRecover cfg hj _ _ (by rw [hlane]; rfl)
          (by simp [hlane, replayGuarded]) fun hgivesUp =>
          hunsettled j hj ?_
        simp only [claimGivenUp, hguard.1.1.1.1.1, hguard.1.1.1.1.2, hguard.1.1.2, hguard.1.2,
          hgivesUp]
        rfl
      | lease => exact expireOverdueCapture hj hlane
    · exact .refl
  · exact .refl

/-- `recover_killed_job` expires the claim and leaves its remote writes as they are. -/
def killedUnsettled (cfg : Config) (db : Db) (w : WorkerId) (j : Job) : Bool :=
  match j.lane with
  | .chat => claimedFrom w j
  | .scheduled => false
  | lane => watchdogGivesUp cfg w j && (!pristineGuardedWakeLane lane || db.turnIsPristine j.id)

theorem Blocks.recoverHeldJob (cfg : Config) {j : Job} (hj : db.jobs.get? j.id = some j)
    (w : WorkerId) (reason : String) (hclaim : claimedFrom w j = true)
    (hunsettled : killedUnsettled cfg db w j = true → sc.unsettled j.id) :
    Blocks sc db (Db.recoverHeldJob cfg db j w reason) := by
  have hactive := JobStatus.active_of_held (Bool.and_eq_true _ _ ▸ hclaim).2
  have hexpired : ∀ otherwise notes, (j.lane.visible = true → notes = true) →
      RowEnd sc db ⟨true, notes,
        true⟩ j (watchdogExpired db.clock (db.terminalError j.id otherwise) j) :=
    fun otherwise notes hnotes => ⟨⟨rfl, rfl, rfl, rfl, rfl⟩, hactive, .inr rfl, rfl, hnotes,
      fun _ => .inr ⟨rfl, otherwise, rfl⟩, fun _ => .inl rfl⟩
  unfold Db.recoverHeldJob
  unfold killedUnsettled at hunsettled
  split
  · next hlane =>
    rw [hlane] at hunsettled
    refine recoverCaptureClaim cfg db _ _ _ _ _ _ _ fun i hi hgivenUp => hunsettled ?_
    rw [hj] at hi
    cases hi
    simpa [pristineGuardedWakeLane] using (Bool.and_eq_true _ _ ▸ hgivenUp).2
  · next hlane =>
    rw [hlane] at hunsettled
    exact closeRow ⟨false, true, true⟩ hj (id_beq_iff hj) ⟨⟨rfl, rfl, rfl, rfl, rfl⟩, hactive,
      .inr rfl, rfl, fun _ => rfl, fun _ => .inl (hunsettled hclaim), fun _ => .inl rfl⟩
  · next hlane =>
    split
    · next hsafe =>
      exact writeRow hj (.requeue ⟨rfl, rfl, rfl, rfl,
          rfl⟩ hactive rfl rfl rfl rfl (by simp [hlane])
        (fun _ _ => (Bool.and_eq_true _ _ ▸ hsafe).2) (by simp [hlane]))
    · exact closeRow ⟨true, true, true⟩ hj (id_beq_iff hj) (hexpired _ true fun _ => rfl)
  · next hcapture hchat hscheduled =>
    have hvisible : j.lane.visible = false := by
      cases hl : j.lane <;> first | rfl | exact absurd hl hchat | exact absurd hl hscheduled
    split
    · exact closeRow ⟨true, false, true⟩ hj (id_beq_iff hj) (hexpired _ false (by simp [hvisible]))
    · next hreplay =>
      have hpristine : (!pristineGuardedWakeLane j.lane || db.turnIsPristine j.id) = true := by
        cases hg : pristineGuardedWakeLane j.lane <;> simp_all
      refine generalWatchdogRecover cfg hj w reason hvisible (fun hg => ?_) fun hgivesUp =>
        hunsettled ?_
      · cases hlane : j.lane <;> simp_all [replayGuarded, pristineGuardedWakeLane]
      · split
        · next hl => exact absurd hl hchat
        · next hl => exact absurd hl hscheduled
        · rw [hgivesUp, hpristine]
          rfl

theorem Blocks.recoverKilledJob (cfg : Config) (db : Db) (job : JobId) (w : WorkerId)
    (reason : String) (hunsettled : ∀ j, db.jobs.get? job = some j →
      killedUnsettled cfg db w j = true → sc.unsettled job) :
    Blocks sc db (Db.recoverKilledJob cfg db job w reason) := by
  unfold Db.recoverKilledJob
  split
  · next j hj =>
    obtain rfl : j.id = job := Serial.key_of_get? hj
    split
    · next hclaim => exact recoverHeldJob cfg hj w reason hclaim (hunsettled j hj)
    · exact .refl
  · exact .refl

/-! ## The lease reaper -/

theorem active_of_reapEnds {cfg : Config} {ts : Time} {j : Job} (h : reapEnds cfg ts j = true) :
    j.status.active = true := by
  rw [JobStatus.active_iff]
  simp only [reapEnds, Bool.or_eq_true, Bool.and_eq_true, beq_iff_eq] at h
  exact h.imp (·.1) (·.1.1)

theorem Blocks.reapStuckJobRows (cfg : Config) (db : Db) (now : Option Time) :
    Blocks sc db (Db.reapStuckJobRows cfg db now) := by
  have hrequeued : Block sc db (reapRequeue cfg db (now.getD db.clock)) := by
    refine .write fun j _ hp => ?_
    simp only [reapRequeues, scheduledRequeueSafe, Bool.and_eq_true, beq_iff_eq] at hp
    obtain ⟨⟨⟨hlane, hheld⟩, -⟩, -, hpristine⟩ := hp
    exact .requeue ⟨rfl, rfl, rfl, rfl,
      rfl⟩ (JobStatus.active_of_held hheld) rfl rfl rfl rfl (by simp [hlane])
      (fun _ _ => hpristine) (by simp [hlane])
  unfold Db.reapStuckJobRows
  refine (ReflTransGen.single hrequeued).tail ?_
  refine @Block.close sc _ ⟨true, true, true⟩ _ _ _ fun j _ hp => ?_
  exact ⟨⟨rfl, rfl, rfl, rfl, rfl⟩, active_of_reapEnds hp, .inr rfl, rfl, fun _ => rfl,
    fun _ => .inr ⟨rfl, _, rfl⟩, fun _ => .inl rfl⟩

/-! ## What every block does -/

theorem closeMark_step (how : Marks) (db : Db) (j : Job) : QueueStep db (closeMark how db j) := by
  refine QueueStep.trans ?_ (queueFailureReview_step _ j.id)
  have hnoted : QueueStep db (bif how.notes then db.queueTerminalFailure j.id j.userId
      else db) := by
    cases how.notes with
    | true => exact queueTerminalFailure_step db j.id j.userId
    | false => exact .refl db
  refine hnoted.trans ?_
  cases how.releases with
  | true => exact recoverReviewRunner_step _ j.id
  | false => exact .refl _

end Db

theorem QueueStep.of_block {sc : Scope} {db db' : Db} (h : Db.Block sc db db') :
    QueueStep db db' := by
  cases h with
  | insert _ hs hc => exact Db.insertJob_step hs hc
  | write h => exact Db.updateJobs_step fun j hj hp => (h j hj hp).stmt
  | giveBack hi _ h => exact (Db.updateRow_step hi h.stmt).trans (Db.recoverReviewRunner_step _ _)
  | @close how p f hf h =>
    have hwritten : QueueStep db (db.updateJobs p f hf) := Db.updateJobs_step fun j hj hp => by
      have hend := h j hj hp
      refine .finish j (f j) hend.same hend.active ?_
      obtain hs | hs := hend.ended <;> rw [hs] <;> rfl
    refine QueueStep.trans ?_ (.foldl (Db.closeMark_step how) _ _)
    cases how.settles with
    | true =>
      rw [cond_true]
      exact hwritten.trans (Db.settleAttempts_step _ _)
    | false => exact hwritten

theorem QueueStep.of_blocks {sc : Scope} {db db' : Db} (h : Db.Blocks sc db db') :
    QueueStep db db' := by
  induction h with
  | refl => exact .refl db
  | tail _ hblock ih => exact ih.trans (.of_block hblock)

theorem QueueStep.of_free {db db' : Db} (h : Db.Blocks .free db db') : QueueStep db db' :=
  of_blocks h

namespace Db

theorem completeJob_step {db : Db} {job : JobId} {i : Job} (hi : db.jobs.get? job = some i)
    (ha : i.status.active = true) :
    QueueStep db (db.completeJob job) := .of_free (.completeJob (fun _ _ => trivial) hi ha)

theorem enqueueJob_step (cfg : Config) (db : Db) (e : Enqueue) :
    QueueStep db (enqueueJob cfg db e).1 :=
  .of_free (.enqueueJob cfg db e trivial (fun _ _ _ => trivial) fun _ _ => trivial)

theorem finishWakeJob_step (db : Db) (job : JobId) (w : WorkerId) (observed : Nat) (late : Bool) :
    QueueStep db (finishWakeJob db job w observed late).1 :=
  .of_free (.finishWakeJob (fun _ _ => trivial) trivial w observed late)

theorem markRunning_step (cfg : Config) (db : Db) (job : JobId) (w : WorkerId) :
    QueueStep db (markRunning cfg db job w).1 := .of_free (.markRunning cfg db job w)

theorem renewJobLease_step (db : Db) (job : JobId) (w : WorkerId) (ttl : Time) :
    QueueStep db (db.renewJobLease job w ttl).1 := .of_free (.renewJobLease db job w ttl)

end Db

end Feedling
