import Feedling.ChatLane

/-!
# The chat lane under each transaction

What every transaction of the queue does to the chat lane of one user. The owner, the watchdog
and the reaper end a chat job only together with its visible failure; the preemption leaves the
lane alone; a claim under `v2` keeps its row; an admission leaves the user with an active job.
-/

namespace Feedling

open KeyedTable

namespace Db

variable {u : UserId} {g : Nat} {done : JobId → Prop}

theorem laneRow_updateRow {db : Db} {lane : Lane} {i : Job} {f : Job → Job}
    {hf : ∀ j, (f j).id = j.id} (hsame : ∀ j, SameJob j (f j)) (k : JobId) :
    (db.updateJobs (fun j => j.id == i.id) f hf).laneRow u lane k =
      if k = i.id then (db.laneRow u lane k).map f else db.laneRow u lane k := by
  rw [laneRow_updateJobs fun j _ _ => hsame j]
  cases hk : db.laneRow u lane k with
  | none => simp
  | some l =>
    have hid := id_of_laneRow hk
    by_cases h : k = i.id <;> simp [hid, h]

section EndRow

variable {db : Db} {i : Job} {f : Job → Job} (hf : ∀ j, (f j).id = j.id)
  (hi : db.jobs.get? i.id = some i) (hsame : ∀ j, SameJob j (f j))
include hi hsame

theorem endRow_step (ha : i.status.active = true) (hend : (f i).status.active = false)
    (hnot : (f i).status ≠ .completed) (hgen : i.inputGeneration ≤ (f i).inputGeneration) :
    ChatStep u g done db (db.updateJobs (fun j => j.id == i.id) f hf) := by
  refine .of_updateJobs (updateRow_step hi (.finish i (f i) (hsame i) ha hend))
    (fun j _ _ => hsame j) fun k l hl hp => ?_
  obtain ⟨hget, -⟩ := laneRow_eq_some.mp hl
  rw [beq_iff_eq] at hp
  rw [← Serial.key_of_get? hget, hp, hi] at hget
  cases hget
  exact .finish (hsame i) ha hend hgen fun h => absurd h hnot

theorem endRow_ended (hend : (f i).status.active = false) {j : Job}
    (hj : (db.updateJobs (fun j => j.id == i.id) f hf).laneRow u .chat i.id = some j) :
    j.status.active = false := by
  rw [laneRow_updateRow hsame, if_pos rfl] at hj
  obtain ⟨l, hl, rfl⟩ := Option.map_eq_some_iff.mp hj
  obtain ⟨hget, -⟩ := laneRow_eq_some.mp hl
  rw [hi] at hget
  cases hget
  exact hend

end EndRow

/-! ## The blocks off the chat lane -/

theorem laneRow_queueTerminalFailure (db : Db) (job : JobId) (v : UserId) (lane : Lane)
    (k : JobId) : (db.queueTerminalFailure job v).laneRow u lane k = db.laneRow u lane k :=
  laneRow_congr (queueTerminalFailure_jobs db job v)

section Marks

variable {how : Marks}

theorem closeMark_side (how : Marks) (db : Db) (j : Job) :
    SideStep (bif how.notes then db.queueTerminalFailure j.id j.userId
      else db) (closeMark how db j) := by
  refine SideStep.trans ?_ (queueFailureReview_side _ j.id)
  cases how.releases with
  | true => exact recoverReviewRunner_side _ j.id
  | false => exact .refl _

theorem laneRow_closeMark (how : Marks) (db : Db) (j : Job) (k : JobId) :
    (closeMark how db j).laneRow u .chat k = db.laneRow u .chat k := by
  rw [(closeMark_side how db j).rows u .chat k nofun]
  cases how.notes with
  | true => exact laneRow_queueTerminalFailure db j.id j.userId .chat k
  | false => rfl

theorem laneRow_foldl_closeMark (how : Marks) (db : Db) (js : List Job) (k : JobId) :
    (js.foldl (closeMark how) db).laneRow u .chat k = db.laneRow u .chat k := by
  induction js generalizing db with
  | nil => rfl
  | cons j js ih => rw [List.foldl_cons, ih, laneRow_closeMark]

theorem closeMark_chat {db : Db} {j : Job}
    (hended : ∀ l, db.laneRow u .chat j.id = some l → l.status.active = false) :
    ChatStep u g done db (closeMark how db j) := by
  have hnoted : ChatStep u g done db (bif how.notes then db.queueTerminalFailure j.id j.userId
      else db) := by
    cases how.notes with
    | true => exact .of_failure db j.id j.userId hended
    | false => exact .refl db
  refine hnoted.trans (.of_side (QueueStep.trans ?_ (queueFailureReview_step _ j.id))
      (closeMark_side how db j))
  cases how.releases with
  | true => exact recoverReviewRunner_step _ j.id
  | false => exact .refl _

theorem foldl_closeMark_chat {db : Db} {js : List Job}
    (hended : ∀ j ∈ js, ∀ l, db.laneRow u .chat j.id = some l → l.status.active = false) :
    ChatStep u g done db (js.foldl (closeMark how) db) := by
  induction js generalizing db with
  | nil => exact .refl db
  | cons j js ih =>
    refine (closeMark_chat (hended j (by simp))).trans (ih fun l hl m hm => ?_)
    rw [laneRow_closeMark] at hm
    exact hended l (by simp [hl]) m hm

theorem foldl_closeMark_recorded (hnotes : how.notes = true) {db : Db} {js : List Job} {j : Job}
    (hj : j ∈ js) (hended : ∀ j ∈ js, ∀ l, db.laneRow u .chat j.id = some l →
      l.status.active = false)
    (hu : j.userId = u) {l : Job} (hl : db.laneRow u .chat j.id = some l) :
    ∃ f ∈ (js.foldl (closeMark how) db).failures.rows, f.jobId = j.id := by
  induction js generalizing db with
  | nil => cases hj
  | cons i js ih =>
    have hrest : ∀ j ∈ js, ∀ l, (closeMark how db i).laneRow u .chat j.id = some l →
        l.status.active = false := by
      intro m hm r hr
      rw [laneRow_closeMark] at hr
      exact hended m (by simp [hm]) r hr
    rw [List.foldl_cons]
    obtain rfl | hj := List.mem_cons.mp hj
    · obtain ⟨f, hf, hid⟩ := queueTerminalFailure_recorded hl
      have hmark : f ∈ (closeMark how db j).failures.rows := by
        rw [(closeMark_side how db j).failures, hnotes, cond_true, hu]
        exact hf
      have hstep : ChatStep u 0 (fun _ => False) (closeMark how db j)
          (js.foldl (closeMark how) (closeMark how db j)) :=
        foldl_closeMark_chat hrest
      exact ⟨f, hstep.keeps f hmark, hid⟩
    · exact ih hj hrest (by rw [laneRow_closeMark]; exact hl)

end Marks

section OffChat

variable {db db' : Db}

theorem active_of_edit {pristine : JobId → Bool} {i j : Job} (h : RowEdit .offChat pristine i j)
    (hchat : i.lane = .chat) : j.status.active = true := by
  by_contra hended
  exact h.ends (Bool.not_eq_true _ ▸ hended) hchat

theorem chatMove_of_edit {sc : Scope} {pristine : JobId → Bool} {i j : Job}
    (h : RowEdit sc pristine i j) (hchat : i.lane = .chat) (ha : j.status.active = true)
    {p : Prop} : ChatMove g p i j := by
  have hpins : i.pins g = true → j.pins g = true := by
    rw [Job.pins, Job.pins, h.pins]
    exact id
  have hinputs := h.inputs
  cases h.stmt with
  | coalesce _ hi => exact .advance ⟨rfl, rfl, rfl, rfl, rfl⟩ hi ha (Nat.le_refl _) hinputs hpins
  | start _ _ _ hclaimed =>
    refine .advance ⟨rfl, rfl, rfl, rfl, rfl⟩ (by rw [hclaimed]; rfl) ha ?_ hinputs hpins
    rw [hclaimed]
    exact Nat.le_succ 1
  | renew _ _ hheld =>
    exact .advance ⟨rfl, rfl, rfl, rfl,
      rfl⟩ (JobStatus.active_of_held hheld) ha (Nat.le_refl _) hinputs hpins
  | finish _ _ _ _ hended =>
    rw [ha] at hended
    cases hended
  | requeue _ _ _ _ _ _ hne => exact absurd hchat hne

theorem write_offChat {sc : Scope} {p : Job → Bool} {f : Job → Job} {hf : ∀ j, (f j).id = j.id}
    (h : ∀ j, db.jobs.get? j.id = some j → p j = true → RowEdit sc db.turnIsPristine j (f j))
    (ha : ∀ j, db.jobs.get? j.id = some j → p j = true → j.lane = .chat →
      (f j).status.active = true) :
    ChatStep u g done db (db.updateJobs p f hf) ∧ Noted u db (db.updateJobs p f hf) := by
  have hsame := fun j hj hp => (h j hj hp).sameJob
  have hread : ∀ {k i}, db.laneRow u .chat k = some i → db.jobs.get? i.id = some i ∧
      i.lane = .chat := by
    intro k i hi
    obtain ⟨hget, hlane⟩ := laneRow_eq_some.mp hi
    exact ⟨by rw [Serial.key_of_get? hget]; exact hget, (Job.inLane_iff.mp hlane).2⟩
  refine ⟨.of_updateJobs (updateJobs_step fun j hj hp => (h j hj hp).stmt) hsame fun k i hi hp =>
    ?_, .of_active fun k i hi hactive => ⟨_,
      by rw [laneRow_updateJobs hsame, hi, Option.map_some], ?_⟩⟩
  · obtain ⟨hget, hchat⟩ := hread hi
    exact chatMove_of_edit (h i hget hp) hchat (ha i hget hp hchat)
  · split
    · next hp => exact ha i (hread hi).1 hp (hread hi).2
    · exact hactive

theorem noted_trans_side {mid : Db} (h : Noted u db mid) (hs : SideStep mid db') :
    Noted u db db' := by
  intro k i j hi ha hj hended
  rw [hs.failures]
  exact h k i j hi ha (by rw [← hs.rows u .chat k nofun]; exact hj) hended

theorem close_offChat {sc : Scope} {how : Marks} {p : Job → Bool} {f : Job → Job}
    {hf : ∀ j, (f j).id = j.id} (h : ∀ j, db.jobs.get? j.id = some j → p j = true →
      RowEnd sc db how j (f j)) :
    ChatStep u g done db (db.close how p f hf) ∧ Noted u db (db.close how p f hf) := by
  have hread : ∀ {k i}, db.laneRow u .chat k = some i → db.jobs.get? i.id = some i := by
    intro k i hi
    rw [id_of_laneRow hi]
    exact (laneRow_eq_some.mp hi).1
  have hsame := fun j hj hp => (h j hj hp).same
  have hinactive : ∀ j, db.jobs.get? j.id = some j → p j = true → (f j).status.active = false := by
    intro j hj hp
    obtain hs | hs := (h j hj hp).ended <;> rw [hs] <;> rfl
  have hwritten : ChatStep u g done db (db.updateJobs p f hf) := by
    refine .of_updateJobs (updateJobs_step fun j hj hp => ?_) hsame fun k i hi hp => ?_
    · exact .finish j (f j) (hsame j hj hp) (h j hj hp).active (hinactive j hj hp)
    · have hend := h i (hread hi) hp
      refine .finish hend.same hend.active (hinactive i (hread hi) hp)
        (Nat.le_of_eq hend.inputs.symm) fun hc => ?_
      obtain hs | hs := hend.ended <;> rw [hs] at hc <;> cases hc
  have hrows : ∀ k, (db.updateJobs p f hf).laneRow u .chat k =
      (db.laneRow u .chat k).map fun j => if p j then f j else j :=
    fun k => laneRow_updateJobs hsame
  unfold close
  dsimp only
  generalize hended : db.jobs.rows.filter p = ended
  generalize hmid : (bif how.settles then (db.updateJobs p f hf).settleAttempts fun k =>
      ended.any fun j => j.id == k
    else db.updateJobs p f hf) = mid
  have hstep : ChatStep u g done db mid ∧ ∀ k, mid.laneRow u .chat k =
      (db.laneRow u .chat k).map fun j => if p j then f j else j := by
    rw [← hmid]
    cases how.settles with
    | true =>
      rw [cond_true]
      exact ⟨hwritten.trans (.of_side (settleAttempts_step _ _) (settleAttempts_side _ _)), hrows⟩
    | false => exact ⟨hwritten, hrows⟩
  -- every row that was read has ended by the time it is marked
  have hall : ∀ j ∈ ended, ∀ l, mid.laneRow u .chat j.id = some l → l.status.active = false := by
    intro j hj l hl
    rw [← hended] at hj
    obtain ⟨hmem, hp⟩ := List.mem_filter.mp hj
    rw [hstep.2] at hl
    obtain ⟨i, hi, rfl⟩ := Option.map_eq_some_iff.mp hl
    have hget := (laneRow_eq_some.mp hi).1
    rw [Serial.mem_rows.mp hmem] at hget
    cases hget
    rw [if_pos hp]
    exact hinactive j (hread hi) hp
  refine ⟨hstep.1.trans (foldl_closeMark_chat hall), fun k i j hi ha hj hend => ?_⟩
  rw [laneRow_foldl_closeMark, hstep.2, hi, Option.map_some] at hj
  split at hj
  · next hp =>
    obtain ⟨hget, hlane⟩ := laneRow_eq_some.mp hi
    obtain ⟨huser, hchat⟩ := Job.inLane_iff.mp hlane
    have hid := Serial.key_of_get? hget
    have hmem : i ∈ ended := by
      rw [← hended]
      exact List.mem_filter.mpr ⟨(Serial.get?_eq_some.mp hget).1, hp⟩
    have hl : mid.laneRow u .chat i.id = some (f i) := by
      rw [hid, hstep.2, hi, Option.map_some, if_pos hp]
    have hnotes := (h i (hread hi) hp).noted (by rw [hchat]; rfl)
    obtain ⟨x, hx, hxid⟩ := foldl_closeMark_recorded hnotes hmem hall huser hl
    exact ⟨x, hx, hxid.trans hid⟩
  · cases hj
    rw [ha] at hend
    cases hend

theorem Block.offChat (h : Block .offChat db db') : ChatStep u g done db db' ∧ Noted u db db' := by
  cases h with
  | insert hadmits => exact hadmits.elim
  | write h => exact write_offChat h fun j hj hp => active_of_edit (h j hj hp)
  | @giveBack i f hf hi hpending h =>
    have hrow : ∀ j, db.jobs.get? j.id = some j → (j.id == i.id) = true → j = i :=
      fun j hj => (id_beq_iff hi j hj).mp
    have hwritten : ChatStep u g done db (db.updateJobs (fun j => j.id == i.id) f hf) ∧
        Noted u db (db.updateJobs (fun j => j.id == i.id) f hf) :=
      write_offChat (fun j hj hp => by rw [hrow j hj hp]; exact h) fun j hj hp _ => by
        rw [hrow j hj hp, hpending]; rfl
    exact ⟨hwritten.1.trans (.of_side (recoverReviewRunner_step _ _)
        (recoverReviewRunner_side _ _)),
      noted_trans_side hwritten.2 (recoverReviewRunner_side _ _)⟩
  | close h => exact close_offChat h

theorem Blocks.offChat (h : Blocks .offChat db db') :
    ChatStep u g done db db' ∧ Noted u db db' := by
  induction h with
  | refl => exact ⟨.refl db, .of_active fun k i hi ha => ⟨i, hi, ha⟩⟩
  | @tail mid db' _ hblock ih =>
    have hlast : ChatStep u g done mid db' ∧ Noted u mid db' := hblock.offChat
    refine ⟨ih.1.trans hlast.1, fun k i j hi ha hj hended => ?_⟩
    obtain ⟨m, hm, -⟩ := ih.1.moves.moves k i hi
    cases hmid : m.status.active with
    | true => exact hlast.2 k m j hm hmid hj hended
    | false =>
      obtain ⟨x, hx, hid⟩ := ih.2 k i m hi ha hm hmid
      exact ⟨x, hlast.1.keeps x hx, hid⟩

end OffChat

/-! ## Claim and completion -/

/-- The row that a claim writes. -/
def claimedRow (cfg : Config) (now : Time) (worker : WorkerId) (g : Nat) (i : Job) : Job :=
  { i with status := .claimed, claimedBy := some worker, claimedAt := some now
           expectedRuntimeGeneration := some (i.expectedRuntimeGeneration.getD g)
           leaseExpiresAt := some (now + cfg.runningTtl),
           deadlineAt := some (now + cfg.runningTtl) }

section

variable (cfg : Config) (worker : WorkerId)
include cfg worker

theorem claimSql_pinned {db : Db} {job : JobId} {j : Job} (hj : db.jobs.get? job = some j)
    (hpins : j.status.active = true → j.pins g = true) : claimSql cfg db worker job g = db ∨
      j.status = .pending ∧ claimSql cfg db worker job g =
        db.updateJobs (fun i => i.id == job) (claimedRow cfg db.clock worker g) fun _ => rfl := by
  simp only [claimSql, hj]
  split
  · next hclaim =>
    have hpending : j.status = .pending := by
      simp only [claimable, Bool.and_eq_true, beq_iff_eq] at hclaim
      exact hclaim.1.1.1
    have hpin : j.expectedRuntimeGeneration.all (· == g) = true := hpins (by rw [hpending]; rfl)
    rw [if_pos hpin]
    exact .inr ⟨hpending, rfl⟩
  · exact .inl rfl

/-- Under `v2` the claim of a chat row that pins the current generation leaves the row active, and
the lane of the user has no other change. -/
theorem claimHead_lane {db : Db} (job : JobId) (hruntime : db.runtime u = some ⟨.v2, g⟩)
    (hpins : ∀ k i, db.laneRow u .chat k = some i → i.status.active = true → i.pins g = true) :
    ∀ k, (claimHead cfg db worker job).laneRow u .chat k = db.laneRow u .chat k ∨
      ∃ i j, db.laneRow u .chat k = some i ∧
        (claimHead cfg db worker job).laneRow u .chat k = some j ∧
        j.status.active = true ∧ ChatMove g (done k) i j := by
  intro k
  cases hj : db.jobs.get? job with
  | none => exact .inl (by simp only [claimHead, hj])
  | some j =>
    -- every branch writes the row `job` or nothing
    have hoff : db.laneRow u .chat k ≠ some j →
        (claimHead cfg db worker job).laneRow u .chat k = db.laneRow u .chat k := by
      intro hne
      have hid : ∀ i, db.laneRow u .chat k = some i → (i.id == job) = false := by
        intro i hi
        rw [beq_eq_false_iff_ne]
        intro heq
        have hget := (laneRow_eq_some.mp hi).1
        rw [← id_of_laneRow hi, heq, hj] at hget
        cases hget
        exact hne hi
      simp only [claimHead, hj]
      split
      · split
        · simp only [claimSql, hj]
          split
          · split <;> exact laneRow_updateJobs_off (fun _ => ⟨rfl, rfl, rfl, rfl, rfl⟩) hid
          · rfl
        · exact laneRow_updateJobs_off (fun _ => ⟨rfl, rfl, rfl, rfl, rfl⟩) hid
      · rfl
    by_cases hk : db.laneRow u .chat k = some j
    · have hin := Job.inLane_iff.mp (laneRow_eq_some.mp hk).2
      have hid : j.id = job := Serial.key_of_get? hj
      have hclaimHead : claimHead cfg db worker job = claimSql cfg db worker job g := by
        simp [claimHead, hj, hin.1, hruntime]
      rw [hclaimHead]
      obtain heq | ⟨hpending, heq⟩ := claimSql_pinned cfg worker hj fun ha => hpins k j hk ha
      · exact .inl (by rw [heq])
      · rw [heq]
        refine .inr ⟨j, claimedRow cfg db.clock worker g j, hk, ?_, rfl, ?_⟩
        · have hsame : ∀ i, SameJob i (claimedRow cfg db.clock worker g i) :=
            fun _ => ⟨rfl, rfl, rfl, rfl, rfl⟩
          refine (laneRow_updateJobs fun i _ _ => hsame i).trans ?_
          rw [hk, Option.map_some, if_pos (beq_iff_eq.mpr hid)]
        · refine .advance ⟨rfl, rfl, rfl, rfl,
            rfl⟩ (by rw [hpending]; rfl) rfl ?_ (Nat.le_refl _) fun h => ?_
          · rw [hpending]
            exact Nat.zero_le _
          · simp only [Job.pins, claimedRow] at h ⊢
            cases hgen : j.expectedRuntimeGeneration with
            | none => simp
            | some x => rw [hgen] at h; simpa using h
    · exact .inl (hoff hk)

theorem claimHead_chat {db : Db} (job : JobId) (hruntime : db.runtime u = some ⟨.v2, g⟩)
    (hpins : ∀ k i, db.laneRow u .chat k = some i → i.status.active = true → i.pins g = true) :
    ChatMoves u g done db (claimHead cfg db worker job) ∧
      Noted u db (claimHead cfg db worker job) := by
  have hlane : ∀ k, _ ∨ ∃ i j, _ ∧ _ ∧ _ ∧ ChatMove g (done k) i j :=
    claimHead_lane cfg worker job hruntime hpins
  refine ⟨⟨fun k hk => ?_, fun k i hi => ?_⟩, .of_active fun k i hi ha => ?_⟩
  · obtain heq | ⟨i, j, hi, -⟩ := hlane k
    · rw [heq]; exact hk
    · rw [hk] at hi; cases hi
  · obtain heq | ⟨i', j, hi', hj, -, hmove⟩ := hlane k
    · exact ⟨i, by rw [heq]; exact hi, .refl i⟩
    · rw [hi] at hi'
      cases hi'
      exact ⟨j, hj, hmove⟩
  · obtain heq | ⟨i', j, hi', hj, hactive, -⟩ := hlane k
    · exact ⟨i, by rw [heq]; exact hi, ha⟩
    · exact ⟨j, hj, hactive⟩

end

theorem completeJob_chat {db : Db} {i : Job} (hi : db.jobs.get? i.id = some i)
    (ha : i.status.active = true) : ChatStep u g (fun k => k = i.id) db (db.completeJob i.id) := by
  refine .of_updateJobs (completeJob_step hi ha) (fun _ _ _ => ⟨rfl, rfl, rfl, rfl,
      rfl⟩) fun k l hl hp => ?_
  rw [beq_iff_eq] at hp
  have hget := (laneRow_eq_some.mp hl).1
  rw [← id_of_laneRow hl, hp, hi] at hget
  cases hget
  exact .finish ⟨rfl, rfl, rfl, rfl, rfl⟩ ha rfl (Nat.le_refl _) fun _ => (id_of_laneRow hl).symm

end Db

/-! ## Admission -/

/-- An active chat job of the user is the newest one, so there is at most one. -/
def OneActive (u : UserId) (db : Db) : Prop :=
  ∀ k k' i i', db.laneRow u .chat k = some i → db.laneRow u .chat k' = some i' →
    i.status.active = true → k' ≤ k

theorem OneActive.eq {u : UserId} {db : Db} (h : OneActive u db) {k k' : JobId} {i i' : Job}
    (hi : db.laneRow u .chat k = some i) (hi' : db.laneRow u .chat k' = some i')
    (ha : i.status.active = true) (ha' : i'.status.active = true) : k = k' :=
  Nat.le_antisymm (h k' k i' i hi' hi ha') (h k k' i i' hi hi' ha)

theorem OneActive.moves {u : UserId} {g : Nat} {done : JobId → Prop} {db db' : Db}
    (h : OneActive u db) (hm : ChatMoves u g done db db') : OneActive u db' := by
  intro k k' j j' hj hj' ha
  obtain ⟨i, hi, hmove⟩ := hm.before hj
  obtain ⟨i', hi', -⟩ := hm.before hj'
  exact h k k' i i' hi hi' (hmove.active_before ha)

/-- A transaction that leaves the user with an active chat job: a new one, or the one in flight
with one more input. -/
structure ChatEnqueued (u : UserId) (g : Nat) (done : JobId → Prop) (db db' : Db) : Prop where
  queue : QueueStep db db'
  moves : ∀ k i, db.laneRow u .chat k = some i → ∃ j, db'.laneRow u .chat k = some j ∧
    ChatMove g (done k) i j ∧
    (i.status = .running → j.status = .running → i.inputGeneration < j.inputGeneration)
  fresh : ∀ k j, db'.laneRow u .chat k = some j → db.laneRow u .chat k = none →
    j.status = .pending ∧ j.pins g = true
  one : OneActive u db'
  active : ∃ k j, db'.laneRow u .chat k = some j ∧ j.status.active = true
  keeps : ∀ f ∈ db.failures.rows, f ∈ db'.failures.rows
  notes : ∀ f ∈ db'.failures.rows, f ∈ db.failures.rows ∨
    (∃ j, db'.jobs.get? f.jobId = some j) ∧
      ∀ j, db'.laneRow u .chat f.jobId = some j → j.status.active = false ∧
        f = db.chatFailure u f.jobId

namespace Db

variable {u : UserId} {g : Nat} {done : JobId → Prop}

theorem insertChat_enqueued {db mid : Db} (hstep : ChatStep u g done db mid)
    (hnone : ∀ k i, mid.laneRow u .chat k = some i → i.status.active = false)
    {mk : JobId → Job} {hk : ∀ n, (mk n).id = n} (hlane : (mk mid.jobs.next).inLane u .chat = true)
    (hstatus : (mk mid.jobs.next).status = .pending) (hclaim : (mk mid.jobs.next).claimedBy = none)
    (hpins : (mk mid.jobs.next).pins g = true) :
    ChatEnqueued u g done db (mid.insertJob mk hk) := by
  have hinsert : QueueStep mid (mid.insertJob mk hk) := insertJob_step hstatus hclaim
  have hrow : ∀ k, (mid.insertJob mk hk).laneRow u .chat k =
      if k = mid.jobs.next then some (mk mid.jobs.next) else mid.laneRow u .chat k := by
    intro k
    rw [laneRow_insertJob]
    split
    · next h => rw [h, Option.filter_some, hlane]; rfl
    · rfl
  have hold : ∀ k i, mid.laneRow u .chat k = some i → k ≠ mid.jobs.next := by
    rintro k i hi rfl
    rw [laneRow_of_next_le (Nat.le_refl _)] at hi
    cases hi
  have hactive : ∀ k j, (mid.insertJob mk hk).laneRow u .chat k = some j → j.status.active = true →
      k = mid.jobs.next := by
    intro k j hj ha
    rw [hrow] at hj
    split at hj
    · next h => exact h
    · rw [hnone k j hj] at ha; cases ha
  refine ⟨hstep.queue.trans hinsert, fun k i hi => ?_, fun k j hj hn => ?_,
    fun k k' i i' hi hi' ha => ?_, ⟨mid.jobs.next, mk mid.jobs.next, ?_, ?_⟩, hstep.keeps,
      fun f hf => ?_⟩
  · obtain ⟨j, hj, hmove⟩ := hstep.moves.moves k i hi
    refine ⟨j, by rw [hrow, if_neg (hold k j hj)]; exact hj, hmove, fun _ hrun => ?_⟩
    have := hnone k j hj
    rw [hrun] at this
    cases this
  · rw [hrow] at hj
    split at hj
    · cases hj; exact ⟨hstatus, hpins⟩
    · rw [hstep.moves.absent k hn] at hj; cases hj
  · rw [hactive k i hi ha]
    rw [hrow] at hi'
    split at hi'
    · next h => exact Nat.le_of_eq h
    · exact Nat.le_of_lt (Serial.lt_next (laneRow_eq_some.mp hi').1)
  · rw [hrow, if_pos rfl]
  · rw [hstatus]; rfl
  · obtain h | ⟨⟨j, hj⟩, hnote⟩ := hstep.notes f hf
    · exact .inl h
    · refine .inr ⟨?_, fun l hl => ?_⟩
      · obtain ⟨j', hj', -⟩ := hinsert.rows.sameJob hj
        exact ⟨j', hj'⟩
      · have hne : f.jobId ≠ mid.jobs.next := Nat.ne_of_lt (Serial.lt_next hj)
        rw [hrow, if_neg hne] at hl
        exact hnote l hl

theorem laneRow_of_activeRow {db : Db} {i : Job} (h : db.activeRow u .chat = some i) :
    db.laneRow u .chat i.id = some i ∧ i.status.active = true := by
  obtain ⟨hget, hu, hlane, ha⟩ := activeRow_spec h
  exact ⟨laneRow_eq_some.mpr ⟨hget, Job.inLane_iff.mpr ⟨hu, hlane⟩⟩, ha⟩

theorem not_active_of_activeRow {db : Db} (h : db.activeRow u .chat = none) {k : JobId} {i : Job}
    (hi : db.laneRow u .chat k = some i) : i.status.active = false := by
  obtain ⟨hget, hlane⟩ := laneRow_eq_some.mp hi
  obtain ⟨hu, hchat⟩ := Job.inLane_iff.mp hlane
  have := List.find?_eq_none.mp h i (Serial.get?_eq_some.mp hget).1
  simpa [hu, hchat] using this

theorem coalesceInto_enqueued {db : Db} (hone : OneActive u db) {i : Job}
    (hi : db.laneRow u .chat i.id = some i) (ha : i.status.active = true) :
    ChatEnqueued u g done db (db.coalesceInto i.id) := by
  have hget := (laneRow_eq_some.mp hi).1
  have hsame : ∀ j : Job, SameJob j { j with inputGeneration := j.inputGeneration + 1 } :=
    fun _ => ⟨rfl, rfl, rfl, rfl, rfl⟩
  have hbump : ∀ j : Job, j.status.active = true →
      ∀ d, ChatMove g d j { j with inputGeneration := j.inputGeneration + 1 } :=
    fun j hj _ => .advance (hsame j) hj hj (Nat.le_refl _) (Nat.le_succ _) id
  have hrow : ∀ k, (db.coalesceInto i.id).laneRow u .chat k = if k = i.id
      then some { i with inputGeneration := i.inputGeneration + 1 } else db.laneRow u .chat k := by
    intro k
    refine (laneRow_updateRow hsame k).trans ?_
    split
    · next h => rw [h, hi, Option.map_some]
    · rfl
  have hmoves : ChatMoves u g done db (db.coalesceInto i.id) := by
    refine ⟨fun k hk => ?_, fun k l hl => ?_⟩
    · rw [hrow, if_neg (by rintro rfl; rw [hi] at hk; cases hk)]
      exact hk
    · by_cases h : k = i.id
      · subst h
        rw [hi] at hl
        cases hl
        exact ⟨_, by rw [hrow, if_pos rfl], hbump i ha _⟩
      · exact ⟨l, by rw [hrow, if_neg h]; exact hl, .refl l⟩
  refine ⟨updateRow_step hget (.coalesce i ha), fun k l hl => ?_, fun k j hj hn => ?_,
    hone.moves hmoves, ⟨i.id, _, (hrow i.id).trans (if_pos rfl), ha⟩, fun _ h => h,
      fun _ h => .inl h⟩
  · by_cases h : k = i.id
    · subst h
      rw [hi] at hl
      cases hl
      exact ⟨_, by rw [hrow, if_pos rfl], hbump i ha _, fun _ _ => Nat.lt_succ_self _⟩
    · -- a running row would be the one in flight
      refine ⟨l, by rw [hrow, if_neg h]; exact hl, .refl l, fun hrun => absurd ?_ h⟩
      exact hone.eq hl hi (by rw [hrun]; rfl) ha
  · rw [hmoves.absent k hn] at hj
    cases hj

/-- `coalesce_or_insert_on_cursor` on the chat lane. -/
theorem coalesceOrInsert_chat (cfg : Config) {db : Db} (hone : OneActive u db) {e : Enqueue}
    (hu : e.userId = u) (hlane : e.lane = .chat) (hgen : e.expectedGeneration.all (· == g) = true)
    (trace : Option String) (priority : Nat) :
    ChatEnqueued u g done db (coalesceOrInsert cfg db e trace priority).1 := by
  have hfresh : ∀ (now : Time) (deadline : Option Time) (n : JobId),
      (Job.fresh now e.userId e.lane e.reason trace priority deadline e.expectedGeneration n).inLane
        u .chat = true := by
    intro now deadline n
    exact Job.inLane_iff.mpr ⟨hu, hlane⟩
  unfold coalesceOrInsert
  rw [hu, hlane]
  split
  · next hnone =>
    exact insertChat_enqueued (.refl db) (fun k i hi => not_active_of_activeRow hnone hi)
      (hfresh _ _ _) rfl rfl hgen
  · next existing hrow =>
    obtain ⟨hexisting, ha⟩ := laneRow_of_activeRow hrow
    have hget := (laneRow_eq_some.mp hexisting).1
    -- once the row in flight has ended, no chat job is active
    have hended : ∀ {mid : Db}, ChatStep u g done db mid →
        (∀ j, mid.laneRow u .chat existing.id = some j → j.status.active = false) →
        ∀ k i, mid.laneRow u .chat k = some i → i.status.active = false := by
      intro mid hstep hend k i hi
      obtain ⟨i₀, hi₀, hmove⟩ := hstep.moves.before hi
      by_contra hactive
      rw [Bool.not_eq_false] at hactive
      obtain rfl := hone.eq hi₀ hexisting (hmove.active_before hactive) ha
      rw [hend i hi] at hactive
      cases hactive
    split
    · have hsame : ∀ j : Job, SameJob j { j with
          status := .superseded, finishedAt := some db.clock,
          lastError := some "stale_runtime_generation" } :=
        fun _ => ⟨rfl, rfl, rfl, rfl, rfl⟩
      have hstep : ChatStep u g done db _ :=
        endRow_step (fun j => (hsame j).id) hget hsame ha rfl (by simp) (Nat.le_refl _)
      refine insertChat_enqueued hstep (hended hstep fun j hj => ?_) (hfresh _ _ _) rfl rfl hgen
      exact endRow_ended _ hget hsame rfl hj
    · split
      · have hsame : ∀ j : Job, SameJob j { j with
            status := .expired, finishedAt := some db.clock, attemptCount := j.attemptCount + 1
            lastError :=
              some (if j.status == .pending then "queue_timeout" else "lease_timeout") } :=
          fun _ => ⟨rfl, rfl, rfl, rfl, rfl⟩
        have hexpired : ChatStep u g done db _ :=
          endRow_step (fun j => (hsame j).id) hget hsame ha rfl (by simp) (Nat.le_refl _)
        have hmarked : ChatStep u g done db _ :=
          hexpired.trans ((ChatStep.of_failure _ existing.id u fun j hj =>
              endRow_ended _ hget hsame rfl hj).trans
            (.of_side (queueFailureReview_step _ existing.id)
                (queueFailureReview_side _ existing.id)))
        refine insertChat_enqueued hmarked (hended hmarked fun j hj => ?_)
          (hfresh _ _ _) rfl rfl hgen
        rw [(queueFailureReview_side _ existing.id).rows u .chat existing.id (by decide),
          laneRow_queueTerminalFailure] at hj
        exact endRow_ended _ hget hsame rfl hj
      · exact coalesceInto_enqueued hone hexisting ha

end Db

end Feedling
