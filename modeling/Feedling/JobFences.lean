import Feedling.JobOwnership

/-!
# Claims are taken back, and old generations are fenced

A row that a worker owns carries the worker's name and a lease, so the pass of the reaper for its
lane takes it back once the lease has run out. A row keeps the generation it pins as long as it can
run, and the generation of a user only grows: a worker that `advance_runtime_state` left behind
never moves its job on again.
-/

namespace Feedling

open KeyedTable Runs

/-- A worker owns the row only under its name and with a lease. -/
def Job.Leased (j : Job) : Prop :=
  j.status.held = true → j.claimedBy.isSome = true ∧ j.leaseExpiresAt.isSome = true

theorem RowStmt.leased {pristine : JobId → Bool} {o o' : Option Job} (h : RowStmt pristine o o')
    (ho : ∀ i, o = some i → i.Leased) : ∀ j, o' = some j → j.Leased := by
  cases h with
  | insert j hs | requeue _ j _ _ hs => rintro _ ⟨⟩ hheld; simp [hs, JobStatus.held] at hheld
  | coalesce j => rintro _ ⟨⟩; exact ho j rfl
  | start j _ _ hs => rintro _ ⟨⟩ _; exact ⟨(ho j rfl (by rw [hs]; rfl)).1, rfl⟩
  | renew j _ hheld => rintro _ ⟨⟩ _; exact ⟨(ho j rfl hheld).1, rfl⟩
  | finish _ j _ _ hend =>
    rintro _ ⟨⟩ hheld; rw [JobStatus.active_of_held hheld] at hend; cases hend

namespace Db

def Leased (db : Db) : Prop := ∀ k j, db.jobs.get? k = some j → j.Leased

variable {cfg : Config} {db db' : Db} {p : Job → Bool} {f : Job → Job} {hf : ∀ j, (f j).id = j.id}

theorem Leased.rowsStep (hdb : db.Leased) (h : RowsStep db db') : db'.Leased := by
  intro k
  have hrow := h.rows k
  generalize db'.jobs.get? k = o at hrow ⊢
  induction hrow with
  | refl => exact hdb k
  | tail _ hstmt ih => exact hstmt.leased ih

theorem get?_updateJobs {k : JobId} {i : Job} (hi : db.jobs.get? k = some i) :
    (db.updateJobs p f hf).jobs.get? k = some (if p i then f i else i) := by
  rw [Db.updateJobs, Serial.get?_modify, hi, Option.map_some]

theorem Leased.updateJobs (hdb : db.Leased) (h : ∀ j, (f j).Leased) :
    (db.updateJobs p f hf).Leased := by
  intro k j hj
  rw [Db.updateJobs, Serial.get?_modify] at hj
  obtain ⟨i, hi, rfl⟩ := Option.map_eq_some_iff.mp hj
  split
  · exact h i
  · exact hdb k i hi

theorem Leased.claimStep (hdb : db.Leased) (pick : Pick) : (Db.claimStep cfg db pick).Leased := by
  unfold Db.claimStep claimHead claimSql
  repeat' split
  all_goals first
    | exact hdb
    | exact hdb.updateJobs fun _ _ => ⟨rfl, rfl⟩
    | exact hdb.updateJobs (by rintro _ ⟨⟩)

theorem foldl_closeMark_keeps (how : Marks) (js : List Job) (db : Db) :
    KeepsRows db (js.foldl (closeMark how) db) := by
  induction js generalizing db with
  | nil => exact fun _ _ hi => hi
  | cons j js ih => exact (closeMark_keeps how db j).trans (ih _)

variable {ts : Time} {k : JobId} {j : Job}

section

variable (hj : db.jobs.get? k = some j) (hheld : j.status.held = true)
  (hover : passed ts j.leaseLimit = true)
include hj hheld hover

theorem reapStuckJobRows_takes_back (hlane : j.lane ≠ .capture) : ∃ j',
    (reapStuckJobRows cfg db (some ts)).jobs.get? k = some j' ∧
      (j'.status = .pending ∨ j'.status = .expired) := by
  obtain ⟨i, hi, hrequeued⟩ : ∃ i, (reapRequeue cfg db ts).jobs.get? k = some i ∧
    (i.status = .pending ∨ i = j) :=
    ⟨_, get?_updateJobs hj, by split <;> simp⟩
  obtain ⟨j', hj', hended⟩ : ∃ j',
    (reapExpire cfg (reapRequeue cfg db ts) ts).jobs.get? k = some j' ∧
      (j'.status = .expired ∨ reapEnds cfg ts i = false ∧ j' = i) :=
    ⟨_, get?_updateJobs hi, by split <;> simp_all⟩
  refine ⟨j', foldl_closeMark_keeps ⟨true, true, true⟩ _ _ _ _ hj', ?_⟩
  obtain hexpired | ⟨hopen, rfl⟩ := hended
  · exact .inr hexpired
  · obtain hpending | rfl := hrequeued
    · exact .inl hpending
    · simp [reapEnds, hheld, hlane, hover] at hopen

theorem recoverCaptureClaim_takes_back (hlane : j.lane = .capture) (reason : String) : ∃ j',
    (recoverCaptureClaim cfg db k j.userId j.claimedBy j.attemptCount .lease reason
      (some ts)).jobs.get? k = some j' ∧ j'.status = .expired := by
  have hid : j.id = k := Serial.key_of_get? hj
  have hmem : ∃ i ∈ db.jobs.rows, (i.id == k && i.status.held) = true :=
    ⟨j, (Serial.get?_eq_some.mp hj).1, by simp [hid, hheld]⟩
  rw [recoverCaptureClaim, hj]
  simp only [hlane, hheld, hover, beq_self_eq_true, Bool.and_self, Bool.or_true, Option.getD_some,
    if_true, expireOverdueCapture, if_pos (List.any_eq_true.mpr hmem)]
  refine ⟨{ j with status := .expired, finishedAt := some db.clock,
                   attemptCount := j.attemptCount + 1,
                   lastError := some (db.terminalError k "lease_timeout") },
                     reviewAfterExpiry_keeps _ _ _ _ ?_, rfl⟩
  simp [settleAttempts, Db.updateJobs, Serial.get?_modify, hj, hid, hheld]

end

/-! ## Generations -/

/-- The row of a user pins a generation as long as it can run. -/
def Pins (k : JobId) (u : UserId) (g : Nat) (db : Db) : Prop :=
  ∃ j, db.jobs.get? k = some j ∧ j.userId = u ∧
    (j.status.active = true → j.expectedRuntimeGeneration = some g)

/-- A write that leaves the row to its user, and its pin in place unless the row ends. -/
structure PinKept (i j : Job) : Prop where
  userId : j.userId = i.userId
  pins : j.status.active = true → i.status.active = true ∧
    ∀ g, i.expectedRuntimeGeneration = some g → j.expectedRuntimeGeneration = some g

theorem RowEdit.pinKept {sc : Scope} {pristine : JobId → Bool} {i j : Job}
    (h : RowEdit sc pristine i j) : PinKept i j :=
  ⟨h.sameJob.userId, fun _ => ⟨h.active, fun g hg => by rw [h.pins, hg]⟩⟩

namespace Pins

variable {u : UserId} {g : Nat} (h : Pins k u g db)
include h

theorem of_keeps (hkeeps : KeepsRows db db') : Pins k u g db' := by
  obtain ⟨i, hi, hpin⟩ := h
  exact ⟨i, hkeeps k i hi, hpin⟩

theorem updateJobs (hp : ∀ j, db.jobs.get? j.id = some j → p j = true → PinKept j (f j)) :
    Pins k u g (db.updateJobs p f hf) := by
  obtain ⟨i, hi, hu, hpin⟩ := h
  refine ⟨_, get?_updateJobs hi, ?_⟩
  split
  · next hpi =>
    have hkept := hp i (by rw [Serial.key_of_get? hi]; exact hi) hpi
    exact ⟨hkept.userId.trans hu, fun ha => (hkept.pins ha).2 g (hpin (hkept.pins ha).1)⟩
  · exact ⟨hu, hpin⟩

theorem of_block {sc : Scope} (hblock : Block sc db db') : Pins k u g db' := by
  cases hblock with
  | insert => exact h.of_keeps insertJob_keeps
  | write hedit => exact h.updateJobs fun j hj hp => RowEdit.pinKept (hedit j hj hp)
  | giveBack hi _ hedit =>
    refine (h.updateJobs fun j hj hp => ?_).of_keeps (recoverReviewRunner_keeps _ _)
    rw [(id_beq_iff hi j hj).mp hp]
    exact RowEdit.pinKept hedit
  | @close how p f hf hend =>
    have hended : Pins k u g (db.updateJobs p f hf) := h.updateJobs fun j hj hp =>
      ⟨(hend j hj hp).same.userId,
        fun ha => by obtain hs | hs := (hend j hj hp).ended <;> rw [hs] at ha <;> cases ha⟩
    refine of_keeps ?_ (foldl_closeMark_keeps how _ _)
    cases how.settles <;> exact hended

theorem exec (t : Txn) : Pins k u g (Db.exec cfg db t) := by
  obtain hbeside | hparts := exec_free cfg db t
  · have hjobs := congrArg Db.jobs hbeside.rest
    exact h.of_keeps fun k i hi => by rw [← hi]; exact congrArg (·.get? k) hjobs
  · generalize Db.exec cfg db t = db' at hparts ⊢
    induction hparts with
    | refl => exact h
    | tail _ hpart ih =>
      cases hpart with
      | block hblock => exact ih.of_block hblock
      | stored =>
        unfold chatInsert
        split <;> exact ih

theorem claimStep (pick : Pick) : Pins k u g (Db.claimStep cfg db pick) := by
  unfold Db.claimStep claimHead claimSql
  repeat' split
  all_goals first
    | exact h
    | exact h.updateJobs fun _ _ _ => ⟨rfl, fun ha => (Bool.false_ne_true ha).elim⟩
    | skip
  -- the claim itself takes a pending row and pins the current generation only where none is pinned
  rename_i _ _ hrow _ _ _ _ _ i hi hclaimable _
  refine h.updateJobs fun j hj hjob => ⟨rfl, fun _ => ⟨?_, fun g hg => by simp [hg]⟩⟩
  rw [beq_iff_eq.mp hjob, hrow, hi] at hj
  simp only [claimable, Bool.and_eq_true, beq_iff_eq] at hclaimable
  rw [← Option.some.inj hj, hclaimable.1.1.1]
  rfl

end Pins

/-- The generation of the user has moved past the one that the row pins. -/
def Fenced (k : JobId) (u : UserId) (g : Nat) (db : Db) : Prop :=
  Pins k u g db ∧ ∃ s, db.runtime u = some s ∧ g < s.generation

theorem Fenced.free {u : UserId} {g : Nat} (h : Fenced k u g db) :
    ∃ j, db.jobs.get? k = some j ∧ (db.pinsCurrent j = true → j.status.held = false) := by
  obtain ⟨⟨j, hj, rfl, hpin⟩, s, hs, hlt⟩ := h
  refine ⟨j, hj, fun hcurrent => ?_⟩
  by_contra hheld
  have hgen : g ≠ s.generation := by omega
  rw [pinsCurrent, v2Generation, hs,
    hpin (JobStatus.active_of_held (by simpa using hheld))] at hcurrent
  by_cases hv2 : s.hostedState = .v2 <;> simp [hv2, hgen] at hcurrent

theorem updateOwned_refused {guard : Job → Bool} (hj : db.jobs.get? k = some j)
    (h : guard j = false) : db.updateOwned k guard f hf = (db, false) := by
  simp [updateOwned, hj, h]

end Db

namespace ClaimWorld

variable (cfg : Config) {w : ClaimWorld} (l : QueueLabel)

theorem queueStep_cases :
    (w.queueStep cfg l).db = w.db ∨ (∃ t, (w.queueStep cfg l).db = Db.exec cfg w.db t) ∨
      (∃ p, (w.queueStep cfg l).db = Db.claimStep cfg w.db p) ∨
    ∃ i error availableAt, w.db.jobs.get? i.id = some i ∧ i.status.held = true ∧
      (w.queueStep cfg l).db =
      w.db.updateJobs (fun j => j.id == i.id) (Db.rescheduled error availableAt) fun _ => rfl := by
  cases l with
  | txn t => exact .inr (.inl ⟨t, rfl⟩)
  | rescheduleOwnedJob job worker error availableAt =>
    rw [queueStep, Db.rescheduleOwnedJob]
    obtain ⟨i, hi, hguard, heq⟩ | heq := Db.updateOwned_cases w.db job
      (fun j => w.db.pinsCurrent j && Db.ownedBy w.db.clock worker j)
        (Db.rescheduled error availableAt) fun _ => rfl
    · obtain rfl : i.id = job := Serial.key_of_get? hi
      rw [Bool.and_eq_true] at hguard
      exact .inr (.inr (.inr ⟨i, error, availableAt, hi, Db.held_of_ownedBy hguard.2,
          congrArg Prod.fst heq⟩))
    · exact .inl (congrArg Prod.fst heq)
  | pick p lanes => exact .inl (pick_db ..)
  | claim p =>
    rw [queueStep, claim]
    split
    · exact .inr (.inr (.inl ⟨p, rfl⟩))
    · exact .inl rfl

theorem queueStep_leased (hw : w.db.Leased) : (w.queueStep cfg l).db.Leased := by
  obtain heq | ⟨t, heq⟩ | ⟨p, heq⟩ | ⟨i, error, availableAt, -, -, heq⟩ :=
    queueStep_cases cfg l (w := w) <;> rw [heq]
  · exact hw
  · exact hw.rowsStep (Db.exec_step cfg w.db t)
  · exact hw.claimStep p
  · exact hw.updateJobs (by rintro _ ⟨⟩)

/-- In every reachable state each claim has an owner and a lease. Once the lease has run out, a
capture claim expires in its own transaction, and the reaper's pass queues any other one again or
expires it. -/
theorem overdue_claims_are_taken_back (cfg : Config) (w : ClaimWorld) (hw : w.db.Leased)
    (ls : List QueueLabel) :
    let db := (run (queueStep cfg) w ls).db
    ∀ k j, db.jobs.get? k = some j → j.status.held = true → j.claimedBy.isSome = true ∧
      ∃ lease, j.leaseExpiresAt = some lease ∧ ∀ ts, lease ≤ ts →
        (j.lane = .capture → ∀ reason, ∃ j',
          (Db.recoverCaptureClaim cfg db k j.userId j.claimedBy j.attemptCount .lease reason
            (some ts)).jobs.get? k = some j' ∧ j'.status = .expired) ∧
        (j.lane ≠ .capture → ∃ j', (Db.reapStuckJobRows cfg db (some ts)).jobs.get? k = some j' ∧
          (j'.status = .pending ∨ j'.status = .expired)) := by
  intro db k j hj hheld
  have hdb : db.Leased :=
    invariant_all (fun w : ClaimWorld => w.db.Leased) (fun _ l h => queueStep_leased cfg l h) hw ls
  obtain ⟨howner, hlease⟩ := hdb k j hj hheld
  obtain ⟨lease, hlease⟩ := Option.isSome_iff_exists.mp hlease
  refine ⟨howner, lease, hlease, fun ts hts => ?_⟩
  have hover : passed ts j.leaseLimit = true := by simp [passed, Job.leaseLimit, hlease, hts]
  exact ⟨fun hlane reason => Db.recoverCaptureClaim_takes_back hj hheld hover hlane reason,
    fun hlane => Db.reapStuckJobRows_takes_back hj hheld hover hlane⟩

/-- The heartbeat that `b` has claimed. -/
theorem overdue_claims_are_taken_back_heartbeat :
    let db := (run (queueStep .default) ⟨.init ["u"] ⟨false, none⟩, []⟩
      (heartbeatPicked ++ [.claim ⟨"b", 1, false⟩])).db
    ∃ lease, ∀ ts, lease ≤ ts →
      ∃ j', (Db.reapStuckJobRows .default db (some ts)).jobs.get? 1 = some j' ∧
      (j'.status = .pending ∨ j'.status = .expired) := by
  intro db
  have hrow : (db.jobs.get? 1).map (fun j => (j.status.held, j.lane)) =
      some (true, .heartbeat) := by
    decide +kernel
  obtain ⟨j, hj, hpair⟩ := Option.map_eq_some_iff.mp hrow
  obtain ⟨-, lease, -, h⟩ := overdue_claims_are_taken_back .default ⟨.init ["u"] ⟨false, none⟩, []⟩
    (by rintro _ _ ⟨⟩) _ 1 j hj (congrArg Prod.fst hpair)
  have hlane : j.lane ≠ .capture := by rw [show j.lane = _ from congrArg Prod.snd hpair]; simp
  exact ⟨lease, fun ts hts => (h ts hts).2 hlane⟩

theorem queueStep_fenced {k : JobId} {u : UserId} {g : Nat} (h : w.db.Fenced k u g) :
    (w.queueStep cfg l).db.Fenced k u g := by
  obtain ⟨hpins, s, hs, hlt⟩ := h
  obtain heq | ⟨t, heq⟩ | ⟨p, heq⟩ | ⟨i, error, availableAt, hi, hheld, heq⟩ :=
    queueStep_cases cfg l (w := w) <;> rw [heq]
  · exact ⟨hpins, s, hs, hlt⟩
  · obtain ⟨s', hs', hle⟩ := (Db.exec_step cfg w.db t).runtime u s hs
    exact ⟨hpins.exec t, s', hs', by omega⟩
  · refine ⟨hpins.claimStep p, s, ?_, hlt⟩
    rw [Db.claimStep_proj cfg w.db p Db.runtime fun _ => rfl]
    exact hs
  · refine ⟨hpins.updateJobs fun j hj hjob => ⟨rfl, fun _ => ⟨?_, fun _ hg => hg⟩⟩, s, hs, hlt⟩
    rw [(Db.id_beq_iff hi j hj).mp hjob]
    exact JobStatus.active_of_held hheld

/-- Once the generation of a user has moved past the one that a job pins, no worker ever again
starts the job, renews its lease, completes it with a successor or puts it back, whatever happens in
between. -/
theorem old_generations_are_fenced (cfg : Config) (w : ClaimWorld) (k : JobId) (i : Job) (g : Nat)
    (s : RuntimeState) (hi : w.db.jobs.get? k = some i)
    (hpin : i.expectedRuntimeGeneration = some g)
    (hs : w.db.runtime i.userId = some s) (hpast : g < s.generation) (ls : List QueueLabel)
    (worker : WorkerId) :
    let db := (run (queueStep cfg) w ls).db
    Db.markRunning cfg db k worker = (db, false) ∧
      (∀ ttl, db.renewJobLease k worker ttl = (db, false)) ∧
      (∀ observed force, Db.finishChatJob cfg db k worker observed force = (db, false, none)) ∧
      (∀ observed late, (Db.finishWakeJob db k worker observed late).1 = db) ∧
      (∀ error at', db.rescheduleOwnedJob k worker error at' = (db, false)) ∧
      ∀ error at' attempts limit,
        db.reschedulePristineScheduledFailure k worker error at' attempts limit = (db, false) := by
  intro db
  have hfenced : db.Fenced k i.userId g :=
    invariant_all (fun w : ClaimWorld => w.db.Fenced k i.userId g)
    (fun _ l h => queueStep_fenced cfg l h) ⟨⟨i, hi, rfl, fun _ => hpin⟩, s, hs, hpast⟩ ls
  obtain ⟨j, hj, hfree⟩ := hfenced.free
  have howned : (db.pinsCurrent j && Db.ownedBy db.clock worker j) = false := by
    cases hcurrent : db.pinsCurrent j <;> simp [Db.ownedBy, hfree, hcurrent]
  have hstatus : ∀ st : JobStatus, st.held = true →
      (db.pinsCurrent j && j.status == st) = false := by
    intro st hst
    cases hcurrent : db.pinsCurrent j with
    | false => rfl
    | true =>
      have hne : j.status ≠ st := by rintro rfl; simp [hfree hcurrent] at hst
      simpa using hne
  refine ⟨Db.updateOwned_refused hj ?_, fun ttl => Db.updateOwned_refused hj howned,
    fun observed force => ?_, fun observed late => ?_, fun error at' =>
      Db.updateOwned_refused hj howned, fun error at' attempts limit => ?_⟩
  · rw [hstatus .claimed rfl]; rfl
  · rw [Db.finishChatJob, hj]
    dsimp only
    rw [Bool.and_right_comm (db.pinsCurrent j), hstatus .running rfl]
    rfl
  · rw [Db.finishWakeJob, hj]
    dsimp only
    split
    · next hguard =>
      rw [Bool.and_eq_true, Bool.and_eq_true] at hguard
      rw [hfree hguard.1.1, Bool.false_and, apply_ite Prod.fst]
      exact ite_self _
    · rfl
  · unfold Db.reschedulePristineScheduledFailure
    split
    · rfl
    · refine Db.updateOwned_refused hj ?_
      rw [Bool.and_right_comm (db.pinsCurrent j), howned]
      rfl

/-- Worker `b` has claimed the heartbeat when the user leaves `v2`, and is refused after the
return. -/
theorem old_generations_are_fenced_heartbeat :
    let left := run (queueStep .default) ⟨.init ["u"] ⟨false, none⟩, []⟩
      (heartbeatPicked ++ [.claim ⟨"b", 1, false⟩, .txn (.advanceRuntimeState "u" .v2 .draining)])
    let db := (run (queueStep .default) left [.txn (.advanceRuntimeState "u" .draining .v2)]).db
    Db.markRunning .default db 1 "b" = (db, false) := by
  intro left
  have hrow : (left.db.jobs.get? 1).map (fun i => (i.userId, i.expectedRuntimeGeneration)) =
      some ("u", some 3) := by
    decide +kernel
  obtain ⟨i, hi, hpair⟩ := Option.map_eq_some_iff.mp hrow
  obtain ⟨hu, hpin⟩ := Prod.mk.inj hpair
  exact (old_generations_are_fenced .default left 1 i 3 ⟨.draining,
      4⟩ hi hpin (by rw [hu]; decide +kernel) (by decide) _
    "b").1

end ClaimWorld

end Feedling
