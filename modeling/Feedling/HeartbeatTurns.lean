import Feedling.WakeContext

/-!
# A heartbeat against its producers

One worker runs the heartbeats of a user as `_run_wake` does, while producers attach context. A wake
that yields to chat finishes with the generation it read at its start and has consumed nothing.
-/

namespace Feedling

open KeyedTable

/-- What `_run_wake` has in hand: the largest generation and context row that it has read, and, once
it has called `read_v2_wake_context`, the rows it was given. -/
structure WakeTurn where
  jobId : JobId
  started : Bool := false
  observedGeneration : Nat := 0
  consumedContextSeq : Nat := 0
  returned : Option (List Nat) := none
  deriving DecidableEq, Repr

structure HeartbeatWorld where
  store : WakeDb
  turn : Option WakeTurn

inductive HeartbeatLabel where
  | produce (e : Db.Enqueue) (contextDoc : String)
  | tick (elapsed : Time)
  | claim (job : JobId)
  | markRunning
  | renew (ttl : Time)
  | start
  | read
  | finish

namespace HeartbeatWorld

variable (cfg : Config) (u : UserId) (worker : WorkerId)

def initial (db : Db) : HeartbeatWorld := ⟨⟨db, Serial.empty 1, {}⟩, none⟩

def withDb (w : HeartbeatWorld) (db : Db) : HeartbeatWorld :=
  { w with store := { w.store with db := db } }

/-- The worker takes a heartbeat of the user if it has none. -/
def claim (w : HeartbeatWorld) (job : JobId) : HeartbeatWorld :=
  if w.turn.isNone && (w.store.db.jobs.get? job).any fun j => j.userId == u &&
    j.lane == .heartbeat then
    let db := Db.claimHead cfg w.store.db worker job
    { w.withDb db with
      turn := if (db.jobs.get? job).any (Db.ownedBy db.clock worker) then some { jobId := job }
        else none }
  else w

/-- The generation at the start; a lost lease ends the turn. -/
def start (w : HeartbeatWorld) (t : WakeTurn) : HeartbeatWorld :=
  if t.started then w
  else
    { w with turn := (w.store.getInputGeneration t.jobId worker).map fun g =>
        { t with started := true, observedGeneration := g } }

/-- One call of `read_v2_wake_context`; the worker reads again while it gets nothing. -/
def read (w : HeartbeatWorld) (t : WakeTurn) : HeartbeatWorld :=
  if t.started && (t.returned.getD []).isEmpty then
    let (rows, generation) := w.store.readV2WakeContext t.jobId 10
    if rows.isEmpty then { w with turn := some { t with returned := some [] } }
    else
      { w with turn := some { t with
          returned := some (rows.map (·.seq))
          consumedContextSeq := rows.foldl (fun m r => max m r.seq) t.consumedContextSeq
          observedGeneration := max t.observedGeneration generation } }
  else w

/-- The turn ends, and if `finish_wake_job` raises its transaction is rolled back. -/
def finish (w : HeartbeatWorld) (t : WakeTurn) : HeartbeatWorld :=
  if t.started then
    match w.store.finishWakeJob t.jobId worker t.observedGeneration t.consumedContextSeq with
    | some (store, _, _) => ⟨store, none⟩
    | none => { w with turn := none }
  else w

def inTurn (w : HeartbeatWorld) (act : WakeTurn → HeartbeatWorld) : HeartbeatWorld :=
  match w.turn with
  | some t => act t
  | none => w

def step (w : HeartbeatWorld) : HeartbeatLabel → HeartbeatWorld
  | .produce e contextDoc =>
    { w with store := (w.store.enqueueJobWithContextLog cfg
                 { e with userId := u, lane := .heartbeat } contextDoc).1 }
  | .tick elapsed => w.withDb { w.store.db with clock := w.store.db.clock + elapsed }
  | .claim job => w.claim cfg u worker job
  | .markRunning => w.inTurn fun t => w.withDb (w.store.db.markRunning cfg t.jobId worker).1
  | .renew ttl => w.inTurn fun t => w.withDb (w.store.db.renewJobLease t.jobId worker ttl).1
  | .start => w.inTurn (w.start worker)
  | .read => w.inTurn w.read
  | .finish => w.inTurn (w.finish worker)

/-- At most ten rows are attached to a job. -/
def Allowed (w : HeartbeatWorld) (_ : HeartbeatLabel) : Prop :=
  ∀ r ∈ w.store.context.rows, (w.store.context.rows.filter fun x => x.jobId == r.jobId).length ≤ 10

/-! ## The turn and the rows of its job -/

/-- What the worker knows is not ahead of the job, and a row that it was not given is newer than
what it has consumed. Once it has read, such a row also moved the generation. -/
structure TurnOk (context : Serial ContextRow.seq) (generation : Nat) (t : WakeTurn) : Prop where
  observed : t.observedGeneration ≤ generation
  consumed : t.consumedContextSeq < context.next
  unread : ∀ r ∈ context.rows, r.jobId = t.jobId → r.seq ∉ t.returned.getD [] →
    t.consumedContextSeq < r.seq
  late : t.returned.isSome = true →
    ∀ r ∈ context.rows, r.jobId = t.jobId → r.seq ∉ t.returned.getD [] →
      t.observedGeneration < generation

structure Inv (w : HeartbeatWorld) : Prop where
  unmarked : w.store.Unmarked
  next : 1 ≤ w.store.context.next
  positive : ∀ r ∈ w.store.context.rows, 1 ≤ r.seq
  attached : ∀ r ∈ w.store.context.rows, ∃ j, w.store.db.jobs.get? r.jobId = some j ∧
    j.lane = .heartbeat
  turn : ∀ t, w.turn = some t → ∃ j, w.store.db.jobs.get? t.jobId = some j ∧ j.lane = .heartbeat ∧
    (j.status.held = true → TurnOk w.store.context j.inputGeneration t)
  ordered : ∀ t, w.turn = some t → t.started = false → t.returned = none

variable {t : WakeTurn} {s' : WakeDb} (db : Db)

theorem Inv.initial : Inv (initial db) where
  unmarked := rfl
  next := Nat.le_refl _
  positive := by intro r hr; cases hr
  attached := by intro r hr; cases hr
  turn := by intro t ht; cases ht
  ordered := by intro t ht; cases ht

variable {cfg u worker} {w : HeartbeatWorld}

theorem Inv.unfed {db : Db} (h : Inv w) (hdb : Db.Unfed w.store.db db) : Inv (w.withDb db) where
  unmarked := h.unmarked
  next := h.next
  positive := h.positive
  attached := by
    intro r hr
    obtain ⟨i, hi, hlane⟩ := h.attached r hr
    obtain ⟨j, hj, hfed⟩ := hdb r.jobId i hi (by rw [hlane]; decide)
    exact ⟨j, hj, hfed.lane.trans hlane⟩
  turn := by
    intro t ht
    obtain ⟨i, hi, hlane, hok⟩ := h.turn t ht
    obtain ⟨j, hj, hfed⟩ := hdb t.jobId i hi (by rw [hlane]; decide)
    refine ⟨j, hj, hfed.lane.trans hlane, fun hheld => ?_⟩
    obtain ⟨hbefore, hgeneration⟩ := hfed.held hheld
    rw [hgeneration]
    exact hok hbefore
  ordered := h.ordered

theorem Inv.produce (h : Inv w) (e : Db.Enqueue) (contextDoc : String) :
    Inv (w.step cfg u worker (.produce e contextDoc)) := by
  have hfed : ∀ k i, w.store.db.jobs.get? k = some i → i.lane = .heartbeat → _ :=
    fun k i hi hlane =>
    Db.enqueueJobWithContextLog_fed cfg { e with userId := u, lane := .heartbeat } hi
      (by rw [hlane]; decide)
  obtain ⟨target, htarget, htlane⟩ :=
    Db.enqueueJobWithContextLog_job cfg w.store.db { e with userId := u, lane := .heartbeat }
  have hmem : ∀ r ∈ (w.step cfg u worker (.produce e contextDoc)).store.context.rows,
      r ∈ w.store.context.rows ∨ r = ⟨w.store.context.next,
        (w.store.db.enqueueJobWithContextLog cfg { e with userId := u, lane := .heartbeat }).2.1,
        contextDoc⟩ := by
    intro r hr
    simpa [step, WakeDb.enqueueJobWithContextLog, Serial.insert] using hr
  constructor
  case unmarked => exact h.unmarked
  case next => exact Nat.le_succ_of_le h.next
  case positive =>
    intro r hr
    rcases hmem r hr with hr | rfl
    · exact h.positive r hr
    · exact h.next
  case attached =>
    intro r hr
    rcases hmem r hr with hr | rfl
    · obtain ⟨i, hi, hlane⟩ := h.attached r hr
      obtain ⟨j, hj, hkept⟩ := hfed r.jobId i hi hlane
      exact ⟨j, hj, hkept.lane.trans hlane⟩
    · exact ⟨target, htarget, htlane⟩
  case turn =>
    intro t ht
    obtain ⟨i, hi, hlane, hok⟩ := h.turn t ht
    obtain ⟨j, hj, hkept⟩ := hfed t.jobId i hi hlane
    refine ⟨j, hj, hkept.lane.trans hlane, fun hheld => ?_⟩
    obtain ⟨hbefore, hgeneration⟩ := hkept.held hheld
    have hok := hok hbefore
    constructor
    case observed =>
      have hle := hok.observed
      split at hgeneration <;> omega
    case consumed => exact Nat.lt_succ_of_lt hok.consumed
    case unread =>
      intro r hr hjob hnew
      rcases hmem r hr with hr | rfl
      · exact hok.unread r hr hjob hnew
      · exact hok.consumed
    case late =>
      intro hread r hr hjob hnew
      rcases hmem r hr with hr | rfl
      · have hlt := hok.late hread r hr hjob hnew
        split at hgeneration <;> omega
      · have hle := hok.observed
        rw [if_pos hjob] at hgeneration
        omega
  case ordered => exact h.ordered

theorem Inv.markRunning (h : Inv w) (t : WakeTurn) :
    Inv (w.withDb (w.store.db.markRunning cfg t.jobId worker).1) := by
  rcases Db.markRunning_cases cfg w.store.db t.jobId worker with heq | ⟨i, hi, -, hclaimed, -, heq⟩
  · rw [heq]
    exact h
  · rw [heq]
    refine h.unfed (.updateRow w.store.db fun x hx => ?_)
    rw [hi] at hx
    cases hx
    exact ⟨rfl, fun _ => ⟨by rw [hclaimed]; rfl, rfl⟩⟩

theorem Inv.renew (h : Inv w) (t : WakeTurn) (ttl : Time) :
    Inv (w.withDb (w.store.db.renewJobLease t.jobId worker ttl).1) := by
  rcases Db.updateOwned_cases w.store.db t.jobId
    (fun j => w.store.db.pinsCurrent j && Db.ownedBy w.store.db.clock worker j) _ _ with ⟨i, hi,
      hmine, heq⟩ | heq
  · rw [Db.renewJobLease, heq]
    exact h.unfed (.updateRow w.store.db fun x _ => ⟨rfl, fun hheld => ⟨hheld, rfl⟩⟩)
  · rw [Db.renewJobLease, heq]
    exact h

/-! ## Claim, start and read -/

/-- A step of an idle worker only has to keep the heartbeats that context is attached to. -/
theorem Inv.idle {db : Db} {turn : Option WakeTurn} (h : Inv w)
    (hdb : ∀ k i, w.store.db.jobs.get? k = some i → ∃ j, db.jobs.get? k = some j ∧ j.lane = i.lane)
    (hturn : ∀ t, turn = some t → t = { jobId := t.jobId } ∧
      ∃ j, w.store.db.jobs.get? t.jobId = some j ∧ j.lane = .heartbeat) :
    Inv { w.withDb db with turn := turn } where
  unmarked := h.unmarked
  next := h.next
  positive := h.positive
  attached := by
    intro r hr
    obtain ⟨i, hi, hlane⟩ := h.attached r hr
    obtain ⟨j, hj, hsame⟩ := hdb r.jobId i hi
    exact ⟨j, hj, hsame.trans hlane⟩
  turn := by
    intro t ht
    obtain ⟨hfresh, i, hi, hlane⟩ := hturn t ht
    obtain ⟨j, hj, hsame⟩ := hdb t.jobId i hi
    refine ⟨j, hj, hsame.trans hlane, fun _ => ?_⟩
    rw [hfresh]
    exact ⟨Nat.zero_le _, h.next, fun r hr _ _ => h.positive r hr, fun hread => nomatch hread⟩
  ordered := by
    intro t ht _
    rw [(hturn t ht).1]

theorem claimHead_lane (cfg : Config) (worker : WorkerId) (db : Db) (job : JobId) {k : JobId}
    {i : Job} (hi : db.jobs.get? k = some i) :
    ∃ j, (Db.claimHead cfg db worker job).jobs.get? k = some j ∧ j.lane = i.lane := by
  obtain ⟨j, hj, hsame, -⟩ := Db.claimStep_row cfg db ⟨worker, job, false⟩ hi
  exact ⟨j, hj, hsame.lane⟩

theorem Inv.claim (h : Inv w) (job : JobId) : Inv (w.claim cfg u worker job) := by
  unfold HeartbeatWorld.claim
  by_cases hidle : (w.turn.isNone && (w.store.db.jobs.get? job).any fun j => j.userId == u &&
      j.lane == .heartbeat) = true
  · rw [if_pos hidle]
    obtain ⟨i, hi, hmine⟩ := (Option.any_eq_true _ _).mp (Bool.and_eq_true_iff.mp hidle).2
    have hlane : i.lane = .heartbeat := beq_iff_eq.mp (Bool.and_eq_true_iff.mp hmine).2
    refine h.idle (fun k x hx => claimHead_lane cfg worker w.store.db job hx) fun t ht => ?_
    split at ht
    · cases ht
      exact ⟨rfl, i, hi, hlane⟩
    · cases ht
  · rw [if_neg hidle]
    exact h

theorem Inv.withTurn (h : Inv w) (hstarted : t.started = true)
    (hturn : ∃ j, w.store.db.jobs.get? t.jobId = some j ∧ j.lane = .heartbeat ∧
      (j.status.held = true → TurnOk w.store.context j.inputGeneration t)) :
      Inv { w with turn := some t } where
  unmarked := h.unmarked
  next := h.next
  positive := h.positive
  attached := h.attached
  turn := by
    intro t' ht'
    cases ht'
    exact hturn
  ordered := by
    intro t' ht' hnot
    cases ht'
    rw [hstarted] at hnot
    cases hnot

theorem Inv.noTurn (h : Inv w) : Inv { w with turn := none } :=
  ⟨h.unmarked, h.next, h.positive, h.attached, (fun _ ht => nomatch ht), fun _ ht => nomatch ht⟩

theorem Inv.start (h : Inv w) (ht : w.turn = some t) : Inv (w.start worker t) := by
  unfold HeartbeatWorld.start
  by_cases hstarted : t.started = true
  · rw [if_pos hstarted]
    exact h
  · rw [if_neg hstarted]
    have hunread := h.ordered t ht (Bool.not_eq_true _ ▸ hstarted)
    obtain ⟨j, hj, hlane, hok⟩ := h.turn t ht
    cases hread : w.store.getInputGeneration t.jobId worker with
    | none => exact h.noTurn
    | some g =>
      have hg : j.inputGeneration = g := by
        rw [WakeDb.getInputGeneration, hj, Option.bind_some] at hread
        split at hread
        · exact Option.some.inj hread
        · cases hread
      refine h.withTurn rfl ⟨j, hj, hlane, fun hheld => ?_⟩
      have hok := hok hheld
      exact ⟨Nat.le_of_eq hg.symm, hok.consumed, hok.unread, fun h => by rw [hunread] at h; cases h⟩

theorem readV2WakeContext_rows (hten : w.Allowed l) (job : JobId) :
    (w.store.readV2WakeContext job 10).1 = w.store.context.rows.filter fun r => r.jobId == job := by
  have hlength : (w.store.context.rows.filter fun r => r.jobId == job).length ≤ 10 := by
    cases hrows : w.store.context.rows.filter fun r => r.jobId == job with
    | nil => exact Nat.zero_le _
    | cons r rest =>
      have hr : r ∈ w.store.context.rows.filter fun r => r.jobId == job := by
        rw [hrows]; exact List.mem_cons_self
      obtain ⟨hmem, hjob⟩ := List.mem_filter.mp hr
      have hle := hten r hmem
      rw [beq_iff_eq.mp hjob, hrows] at hle
      exact hle
  have hzero : (w.store.context.rows.filter fun r => r.jobId == job).length - max 1 (min 10 10) =
    0 := by omega
  simp only [WakeDb.readV2WakeContext, hzero, List.drop_zero]

theorem foldl_max_lt {rows : List ContextRow} {m n : Nat} (hm : m < n)
    (hrows : ∀ r ∈ rows, r.seq < n) : rows.foldl (fun m r => max m r.seq) m < n := by
  induction rows generalizing m with
  | nil => exact hm
  | cons r rows ih =>
    have hr := hrows r List.mem_cons_self
    exact ih (Nat.max_lt.mpr ⟨hm, hr⟩) fun x hx => hrows x (List.mem_cons_of_mem _ hx)

theorem Inv.read (h : Inv w) (hten : w.Allowed l) (ht : w.turn = some t) : Inv (w.read t) := by
  unfold HeartbeatWorld.read
  by_cases hreads : (t.started && (t.returned.getD []).isEmpty) = true
  · rw [if_pos hreads]
    have hstarted := (Bool.and_eq_true_iff.mp hreads).1
    obtain ⟨j, hj, hlane, hok⟩ := h.turn t ht
    have hrows := readV2WakeContext_rows hten t.jobId
    have hgeneration : (w.store.readV2WakeContext t.jobId 10).2 = j.inputGeneration := by
      simp only [WakeDb.readV2WakeContext, hj, Option.map_some, Option.getD_some]
    have hmem : ∀ r ∈ w.store.context.rows, r.jobId = t.jobId →
        r ∈ (w.store.readV2WakeContext t.jobId 10).1 := by
      intro r hr hjob
      rw [hrows]
      exact List.mem_filter.mpr ⟨hr, beq_iff_eq.mpr hjob⟩
    dsimp only
    by_cases hempty : (w.store.readV2WakeContext t.jobId 10).1.isEmpty = true
    · rw [if_pos hempty]
      have hnone : ∀ r ∈ w.store.context.rows, r.jobId ≠ t.jobId := by
        intro r hr hjob
        have hin := hmem r hr hjob
        rw [List.isEmpty_iff.mp hempty] at hin
        cases hin
      refine h.withTurn hstarted ⟨j, hj, hlane, fun hheld => ?_⟩
      have hok := hok hheld
      exact ⟨hok.observed, hok.consumed, fun r hr hjob => absurd hjob (hnone r hr),
        fun _ r hr hjob => absurd hjob (hnone r hr)⟩
    · rw [if_neg hempty]
      refine h.withTurn hstarted ⟨j, hj, hlane, fun hheld => ?_⟩
      have hok := hok hheld
      have hread : ∀ r ∈ w.store.context.rows, r.jobId = t.jobId →
          r.seq ∈ (w.store.readV2WakeContext t.jobId 10).1.map (·.seq) :=
        fun r hr hjob => List.mem_map_of_mem (hmem r hr hjob)
      refine ⟨?_, ?_, fun r hr hjob hnew => absurd (hread r hr hjob) hnew,
        fun _ r hr hjob hnew => absurd (hread r hr hjob) hnew⟩
      · have hle := hok.observed
        show max t.observedGeneration (w.store.readV2WakeContext t.jobId 10).2 ≤ j.inputGeneration
        omega
      · refine foldl_max_lt hok.consumed fun r hr => ?_
        rw [hrows] at hr
        exact w.store.context.bound r (List.mem_of_mem_filter hr)
  · rw [if_neg hreads]
    exact h

/-! ## Finish -/

theorem get?_successor (job : JobId) (j : Job) (reason : String) (g n : Nat) :
    ∃ x, ((db.completeJob job).insertSuccessor j reason none g n).jobs.get? db.jobs.next = some x ∧
      x.status = .pending ∧ x.lane = j.lane :=
  ⟨_, Serial.get?_insert_next (db.completeJob job).jobs _ fun _ => rfl, rfl, rfl⟩

theorem finishWakeJob_lane {job : JobId} {observed consumed : Nat} {ok : Bool}
    {successor : Option JobId} (h : Inv w)
    (hfinish : w.store.finishWakeJob job worker observed consumed = some (s', ok, successor))
    {k : JobId} {i : Job} (hi : w.store.db.jobs.get? k = some i) : ∃ j, s'.db.jobs.get? k = some j ∧
      j.lane = i.lane := by
  have hstep :=
    Db.finishWakeJob_step w.store.db job worker observed (w.store.hasLateContext job consumed)
  have hdb : (w.store.db.finishWakeJob job worker observed
      (w.store.hasLateContext job consumed)).1 = s'.db := by
    obtain ⟨_, heq, hdb, -⟩ | ⟨_, -, -, -, ⟨-, heq, hdb⟩ | ⟨-, _, heq, hdb, -⟩⟩ :=
      WakeDb.finishWakeJob_cases h.unmarked job worker observed consumed <;>
    · rw [hfinish] at heq
      cases heq
      rw [hdb]
  rw [hdb] at hstep
  obtain ⟨j, hj, hsame⟩ := hstep.rows.sameJob hi
  exact ⟨j, hj, hsame.lane⟩

theorem Inv.of_finish (h : Inv w) (hunmarked : s'.Unmarked)
    (hnext : s'.context.next = w.store.context.next) (hlane : ∀ k i,
      w.store.db.jobs.get? k = some i → ∃ j, s'.db.jobs.get? k = some j ∧ j.lane = i.lane)
    (hrows : ∀ r' ∈ s'.context.rows, ∃ r ∈ w.store.context.rows, r'.seq = r.seq ∧
      (r'.jobId = r.jobId ∨ ∃ x, s'.db.jobs.get? r'.jobId = some x ∧ x.lane = .heartbeat)) :
      Inv ⟨s', none⟩ where
  unmarked := hunmarked
  next := by rw [hnext]; exact h.next
  positive := by
    intro r' hr'
    obtain ⟨r, hr, hseq, -⟩ := hrows r' hr'
    rw [hseq]
    exact h.positive r hr
  attached := by
    intro r' hr'
    obtain ⟨r, hr, -, hjob | hsuccessor⟩ := hrows r' hr'
    · obtain ⟨i, hi, hheartbeat⟩ := h.attached r hr
      obtain ⟨j, hj, hsame⟩ := hlane r.jobId i hi
      exact ⟨j, hjob ▸ hj, hsame.trans hheartbeat⟩
    · exact hsuccessor
  turn := fun _ ht => nomatch ht
  ordered := fun _ ht => nomatch ht

theorem Inv.finish (h : Inv w) (t : WakeTurn) : Inv (w.finish worker t) := by
  unfold HeartbeatWorld.finish
  by_cases hstarted : t.started = true
  · rw [if_pos hstarted]
    have hsame : ∀ r ∈ w.store.context.rows, ∃ x ∈ w.store.context.rows, r.seq = x.seq ∧
        (r.jobId = x.jobId ∨ ∃ y, w.store.db.jobs.get? r.jobId = some y ∧ y.lane = .heartbeat) :=
      fun r hr => ⟨r, hr, rfl, .inl rfl⟩
    rcases WakeDb.finishWakeJob_cases h.unmarked t.jobId worker t.observedGeneration
      t.consumedContextSeq with
      ⟨ok, hfinish, -⟩ | ⟨j, -, -, hlane, ⟨-, hfinish, -⟩ | ⟨-, s', hfinish, -, hunmarked,
          hcontext, hdb⟩⟩
    · rw [hfinish]
      exact h.noTurn
    · rw [hfinish]
      refine h.of_finish h.unmarked rfl (fun k i hi => finishWakeJob_lane h hfinish hi)
        fun r hr => ?_
      exact ⟨r, hr, rfl, .inl rfl⟩
    · rw [hfinish]
      refine h.of_finish hunmarked (by rw [hcontext]; rfl)
        (fun k i hi => finishWakeJob_lane h hfinish hi) fun r' hr' => ?_
      rw [hcontext] at hr'
      obtain ⟨r, hr, rfl⟩ := List.mem_map.mp hr'
      by_cases hlate : WakeDb.lateRow t.jobId t.consumedContextSeq r = true
      · obtain ⟨x, hx, -, hxlane⟩ :=
          get?_successor w.store.db t.jobId j "coalesced_perception_followup"
          (j.expectedRuntimeGeneration.getD 0)
            (if w.store.hasLateContext t.jobId t.consumedContextSeq then
            max 1 (j.inputGeneration - t.observedGeneration) else 0)
        rw [if_pos hlate]
        exact ⟨r, hr, rfl, .inr ⟨x, by rw [hdb]; exact hx, hxlane.trans hlane⟩⟩
      · rw [if_neg hlate]
        exact ⟨r, hr, rfl, .inl rfl⟩
  · rw [if_neg hstarted]
    exact h

theorem Inv.inTurn {act : WakeTurn → HeartbeatWorld} (h : Inv w)
    (hact : ∀ t, w.turn = some t → Inv (act t)) : Inv (w.inTurn act) := by
  unfold HeartbeatWorld.inTurn
  cases ht : w.turn with
  | none => exact h
  | some t => exact hact t ht

theorem Inv.step (h : Inv w) {l : HeartbeatLabel} (hten : w.Allowed l) :
    Inv (w.step cfg u worker l) := by
  cases l with
  | produce e contextDoc => exact h.produce e contextDoc
  | tick elapsed => exact h.unfed fun k i hi _ => ⟨i, hi, .refl i⟩
  | claim job => exact h.claim job
  | markRunning => exact h.inTurn fun t _ => h.markRunning t
  | renew ttl => exact h.inTurn fun t _ => h.renew t ttl
  | start => exact h.inTurn fun t ht => h.start ht
  | read => exact h.inTurn fun t ht => h.read hten ht
  | finish => exact h.inTurn fun t _ => h.finish t

theorem Inv.run {ls : List HeartbeatLabel} (h : Inv w)
    (hls : Runs.Along (HeartbeatWorld.step cfg u worker) Allowed w ls) :
    Inv (Runs.run (HeartbeatWorld.step cfg u worker) w ls) :=
  Runs.invariant Inv (fun _ _ h hten => h.step hten) h hls

/-! ## Context is handed over -/

/-- Every row that was attached to the job and that the worker was not given is with a pending
heartbeat now. -/
def HandedOver (w : HeartbeatWorld) (t : WakeTurn) (s' : WakeDb) : Prop :=
  ∀ r ∈ w.store.context.rows, r.jobId = t.jobId → r.seq ∉ t.returned.getD [] →
    ∃ r' ∈ s'.context.rows, r'.seq = r.seq ∧ r'.doc = r.doc ∧
      ∃ x, s'.db.jobs.get? r'.jobId = some x ∧ x.status = .pending ∧ x.lane = .heartbeat

/-- The wake has read the context, or it has none, or more input came in after its start. -/
def MayFinish (w : HeartbeatWorld) (t : WakeTurn) : Prop :=
  t.returned.isSome = true ∨ (∀ r ∈ w.store.context.rows, r.jobId ≠ t.jobId) ∨
    ∃ j, w.store.db.jobs.get? t.jobId = some j ∧ t.observedGeneration < j.inputGeneration

theorem handedOver_of_late {j : Job} {n : Nat} (hok : TurnOk w.store.context j.inputGeneration t)
    (hlane : j.lane = .heartbeat)
    (hcontext : s'.context = w.store.context.modify (WakeDb.lateRow t.jobId t.consumedContextSeq)
      (fun r => { r with jobId := w.store.db.jobs.next }) fun _ => rfl)
    (hdb : s'.db =
        (w.store.db.completeJob t.jobId).insertSuccessor j "coalesced_perception_followup" none
      (j.expectedRuntimeGeneration.getD 0) n) : HandedOver w t s' := by
  intro r hr hjob hunread
  obtain ⟨x, hx, hpending, hxlane⟩ :=
    get?_successor w.store.db t.jobId j "coalesced_perception_followup"
    (j.expectedRuntimeGeneration.getD 0) n
  have hlate : WakeDb.lateRow t.jobId t.consumedContextSeq r = true :=
    WakeDb.lateRow_iff.mpr ⟨hjob, hok.unread r hr hjob hunread⟩
  refine ⟨{ r with jobId := w.store.db.jobs.next }, ?_, rfl, rfl, x,
    by rw [hdb]; exact hx, hpending, hxlane.trans hlane⟩
  rw [hcontext]
  refine List.mem_map.mpr ⟨r, hr, ?_⟩
  rw [if_pos hlate]

/-- A completed job takes the rows that are still attached to it out of every pending heartbeat. -/
theorem not_handedOver_of_complete {j : Job} (hj : w.store.db.jobs.get? t.jobId = some j)
    {r : ContextRow} (hr : r ∈ w.store.context.rows) (hjob : r.jobId = t.jobId)
    (hunread : r.seq ∉ t.returned.getD []) :
    ¬ HandedOver w t { w.store with db := w.store.db.completeJob t.jobId } := by
  intro h
  obtain ⟨r', hr', hseq, -, x, hx, hpending, -⟩ := h r hr hjob hunread
  have heq : r' = r := Serial.eq_of_key_eq hr' hr hseq
  have hcompleted : (w.store.db.completeJob t.jobId).jobs.get? t.jobId =
      some (Db.completed w.store.db.clock j) := by
    have hmodify :=
      Serial.get?_modify w.store.db.jobs (fun i => i.id == t.jobId) (Db.completed w.store.db.clock)
      (fun _ => rfl) t.jobId
    rw [hj, Option.map_some, if_pos (beq_iff_eq.mpr (Serial.key_of_get? hj))] at hmodify
    exact hmodify
  rw [heq, hjob, hcompleted] at hx
  cases hx
  cases hpending

/-- In every state of every run with at most ten rows to a job, a started turn can finish without an
error of the marker; and if that completes the job, then all context that the worker was not given
is handed over exactly if the wake has read, or has no context, or got more input after its
start. -/
theorem finishing_hands_over_iff (cfg : Config) (u : UserId) (worker : WorkerId) (db : Db)
    (ls : List HeartbeatLabel) (hls : Runs.Along (step cfg u worker) Allowed (initial db) ls) :
    let w := Runs.run (step cfg u worker) (initial db) ls
    (∀ a ∈ w.store.context.rows, ∀ b ∈ w.store.context.rows, a.seq = b.seq → a = b) ∧
      ∀ t, w.turn = some t → ∃ s' ok successor,
        w.store.finishWakeJob t.jobId worker t.observedGeneration t.consumedContextSeq = some (s',
          ok, successor) ∧
        (∀ j, w.store.db.jobs.get? t.jobId = some j → j.status.held = true → ok = true →
          (HandedOver w t s' ↔ MayFinish w t)) := by
  intro w
  have h : Inv w := (Inv.initial db).run hls
  refine ⟨fun a ha b hb hseq => Serial.eq_of_key_eq ha hb hseq, fun t ht => ?_⟩
  obtain ⟨i, hi, hheartbeat, hok⟩ := h.turn t ht
  rcases WakeDb.finishWakeJob_cases h.unmarked t.jobId worker t.observedGeneration
    t.consumedContextSeq with
    ⟨ok, hfinish, -, hcompleted⟩ | ⟨j, hj, hheld, hlane, ⟨hseen, hfinish, -⟩ | ⟨hlate, s', hfinish,
        -, hunmarked, hcontext, hdb⟩⟩
  · refine ⟨_, _, _, hfinish, fun j hj hheld htrue => ?_⟩
    obtain ⟨x, hx, hxstatus⟩ := hcompleted htrue
    rw [hj] at hx
    cases hx
    rw [hxstatus] at hheld
    cases hheld
  · refine ⟨_, _, _, hfinish, fun j' hj' _ _ => ?_⟩
    rw [hj] at hi
    cases hi
    have hok := hok hheld
    constructor
    · intro hhanded
      by_contra hnot
      simp only [MayFinish, not_or, not_forall, not_not] at hnot
      obtain ⟨hunread, ⟨r, hr, hjob⟩, -⟩ := hnot
      have hreturned : t.returned.getD [] = [] := by
        rw [Option.not_isSome_iff_eq_none.mp hunread]
        rfl
      exact not_handedOver_of_complete hj hr hjob
        (by rw [hreturned]; exact List.not_mem_nil) hhanded
    · intro hmay r hr hjob hunread
      exfalso
      rcases hmay with hread | hnone | ⟨x, hx, hmore⟩
      · have hlt := hok.late hread r hr hjob hunread
        omega
      · exact hnone r hr hjob
      · rw [hj] at hx
        cases hx
        omega
  · refine ⟨_, _, _, hfinish, fun j' hj' _ _ => ?_⟩
    rw [hj] at hi
    cases hi
    exact ⟨fun _ => .inr (.inr ⟨_, hj, hlate⟩),
      fun _ => handedOver_of_late (hok hheld) hlane hcontext hdb⟩

instance (w : HeartbeatWorld) (l : HeartbeatLabel) : Decidable (w.Allowed l) :=
  inferInstanceAs (Decidable (∀ r ∈ w.store.context.rows,
    (w.store.context.rows.filter fun x => x.jobId == r.jobId).length ≤ 10))

/-- A user on `v2`. -/
def perceivedUser : Db := { Db.init ["u"] ⟨false, none⟩ with runtime := fun _ => some ⟨.v2, 1⟩ }

/-- A producer starts a heartbeat, and the worker runs it up to its start. -/
def startedHeartbeat : List HeartbeatLabel :=
  [.produce ⟨"u", .heartbeat, none, none, "t", none, none, none⟩ "arrived home", .claim 1,
    .markRunning, .start]

/-- The worker has read: the wake completes, and a row that came in later goes to the successor. -/
theorem finishing_hands_over_iff_read :
    let w := Runs.run (step .default "u" "a") (initial perceivedUser) (startedHeartbeat ++
      [.read, .produce ⟨"u", .heartbeat, none, none, "t", none, none, none⟩ "left home"])
    ∃ t s' successor, w.turn = some t ∧ MayFinish w t ∧
      w.store.finishWakeJob t.jobId "a" t.observedGeneration t.consumedContextSeq = some (s', true,
        successor) ∧
      HandedOver w t s' := by
  intro w
  have hturn : w.turn = some ⟨1, true, 0, 1, some [1]⟩ := by decide +kernel
  have hmay : MayFinish w ⟨1, true, 0, 1, some [1]⟩ := .inl rfl
  have hcompletes : (w.store.finishWakeJob 1 "a" 0 1).map (·.2.1) = some true := by decide +kernel
  obtain ⟨s', ok, successor, hfinish, hiff⟩ :=
    (finishing_hands_over_iff .default "u" "a" perceivedUser _ (by decide +kernel)).2 _ hturn
  obtain rfl : ok = true := by
    simpa [show w.store.finishWakeJob 1 "a" 0 1 = _ from hfinish] using hcompletes
  have hheld : (w.store.db.jobs.get? 1).any (fun j => j.status.held) = true := by decide +kernel
  obtain ⟨j, hj, hstatus⟩ := (Option.any_eq_true _ _).mp hheld
  exact ⟨_, s', successor, hturn, hmay, hfinish, (hiff j hj hstatus rfl).mpr hmay⟩

/-- The same wake yields to chat before it reads: it completes, there is no pending heartbeat, and
the row that started it stays with the completed job. -/
theorem yielding_heartbeat_drops_its_context :
    let w :=
      Runs.run (step .default "u" "a") (initial perceivedUser) (startedHeartbeat ++ [.finish])
    (w.store.context.rows.map fun r => (r.seq, r.jobId)) = [(1, 1)] ∧
      (w.store.db.jobs.rows.map fun j => (j.id, j.lane, j.status)) =
        [(1, .heartbeat, .completed)] := by
  decide +kernel

end HeartbeatWorld

end Feedling
