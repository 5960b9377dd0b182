import Feedling.OutboxOrder
import Feedling.JobOwnership
import Feedling.ReplyMarks

/-!
# Publication of a final reply is one point in time

The round that applies a reply which ends its turn also completes the source job, checks owner,
lease and input frontier, marks the consumed inputs and advances the reply cursor.
-/

namespace Feedling

open KeyedTable Runs

/-! ## What a round does to jobs -/

namespace Db

variable {cfg : Config} {db : Db} {u : UserId} {job : Option JobId} {p : Payload}
  {check : FenceCheck}

namespace Round

variable {e : Effect} {d : Delivery} {r : Applied}

theorem jobs (h : Round cfg db u e d r) : JobsRun db.turnIsPristine db.jobs r.db.jobs := by
  obtain ⟨mid, hblocks, hframe⟩ := h.queue
  have hjobs : r.db.jobs = mid.jobs := by
    have hjobs := congrArg Db.jobs hframe
    exact hjobs
  rw [hjobs]
  exact (QueueStep.of_free hblocks).rows

end Round

end Db

/-! ## The transaction that publishes -/

variable {p : Payload}

theorem endsTurn_of_ordinary {e e' : Effect} {b : Bool} (htype : e'.effectType = e.effectType)
    (hpayload : e'.payload = if b then some resultPayload
      else if e.effectType.legacySensitive then some scrubbedPayload else e.payload)
    (hp : e.payload = some p) (hmode : replyModeOf e.effectType p = .ordinary) :
    e'.endsTurn = false := by
  unfold Effect.endsTurn
  rw [hpayload, htype]
  cases htypeof : e.effectType <;> rw [htypeof] at hmode
  case replyIntermediateFencedV1 | replyTerminalFencedV1 | replyFinalFencedV1 => cases hmode
  case reply =>
    cases b with
    | true => rfl
    | false => simp [EffectType.legacySensitive, hp, hmode, ReplyMode.consumesJob]
  all_goals
    simp [replyModeOf, ReplyMode.consumesJob]

theorem endsTurn_of_reply {e e' : Effect} (htype : e'.effectType = e.effectType)
    (hpayload : e'.payload = if (none : Option (List Bool)).isSome then some resultPayload
      else if e.effectType.legacySensitive then some scrubbedPayload else e.payload)
    (hmode : replyModeOf e.effectType p ≠ .ordinary) : e'.endsTurn = e.endsTurn := by
  have hkeeps : e.effectType.legacySensitive = false := by
    cases htypeof : e.effectType <;> rw [htypeof] at hmode <;> first | rfl | exact absurd rfl hmode
  rw [Effect.endsTurn, Effect.endsTurn, hpayload, htype, hkeeps]
  rfl

/-- The job `j` is moved from running to completed between `db` and `db'`. -/
structure Completes (db db' : Db) (j : Job) : Prop where
  before : db.jobs.get? j.id = some j
  running : j.status = .running
  after : ∃ j', db'.jobs.get? j.id = some j' ∧ j'.status = .completed

/-- The publication of a reply `e` with payload `p` for the job `j`: the fence holds in `db`, the
job is completed, and beyond the frontier no input is marked but the reply's own parent, where a
failed turn had stamped it. -/
structure Publication (db db' : Db) (u : UserId) (e : Effect) (p : Payload) (j : Job) : Prop where
  payload : e.payload = some p
  accepts : FenceAccepts db u e.jobId p j
  completes : Completes db db' j
  marks : ∀ t, p.exactNat? "reply_through_seq" = some t → ∀ m ∈ db.chat.rows, m.inputOf u = true →
    t < m.seq → ∃ m' ∈ db'.chat.rows, m'.seq = m.seq ∧
      (m'.doc.replyStatus = m.doc.replyStatus ∧ m'.doc.replyMessageId = m.doc.replyMessageId ∨
        p.replyParentMessageId = some m.msgId ∧ m.doc.replyErrorClass ≠ "")

/-- How a round moves the reply cursor of its user: never back; and forward only to the frontier of
a reply whose job it completes, or by a compatibility `cursor` effect. -/
structure CursorMove (db db' : Db) (u : UserId) (eid : String) : Prop where
  mono : (db.runtimeDoc u).replyCursorSeq ≤ (db'.runtimeDoc u).replyCursorSeq
  cause : (db'.runtimeDoc u).replyCursorSeq ≠ (db.runtimeDoc u).replyCursorSeq →
    ∃ e, db.effects.find? eid = some e ∧
      ((∃ p j, e.payload = some p ∧ e.jobId = some j.id ∧ Completes db db' j ∧
        p.exactNat? "reply_through_seq" = some (db'.runtimeDoc u).replyCursorSeq) ∨
      e.effectType = .other "cursor")

/-- A reply that completes its job and moves the cursor to the end of its window, if that is
ahead. -/
theorem CursorMove.of_max {db db' : Db} {u : UserId} {e : Effect} {j : Job}
    (hp : e.payload = some p) (he : db.effects.find? e.effectId = some e)
    (hjob : e.jobId = some j.id)
    (hcompletes : Completes db db' j)
    (hmax : (db'.runtimeDoc u).replyCursorSeq =
      max (db.runtimeDoc u).replyCursorSeq ((p.exactNat? "reply_through_seq").getD 0)) :
    CursorMove db db' u e.effectId := by
  refine ⟨by omega, fun hne => ⟨e, he, .inl ⟨p, j, hp, hjob, hcompletes, ?_⟩⟩⟩
  cases hthrough : p.exactNat? "reply_through_seq" with
  | none => rw [hthrough, Option.getD_none] at hmax; omega
  | some t =>
    rw [hthrough, Option.getD_some] at hmax
    exact congrArg some (by omega)

namespace Db

variable {db : Db} {job : Option JobId} {check : FenceCheck}

/-- A reply that leaves its turn running carries no frontier. -/
theorem transactional_no_frontier {cfg : Config} {u : UserId} {type : EffectType}
    {p : Payload} (h : replyFenceMatches cfg db u job type p = some check)
    (hnone : check.reason = none) (hmode : check.mode = .transactional) :
    p.exactNat? "reply_through_seq" = none := by
  suffices hno : p.get? "reply_through_seq" = none by rw [Payload.exactNat?, hno]
  rw [(replyFenceMatches_spec h).mode] at hmode
  unfold replyModeOf at hmode
  split at hmode
  · unfold replyFenceMatches at h
    dsimp only at h
    split at h
    · next hno _ _ => simpa using hno
    · cases h; cases hnone
  · cases hmode
  · cases hmode
  · split at hmode
    · split at hmode
      · cases hmode
      · cases hmode
      · split at hmode <;> cases hmode
    · next hno => simpa using hno
  · cases hmode

/-- Among the ordinary sinks only the one of `cursor` effects moves the cursor, and forward. -/
theorem ordinarySink_cursor (cfg : Config) (db : Db) (u : UserId) (e : Effect) (p : Payload)
    (d : Delivery) :
    (db.runtimeDoc u).replyCursorSeq ≤ ((ordinarySink cfg db u e p d).runtimeDoc u).replyCursorSeq ∧
      (((ordinarySink cfg db u e p d).runtimeDoc u).replyCursorSeq ≠
        (db.runtimeDoc u).replyCursorSeq → e.effectType = .other "cursor") := by
  obtain h | ⟨n, htype, h⟩ | ⟨r, h⟩ | ⟨msgId, ts, doc, -, h⟩ := ordinarySink_cases cfg db u e p d
  · rw [h]; exact ⟨Nat.le_refl _, fun hne => absurd rfl hne⟩
  · rw [h]
    refine ⟨?_, fun _ => htype⟩
    simp [advanceCursor]
  · rw [h, (enqueueJob_step cfg db r).runtimeDoc]
    exact ⟨Nat.le_refl _, fun hne => absurd rfl hne⟩
  · have hdoc := congrArg Db.runtimeDoc (chatInsert_rest db u msgId ts doc)
    rw [h, show (db.chatInsert u msgId ts doc).1.runtimeDoc = db.runtimeDoc from hdoc]
    exact ⟨Nat.le_refl _, fun hne => absurd rfl hne⟩

theorem get?_completeJob {j : Job} (hj : db.jobs.get? j.id = some j) :
    (db.completeJob j.id).jobs.get? j.id = some (completed db.clock j) := by
  have hrow := updateJobs_rowWrite hj (completed db.clock) (fun _ => rfl) ⟨rfl, rfl, rfl, rfl, rfl⟩
  exact (hrow.rows j.id).trans (if_pos rfl)

theorem completes_of_complete {db done : Db} (db' : Db) {u : UserId}
    {glance : Option String} (hdone : db.completeFinalReplyJob u job check glance = some done)
    (hjobs : db'.jobs = done.jobs) : ∃ j, job = some j.id ∧ Completes db db' j := by
  obtain ⟨j, hjob, hj, -, -, hrun, -, -, -, rfl⟩ := completeFinalReplyJob_eq hdone
  exact ⟨j, hjob, hj, hrun, _, by rw [hjobs]; exact get?_completeJob hj, rfl⟩

theorem publication_of_sink {cfg : Config} {done published : Db} {u : UserId} {e : Effect}
    {p : Payload} {uuid : Nat → String} (hp : e.payload = some p)
    (hcheck : db.replyFenceMatches cfg u e.jobId e.effectType p = some check)
    (hnone : check.reason = none) (hconsumes : check.mode.consumesJob = true)
    (hdone : db.completeFinalReplyJob u e.jobId check p.glanceFingerprint.1 = some done)
    (hpublished : sinkReplyInTransaction cfg done u p uuid = some published) :
    ∃ j, Publication db (published.markApplied e none) u e p j := by
  obtain ⟨j, haccepts⟩ := (replyFenceMatches_spec hcheck).accepts hnone hconsumes
  have hjobs := congrArg Db.jobs (sinkReplyInTransaction_frame hpublished)
  obtain ⟨j', hjob', hcompletes⟩ :=
    completes_of_complete (published.markApplied e none) hdone hjobs
  have hj : j' = j := by
    have hid : j.id = j'.id := by simpa [haccepts.job] using hjob'
    have hbefore := hcompletes.before
    rw [← hid, haccepts.row] at hbefore
    exact (Option.some.inj hbefore).symm
  subst hj
  refine ⟨_, hp, haccepts, hcompletes, ?_⟩
  intro t ht m hm hi hlt
  obtain ⟨parent, hparent, hwrites⟩ := sinkReplyInTransaction_writes hpublished
  rw [← (completeFinalReplyJob_step hdone).chat] at hm
  obtain ⟨m', hm', htouch⟩ := hwrites.rows m.key m (Indexed.mem_rows.mp hm)
  refine ⟨m', (Indexed.find?_eq_some.mp hm').1, htouch.seq, ?_⟩
  obtain hsame | ⟨-, -, ⟨t', ht', -, hle⟩ | ⟨hp', hs⟩⟩ := htouch.marks
  · exact .inl hsame
  · rw [ht] at ht'
    cases ht'
    omega
  · exact .inr ⟨by rw [hparent, hp'], hs⟩

namespace Round

variable {cfg : Config} {db : Db} {u : UserId} {e : Effect} {d : Delivery} {r : Applied}

section

variable (h : Round cfg db u e d r) (he : db.effects.find? e.effectId = some e)
include h he

/-- An effect becomes applied as the kind of effect it was; and one that ends its turn becomes
applied by its publication and in no other way. -/
theorem applied (hopen : e.status.isOpen = true) {e' : Effect}
    (he' : r.db.effects.find? e.effectId = some e') (happ : e'.status = .applied) :
    e'.endsTurn = e.endsTurn ∧ (e.endsTurn = true → ∃ p j, Publication db r.db u e p j) := by
  -- every other outcome leaves another status
  have hnot : ∀ {db' : Db} {x : Effect}, EffectWrite db db' e x → r.db = db' → x.status ≠ .applied →
      False := by
    intro db' x hw hr hne
    rw [hr, hw.find, if_pos rfl] at he'
    cases he'
    exact hne happ
  have hstatus : e.status ≠ .applied := by intro h; rw [h] at hopen; cases hopen
  have herror : ∀ {mid : Db} {outcome : DeliveryOutcome} {b : Bool}, mid.effects = db.effects →
      r = mid.dispatchError e.effectId outcome b → False := by
    intro mid outcome b hmid hr
    obtain ⟨x, hw, hx, -⟩ := dispatchError_write hmid he hopen outcome b
    refine hnot hw (by rw [hr]) ?_
    obtain hx | hx | hx := hx <;> rw [hx]
    · exact hstatus
    · exact nofun
    · exact nofun
  -- what the mark of success makes of the row
  have hmark : ∀ {mid : Db} (results : Option (List Bool)), mid.effects = db.effects →
      r.db = mid.markApplied e results → e'.effectType = e.effectType ∧
        e'.payload = if results.isSome then some resultPayload
          else if e.effectType.legacySensitive then some scrubbedPayload else e.payload := by
    intro mid results hmid hr
    obtain ⟨x, hw, hx, -⟩ := markApplied_write hmid he results true true
    rw [hr, hw.find, if_pos rfl] at he'
    cases he'
    exact ⟨hw.effectType, hx⟩
  cases h with
  | rolledBack =>
    rw [he] at he'
    cases he'
    exact absurd happ hstatus
  | stale =>
    obtain ⟨x, hw, hx, -⟩ := discardStale_write he u false true
    exact (hnot hw rfl (by rw [hx]; exact nofun)).elim
  | unreadable => exact (herror rfl rfl).elim
  | replyFailed outcome dispatched => exact (herror rfl rfl).elim
  | refused reason =>
    obtain ⟨x, hw, hx, -⟩ := discardEffect_write rfl he hopen reason.text false true
    exact (hnot hw rfl (by rw [hx]; exact nofun)).elim
  | voiceEnded p check done _ _ _ _ _ hdone =>
    have hmid : (done.advanceCursor u ((p.exactNat? "reply_through_seq").getD 0)).effects =
        db.effects :=
      (completeFinalReplyJob_step hdone).effects
    obtain ⟨x, hw, hx, -⟩ :=
      discardEffect_write hmid he hopen DiscardReason.voiceCallEnded.text false true
    exact (hnot hw rfl (by rw [hx]; exact nofun)).elim
  | handedOff p check =>
    have hmid := (QueueStep.of_free
      (handoffLegacyChatFinal_blocks cfg db u e.jobId check.claimedBy e.expectedGeneration)).effects
    obtain ⟨x, hw, hx, -⟩ :=
      discardEffect_write hmid he hopen DiscardReason.inputAdvanced.text false true
    exact (hnot hw rfl (by rw [hx]; exact nofun)).elim
  | sinkFailed p check outcome => exact (herror (ordinarySink_effects cfg db u e p d) rfl).elim
  | sinkApplied p check _ hp hcheck hm =>
    obtain ⟨htype, hpayload⟩ := hmark d.results (ordinarySink_effects cfg db u e p d) rfl
    have hends : e.endsTurn = false := by
      rw [Effect.endsTurn, hp, Option.any_some, ← (replyFenceMatches_spec hcheck).mode, hm]
      rfl
    refine ⟨?_, fun ht => by rw [hends] at ht; cases ht⟩
    rw [hends]
    exact endsTurn_of_ordinary htype hpayload hp
      (by rw [← (replyFenceMatches_spec hcheck).mode, hm])
  | replied p check published _ hp hcheck _ hm hpublished =>
    obtain ⟨htype, hpayload⟩ := hmark none (sinkReplyInTransaction_effects hpublished) rfl
    have hmode := (replyFenceMatches_spec hcheck).mode
    refine ⟨endsTurn_of_reply htype hpayload (by rw [← hmode, hm]; exact nofun), fun ht => ?_⟩
    rw [Effect.endsTurn, hp, Option.any_some, ← hmode, hm] at ht
    cases ht
  | published p check done published _ hp hcheck hnone hconsumes hdone hpublished =>
    have hmode := (replyFenceMatches_spec hcheck).mode
    obtain ⟨htype, hpayload⟩ :=
      hmark none ((sinkReplyInTransaction_effects hpublished).trans
          (completeFinalReplyJob_step hdone).effects) rfl
    have hreply : replyModeOf e.effectType p ≠ .ordinary := by
      rw [← hmode]
      intro hord
      rw [hord] at hconsumes
      cases hconsumes
    have hpublication := publication_of_sink hp hcheck hnone hconsumes hdone hpublished
    exact ⟨endsTurn_of_reply htype hpayload hreply, fun _ => ⟨p, hpublication⟩⟩

/-- A round moves the cursor only with the job of a reply that ends its turn. -/
theorem cursor : CursorMove db r.db u e.effectId := by
  have hstill : ∀ {db' : Db}, db'.runtimeDoc = db.runtimeDoc → CursorMove db db' u e.effectId := by
    intro db' hdoc
    refine ⟨by rw [hdoc], fun hne => absurd (by rw [hdoc]) hne⟩
  cases h with
  | rolledBack | stale | refused => exact hstill rfl
  | unreadable | replyFailed => exact hstill (dispatchError_runtimeDoc ..)
  | handedOff p check =>
    exact hstill (QueueStep.of_free
      (handoffLegacyChatFinal_blocks cfg db u e.jobId check.claimedBy
        e.expectedGeneration)).runtimeDoc
  | voiceEnded p check done _ hp _ _ _ hdone =>
    obtain ⟨j, hjob, hcompletes⟩ := completes_of_complete
      ((done.advanceCursor u ((p.exactNat? "reply_through_seq").getD 0)).discardEffect e.effectId
        DiscardReason.voiceCallEnded.text) hdone rfl
    obtain ⟨k, -, -, -, -, -, -, -, -, rfl⟩ := completeFinalReplyJob_eq hdone
    exact .of_max hp he hjob hcompletes
      (by simp [advanceCursor, discardEffect, updateEffect, completeJob, updateJobs])
  | sinkFailed p check outcome =>
    obtain ⟨hmono, hcause⟩ := ordinarySink_cursor cfg db u e p d
    rw [← dispatchError_runtimeDoc (ordinarySink cfg db u e p d) e.effectId outcome true]
      at hmono hcause
    exact ⟨hmono, fun hne => ⟨e, he, .inr (hcause hne)⟩⟩
  | sinkApplied p check =>
    obtain ⟨hmono, hcause⟩ := ordinarySink_cursor cfg db u e p d
    exact ⟨hmono, fun hne => ⟨e, he, .inr (hcause hne)⟩⟩
  | replied p check published _ hp hcheck hnone hm hpublished =>
    obtain ⟨parent, -, hwrites⟩ := sinkReplyInTransaction_writes hpublished
    have hcursor : (published.runtimeDoc u).replyCursorSeq = (db.runtimeDoc u).replyCursorSeq := by
      rw [hwrites.cursor, transactional_no_frontier hcheck hnone hm]
      simp
    exact ⟨hcursor.ge, fun hne => absurd hcursor hne⟩
  | published p check done published _ hp hcheck hnone hconsumes hdone hpublished =>
    have hjobs := congrArg Db.jobs (sinkReplyInTransaction_frame hpublished)
    obtain ⟨j, hjob, hcompletes⟩ := completes_of_complete (published.markApplied e none) hdone hjobs
    obtain ⟨k, -, -, -, -, -, -, -, -, rfl⟩ := completeFinalReplyJob_eq hdone
    obtain ⟨parent, -, hwrites⟩ := sinkReplyInTransaction_writes hpublished
    have hcursor := hwrites.cursor
    exact .of_max hp he hjob hcompletes hcursor

end

end Round

end Db

/-! ## Whole rounds, from the state the loop found -/

namespace Db

variable (db : Db) (u : UserId)

@[simp] theorem materializeRuntime_jobs : (db.materializeRuntime u).jobs = db.jobs := by
  unfold materializeRuntime; split <;> rfl

@[simp] theorem materializeRuntime_chat : (db.materializeRuntime u).chat = db.chat := by
  unfold materializeRuntime; split <;> rfl

@[simp] theorem materializeRuntime_clock : (db.materializeRuntime u).clock = db.clock := by
  unfold materializeRuntime; split <;> rfl

@[simp] theorem materializeRuntime_runtimeDoc :
    (db.materializeRuntime u).runtimeDoc = db.runtimeDoc := by
  unfold materializeRuntime; split <;> rfl

theorem publication_of_materialized {db db' : Db} {v u : UserId} {e : Effect} {p : Payload}
    {j : Job} (h : Publication (db.materializeRuntime v) db' u e p j) :
    Publication db db' u e p j := by
  obtain ⟨hp, ⟨hjob, hrow, hu, hrun, hlease, howner, hfrontier⟩, ⟨hbefore, hrunning, hafter⟩,
    hmarks⟩ := h
  simp only [newestInputSeq, materializeRuntime_jobs, materializeRuntime_clock,
    materializeRuntime_chat] at *
  exact ⟨hp, ⟨hjob, hrow, hu, hrun, hlease, howner, hfrontier⟩, ⟨hbefore, hrunning, hafter⟩, hmarks⟩

theorem applyEffect_jobs (cfg : Config) (db : Db) (u : UserId) (eid : String) (d : Delivery) :
    JobsRun (db.materializeRuntime u).turnIsPristine db.jobs
      (applyEffect cfg db u eid d).db.jobs := by
  obtain ⟨hdb, -⟩ | ⟨e, -, -, -, hround⟩ := applyEffect_round cfg db u eid d
  · rw [hdb, materializeRuntime_jobs]
    exact .refl _
  · have h := hround.jobs
    rwa [materializeRuntime_jobs] at h

theorem applyEffect_cursor (cfg : Config) (db : Db) (u : UserId) (eid : String) (d : Delivery) :
    CursorMove db (applyEffect cfg db u eid d).db u eid := by
  have heffects := (materializeRuntime_step db u).effects
  obtain ⟨hdb, -⟩ | ⟨e, he, -, -, hround⟩ := applyEffect_round cfg db u eid d
  · rw [hdb]
    exact ⟨by simp, fun hne => absurd (by simp) hne⟩
  · obtain rfl := (Indexed.find?_eq_some.mp he).2
    obtain ⟨hmono, hcause⟩ := hround.cursor he
    rw [materializeRuntime_runtimeDoc] at hmono hcause
    refine ⟨hmono, fun hne => ?_⟩
    obtain ⟨x, hx, ⟨p, j, hp, hjob, ⟨hbefore, hrunning, hafter⟩, hthrough⟩ | htype⟩ := hcause hne
    · rw [materializeRuntime_jobs] at hbefore
      exact ⟨x, heffects ▸ hx, .inl ⟨p, j, hp, hjob, ⟨hbefore, hrunning, hafter⟩, hthrough⟩⟩
    · exact ⟨x, heffects ▸ hx, .inr htype⟩

/-- An applied row after a round was there before, or is the round's own open effect. -/
theorem applyEffect_applied {cfg : Config} {db : Db} {u : UserId} {eid : String} {d : Delivery}
    {e' : Effect} (he' : e' ∈ (applyEffect cfg db u eid d).db.effects.rows)
    (happ : e'.status = .applied) :
    e' ∈ db.effects.rows ∨ ∃ e, db.effects.find? eid = some e ∧ e.status.isOpen = true ∧
      e'.effectId = eid ∧ e'.jobId = e.jobId ∧ e'.endsTurn = e.endsTurn ∧
      (e.endsTurn = true → ∃ p j, Publication db (applyEffect cfg db u eid d).db u e p j) := by
  have heffects := (materializeRuntime_step db u).effects
  obtain ⟨hdb, -⟩ | ⟨e, he, hopen, -, hround⟩ := applyEffect_round cfg db u eid d
  · rw [hdb, heffects] at he'
    exact .inl he'
  · obtain rfl := (Indexed.find?_eq_some.mp he).2
    have hfind := Indexed.mem_rows.mp he'
    obtain ⟨hdb, -⟩ | ⟨x, hw, -⟩ := hround.effect he hopen
    · rw [hdb, heffects] at he'
      exact .inl he'
    · rw [hw.find] at hfind
      split at hfind
      · next hid =>
        cases hfind
        have hx : (applyEffect cfg db u e.effectId d).db.effects.find? e.effectId = some e' := by
          rw [hw.find, if_pos rfl]
        obtain ⟨hends, hpub⟩ := hround.applied he hopen hx happ
        refine .inr ⟨e, heffects ▸ he, hopen, hid, hw.jobId, hends, fun ht => ?_⟩
        obtain ⟨p, j, h⟩ := hpub ht
        exact ⟨p, j, publication_of_materialized h⟩
      · rw [heffects] at hfind
        exact .inl (Indexed.mem_rows.mpr hfind)

end Db

/-! ## Runs -/

def Ended (db : Db) (job : JobId) : Prop :=
  ∃ j, db.jobs.get? job = some j ∧ j.status.terminal = true

variable {db db' : Db}

theorem Ended.jobsRun {pristine : JobId → Bool} {job : JobId} (h : Ended db job)
    (hrun : JobsRun pristine db.jobs db'.jobs) : Ended db' job := by
  obtain ⟨j, hj, hterm⟩ := h
  have hrow := hrun job
  rw [hj] at hrow
  exact ⟨j, terminal_stays hrow hterm, hterm⟩

/-- A stale claim may rewrite a finished row, but only to another end. -/
theorem Ended.claimStep {cfg : Config} {db : Db} {p : Pick} {job : JobId} (h : Ended db job) :
    Ended (Db.claimStep cfg db p) job := by
  obtain ⟨j, hj, hterm⟩ := h
  obtain ⟨k, hk, -, rfl | ⟨hpending, -⟩ | hend⟩ := Db.claimStep_row cfg db p hj
  · exact ⟨_, hk, hterm⟩
  · rw [hpending] at hterm
    cases hterm
  · exact ⟨k, hk, by rw [hend]; rfl⟩

/-- The applied effects that end a turn belong to finished jobs, one to a job. -/
structure OnePublication (db : Db) : Prop where
  ended : ∀ e ∈ db.effects.rows, e.endsTurn = true → e.status = .applied → ∃ job,
    e.jobId = some job ∧ Ended db job
  unique : ∀ e ∈ db.effects.rows, ∀ e' ∈ db.effects.rows, e.endsTurn = true → e'.endsTurn = true →
    e.status = .applied → e'.status = .applied → e.jobId = e'.jobId → e = e'

theorem OnePublication.of_rows (h : OnePublication db)
    (hrows : ∀ e ∈ db'.effects.rows, e.status = .applied → e ∈ db.effects.rows)
    (hended : ∀ job, Ended db job → Ended db' job) : OnePublication db' where
  ended e he hends happ := by
    obtain ⟨job, hjob, hend⟩ := h.ended e (hrows e he happ) hends happ
    exact ⟨job, hjob, hended job hend⟩
  unique e he e' he' hends hends' happ happ' :=
    h.unique e (hrows e he happ) e' (hrows e' he' happ') hends hends' happ happ'

/-- The job of a publication was running, so no earlier effect of it can be applied. -/
theorem Publication.not_ended {u : UserId} {e : Effect} {p : Payload} {j : Job}
    (h : Publication db db' u e p j) : ¬ Ended db j.id := by
  rintro ⟨k, hk, hterm⟩
  rw [h.accepts.row] at hk
  cases hk
  rw [h.accepts.running] at hterm
  cases hterm

theorem OnePublication.applyEffect {cfg : Config} {db : Db} (h : OnePublication db) (u : UserId)
    (eid : String) (d : Delivery) : OnePublication (Db.applyEffect cfg db u eid d).db := by
  have hended : ∀ job, Ended db job → Ended (Db.applyEffect cfg db u eid d).db job :=
    fun job hjob => hjob.jobsRun (Db.applyEffect_jobs cfg db u eid d)
  -- the one new applied effect belongs to a job that was running, unlike all the earlier ones
  have hfresh : ∀ e' ∈ (Db.applyEffect cfg db u eid d).db.effects.rows, e'.endsTurn = true →
      e'.status = .applied → e' ∈ db.effects.rows ∨
        e'.effectId = eid ∧ ∃ job, e'.jobId = some job ∧ ¬ Ended db job ∧
          Ended (Db.applyEffect cfg db u eid d).db job := by
    intro e' he' hends happ
    obtain hold | ⟨e, -, -, hid, hjob, hsame, hpub⟩ := Db.applyEffect_applied he' happ
    · exact .inl hold
    · obtain ⟨p, j, hp⟩ := hpub (by rw [← hsame]; exact hends)
      obtain ⟨k, hk, hdone⟩ := hp.completes.after
      exact .inr ⟨hid, j.id, hjob.trans hp.accepts.job, hp.not_ended, k, hk, by rw [hdone]; rfl⟩
  refine ⟨fun e he hends happ => ?_, fun e he e' he' hends hends' happ happ' hjobs => ?_⟩
  · obtain hold | ⟨-, job, hjob, -, hend⟩ := hfresh e he hends happ
    · obtain ⟨job, hjob, hend⟩ := h.ended e hold hends happ
      exact ⟨job, hjob, hended job hend⟩
    · exact ⟨job, hjob, hend⟩
  · obtain hold | ⟨hid, job, hjob, hnot, -⟩ := hfresh e he hends happ <;>
      obtain hold' | ⟨hid', job', hjob', hnot', -⟩ := hfresh e' he' hends' happ'
    · exact h.unique e hold e' hold' hends hends' happ happ' hjobs
    · obtain ⟨k, hk, hend⟩ := h.ended e hold hends happ
      rw [hk, hjob'] at hjobs
      cases hjobs
      exact absurd hend hnot'
    · obtain ⟨k, hk, hend⟩ := h.ended e' hold' hends' happ'
      rw [hjob, hk] at hjobs
      cases hjobs
      exact absurd hend hnot
    · have hfind := Indexed.mem_rows.mp he
      rw [hid.trans hid'.symm, Indexed.mem_rows.mp he'] at hfind
      exact (Option.some.inj hfind).symm

namespace DrainWorld

variable {cfg : Config} {w : DrainWorld}

theorem step_onePublication (h : OnePublication w.db) (l : DrainLabel) :
    OnePublication (w.step cfg l).db := by
  cases l with
  | enqueue r claimedBy =>
    have hjobs : (w.db.effectEnqueue r claimedBy).1.jobs = w.db.jobs := by
      simp only [Db.effectEnqueue]
      split
      · rfl
      · split <;> rfl
    have hrun : JobsRun w.db.turnIsPristine w.db.jobs (w.db.effectEnqueue r claimedBy).1.jobs := by
      rw [hjobs]
      exact .refl _
    refine h.of_rows (fun e he happ => ?_) fun job hjob => hjob.jobsRun hrun
    obtain hold | ⟨-, hnew⟩ := Db.effectEnqueue_find? (Indexed.mem_rows.mp he)
    · exact Indexed.mem_rows.mpr hold
    · have hopen := hnew.isOpen
      rw [happ] at hopen
      cases hopen
  | txn t =>
    have hstep := Db.exec_step cfg w.db t
    exact h.of_rows (fun e he _ => hstep.effects ▸ he) fun job hjob => hjob.jobsRun hstep.rows
  | claim p =>
    have heffects := Db.claimStep_proj cfg w.db p Db.effects fun _ => rfl
    exact h.of_rows (fun e he _ => heffects ▸ he) fun job hjob => hjob.claimStep
  | drain | stop => exact h
  | round pid d =>
    simp only [step]
    split
    · next u eid rest hdr => exact h.applyEffect u eid d
    · exact h

theorem step_applied (h : OutboxInv w) (l : DrainLabel) {e' : Effect}
    (he' : e' ∈ (w.step cfg l).db.effects.rows) (happ : e'.status = .applied)
    (hends : e'.endsTurn = true) :
    e' ∈ w.db.effects.rows ∨ ∃ e p j, w.db.effects.find? e'.effectId = some e ∧
      e.status.isOpen = true ∧
      e.endsTurn = true ∧ Publication w.db (w.step cfg l).db e.userId e p j := by
  cases l with
  | enqueue r claimedBy =>
    obtain hold | ⟨-, hnew⟩ := Db.effectEnqueue_find? (Indexed.mem_rows.mp he')
    · exact .inl (Indexed.mem_rows.mpr hold)
    · have hopen := hnew.isOpen
      rw [happ] at hopen
      cases hopen
  | txn t => exact .inl ((Db.exec_step cfg w.db t).effects ▸ he')
  | claim p =>
    have heffects := Db.claimStep_proj cfg w.db p Db.effects fun _ => rfl
    exact .inl (heffects ▸ he')
  | drain | stop => exact .inl he'
  | round pid d =>
    simp only [step] at he' ⊢
    split at he'
    · next u eid rest hdr =>
      obtain hold | ⟨e, he, hopen, hid, -, hsame, hpub⟩ := Db.applyEffect_applied he' happ
      · exact .inl hold
      · obtain ⟨x, hx, hxu⟩ := (h.listed pid _ hdr).rows eid (by simp)
        rw [he] at hx
        cases hx
        have heends : e.endsTurn = true := by rw [← hsame]; exact hends
        obtain ⟨p, j, hp⟩ := hpub heends
        dsimp only at hxu
        exact .inr ⟨e, p, j, by rw [hid]; exact he, hopen, heends, by rw [hxu]; exact hp⟩
    · exact .inl he'

/-- The publication of a final reply is one point in time. After any run from an empty outbox:
at most one effect of a job that ends its turn is applied; whichever step applies one is its
publication, which moves the job from running to completed under a live lease and the fenced
owner and, unless queued input is preserved, with no input beyond the frontier; and a round moves
the cursor only forward, to the frontier of a reply whose job it completes, or for a `cursor`
effect. -/
theorem publication_is_one_point (cfg : Config) (db : Db) (hdb : db.effects.rows = [])
    (ls : List DrainLabel) :
    let w := run (step cfg) (start db) ls
    (∀ e ∈ w.db.effects.rows, ∀ e' ∈ w.db.effects.rows, e.endsTurn = true → e'.endsTurn = true →
      e.status = .applied → e'.status = .applied → e.jobId = e'.jobId → e = e') ∧
    (∀ l e', e' ∈ (w.step cfg l).db.effects.rows → e'.status = .applied → e'.endsTurn = true →
      e' ∈ w.db.effects.rows ∨ ∃ e p j, w.db.effects.find? e'.effectId = some e ∧
        e.status.isOpen = true ∧
        e.endsTurn = true ∧ Publication w.db (w.step cfg l).db e.userId e p j) ∧
    (∀ pid u eid rest d, w.drainers pid = some ⟨u, eid :: rest⟩ →
      CursorMove w.db (Db.applyEffect cfg w.db u eid d).db u eid) := by
  intro w
  have hinv : OutboxInv w := invariant_all OutboxInv (fun w l h => step_inv h l) (inv_start hdb) ls
  have hempty : OnePublication (start db).db := by
    constructor <;> intro e he <;> simp only [start, hdb] at he <;> cases he
  have hone : OnePublication w.db :=
    invariant_all (fun w : DrainWorld => OnePublication w.db)
      (fun w l h => step_onePublication h l) hempty ls
  exact ⟨hone.unique, fun l e' he' happ hends => step_applied hinv l he' happ hends,
    fun pid u eid rest d _ => Db.applyEffect_cursor cfg w.db u eid d⟩

/-- An input of the user `"u"`. -/
def userMessage (msgId : String) : Db.ChatSend :=
  ⟨"u", msgId, 0, ⟨.user, "chat", "hi", "", "", "", "", "", "", ""⟩, .chat, some "message", none,
    none, none, none⟩

/-- A fenced final reply of worker `"a"` that leaves queued input alone. -/
def preservingReply (parent failure body : String) (generation through : Int) : Payload :=
  ⟨[("envelope", .object [("id", .str body), ("body_ct", .str body)]),
    ("reply_to_message_id", .scalar (.str parent)), ("reply_through_seq", .scalar (.int through)),
    ("turn_failure_error_class", .scalar (.str failure)),
    ("_final_reply_fence", .object [("claimed_by", .str "a"), ("input_generation", .int generation),
      ("through_seq", .int through), ("preserve_queued_input", .bool true)])], .absent⟩

/-- Two inputs; the turn that consumes both fails and says so. Then a third input starts a turn. -/
def failedThenQueued : List DrainLabel :=
  [.txn (.advanceRuntimeState "u" .resident .draining),
    .txn (.advanceRuntimeState "u" .draining .v2),
      .txn (.chatAppendAndEnqueue (userMessage "m1") fun _ => false),
    .txn (.chatAppendAndEnqueue (userMessage "m2") fun _ => false),
    .claim ⟨"a", 1, false⟩, .txn (.markRunning 1 "a"),
    .enqueue ⟨"e1", "u", some 1, .replyFinalFencedV1, 3,
      some (preservingReply "m2" "upstream_unavailable" "r1" 1 2), none⟩ none,
    .drain 0 "u", .round 0 ⟨.ok, none, true, fun _ => ""⟩,
    .txn (.chatAppendAndEnqueue (userMessage "m3") fun _ => false),
    .claim ⟨"a", 2, false⟩, .txn (.markRunning 2 "a"),
    .enqueue ⟨"e2", "u", some 2, .replyFinalFencedV1, 3,
      some (preservingReply "m2" "" "r2" 0 1), none⟩ none,
    .drain 0 "u"]

/-- The reply of the second turn has the frontier `1` and preserves queued input; yet it marks the
message `"m2"` with the number `2`, which the first reply had marked as failed. -/
theorem preserving_reply_marks_beyond_frontier :
    let w := run (step .default) (start (.init ["u"] ⟨false, none⟩)) failedThenQueued
    let w' := w.step .default (.round 0 ⟨.ok, none, true, fun _ => ""⟩)
    (w.db.effects.find? "e2").map (·.status) = some .pendingFencedV1 ∧
      (w'.db.effects.find? "e2").map (·.status) = some .applied ∧
      (w.db.chat.find? ("u", "m2")).map (fun m => (m.seq, m.doc.replyMessageId)) = some (2, "r1") ∧
      (w'.db.chat.find? ("u", "m2")).map (fun m => (m.doc.replyStatus, m.doc.replyMessageId)) =
        some ("replied", "r2") := by
  decide +kernel

/-- In the same run the loop has the second reply before it, and the round applies it. -/
theorem publication_is_one_point_failed_then_queued :
    let w := run (step .default) (start (.init ["u"] ⟨false, none⟩)) failedThenQueued
    let d : Delivery := ⟨.ok, none, true, fun _ => ""⟩
    w.drainers 0 = some ⟨"u", ["e2"]⟩ ∧
      ((w.step .default (.round 0 d)).db.effects.find? "e2").any (fun e => e.status == .applied &&
        e.endsTurn) ∧
      (∀ e', e' ∈ (w.step .default (.round 0 d)).db.effects.rows → e'.status = .applied →
          e'.endsTurn = true →
        e' ∈ w.db.effects.rows ∨ ∃ e p j, w.db.effects.find? e'.effectId = some e ∧
          e.status.isOpen = true ∧
          e.endsTurn = true ∧ Publication w.db (w.step .default (.round 0 d)).db e.userId e p j) ∧
      CursorMove w.db (Db.applyEffect .default w.db "u" "e2" d).db "u" "e2" :=
  have h := publication_is_one_point .default (.init ["u"] ⟨false, none⟩) rfl failedThenQueued
  ⟨by decide +kernel, by decide +kernel, h.2.1 _, h.2.2 0 "u" "e2" [] _ (by decide +kernel)⟩

end DrainWorld

end Feedling
