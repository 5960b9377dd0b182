import Feedling.OrderedTurns

/-!
# The lane of a turn

What the steps of a turn do to the chat lane. An active chat job is the newest one, a live turn is
right about what it has read, and some way to look after the unanswered messages stays open: a step
that ends a chat job without a reply leaves its failure behind.
-/

namespace Feedling

open KeyedTable Runs

namespace Db

variable {db : Db} {u : UserId}

theorem hasActive_iff : db.hasActive u .chat = true ↔
    ∃ k j, db.laneRow u .chat k = some j ∧ j.status.active = true := by
  simp only [hasActive, Serial.any_eq_true, laneRow_eq_some, Job.inLane, Bool.and_eq_true]
  constructor
  · rintro ⟨k, j, hj, hlane, ha⟩
    exact ⟨k, j, ⟨hj, hlane⟩, ha⟩
  · rintro ⟨k, j, ⟨hj, hlane⟩, ha⟩
    exact ⟨k, j, hj, hlane, ha⟩

theorem hasMarker_iff {reason msgId : String} : db.hasMarker u reason msgId = true ↔
    ∃ k j, db.laneRow u .chat k = some j ∧ j.reason = some reason ∧ j.traceId = some msgId ∧
      j.status ≠ .superseded := by
  simp only [hasMarker, Serial.any_eq_true, laneRow_eq_some, Bool.and_eq_true, beq_iff_eq,
    bne_iff_ne]
  constructor
  · rintro ⟨k, j, hj, ⟨⟨hlane, hreason⟩, htrace⟩, hstatus⟩
    exact ⟨k, j, ⟨hj, hlane⟩, hreason, htrace, hstatus⟩
  · rintro ⟨k, j, ⟨hj, hlane⟩, hreason, htrace, hstatus⟩
    exact ⟨k, j, hj, ⟨⟨hlane, hreason⟩, htrace⟩, hstatus⟩

variable {m : ChatRow}

theorem unanswered_iff : db.unanswered u m = true ↔
    m.inputOf u = true ∧ (db.runtimeDoc u).replyCursorSeq < m.seq ∧ m.replied = false := by
  simp [unanswered, and_assoc]

theorem latestUnanswered_eq_some : db.latestUnanswered u = some m ↔
    m ∈ db.chat.rows ∧ (db.unanswered u m && m.doc.source != "verify_ping") = true ∧
      ∀ x ∈ db.chat.rows, (db.unanswered u x && x.doc.source != "verify_ping") = true →
        x.seq ≤ m.seq :=
  getLast?_filter_eq_some db.chat.sorted

theorem exists_latestUnanswered (hm : m ∈ db.chat.rows)
    (h : (db.unanswered u m && m.doc.source != "verify_ping") = true) :
    ∃ x, db.latestUnanswered u = some x ∧ m.seq ≤ x.seq :=
  exists_getLast?_filter db.chat.sorted hm h

theorem latestUnanswered_congr {db' : Db} (hchat : db'.chat = db.chat)
    (hdoc : db'.runtimeDoc = db.runtimeDoc) : db'.latestUnanswered u = db.latestUnanswered u := by
  rw [latestUnanswered, latestUnanswered, hchat]
  unfold unanswered
  rw [hdoc]

/-- The failure of a chat job names a frontier no genuine input is beyond. -/
theorem latestGenuineInput_max (hm : m ∈ db.chat.rows) (hu : m.inputOf u = true)
    (hping : m.doc.source ≠ "verify_ping") (hmaint : m.doc.source ≠ "resident_maintenance") :
    ∃ x, db.latestGenuineInput u = some x ∧ m.seq ≤ x.seq :=
  exists_getLast?_filter db.chat.sorted hm (by simp [hu, hping, hmaint])

end Db

/-! ## Steps on the lane -/

/-- No open effect appears, and none changes what it is. -/
def OpenEffectsFrom (db db' : Db) : Prop :=
  ∀ i e', db'.effects.find? i = some e' → e'.status.isOpen = true →
    ∃ e, db.effects.find? i = some e ∧ e.status.isOpen = true ∧ e'.userId = e.userId ∧
      e'.jobId = e.jobId ∧ e'.effectType = e.effectType ∧ e'.payload = e.payload

theorem OpenEffectsFrom.of_eq {db db' : Db} (h : db'.effects = db.effects) :
    OpenEffectsFrom db db' :=
  fun i e' he hopen => ⟨e', by rw [← h]; exact he, hopen, rfl, rfl, rfl, rfl⟩

/-- What every step that is not a step of a turn does to the lane: rows move or are new, and the
cursor does not go back. -/
structure LaneChange (u : UserId) (g : Nat) (done : JobId → Prop) (db db' : Db) : Prop where
  runtime : db'.runtime = db.runtime
  mode : (db'.runtimeDoc u).hostedRuntimeMode = (db.runtimeDoc u).hostedRuntimeMode
  cursor : (db.runtimeDoc u).replyCursorSeq ≤ (db'.runtimeDoc u).replyCursorSeq
  effects : OpenEffectsFrom db db'
  rows : ∀ k j, db.jobs.get? k = some j → ∃ j', db'.jobs.get? k = some j' ∧ SameJob j j'
  moves : ∀ k i, db.laneRow u .chat k = some i → ∃ j, db'.laneRow u .chat k = some j ∧
    ChatMove g (done k) i j
  fresh : ∀ k j, db'.laneRow u .chat k = some j → db.laneRow u .chat k = none →
    j.status = .pending ∧ j.pins g = true
  one : OneActive u db'
  notes : ∀ f ∈ db'.failures.rows, f ∈ db.failures.rows ∨ (∃ j, db'.jobs.get? f.jobId = some j) ∧
    ∀ j, db'.laneRow u .chat f.jobId = some j → j.status.active = false

/-- A step that adds no row to the lane and leaves chat log and cursor alone. -/
structure MoveStep (u : UserId) (g : Nat) (done : JobId → Prop) (db db' : Db) : Prop where
  runtime : db'.runtime = db.runtime
  runtimeDoc : db'.runtimeDoc = db.runtimeDoc
  chat : db'.chat = db.chat
  effects : OpenEffectsFrom db db'
  rows : ∀ k j, db.jobs.get? k = some j → ∃ j', db'.jobs.get? k = some j' ∧ SameJob j j'
  moves : ChatMoves u g done db db'
  keeps : ∀ f ∈ db.failures.rows, f ∈ db'.failures.rows
  notes : ∀ f ∈ db'.failures.rows, f ∈ db.failures.rows ∨ (∃ j, db'.jobs.get? f.jobId = some j) ∧
    ∀ j, db'.laneRow u .chat f.jobId = some j → j.status.active = false ∧
      f = db.chatFailure u f.jobId

/-- Such a step that completes no chat job, and ends none without its failure. -/
structure QuietStep (u : UserId) (g : Nat) (db db' : Db) :
    Prop extends MoveStep u g (fun _ => False) db db' where
  noted : Noted u db db'

section Build

variable {u : UserId} {g : Nat} {done : JobId → Prop} {db db' : Db}

theorem MoveStep.of_chatStep (h : ChatStep u g done db db') : MoveStep u g done db db' :=
  ⟨h.queue.runtime, h.queue.runtimeDoc, h.queue.chat, .of_eq h.queue.effects,
    fun _ _ hj => h.queue.rows.sameJob hj, h.moves, h.keeps, h.notes⟩

theorem MoveStep.laneChange (h : MoveStep u g done db db') (hone : OneActive u db) :
    LaneChange u g done db db' where
  runtime := h.runtime
  mode := by rw [h.runtimeDoc]
  cursor := by rw [h.runtimeDoc]
  effects := h.effects
  rows := h.rows
  moves := h.moves.moves
  fresh k j hj hn := by rw [h.moves.absent k hn] at hj; cases hj
  one := hone.moves h.moves
  notes f hf := (h.notes f hf).imp_right fun hnote => ⟨hnote.1, fun j hj => (hnote.2 j hj).1⟩

theorem QuietStep.of_chatStep (h : ChatStep u g (fun _ => False) db db') (hn : Noted u db db') :
    QuietStep u g db db' :=
  ⟨.of_chatStep h, hn⟩

theorem QuietStep.of_blocks (h : Db.Blocks .offChat db db') : QuietStep u g db db' := by
  have hstep : ChatStep u g (fun _ => False) db db' ∧ Noted u db db' := h.offChat
  exact .of_chatStep hstep.1 hstep.2

theorem QuietStep.of_frame (hruntime : db'.runtime = db.runtime)
    (hdoc : db'.runtimeDoc = db.runtimeDoc) (hchat : db'.chat = db.chat)
    (heffects : OpenEffectsFrom db db') (hjobs : db'.jobs = db.jobs)
    (hfailures : db'.failures = db.failures) : QuietStep u g db db' where
  runtime := hruntime
  runtimeDoc := hdoc
  chat := hchat
  effects := heffects
  rows k j hj := ⟨j, by rw [hjobs]; exact hj, .refl j⟩
  moves := .of_eq fun _ => Db.laneRow_congr hjobs
  keeps f hf := by rw [hfailures]; exact hf
  notes f hf := .inl (by rw [← hfailures]; exact hf)
  noted := .of_active fun k i hi ha => ⟨i, by rw [Db.laneRow_congr hjobs]; exact hi, ha⟩

theorem QuietStep.refl (db : Db) : QuietStep u g db db := .of_frame rfl rfl rfl (.of_eq rfl) rfl rfl

theorem LaneChange.of_chat (hone : OneActive u db) (hframe : { db' with chat := db.chat } = db) :
    LaneChange u g done db db' := by
  have hruntime := congrArg Db.runtime hframe
  have hdoc := congrArg Db.runtimeDoc hframe
  have heffects := congrArg Db.effects hframe
  have hjobs : db'.jobs = db.jobs := by
    have h := congrArg Db.jobs hframe
    exact h
  have hfailures := congrArg Db.failures hframe
  have hrow : ∀ k, db'.laneRow u .chat k = db.laneRow u .chat k := fun _ => Db.laneRow_congr hjobs
  dsimp only at hruntime hdoc heffects hfailures
  refine ⟨hruntime,
    by rw [hdoc], by rw [hdoc], .of_eq heffects, fun k j hj => ⟨j,
      by rw [hjobs]; exact hj, .refl j⟩,
    fun k i hi => ⟨i, (hrow k).trans hi, .refl i⟩, fun k j hj hn => ?_, fun k k' i i' hi hi' => ?_,
    fun f hf => .inl (hfailures ▸ hf)⟩
  · rw [hrow, hn] at hj
    cases hj
  · rw [hrow] at hi hi'
    exact hone k k' i i' hi hi'

theorem LaneChange.of_enqueued (h : ChatEnqueued u g done db db') : LaneChange u g done db db' where
  runtime := h.queue.runtime
  mode := by rw [h.queue.runtimeDoc]
  cursor := by rw [h.queue.runtimeDoc]
  effects := .of_eq h.queue.effects
  rows _ _ hj := h.queue.rows.sameJob hj
  moves k i hi := by
    obtain ⟨j, hj, hmove, -⟩ := h.moves k i hi
    exact ⟨j, hj, hmove⟩
  fresh := h.fresh
  one := h.one
  notes f hf := (h.notes f hf).imp_right fun hnote => ⟨hnote.1, fun j hj => (hnote.2 j hj).1⟩

end Build

/-! ## The invariant -/

/-- What a live turn of the job `j` knows is still true. -/
structure TurnOk (cursor : Nat) (t : Turn) (j : Job) : Prop where
  stage : 2 ≤ j.status.stage
  since : ∀ s, t.sinceSeq = some s → s ≤ cursor
  generation : ∀ n, t.observedGeneration = some n → n ≤ j.inputGeneration
  read : t.input ≠ .unread → t.observedGeneration.isSome = true
  published : j.status = .completed → ∃ s, t.input.seq? = some s ∧ s ≤ cursor

/-- An open effect is the final reply of a chat turn, to the message the turn pinned. -/
structure TurnReply (u : UserId) (db : Db) (turns : JobId → Option Turn) (e : Effect) (k : JobId)
    (seq : Nat) (p : Payload) : Prop where
  job : e.jobId = some k
  row : ∃ j, db.laneRow u .chat k = some j ∧ 2 ≤ j.status.stage
  type : e.effectType = .replyFinalFencedV1
  payload : e.payload = some p
  through : p.exactNat? "reply_through_seq" = some seq
  turn : ∀ t, turns k = some t → t.input.seq? = some seq

structure LaneInv (u : UserId) (g : Nat) (w : ReplyWorld) : Prop where
  runtime : w.db.runtime u = some ⟨.v2, g⟩
  mode : (w.db.runtimeDoc u).hostedRuntimeMode = "db_action_v2"
  one : OneActive u w.db
  pins : ∀ k i, w.db.laneRow u .chat k = some i → i.status.active = true → i.pins g = true
  failures : ∀ f ∈ w.db.failures.rows, (∃ j, w.db.jobs.get? f.jobId = some j) ∧
    ∀ j, w.db.laneRow u .chat f.jobId = some j → j.status.active = false
  inputs : ∀ m ∈ w.db.chat.rows, m.inputOf u = true →
    m.doc.source ≠ "verify_ping" ∧ (m.doc.replyErrorClass ≠ "" → m.replied = true)
  turns : ∀ k t, w.turns k = some t →
    ∃ j, w.db.laneRow u .chat k = some j ∧ TurnOk (w.db.runtimeDoc u).replyCursorSeq t j
  effects : ∀ i e, w.db.effects.find? i = some e → e.userId = u → e.status.isOpen = true →
    ∃ k seq p, TurnReply u w.db w.turns e k seq p
  candidates : ∀ c ∈ w.candidates, c.generation = g

namespace LaneInv

variable {u : UserId} {g : Nat} {w : ReplyWorld}

/-- A change of the lane. Turns only end, and a turn whose job the change completes has pinned a
message that is now behind the cursor. -/
theorem change (h : LaneInv u g w) {done : JobId → Prop} {db' : Db} {turns' : JobId → Option Turn}
    {candidates' : List Db.Candidate} (hc : LaneChange u g done w.db db')
    (hinputs : ∀ m ∈ db'.chat.rows, m.inputOf u = true →
      m.doc.source ≠ "verify_ping" ∧ (m.doc.replyErrorClass ≠ "" → m.replied = true))
    (hturns : ∀ k t, turns' k = some t → w.turns k = some t ∧
      (done k → ∃ s, t.input.seq? = some s ∧ s ≤ (db'.runtimeDoc u).replyCursorSeq))
    (hcandidates : ∀ c ∈ candidates', c ∈ w.candidates) :
    LaneInv u g ⟨db', turns', candidates'⟩ where
  runtime := by rw [hc.runtime]; exact h.runtime
  mode := hc.mode.trans h.mode
  one := hc.one
  pins k j hj ha := by
    cases hi : w.db.laneRow u .chat k with
    | none => exact (hc.fresh k j hj hi).2
    | some i =>
      obtain ⟨j', hj', hmove⟩ := hc.moves k i hi
      rw [hj] at hj'
      cases hj'
      exact hmove.pins ha (h.pins k i hi (hmove.active_before ha))
  failures f hf := by
    obtain hold | hnew := hc.notes f hf
    · obtain ⟨⟨i, hi⟩, hended⟩ := h.failures f hold
      obtain ⟨i', hi', hsame⟩ := hc.rows f.jobId i hi
      refine ⟨⟨i', hi'⟩, fun j hj => ?_⟩
      -- the row was there and keeps its lane, so it was on the lane before
      obtain ⟨hget, hlane⟩ := Db.laneRow_eq_some.mp hj
      rw [hi'] at hget
      cases hget
      have hbefore := Db.laneRow_eq_some.mpr ⟨hi, (hsame.inLane u .chat).symm.trans hlane⟩
      obtain ⟨j', hj', hmove⟩ := hc.moves f.jobId i hbefore
      rw [hj] at hj'
      cases hj'
      rw [hmove.ended (hended i hbefore)]
      exact hended i hbefore
    · exact hnew
  inputs := hinputs
  turns k t ht := by
    obtain ⟨hold, hdone⟩ := hturns k t ht
    obtain ⟨i, hi, hok⟩ := h.turns k t hold
    obtain ⟨j, hj, hmove⟩ := hc.moves k i hi
    refine ⟨j, hj, hok.stage.trans hmove.stage, fun s hs => (hok.since s hs).trans hc.cursor,
      fun n hn => (hok.generation n hn).trans hmove.generation, hok.read, fun hcompleted => ?_⟩
    obtain hbefore | hd := hmove.completes hcompleted
    · obtain ⟨s, hs, hle⟩ := hok.published hbefore
      exact ⟨s, hs, hle.trans hc.cursor⟩
    · exact hdone hd
  effects i e' he' hu hopen := by
    obtain ⟨e, he, heopen, huser, hjob, htype, hpayload⟩ := hc.effects i e' he' hopen
    obtain ⟨k, seq, p, hreply⟩ := h.effects i e he (huser ▸ hu) heopen
    obtain ⟨i, hi, hstage⟩ := hreply.row
    obtain ⟨j, hj, hmove⟩ := hc.moves k i hi
    exact ⟨k, seq, p, hjob.trans hreply.job, ⟨j, hj, hstage.trans hmove.stage⟩,
      htype.trans hreply.type, hpayload.trans hreply.payload, hreply.through,
        fun t ht => hreply.turn t (hturns k t ht).1⟩
  candidates c hc' := h.candidates c (hcandidates c hc')

end LaneInv

/-- A turn that found no input is right about that, or has not yet seen the generation that
brought some. -/
def IdleOk (u : UserId) (w : ReplyWorld) : Prop :=
  ∀ k t n j, w.turns k = some t → t.input = .nothing → t.observedGeneration = some n →
    w.db.laneRow u .chat k = some j → j.status = .running →
    (∀ m ∈ w.db.chat.rows, m.inputOf u = true → m.seq ≤ (w.db.runtimeDoc u).replyCursorSeq) ∨
      n < j.inputGeneration

variable {g : Nat}

theorem ChatMove.running_before {done : Prop} {i j : Job} (h : ChatMove g done i j)
    (hstage : 2 ≤ i.status.stage) (hrun : j.status = .running) : i.status = .running := by
  have hle := h.stage
  rw [hrun] at hle
  cases hi : i.status <;> rw [hi] at hle hstage <;> simp only [JobStatus.stage] at hle hstage <;>
    first | rfl | omega

variable {u : UserId}

theorem IdleOk.change {w : ReplyWorld} (h : IdleOk u w) (hw : LaneInv u g w)
    {done : JobId → Prop} {db' : Db} {turns' : JobId → Option Turn}
    {candidates' : List Db.Candidate}
    (hc : LaneChange u g done w.db db')
    (hinputs : ∀ m' ∈ db'.chat.rows, m'.inputOf u = true →
      ∃ m ∈ w.db.chat.rows, m.inputOf u = true ∧ m.seq = m'.seq)
    (hturns : ∀ k t, turns' k = some t → w.turns k = some t) :
    IdleOk u ⟨db', turns', candidates'⟩ := by
  intro k t n j ht hinput hn hj hrun
  obtain ⟨i, hi, hok⟩ := hw.turns k t (hturns k t ht)
  obtain ⟨j', hj', hmove⟩ := hc.moves k i hi
  dsimp only at hj
  rw [hj] at hj'
  cases hj'
  obtain hnone | hlt := h k t n i (hturns k t ht) hinput hn hi (hmove.running_before hok.stage hrun)
  · refine .inl fun m' hm' hu => ?_
    obtain ⟨m, hm, hu', hseq⟩ := hinputs m' hm' hu
    rw [← hseq]
    exact (hnone m hm hu').trans hc.cursor
  · exact .inr (hlt.trans_le hmove.generation)

/-! ## Coverage -/

/-- No catch-up for the newest unanswered message was ever enqueued. -/
def NetFree (u : UserId) (db : Db) : Prop :=
  ∀ m, db.latestUnanswered u = some m → db.hasMarker u "reconcile" m.msgId = false ∧
    db.hasMarker u "mutation_recovery" m.msgId = false

/-- Some one of the four ways to look after the unanswered messages is open. -/
def Covered (u : UserId) (w : ReplyWorld) : Prop :=
  w.db.hasActive u .chat = true ∨ w.FollowupPending u ∨ NetFree u w.db ∨
    ∀ m ∈ w.db.chat.rows, w.db.unanswered u m = true → ReplyWorld.FailureCovers u w.db m

theorem hasMarker_before {done : JobId → Prop} {db db' : Db} (h : ChatMoves u g done db db')
    {reason msgId : String} (hm : db.hasMarker u reason msgId = false) :
    db'.hasMarker u reason msgId = false := by
  rw [← Bool.not_eq_true, Db.hasMarker_iff] at hm ⊢
  rintro ⟨k, j, hj, hreason, htrace, hstatus⟩
  obtain ⟨i, hi, hmove⟩ := h.before hj
  refine hm ⟨k, i, hi, hmove.same.reason.symm.trans hreason, hmove.same.traceId.symm.trans htrace,
    fun hs => ?_⟩
  rw [hmove.ended (by rw [hs]; rfl)] at hstatus
  exact hstatus hs

/-- The failure of the newest chat job covers all input so far. -/
theorem LaneInv.chatFailure_covers {w : ReplyWorld} (h : LaneInv u g w) {db' : Db} {k : JobId}
    (hf : w.db.chatFailure u k ∈ db'.failures.rows)
    (hended : ∃ j, db'.laneRow u .chat k = some j ∧ j.status.active = false)
    (hnewest : ∀ k' j, db'.laneRow u .chat k' = some j → k' ≤ k) {m : ChatRow}
    (hm : m ∈ w.db.chat.rows) (hu : m.inputOf u = true) : ReplyWorld.FailureCovers u db' m := by
  refine ⟨_, hf, rfl, hended, hnewest, fun hmaint => ?_⟩
  obtain ⟨x, hx, hle⟩ := Db.latestGenuineInput_max hm hu (h.inputs m hm hu).1 hmaint
  exact ⟨x.seq, by rw [Db.chatFailure, hx]; rfl, hle⟩

namespace QuietStep

variable {u : UserId} {g : Nat} {w : ReplyWorld} {db' : Db} {turns' : JobId → Option Turn}
  {candidates' : List Db.Candidate}

theorem followup (h : QuietStep u g w.db db')
    (hturns : ∀ k t j, w.turns k = some t → t.input.seq?.isSome = true →
      w.db.laneRow u .chat k = some j →
      j.status = .completed → ∃ t', turns' k = some t' ∧ t'.input.seq?.isSome = true)
    (hf : w.FollowupPending u) : ReplyWorld.FollowupPending u ⟨db', turns', candidates'⟩ := by
  obtain ⟨k, t, i, ht, hpinned, hi, hcompleted⟩ := hf
  obtain ⟨j, hj, hmove⟩ := h.moves.moves k i hi
  obtain ⟨t', ht', hpinned'⟩ := hturns k t i ht hpinned hi hcompleted
  exact ⟨k, t', j, ht', hpinned', hj, (hmove.ended (by rw [hcompleted]; rfl)).trans hcompleted⟩

theorem netFree (h : QuietStep u g w.db db') (hn : NetFree u w.db) : NetFree u db' := by
  intro m hm
  rw [Db.latestUnanswered_congr h.chat h.runtimeDoc] at hm
  obtain ⟨hreconcile, hrecovery⟩ := hn m hm
  exact ⟨hasMarker_before h.moves hreconcile, hasMarker_before h.moves hrecovery⟩

/-- A quiet step keeps the coverage: a chat job that it ends leaves a failure. -/
theorem covered (h : QuietStep u g w.db db') (hw : LaneInv u g w)
    (hturns : ∀ k t j, w.turns k = some t → t.input.seq?.isSome = true →
      w.db.laneRow u .chat k = some j →
      j.status = .completed → ∃ t', turns' k = some t' ∧ t'.input.seq?.isSome = true)
    (hc : Covered u w) : Covered u ⟨db', turns', candidates'⟩ := by
  obtain hactive | hfollow | hnet | hfail := hc
  · obtain ⟨k, i, hi, ha⟩ := Db.hasActive_iff.mp hactive
    obtain ⟨j, hj, -⟩ := h.moves.moves k i hi
    by_cases hja : j.status.active = true
    · exact .inl (Db.hasActive_iff.mpr ⟨k, j, hj, hja⟩)
    · rw [Bool.not_eq_true] at hja
      obtain ⟨f, hf, hfk⟩ := h.noted k i j hi ha hj hja
      obtain hold | ⟨-, hnote⟩ := h.notes f hf
      · have hended := (hw.failures f hold).2 i (by rw [hfk]; exact hi)
        rw [ha] at hended
        cases hended
      · have heq := (hnote j (by rw [hfk]; exact hj)).2
        have hnewest : ∀ k' j', db'.laneRow u .chat k' = some j' → k' ≤ k := by
          intro k' j' hj'
          obtain ⟨i', hi', -⟩ := h.moves.before hj'
          exact hw.one k k' i i' hi hi' ha
        rw [hfk] at heq
        refine .inr (.inr (.inr fun m hm hopen => ?_))
        rw [h.chat] at hm
        exact hw.chatFailure_covers (heq ▸ hf) ⟨j, hj,
          hja⟩ hnewest hm (Db.unanswered_iff.mp hopen).1
  · exact .inr (.inl (h.followup hturns hfollow))
  · exact .inr (.inr (.inl (h.netFree hnet)))
  · refine .inr (.inr (.inr fun m hm hopen => ?_))
    have hbefore : w.db.unanswered u m = true := by
      rw [Db.unanswered_iff] at hopen ⊢
      rwa [h.runtimeDoc] at hopen
    rw [h.chat] at hm
    obtain ⟨f, hf, hu, ⟨i, hi, hended⟩, hnewest, hcovers⟩ := hfail m hm hbefore
    obtain ⟨j, hj, hmove⟩ := h.moves.moves f.jobId i hi
    refine ⟨f, h.keeps f hf, hu, ⟨j, hj, by rw [hmove.ended hended]; exact hended⟩,
      fun k l hl => ?_, hcovers⟩
    obtain ⟨l₀, hl₀, -⟩ := h.moves.before hl
    exact hnewest k l₀ hl₀

end QuietStep

/-! ## Steps that leave the turns alone or end them -/

/-- The two invariants that hold in every run. -/
structure TurnsInv (u : UserId) (g : Nat) (w : ReplyWorld) : Prop where
  lane : LaneInv u g w
  idle : IdleOk u w

/-- What a step of a turn keeps, whatever the net holds. -/
structure Keeps (u : UserId) (g : Nat) (w w' : ReplyWorld) : Prop where
  inv : TurnsInv u g w'
  covered : Covered u w → Covered u w'

theorem Keeps.refl {u : UserId} {g : Nat} {w : ReplyWorld} (h : TurnsInv u g w) : Keeps u g w w :=
  ⟨h, id⟩

section

variable {u : UserId} {g : Nat} {w : ReplyWorld} {db' : Db} {turns' : JobId → Option Turn}
  {candidates' : List Db.Candidate}

/-- A change of the lane that leaves the chat log alone and completes the job of no turn. -/
theorem TurnsInv.change (h : TurnsInv u g w) {done : JobId → Prop}
    (hc : LaneChange u g done w.db db') (hchat : db'.chat = w.db.chat)
    (hturns : ∀ k t, turns' k = some t → w.turns k = some t ∧ ¬ done k)
    (hcandidates : ∀ c ∈ candidates', c ∈ w.candidates) :
    TurnsInv u g ⟨db', turns', candidates'⟩ := by
  refine ⟨h.lane.change hc ?_ (fun k t ht => ⟨(hturns k t ht).1,
      fun hd => absurd hd (hturns k t ht).2⟩)
    hcandidates, h.idle.change h.lane hc ?_ fun k t ht => (hturns k t ht).1⟩
  · rw [hchat]
    exact h.lane.inputs
  · rw [hchat]
    exact fun m hm hu => ⟨m, hm, hu, rfl⟩

end

namespace ReplyWorld

variable {cfg : Config} {u : UserId} {g : Nat} {w : ReplyWorld} {db' : Db}
  {turns' : JobId → Option Turn} {candidates' : List Db.Candidate} {job : JobId}

theorem quiet_inv (h : TurnsInv u g w) (hq : QuietStep u g w.db db')
    (hturns : ∀ k t, turns' k = some t → w.turns k = some t)
    (hcandidates : ∀ c ∈ candidates', c ∈ w.candidates) :
    TurnsInv u g ⟨db', turns', candidates'⟩ := by
  exact h.change (hq.laneChange h.lane.one) hq.chat (fun k t ht => ⟨hturns k t ht, id⟩) hcandidates

variable {t : Turn}

theorem quiet_keeps (h : TurnsInv u g w) (hq : QuietStep u g w.db db') :
    Keeps u g w { w with db := db' } :=
  ⟨quiet_inv h hq (fun _ _ ht => ht) fun _ hc => hc,
    hq.covered h.lane fun _ t _ ht hpinned _ _ => ⟨t, ht, hpinned⟩⟩

theorem setTurn_cases {k : JobId} {x : Option Turn} (h : (w.setTurn job x).turns k = some t) :
    k = job ∧ x = some t ∨ k ≠ job ∧ w.turns k = some t := by
  by_cases hk : k = job
  · rw [hk, setTurn_same] at h
    exact .inl ⟨hk, h⟩
  · rw [setTurn_other w x hk] at h
    exact .inr ⟨hk, h⟩

theorem setTurn_none {k : JobId} (h : (w.setTurn job none).turns k = some t) :
    w.turns k = some t ∧ k ≠ job := by
  obtain ⟨-, hnone⟩ | ⟨hk, ht⟩ := setTurn_cases h
  · cases hnone
  · exact ⟨ht, hk⟩

/-- The end of a turn is no step of the database. -/
theorem drop_inv (h : TurnsInv u g w) (job : JobId) : TurnsInv u g (w.setTurn job none) :=
  quiet_inv h (.refl w.db) (fun _ _ ht => (setTurn_none ht).1) fun _ hc => hc

variable {db : Db}

theorem netFree_of_netHolds {seq : Nat} (h : netHolds u db seq = true)
    (hseq : seq ≤ (db.runtimeDoc u).replyCursorSeq) : NetFree u db := by
  intro m hm
  rw [netHolds, hm, Option.all_some, Bool.or_eq_true, decide_eq_true_eq] at h
  obtain hle | hfree := h
  · have hopen := (Bool.and_eq_true _ _ ▸ (Db.latestUnanswered_eq_some.mp hm).2.1).1
    have hlt := (Db.unanswered_iff.mp hopen).2.1
    omega
  · simpa using hfree

theorem drop_covered (h : TurnsInv u g w) (hc : Covered u w)
    (hok : ∀ t j s, w.turns job = some t → w.db.laneRow u .chat job = some j →
      j.status = .completed →
      t.input.seq? = some s → netHolds u w.db s = true) : Covered u (w.setTurn job none) := by
  obtain hactive | ⟨k, t, j, ht, hpinned, hj, hcompleted⟩ | hrest := hc
  · exact .inl hactive
  · by_cases hk : k = job
    · subst hk
      obtain ⟨j', hj', hturn⟩ := h.lane.turns k t ht
      rw [hj] at hj'
      cases hj'
      obtain ⟨s, hs, hle⟩ := hturn.published hcompleted
      exact .inr (.inr (.inl (netFree_of_netHolds (hok t j s ht hj hcompleted hs) hle)))
    · refine .inr (.inl ⟨k, t, j, ?_, hpinned, hj, hcompleted⟩)
      rw [setTurn_other w none hk]
      exact ht
  · exact .inr (.inr hrest)

theorem netHolds_of_turn {l : ReplyLabel} (hl : netHoldsAt u w l) {s : Nat}
    (hs : leavesToNet u w l = some s) : netHolds u w.db s = true := by
  rw [netHoldsAt, hs] at hl
  exact hl

theorem crash_netHolds (hl : netHoldsAt u w (.crash job)) {j : Job} {s : Nat}
    (ht : w.turns job = some t) (hj : w.db.laneRow u .chat job = some j)
    (hcompleted : j.status = .completed) (hs : t.input.seq? = some s) :
    netHolds u w.db s = true := by
  refine netHolds_of_turn hl ?_
  simp [leavesToNet, ht, hj, hcompleted, hs]

/-! ## The owner, the watchdog and the reaper -/

theorem claimHead_quiet (h : LaneInv u g w) (worker : WorkerId) (job : JobId) :
    QuietStep u g w.db (Db.claimHead cfg w.db worker job) := by
  have hproj {α : Type} (f : Db → α) (hf) : f (Db.claimHead cfg w.db worker job) = f w.db :=
    Db.claimStep_proj cfg w.db ⟨worker, job, false⟩ f hf
  have hfailures := hproj Db.failures fun _ => rfl
  have hchat : ChatMoves u g (fun _ => False) w.db _ ∧ _ :=
    Db.claimHead_chat cfg worker job h.runtime h.pins
  refine ⟨⟨hproj Db.runtime fun _ => rfl, hproj Db.runtimeDoc fun _ => rfl,
      hproj Db.chat fun _ => rfl,
    .of_eq (hproj Db.effects fun _ => rfl), fun k j hj => ?_, hchat.1,
    fun f hf =>
      by rw [hfailures]; exact hf, fun f hf => .inl (by rw [← hfailures]; exact hf)⟩, hchat.2⟩
  obtain ⟨j', hj', hsame, -⟩ := Db.claimStep_row cfg w.db ⟨worker, job, false⟩ hj
  exact ⟨j', hj', hsame⟩

/-! ## The steps of a turn -/

theorem inTurn_of {P : ReplyWorld → Prop} {f : Turn → ReplyWorld} (h : P w)
    (hf : ∀ t, w.turns job = some t → P (f t)) : P (w.inTurn job f) := by
  unfold inTurn
  cases ht : w.turns job with
  | none => exact h
  | some t => exact hf t ht

section

variable (h : TurnsInv u g w)
include h

/-- The turn of the job goes on: what it knows now is true, and it keeps to its message. -/
theorem setTurn_inv {t' : Turn} {j : Job} (hj : w.db.laneRow u .chat job = some j)
    (hok : TurnOk (w.db.runtimeDoc u).replyCursorSeq t' j)
    (heffects : ∀ i e seq p, w.db.effects.find? i = some e → e.userId = u → e.status.isOpen = true →
      TurnReply u w.db w.turns e job seq p → t'.input.seq? = some seq)
    (hidle : ∀ n, t'.input = .nothing → t'.observedGeneration = some n → j.status = .running →
      (∀ m ∈ w.db.chat.rows, m.inputOf u = true → m.seq ≤ (w.db.runtimeDoc u).replyCursorSeq) ∨
        n < j.inputGeneration) :
    TurnsInv u g (w.setTurn job (some t')) := by
  refine ⟨⟨h.lane.runtime, h.lane.mode, h.lane.one, h.lane.pins, h.lane.failures, h.lane.inputs,
    fun k t ht => ?_, fun i e he hu hopen => ?_, h.lane.candidates⟩,
      fun k t n i ht hinput hn hi hrun => ?_⟩
  · obtain ⟨rfl, heq⟩ | ⟨-, ht⟩ := setTurn_cases ht
    · cases heq
      exact ⟨j, hj, hok⟩
    · exact h.lane.turns k t ht
  · obtain ⟨k, seq, p, hreply⟩ := h.lane.effects i e he hu hopen
    refine ⟨k, seq, p, hreply.job, hreply.row, hreply.type, hreply.payload, hreply.through,
      fun t ht => ?_⟩
    obtain ⟨rfl, heq⟩ | ⟨-, ht⟩ := setTurn_cases ht
    · cases heq
      exact heffects i e seq p he hu hopen hreply
    · exact hreply.turn t ht
  · rw [setTurn_db] at hi ⊢
    obtain ⟨rfl, heq⟩ | ⟨-, ht⟩ := setTurn_cases ht
    · cases heq
      rw [hj] at hi
      cases hi
      exact hidle n hinput hn hrun
    · exact h.idle k t n i ht hinput hn hi hrun

theorem setTurn_covered (hc : Covered u w) {t t' : Turn} (ht : w.turns job = some t)
    (hinput : t.input.seq?.isSome = true → t'.input.seq?.isSome = true) :
    Covered u (w.setTurn job (some t')) := by
  have hquiet : QuietStep u g w.db w.db := .refl w.db
  refine hquiet.covered h.lane (fun k s j hs hpinned _ _ => ?_) hc
  by_cases hk : k = job
  · subst hk
    rw [ht] at hs
    cases hs
    exact ⟨t', setTurn_same w k _, hinput hpinned⟩
  · exact ⟨s, (setTurn_other w _ hk).trans hs, hpinned⟩

theorem loadCursor_keeps (ht : w.turns job = some t) : Keeps u g w (loadCursor u w job t) := by
  unfold loadCursor
  split
  · obtain ⟨j, hj, hok⟩ := h.lane.turns job t ht
    refine ⟨setTurn_inv h hj ⟨hok.stage, fun s hs => ?_, hok.generation, hok.read, hok.published⟩
      (fun i e seq p _ _ _ hreply => hreply.turn t ht) fun n hinput hn hrun =>
        h.idle job t n j ht hinput hn hj hrun,
      fun hc => setTurn_covered h hc ht id⟩
    cases hs
    exact Nat.le_refl _
  · exact .refl h

theorem observeGeneration_keeps (ht : w.turns job = some t) :
    Keeps u g w (observeGeneration w job t) := by
  unfold observeGeneration
  split
  · next i hi =>
    split
    · next hguard =>
      simp only [Bool.and_eq_true, Option.isNone_iff_eq_none] at hguard
      obtain ⟨j, hj, hok⟩ := h.lane.turns job t ht
      have hget := (Db.laneRow_eq_some.mp hj).1
      rw [hi] at hget
      cases hget
      -- the generation was not read before, so the input was not either
      have hunread : t.input = .unread := by
        by_contra hread
        have hsome := hok.read hread
        rw [hguard.1.2] at hsome
        cases hsome
      refine ⟨setTurn_inv h hj ⟨hok.stage, hok.since, fun n hn => ?_, fun _ => rfl, hok.published⟩
        (fun i e seq p _ _ _ hreply => hreply.turn t ht) fun n hinput => ?_,
          fun hc => setTurn_covered h hc ht id⟩
      · cases hn
        exact Nat.le_refl _
      · dsimp only at hinput
        rw [hunread] at hinput
        cases hinput
    · exact .refl h
  · exact .refl h

theorem pinInput_keeps (ht : w.turns job = some t) : Keeps u g w (pinInput u w job t) := by
  unfold pinInput
  split
  · next since n hsince hn hunread =>
    obtain ⟨j, hj, hok⟩ := h.lane.turns job t ht
    -- a turn that has not read its input has published nothing
    have hnothing : ∀ s, t.input.seq? ≠ some s := by
      intro s hs
      rw [hunread] at hs
      cases hs
    have hpublished : j.status ≠ .completed := by
      intro hcompleted
      obtain ⟨s, hs, -⟩ := hok.published hcompleted
      exact hnothing s hs
    -- so it may take any input that is right
    have hpin : ∀ input, (input = TurnInput.nothing → ∀ m ∈ w.db.chat.rows, m.inputOf u = true →
        m.seq ≤ (w.db.runtimeDoc u).replyCursorSeq) →
          Keeps u g w (w.setTurn job (some { t with input })) := by
      intro input hidle
      refine ⟨setTurn_inv h hj ⟨hok.stage, hok.since, hok.generation, fun _ => by rw [hn]; rfl,
        fun hcompleted => absurd hcompleted hpublished⟩
        (fun i e seq p _ _ _ hreply => absurd (hreply.turn t ht) (hnothing seq))
        fun _ hinput _ _ => .inl (hidle hinput), fun hc => setTurn_covered h hc ht fun hs => ?_⟩
      rw [hunread] at hs
      cases hs
    split
    · exact hpin _ fun hinput => nomatch hinput
    · next hnone =>
      refine hpin _ fun _ m hm hu => ?_
      have hle := List.find?_eq_none.mp hnone m hm
      simp only [hu, Bool.true_and, decide_eq_true_eq, Nat.not_lt] at hle
      exact hle.trans (hok.since since hsince)
  · exact .refl h

end

/-- A turn begins with a claimed row that is running now. -/
theorem startTurn_cases (cfg : Config) (u : UserId) (w : ReplyWorld) (job : JobId)
    (worker : WorkerId) : startTurn cfg u w job worker = w ∨
    ∃ i j, w.db.laneRow u .chat job = some i ∧ i.status = .claimed ∧
      (Db.markRunning cfg w.db job worker).1.laneRow u .chat job = some j ∧ j.status = .running ∧
      startTurn cfg u w job worker =
        { w with db := (Db.markRunning cfg w.db job worker).1 }.setTurn job
        (some ⟨worker, none, none, .unread⟩) := by
  unfold startTurn
  split
  · next i db hi hmark =>
    rw [hmark]
    obtain heq | ⟨l, hl, -, hclaimed, -, heq⟩ := Db.markRunning_cases cfg w.db job worker
    · rw [heq] at hmark
      cases hmark
    · have hget := (Db.laneRow_eq_some.mp hi).1
      rw [hl] at hget
      cases hget
      obtain rfl := Serial.key_of_get? hl
      rw [heq] at hmark
      cases hmark
      refine .inr ⟨i, Db.startedRow cfg w.db.clock i, hi, hclaimed, ?_, rfl, rfl⟩
      have hsame : ∀ j, SameJob j (Db.startedRow cfg w.db.clock j) :=
        fun _ => ⟨rfl, rfl, rfl, rfl, rfl⟩
      refine (Db.laneRow_updateRow hsame i.id).trans ?_
      rw [if_pos rfl, hi, Option.map_some]
  · exact .inl rfl

theorem startTurn_keeps (h : TurnsInv u g w) (job : JobId) (worker : WorkerId) :
    Keeps u g w (startTurn cfg u w job worker) := by
  obtain heq | ⟨i, j, hi, hclaimed, hj, hrun, heq⟩ := startTurn_cases cfg u w job worker
  · rw [heq]
    exact .refl h
  · rw [heq]
    have hquiet : QuietStep u g w.db (Db.markRunning cfg w.db job worker).1 :=
      .of_blocks (.markRunning cfg w.db job worker)
    refine ⟨setTurn_inv (quiet_keeps h hquiet).inv hj
      ⟨by rw [hrun]; exact Nat.le_refl _, (fun s hs => nomatch hs), (fun n hn => nomatch hn),
        (fun hread => absurd rfl hread),
          fun hcompleted => ?_⟩ (fun x e seq p he hu hopen hreply => ?_)
      (fun n hinput => nomatch hinput),
        hquiet.covered h.lane fun k t l ht hpinned hl hcompleted => ?_⟩
    · rw [hrun] at hcompleted
      cases hcompleted
    · -- no reply of the job can be open: the row was not running yet
      obtain ⟨e₀, he₀, hopen₀, huser, hjob, -⟩ := hquiet.effects x e he hopen
      obtain ⟨k, seq', p', hreply'⟩ := h.lane.effects x e₀ he₀ (huser ▸ hu) hopen₀
      have hk : k = job := Option.some.inj (hreply'.job.symm.trans (hjob.symm.trans hreply.job))
      subst hk
      obtain ⟨l, hl, hstage⟩ := hreply'.row
      rw [hi] at hl
      cases hl
      rw [hclaimed] at hstage
      exact absurd hstage (by decide)
    · refine ⟨t, (setTurn_other _ _ ?_).trans ht, hpinned⟩
      rintro rfl
      rw [hi] at hl
      cases hl
      rw [hclaimed] at hcompleted
      cases hcompleted

theorem repliesWith_spec {p : Payload} (h : t.repliesWith p = true) :
    ∃ seq, t.input.seq? = some seq ∧ p.exactNat? "reply_through_seq" = some seq := by
  unfold Turn.repliesWith at h
  split at h
  · next seq msgId hinput =>
    simp only [Bool.and_eq_true, beq_iff_eq] at h
    exact ⟨seq, by rw [hinput]; rfl, h.1.1⟩
  · cases h

theorem publishReply_keeps (h : TurnsInv u g w) (ht : w.turns job = some t) (effectId : String)
    (p : Payload) : Keeps u g w (publishReply u w job effectId p t) := by
  unfold publishReply
  split
  · next hreplies =>
    refine ⟨⟨⟨h.lane.runtime, h.lane.mode, h.lane.one, h.lane.pins, h.lane.failures, h.lane.inputs,
        h.lane.turns,
      fun i e he hu hopen => ?_, h.lane.candidates⟩, h.idle⟩, fun hc => hc⟩
    obtain hold | ⟨-, hnew⟩ := Db.effectEnqueue_find? he
    · obtain ⟨k, seq, q, hreply⟩ := h.lane.effects i e hold hu hopen
      exact ⟨k, seq, q, hreply.job, hreply.row, hreply.type, hreply.payload, hreply.through,
        hreply.turn⟩
    · obtain ⟨seq, hinput, hthrough⟩ := repliesWith_spec hreplies
      obtain ⟨j, hj, hok⟩ := h.lane.turns job t ht
      refine ⟨job, seq, p, hnew.jobId, ⟨j, hj, hok.stage⟩, hnew.effectType, hnew.payload, hthrough,
        fun t' ht' => ?_⟩
      dsimp only at ht'
      rw [ht] at ht'
      cases ht'
      exact hinput
  · exact .refl h

end ReplyWorld

end Feedling
