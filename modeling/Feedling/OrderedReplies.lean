import Feedling.OrderedLane

/-!
# Ordered replies and the net below them

A message beyond the cursor is tended while a chat job is active, while a turn still has its
follow-up to do, while the net would enqueue a catch-up, or once a failure covers it. Every way a
chat job ends keeps one of these, but one: the net allows a single catch-up for the newest message,
although that catch-up answers the oldest. If the follow-up of a catch-up is lost, the messages
behind the one it answered have neither.
-/

namespace Feedling

open KeyedTable Runs

namespace ReplyWorld

variable {cfg : Config} {u : UserId} {g : Nat} {w : ReplyWorld} {db db' : Db}
  {turns' : JobId → Option Turn} {t : Turn}

/-! ## Admissions -/

theorem enqueued_keeps (h : TurnsInv u g w) {done : JobId → Prop}
    (he : ChatEnqueued u g done w.db db') (hturns : ∀ k t, turns' k = some t → w.turns k = some t ∧
      ¬ done k)
    (hcandidates : ∀ c ∈ candidates', c ∈ w.candidates) :
    Keeps u g w ⟨db', turns', candidates'⟩ := by
  exact ⟨h.change (.of_enqueued he) he.queue.chat hturns hcandidates,
    fun _ => .inl (Db.hasActive_iff.mpr he.active)⟩

theorem enqueueJob_chat (cfg : Config) {done : JobId → Prop} (hone : OneActive u db)
    (hruntime : db.runtime u = some ⟨.v2, g⟩) {e : Db.Enqueue} (hu : e.userId = u)
    (hlane : e.lane = .chat)
    (hgen : e.expectedGeneration.all (· == g) = true) :
    ChatEnqueued u g done db (Db.enqueueJob cfg db e).1 := by
  have hcapture : (e.lane == .capture) = false := by rw [hlane]; rfl
  have hpinned : (db.effectiveGeneration e.userId e.expectedGeneration).all (· == g) = true := by
    cases hexp : e.expectedGeneration with
    | none => simp [Db.effectiveGeneration, hu, hruntime]
    | some n => rw [hexp] at hgen; exact hgen
  simp only [Db.enqueueJob, hcapture, Bool.false_eq_true, ↓reduceIte]
  set pinned : Db.Enqueue := { e with
    expectedGeneration := db.effectiveGeneration e.userId e.expectedGeneration } with hpin
  exact Db.coalesceOrInsert_chat (e := pinned) cfg hone hu hlane hpinned _ _

theorem reconcile_enqueued (cfg : Config) (h : LaneInv u g w) {c : Db.Candidate}
    (hc : c ∈ w.candidates) :
    ChatEnqueued u g (fun _ => False) w.db (Db.enqueueJob cfg w.db (c.enqueue u)).1 :=
  enqueueJob_chat cfg h.one h.runtime rfl rfl (by simp [Db.Candidate.enqueue, h.candidates c hc])

theorem covered_of_none (hnone : ∀ m ∈ w.db.chat.rows, m.inputOf u = true →
    m.seq ≤ (w.db.runtimeDoc u).replyCursorSeq) : Covered u w := by
  refine .inr (.inr (.inr fun m hm hopen => ?_))
  obtain ⟨hu, hlt, -⟩ := Db.unanswered_iff.mp hopen
  have hle := hnone m hm hu
  omega

theorem followupTurn_keeps (h : TurnsInv u g w) (ht : w.turns job = some t) :
    Keeps u g w (followupTurn cfg u w job t) := by
  unfold followupTurn
  split
  · next since seq msgId hsince hinput =>
    split
    · next hguard =>
      simp only [Bool.and_eq_true, decide_eq_true_eq] at hguard
      split
      · have he : ChatEnqueued u g (fun _ => False) w.db
            (Db.enqueueJob cfg w.db (orderedFollowup u)).1 :=
          enqueueJob_chat cfg h.lane.one h.lane.runtime rfl rfl rfl
        exact enqueued_keeps h he (fun k t ht => ⟨(setTurn_none ht).1, id⟩) fun _ hc => hc
      · next hbeyond =>
        obtain ⟨j, -, hok⟩ := h.lane.turns job t ht
        have hcursor := hok.since since hsince
        refine ⟨drop_inv h job, fun _ => covered_of_none fun m hm hu => ?_⟩
        have hle := Db.le_of_not_inputBeyond (Bool.not_eq_true _ ▸ hbeyond) hm hu
        rw [setTurn_db]
        omega
    · exact .refl h
  · exact .refl h

/-- The end of a turn without input: the claim is lost, or the job is completed, with a successor
if input came after the turn looked. -/
theorem finishChatJob_cases (cfg : Config) (hone : OneActive u db)
    (hruntime : db.runtime u = some ⟨.v2, g⟩) {i : Job} (hi : db.laneRow u .chat job = some i)
    (worker : WorkerId)
    (observed : Nat) :
    (Db.finishChatJob cfg db job worker observed false).1 = db ∨
    i.status = .running ∧
      (ChatEnqueued u g (fun k => k = job) db
        (Db.finishChatJob cfg db job worker observed false).1 ∨ i.inputGeneration ≤ observed ∧
          ChatStep u g (fun k => k = job) db
            (Db.finishChatJob cfg db job worker observed false).1) := by
  obtain ⟨hget, hlane⟩ := Db.laneRow_eq_some.mp hi
  obtain rfl := Serial.key_of_get? hget
  simp only [Db.finishChatJob, hget]
  split
  · next hguard =>
    simp only [Bool.and_eq_true, beq_iff_eq] at hguard
    obtain ⟨⟨⟨⟨hpins, -⟩, hrun⟩, -⟩, -⟩ := hguard
    have ha : i.status.active = true := by rw [hrun]; rfl
    have hdone : ChatStep u g (fun k => k = i.id) db (db.completeJob i.id) :=
      Db.completeJob_chat hget ha
    refine .inr ⟨hrun, ?_⟩
    split
    · refine .inl (Db.insertChat_enqueued hdone (fun k l hl => ?_) hlane rfl rfl ?_)
      · -- the completed job was the active one
        obtain ⟨l₀, hl₀, hmove⟩ := hdone.moves.before hl
        by_contra hactive
        rw [Bool.not_eq_false] at hactive
        have hk : k = i.id := hone.eq hl₀ hi (hmove.active_before hactive) ha
        have hsame : ∀ j, SameJob j (Db.completed db.clock j) := fun _ => ⟨rfl, rfl, rfl, rfl, rfl⟩
        rw [hk, Db.completeJob] at hl
        rw [Db.endRow_ended _ hget hsame rfl hl] at hactive
        cases hactive
      · obtain ⟨n, hn, hexp⟩ := (Option.any_eq_true _ _).mp hpins
        rw [(Job.inLane_iff.mp hlane).1, Db.v2Generation, hruntime] at hn
        cases hn
        rw [beq_iff_eq] at hexp
        simp [Job.pins, Job.fresh, hexp]
    · next hlate =>
      simp only [Bool.false_or, decide_eq_true_eq, Nat.not_lt] at hlate
      exact .inr ⟨hlate, hdone⟩
  · exact .inl rfl

theorem finishEmptyTurn_keeps (h : TurnsInv u g w) (ht : w.turns job = some t) :
    Keeps u g w (finishEmptyTurn cfg w job t) := by
  unfold finishEmptyTurn
  split
  · next n hinput hn =>
    obtain ⟨i, hi, -⟩ := h.lane.turns job t ht
    have hturns : ∀ k s, (w.setTurn job none).turns k = some s → w.turns k = some s ∧ ¬ k = job :=
      fun _ _ => setTurn_none
    obtain heq | ⟨hrun, he | ⟨hlate, hstep⟩⟩ :=
      finishChatJob_cases cfg h.lane.one h.lane.runtime hi t.worker n
    · rw [heq]
      refine ⟨drop_inv h job, fun hc => drop_covered h hc fun s j seq hs _ _ hseq => ?_⟩
      rw [ht] at hs
      cases hs
      rw [hinput] at hseq
      cases hseq
    · exact enqueued_keeps h he hturns fun _ hc => hc
    · have hmove := MoveStep.of_chatStep hstep
      refine ⟨h.change (hmove.laneChange h.lane.one) hmove.chat hturns fun _ hc => hc, fun _ => ?_⟩
      -- the turn saw every generation, so it was right that there is no input
      obtain hnone | hlt := h.idle job t n i ht hinput hn hi hrun
      · refine covered_of_none fun m hm hu => ?_
        rw [setTurn_db] at hm ⊢
        dsimp only at hm ⊢
        rw [hmove.chat] at hm
        rw [hmove.runtimeDoc]
        exact hnone m hm hu
      · omega
  · exact .refl h

/-- A message of the chat endpoint is refused or recovered, or stored and admitted after the other
lanes were preempted. -/
theorem chatAppend_cases (cfg : Config) (ownerDead : JobId → Bool) (db : Db) {c : Db.ChatSend}
    (hlane : c.lane = .chat) :
    ((Db.chatAppendAndEnqueue cfg ownerDead db c).map (·.1)).getD db = db ∨
    c.fenceHolds db = true ∧
      ((Db.chatAppendAndEnqueue cfg ownerDead db c).map (·.1)).getD db =
        (Db.coalesceOrInsert cfg
          ((Db.preemptActiveForChat ownerDead db c.userId).chatInsert c.userId c.msgId c.ts
          c.doc).1 ⟨c.userId, c.lane, c.reason, c.traceId, "", none, none,
            c.expectedGeneration⟩ c.traceId
          c.lane.priority).1 := by
  unfold Db.chatAppendAndEnqueue
  split
  · next hguard =>
    split
    · exact .inl rfl
    · rw [hlane]
      exact .inr ⟨(Bool.and_eq_true _ _ ▸ hguard).2, rfl⟩
  · exact .inl rfl

theorem chatInsert_mem {v : UserId} {msgId : String} {ts : Time} {doc : ChatDoc} {m : ChatRow}
    (hm : m ∈ (db.chatInsert v msgId ts doc).1.chat.rows) : m ∈ db.chat.rows ∨ m.doc = doc := by
  unfold Db.chatInsert at hm
  split at hm
  · dsimp only at hm
    obtain ⟨r, hr, rfl⟩ := Indexed.mem_modify.mp hm
    split
    · exact .inr rfl
    · exact .inl hr
  · dsimp only at hm
    obtain hold | ⟨rfl, -⟩ := Indexed.mem_insert hm
    · exact .inl hold
    · exact .inr rfl

/-- A stored message is admitted: the lane keeps its invariants and a chat job is active. -/
theorem send_keeps (h : TurnsInv u g w) {c : Db.ChatSend} (hplain : c.plainInput u = true)
    (ownerDead : JobId → Bool) :
    Keeps u g w
      { w with db := ((Db.chatAppendAndEnqueue cfg ownerDead w.db c).map (·.1)).getD w.db } := by
  simp only [Db.ChatSend.plainInput, Bool.and_eq_true, beq_iff_eq, bne_iff_ne, ne_eq] at hplain
  obtain ⟨⟨⟨⟨⟨⟨⟨⟨hu, hlane⟩, hrole⟩, hping⟩, -⟩, hstatus⟩, hreply⟩, hclass⟩, hfence⟩ := hplain
  obtain heq | ⟨hholds, heq⟩ := chatAppend_cases cfg ownerDead w.db hlane
  · rw [heq]
    exact .refl h
  · rw [heq]
    set preempted := Db.preemptActiveForChat ownerDead w.db c.userId
    set stored := (preempted.chatInsert c.userId c.msgId c.ts c.doc).1 with hstored
    have hpreempt : ChatStep u g (fun _ => False) w.db preempted :=
      (Db.Blocks.preemptActiveForChat ownerDead w.db c.userId fun _ _ h => h).offChat.1
    -- the preemption, then the insert
    have hmove := MoveStep.of_chatStep hpreempt
    have hw₁ : LaneInv u g ⟨preempted, w.turns, w.candidates⟩ :=
      h.lane.change (hmove.laneChange h.lane.one) (by rw [hmove.chat]; exact h.lane.inputs)
        (fun k t ht => ⟨ht, False.elim⟩) fun _ hc => hc
    have hinsert : LaneChange u g (fun _ => False) preempted stored :=
      .of_chat hw₁.one (preempted.chatInsert_rest c.userId c.msgId c.ts c.doc)
    have hw₂ : LaneInv u g ⟨stored, w.turns, w.candidates⟩ := by
      refine hw₁.change hinsert (fun m hm hi => ?_) (fun k t ht => ⟨ht, False.elim⟩) fun _ hc => hc
      obtain hold | hdoc := chatInsert_mem hm
      · exact hw₁.inputs m hold hi
      · rw [hdoc]
        exact ⟨hping, fun hne => absurd hclass hne⟩
    -- the admission
    have hgen : c.expectedGeneration.all (· == g) = true := by
      obtain hsome | hnone := Bool.or_eq_true _ _ ▸ hfence
      · obtain ⟨f, hf⟩ := Option.isSome_iff_exists.mp hsome
        simp only [Db.ChatSend.fenceHolds, hf, Option.all_some, hu, h.lane.runtime, Option.any_some,
          Bool.and_eq_true, beq_iff_eq] at hholds
        rw [← hholds.1.2]
        simp
      · rw [Option.isNone_iff_eq_none.mp hnone]
        rfl
    have he : ChatEnqueued u g (fun _ => False) stored _ :=
      Db.coalesceOrInsert_chat (e := ⟨c.userId, c.lane, c.reason, c.traceId, "", none, none,
          c.expectedGeneration⟩)
        cfg hw₂.one hu hlane hgen c.traceId c.lane.priority
    refine ⟨⟨hw₂.change (.of_enqueued he) (by rw [he.queue.chat]; exact hw₂.inputs) (fun k t ht =>
        ⟨ht, False.elim⟩)
      fun _ hc => hc, fun k t n j ht hinput hn hj hrun => ?_⟩, fun _ =>
        .inl (Db.hasActive_iff.mpr he.active)⟩
    -- a running turn is the one the new input was coalesced into
    obtain ⟨i, hi, hok⟩ := hw₂.turns k t ht
    obtain ⟨j', hj', hmoved, hbump⟩ := he.moves k i hi
    dsimp only at hj
    rw [hj] at hj'
    cases hj'
    have hlt := hbump (hmoved.running_before hok.stage hrun) hrun
    exact .inr ((hok.generation n hn).trans_lt hlt)

end ReplyWorld

/-! ## Rounds of the applier -/

namespace Db

theorem materializeRuntime_of_some {db : Db} {u : UserId} {s : RuntimeState}
    (h : db.runtime u = some s) : db.materializeRuntime u = db := by
  simp [materializeRuntime, h]

/-- A round on a final reply changes the outbox alone, or completes the job and publishes. -/
theorem Round.final_cases {cfg : Config} {db : Db} {u : UserId} {e : Effect} {d : Delivery}
    {r : Applied} (h : Round cfg db u e d r) (htype : e.effectType = .replyFinalFencedV1)
    {p : Payload} (hp : e.payload = some p)
    {seq : Nat} (hthrough : p.exactNat? "reply_through_seq" = some seq) :
    { r.db with effects := db.effects } = db ∨
    ∃ j parent, e.jobId = some j.id ∧ db.jobs.get? j.id = some j ∧ j.status = .running ∧
      r.db.jobs = (db.completeJob j.id).jobs ∧ r.db.failures = db.failures ∧
      ReplyWrites u (some seq) parent db r.db := by
  have hfinal : ∀ {q : Payload} {check : FenceCheck},
      db.replyFenceMatches cfg u e.jobId e.effectType q = some check →
        check.mode = .final := by
    intro q check hcheck
    rw [(replyFenceMatches_spec hcheck).mode, htype]
    rfl
  cases h with
  | stale | refused | rolledBack => exact .inl rfl
  | unreadable | replyFailed => exact .inl (dispatchError_frame ..)
  | handedOff q check _ _ hcheck hmode =>
    rw [hfinal hcheck] at hmode
    cases hmode
  | sinkFailed q check outcome _ _ hcheck hmode =>
    rw [hfinal hcheck] at hmode
    cases hmode
  | sinkApplied q check _ _ hcheck hmode =>
    rw [hfinal hcheck] at hmode
    cases hmode
  | replied q check published _ _ hcheck _ hmode =>
    rw [hfinal hcheck] at hmode
    cases hmode
  | voiceEnded q check done _ hq _ _ _ hdone =>
    rw [hp] at hq
    cases hq
    obtain ⟨j, hjob, hj, -, -, hrun, -, -, -, rfl⟩ := completeFinalReplyJob_eq hdone
    refine .inr ⟨j, "", hjob, hj, hrun, rfl, rfl, ?_⟩
    rw [hthrough]
    have hw := advanceCursor_writes db u seq ""
    exact ⟨hw.rows, hw.fresh, hw.cursor, hw.mode, hw.others, hw.next⟩
  | published q check done published _ hq _ _ _ hdone hpublished =>
    rw [hp] at hq
    cases hq
    obtain ⟨j, hjob, hj, -, -, hrun, -, -, -, rfl⟩ := completeFinalReplyJob_eq hdone
    have hframe := sinkReplyInTransaction_frame hpublished
    have hjobs := congrArg Db.jobs hframe
    have hfailures := congrArg Db.failures hframe
    obtain ⟨parent, -, hw⟩ := sinkReplyInTransaction_writes hpublished
    rw [hthrough] at hw
    exact .inr ⟨j, parent, hjob, hj, hrun, hjobs, hfailures, hw.rows, hw.fresh, hw.cursor, hw.mode,
      hw.others, hw.next⟩

end Db

theorem OpenEffectsFrom.of_round {cfg : Config} {db : Db} {u : UserId} {e : Effect} {d : Delivery}
    {r : Applied} (h : Db.Round cfg db u e d r) (he : db.effects.find? e.effectId = some e)
    (hopen : e.status.isOpen = true) :
    OpenEffectsFrom db r.db := by
  obtain ⟨hdb, -⟩ | ⟨x, hw, hsettles⟩ := h.effect he hopen
  · exact .of_eq (by rw [hdb])
  · intro i e' he' hopen'
    rw [hw.find] at he'
    split at he'
    · next hi =>
      cases he'
      exact ⟨e,
        by rw [hi]; exact he, hopen, hw.userId, hw.jobId, hw.effectType, hsettles.payload hopen'⟩
    · exact ⟨e', he', hopen', rfl, rfl, rfl, rfl⟩

/-- What a publication leaves unanswered was unanswered before, and keeps its name. -/
theorem ReplyWrites.row_before {u : UserId} {through : Option Nat} {parent : String} {db db' : Db}
    (h : ReplyWrites u through parent db db') {m' : ChatRow} (hm' : m' ∈ db'.chat.rows)
    (hu : m'.inputOf u = true) :
    ∃ m ∈ db.chat.rows, m.inputOf u = true ∧
      ReplyTouch u (db.runtimeDoc u).replyCursorSeq through parent m m' := by
  have hfind := Indexed.mem_rows.mp hm'
  cases hold : db.chat.find? m'.key with
  | none =>
    obtain ⟨-, hrole, -⟩ := h.fresh m'.key m' hfind hold
    simp [ChatRow.inputOf, hrole, Role.isUser] at hu
  | some m =>
    obtain ⟨x, hx, htouch⟩ := h.rows m'.key m hold
    rw [hfind] at hx
    cases hx
    exact ⟨m, (Indexed.find?_eq_some.mp hold).1, by rw [← htouch.inputOf]; exact hu, htouch⟩

namespace ReplyWorld

variable {cfg : Config} {u : UserId} {g : Nat} {w : ReplyWorld}

/-- The publication of a turn's reply, as a change of the lane. -/
structure Published (u : UserId) (w : ReplyWorld) (k : JobId) (seq : Nat) (parent : String)
    (db' : Db) : Prop where
  row : ∃ j, w.db.laneRow u .chat k = some j ∧ j.status = .running
  completed : ∃ j, db'.laneRow u .chat k = some j ∧ j.status = .completed
  runtime : db'.runtime = w.db.runtime
  jobs : db'.jobs = (w.db.completeJob k).jobs
  failures : db'.failures = w.db.failures
  writes : ReplyWrites u (some seq) parent w.db db'
  effects : OpenEffectsFrom w.db db'

namespace Published

variable {k : JobId} {seq : Nat} {parent : String} {db' : Db}

section

variable (h : Published u w k seq parent db')
include h

theorem moves : ChatMoves u g (fun i => i = k) w.db db' := by
  obtain ⟨j, hj, hrun⟩ := h.row
  have hget := (Db.laneRow_eq_some.mp hj).1
  obtain rfl := Serial.key_of_get? hget
  have hstep : ChatStep u g (fun i => i = j.id) w.db (w.db.completeJob j.id) :=
    Db.completeJob_chat hget (by rw [hrun]; rfl)
  have hrow : ∀ i, db'.laneRow u .chat i = (w.db.completeJob j.id).laneRow u .chat i :=
    fun _ => Db.laneRow_congr h.jobs
  refine ⟨fun i hi => (hrow i).trans (hstep.moves.absent i hi), fun i l hl => ?_⟩
  obtain ⟨l', hl', hmove⟩ := hstep.moves.moves i l hl
  exact ⟨l', (hrow i).trans hl', hmove⟩

theorem cursor_eq : (db'.runtimeDoc u).replyCursorSeq =
      max (w.db.runtimeDoc u).replyCursorSeq seq := h.writes.cursor

theorem laneChange (hone : OneActive u w.db) : LaneChange u g (fun i => i = k) w.db db' where
  runtime := h.runtime
  mode := h.writes.mode
  cursor := by rw [h.cursor_eq]; exact Nat.le_max_left _ _
  effects := h.effects
  rows i j hj := by
    obtain ⟨l, hl, hrun⟩ := h.row
    have hget := (Db.laneRow_eq_some.mp hl).1
    have hstep := Db.completeJob_step hget (by rw [hrun]; rfl)
    rw [h.jobs]
    exact hstep.rows.sameJob hj
  moves := h.moves.moves
  fresh i j hj hn := by
    have hmoves : ChatMoves u g (fun i => i = k) w.db db' := h.moves
    rw [hmoves.absent i hn] at hj
    cases hj
  one := by
    have hmoves : ChatMoves u g (fun i => i = k) w.db db' := h.moves
    exact hone.moves hmoves
  notes f hf := .inl (by rw [← h.failures]; exact hf)

theorem inv (hw : TurnsInv u g w) (hturn : ∀ t, w.turns k = some t → t.input.seq? = some seq) :
    TurnsInv u g { w with db := db' } := by
  have hchange : LaneChange u g (fun i => i = k) w.db db' := h.laneChange hw.lane.one
  refine ⟨hw.lane.change hchange (fun m' hm' hu => ?_) (fun i t ht => ⟨ht,
      fun hi => ⟨seq, ?_, ?_⟩⟩) fun _ hc => hc,
    hw.idle.change hw.lane hchange (fun m' hm' hu => ?_) fun _ _ ht => ht⟩
  · obtain ⟨m, hm, hu', htouch⟩ := h.writes.row_before hm' hu
    obtain ⟨hping, hstamped⟩ := hw.lane.inputs m hm hu'
    refine ⟨by rw [htouch.source]; exact hping, fun hne => ?_⟩
    obtain hs | hs := htouch.stamp hne
    · exact htouch.replied (hstamped hs)
    · exact hs.2
  · exact hturn t (hi ▸ ht)
  · rw [h.cursor_eq]
    exact Nat.le_max_right _ _
  · obtain ⟨m, hm, hu', htouch⟩ := h.writes.row_before hm' hu
    exact ⟨m, hm, hu', htouch.seq.symm⟩

/-- Beyond the frontier a publication marks nothing, so the newest unanswered message stays the
newest. -/
theorem latestUnanswered_before (hw : LaneInv u g w) {m' : ChatRow}
    (hm' : db'.latestUnanswered u = some m') :
    ∃ m, w.db.latestUnanswered u = some m ∧ seq < m.seq ∧ m'.msgId = m.msgId := by
  obtain ⟨hmem', hcond', hmax'⟩ := Db.latestUnanswered_eq_some.mp hm'
  obtain ⟨hopen', hsource'⟩ := Bool.and_eq_true _ _ ▸ hcond'
  obtain ⟨hu', hlt', hreplied'⟩ := Db.unanswered_iff.mp hopen'
  rw [h.cursor_eq] at hlt'
  obtain ⟨m₀, hm₀, hu₀, htouch₀⟩ := h.writes.row_before hmem' hu'
  have hopen₀ : (w.db.unanswered u m₀ && m₀.doc.source != "verify_ping") = true := by
    rw [Bool.and_eq_true, Db.unanswered_iff, ← htouch₀.source]
    refine ⟨⟨hu₀, by rw [← htouch₀.seq]; omega, ?_⟩, hsource'⟩
    by_contra hr
    rw [htouch₀.replied (Bool.not_eq_false _ ▸ hr)] at hreplied'
    cases hreplied'
  obtain ⟨m, hlatest, hle⟩ := Db.exists_latestUnanswered hm₀ hopen₀
  obtain ⟨hmem, hcond, -⟩ := Db.latestUnanswered_eq_some.mp hlatest
  obtain ⟨hopen, hsource⟩ := Bool.and_eq_true _ _ ▸ hcond
  obtain ⟨hu, -, hreplied⟩ := Db.unanswered_iff.mp hopen
  have hseq₀ := htouch₀.seq
  have hbeyond : seq < m.seq := by omega
  refine ⟨m, hlatest, hbeyond, ?_⟩
  -- the newest one before is unanswered still
  obtain ⟨x, hx, htouch⟩ := h.writes.rows m.key m (Indexed.mem_rows.mp hmem)
  have hxreplied : x.replied = false := by
    obtain hsame | ⟨-, -, ⟨t, ht, -, hle'⟩ | ⟨-, hstamped⟩⟩ := htouch.marks
    · rw [ReplyTouch.replied_of_marks hsame]
      exact hreplied
    · cases ht
      omega
    · rw [(hw.inputs m hmem hu).2 hstamped] at hreplied
      cases hreplied
  have hxopen : (db'.unanswered u x && x.doc.source != "verify_ping") = true := by
    rw [Bool.and_eq_true, Db.unanswered_iff, htouch.source, h.cursor_eq]
    exact ⟨⟨by rw [htouch.inputOf]; exact hu, by rw [htouch.seq]; omega, hxreplied⟩, hsource⟩
  have hxle := hmax' x (Indexed.find?_eq_some.mp hx).1 hxopen
  rw [htouch.seq] at hxle
  have heq : m₀ = m := Serial.eq_of_key_eq hm₀ hmem (by omega)
  rw [← heq]
  exact htouch₀.msgId

theorem covered (hw : LaneInv u g w) (hturn : ∀ t, w.turns k = some t → t.input.seq? = some seq)
    (hnet : w.turns k = none → netHolds u w.db seq = true) : Covered u { w with db := db' } := by
  cases ht : w.turns k with
  | some t =>
    obtain ⟨j, hj, hcompleted⟩ := h.completed
    exact .inr (.inl ⟨k, t, j, ht, by rw [hturn t ht]; rfl, hj, hcompleted⟩)
  | none =>
    refine .inr (.inr (.inl fun m' hm' => ?_))
    obtain ⟨m, hm, hlt, hid⟩ := h.latestUnanswered_before hw hm'
    have hholds := hnet ht
    rw [netHolds, hm, Option.all_some, Bool.or_eq_true, decide_eq_true_eq, Bool.and_eq_true,
      Bool.not_eq_true', Bool.not_eq_true'] at hholds
    obtain ⟨hreconcile, hrecovery⟩ := hholds.resolve_left (Nat.not_le_of_lt hlt)
    have hmoves : ChatMoves u g (fun i => i = k) w.db db' := h.moves
    rw [hid]
    exact ⟨hasMarker_before hmoves hreconcile, hasMarker_before hmoves hrecovery⟩

end

end Published

/-- A round on an effect of the user leaves the lane alone, or publishes the reply of a turn. -/
theorem apply_cases (h : LaneInv u g w) {effectId : String} {e : Effect}
    (he : w.db.effects.find? effectId = some e) (hu : e.userId = u) (d : Delivery) :
    QuietStep u g w.db (Db.applyEffect cfg w.db u effectId d).db ∨
    ∃ k seq parent p, Published u w k seq parent (Db.applyEffect cfg w.db u effectId d).db ∧
      e.jobId = some k ∧ e.payload = some p ∧ p.exactNat? "reply_through_seq" = some seq ∧
      ∀ t, w.turns k = some t → t.input.seq? = some seq := by
  obtain ⟨hdb, -⟩ | ⟨x, hx, hopen, -, hround⟩ := Db.applyEffect_round cfg w.db u effectId d
  · rw [hdb, Db.materializeRuntime_of_some h.runtime]
    exact .inl (.refl _)
  · rw [Db.materializeRuntime_of_some h.runtime] at hx hround
    rw [he] at hx
    cases hx
    obtain rfl := (Indexed.find?_eq_some.mp he).2
    obtain ⟨k, seq, p, hreply⟩ := h.effects _ e he hu hopen
    have heffects := OpenEffectsFrom.of_round hround he hopen
    obtain hframe | ⟨j, parent, hjob, hj, hrun, hjobs, hfailures, hwrites⟩ :=
      hround.final_cases hreply.type hreply.payload hreply.through
    · have hdoc := congrArg Db.runtimeDoc hframe
      have hchat := congrArg Db.chat hframe
      have hjobs := congrArg Db.jobs hframe
      have hfailures := congrArg Db.failures hframe
      exact .inl (.of_frame hround.runtime hdoc hchat heffects hjobs hfailures)
    · have hk : k = j.id := Option.some.inj (hreply.job.symm.trans hjob)
      subst hk
      obtain ⟨l, hl, -⟩ := hreply.row
      have hget := (Db.laneRow_eq_some.mp hl).1
      rw [hj] at hget
      cases hget
      refine .inr ⟨j.id, seq, parent, p, ⟨⟨j, hl, hrun⟩, ⟨Db.completed w.db.clock j, ?_, rfl⟩,
          hround.runtime, hjobs,
        hfailures, hwrites, heffects⟩, hjob, hreply.payload, hreply.through, hreply.turn⟩
      rw [Db.laneRow_congr hjobs, Db.laneRow_of_get? (Db.get?_completeJob hj)]
      exact if_pos (Db.laneRow_eq_some.mp hl).2

theorem apply_netHolds {effectId : String} {d : Delivery} (hl : netHoldsAt u w (.apply effectId d))
    {e : Effect} (he : w.db.effects.find? effectId = some e) {k : JobId} (hjob : e.jobId = some k)
    {p : Payload}
    (hp : e.payload = some p) {seq : Nat} (hthrough : p.exactNat? "reply_through_seq" = some seq)
    (hrow : ∃ j, w.db.laneRow u .chat k = some j ∧ j.status = .running) (hnone : w.turns k = none) :
    netHolds u w.db seq = true := by
  obtain ⟨j, hj, hrun⟩ := hrow
  refine netHolds_of_turn hl ?_
  simp [leavesToNet, he, hjob, hp, hthrough, hnone, hj, hrun]

/-! ## Runs -/

/-- Only the loss of a follow-up needs the net. -/
theorem step_keeps (h : TurnsInv u g w) (l : ReplyLabel) :
    TurnsInv u g (step cfg u w l) ∧
      (netHoldsAt u w l → Covered u w → Covered u (step cfg u w l)) := by
  have hall : ∀ {w' : ReplyWorld}, Keeps u g w w' → TurnsInv u g w' ∧
      (netHoldsAt u w l → Covered u w → Covered u w') :=
    fun hw => ⟨hw.inv, fun _ => hw.covered⟩
  cases l with
  | tick elapsed => exact hall (quiet_keeps h (.of_frame rfl rfl rfl (.of_eq rfl) rfl rfl))
  | send c ownerDead =>
    simp only [step]
    split
    · next hplain => exact hall (send_keeps h hplain ownerDead)
    · exact hall (.refl h)
  | claim worker job => exact hall (quiet_keeps h (claimHead_quiet h.lane worker job))
  | start job worker => exact hall (startTurn_keeps h job worker)
  | renew job ttl =>
    exact hall (inTurn_of (.refl h) fun t _ => quiet_keeps h
        (.of_blocks (.renewJobLease w.db job t.worker ttl)))
  | load job => exact hall (inTurn_of (.refl h) fun t ht => loadCursor_keeps h ht)
  | observe job => exact hall (inTurn_of (.refl h) fun t ht => observeGeneration_keeps h ht)
  | pin job => exact hall (inTurn_of (.refl h) fun t ht => pinInput_keeps h ht)
  | finishEmpty job => exact hall (inTurn_of (.refl h) fun t ht => finishEmptyTurn_keeps h ht)
  | publish job effectId p =>
    exact hall (inTurn_of (.refl h) fun t ht => publishReply_keeps h ht effectId p)
  | apply effectId d =>
    simp only [step]
    split
    · next hguard =>
      obtain ⟨e, he, hu⟩ := (Option.any_eq_true _ _).mp hguard
      obtain hq | ⟨k, seq, parent, p, hpub, hjob, hp, hthrough, hturn⟩ :=
        apply_cases h.lane he (beq_iff_eq.mp hu) d
      · exact hall (quiet_keeps h hq)
      · exact ⟨hpub.inv h hturn, fun hl _ => hpub.covered h.lane hturn fun hnone =>
          apply_netHolds hl he hjob hp hthrough hpub.row hnone⟩
    · exact hall (.refl h)
  | followup job => exact hall (inTurn_of (.refl h) fun t ht => followupTurn_keeps h ht)
  | fail job error =>
    refine inTurn_of (P := fun w' => TurnsInv u g w' ∧
        (netHoldsAt u w (.fail job error) → Covered u w → Covered u w'))
      (hall (.refl h)) fun t _ => ?_
    -- first the turn is over, then its failure is recorded
    have hdropped := quiet_keeps (drop_inv h job) (.of_blocks (.markFailed w.db job t.worker error))
    exact ⟨hdropped.inv,
      fun hl hc => hdropped.covered (drop_covered h hc fun s j seq hs hj hcompleted hseq =>
      crash_netHolds hl hs hj hcompleted hseq)⟩
  | crash job =>
    exact ⟨drop_inv h job, fun hl hc => drop_covered h hc fun s j seq hs hj hcompleted hseq =>
      crash_netHolds hl hs hj hcompleted hseq⟩
  | recoverKilled job worker reason =>
    simp only [step]
    split
    · exact hall (quiet_keeps h
          (.of_blocks (.recoverKilledJob cfg w.db job worker reason fun _ _ _ => trivial)))
    · exact hall (.refl h)
  | reap now => exact hall (quiet_keeps h (.of_blocks (.reapStuckJobRows cfg w.db now)))
  | select =>
    refine hall ⟨⟨⟨h.lane.runtime, h.lane.mode, h.lane.one, h.lane.pins, h.lane.failures,
        h.lane.inputs, h.lane.turns,
      h.lane.effects, fun c hc => ?_⟩, h.idle⟩, fun hc => hc⟩
    obtain hnew | hold := List.mem_append.mp hc
    · rw [Option.mem_toList] at hnew
      simp only [Db.reconcileUnenqueued, h.lane.runtime] at hnew
      split at hnew
      · next s m hs _ =>
        cases hs
        split at hnew
        · cases hnew
          rfl
        · cases hnew
      · cases hnew
    · exact h.lane.candidates c hold
  | reconcile c =>
    simp only [step]
    split
    · next hc =>
      exact hall (enqueued_keeps h (reconcile_enqueued cfg h.lane hc) (fun _ _ ht => ⟨ht, id⟩)
        fun _ hc => List.mem_of_mem_erase hc)
    · exact hall (.refl h)

theorem start_inv {db : Db} (hdb : Fresh u g db) : TurnsInv u g (start db) := by
  refine ⟨⟨hdb.runtime, hdb.mode, fun k k' i i' hi => ?_, fun k i hi => ?_,
      fun f hf => ⟨hdb.failures f hf, fun j hj => ?_⟩,
    fun m hm hu => ?_, (fun k t ht => nomatch ht), fun i e he hu => ?_, (fun c hc => nomatch hc)⟩,
    fun k t n j ht => nomatch ht⟩
  · rw [show (start db).db = db from rfl, hdb.jobs] at hi
    cases hi
  · rw [show (start db).db = db from rfl, hdb.jobs] at hi
    cases hi
  · rw [show (start db).db = db from rfl, hdb.jobs] at hj
    cases hj
  · rw [hdb.chat m hm] at hu
    cases hu
  · exact absurd hu (hdb.effects e (Indexed.find?_eq_some.mp he).1)

theorem start_covered {db : Db} (hdb : Fresh u g db) : Covered u (start db) :=
  covered_of_none fun m hm hu => by
    rw [hdb.chat m hm] at hu
    cases hu

theorem tended_of_covered (h : TurnsInv u g w) (hc : Covered u w) {m : ChatRow}
    (hm : m ∈ w.db.chat.rows) (hopen : w.db.unanswered u m = true) : Tended u w m := by
  by_cases hactive : w.db.hasActive u .chat = true
  · exact .inl hactive
  · obtain hyes | hfollow | hnet | hfail := hc
    · exact absurd hyes hactive
    · exact .inr (.inl hfollow)
    · have hping := (h.lane.inputs m hm (Db.unanswered_iff.mp hopen).1).1
      obtain ⟨x, hx, -⟩ := Db.exists_latestUnanswered hm (by rw [hopen]; simp [hping])
      obtain ⟨hreconcile, hrecovery⟩ := hnet x hx
      refine .inr (.inr (.inl ?_))
      simp [Db.reconcileUnenqueued, h.lane.runtime, hx, h.lane.mode, hactive, hreconcile, hrecovery]
    · exact .inr (.inr (.inr (hfail m hm hopen)))

/-- Ordered replies never strand a message where the net holds. Take any run from a user on `v2`
without jobs and messages, in which a published turn loses its follow-up (its worker dies, or died
before the reply was applied) only while the newest unanswered message behind the answered one has
no catch-up job yet. Then every unanswered message of the last state is tended: a chat job is
active, a turn has its follow-up to do, the net would enqueue a catch-up, or a failure covers it. -/
theorem unanswered_messages_are_tended (cfg : Config) (u : UserId) (g : Nat) (db : Db)
    (hdb : Fresh u g db) (ls : List ReplyLabel)
    (hls : Along (step cfg u) (netHoldsAt u) (start db) ls) :
    let w := run (step cfg u) (start db) ls
    ∀ m ∈ w.db.chat.rows, w.db.unanswered u m = true → Tended u w m := by
  intro w m hm hopen
  have hinv : TurnsInv u g w ∧ Covered u w :=
    invariant (fun w => TurnsInv u g w ∧ Covered u w)
      (fun w l h hl => ⟨(step_keeps h.1 l).1, (step_keeps h.1 l).2 hl h.2⟩) ⟨start_inv hdb,
        start_covered hdb⟩ hls
  exact tended_of_covered hinv.1 hinv.2 hm hopen

/-- The user `"u"` on `v2`, without jobs and messages. -/
def onV2 : Db :=
  { Db.init ["u"] ⟨false, none⟩ with
    runtime := put (fun _ => none) "u" (some ⟨.v2, 1⟩)
    runtimeDoc := put (fun _ => ⟨"", 0⟩) "u" ⟨"db_action_v2", 0⟩ }

theorem onV2_fresh : Fresh "u" 1 onV2 where
  runtime := by decide
  mode := by decide
  jobs _ := rfl
  chat _ hm := nomatch hm
  effects _ he := nomatch he
  failures _ hf := nomatch hf

/-- A message of `"u"` under the fence of the chat endpoint. -/
def fencedMessage (msgId : String) : ReplyLabel :=
  .send ⟨"u", msgId, 0, ⟨.user, "chat", "hi", "", "", "", "", "", "", ""⟩, .chat, some "message",
    none, some 1, some (.v2, "db_action_v2"), none⟩ fun _ => false

/-- The whole turn of worker `"a"` on the job, up to the publication of its reply. -/
def answer (job : JobId) (effectId msgId : String) (generation through : Int) : List ReplyLabel :=
  [.claim "a" job, .start job "a", .load job, .observe job, .pin job,
    .publish job effectId (DrainWorld.preservingReply msgId "" effectId generation through),
    .apply effectId ⟨.ok, none, true, fun _ => ""⟩]

/-- Three messages. The first turn answers the first one and its worker dies before the follow-up;
the net enqueues the catch-up for the third one, and that turn answers the second. -/
def answeredTwice : List ReplyLabel :=
  [fencedMessage "m1", fencedMessage "m2", fencedMessage "m3"] ++ answer 1 "e1" "m1" 2 1 ++
    [.crash 1, .select, .reconcile ⟨"m3", 1, false⟩] ++ answer 2 "e2" "m2" 0 2

/-- If the second worker dies before its follow-up too, the third message is stranded: the net finds
the catch-up it once enqueued for it and enqueues no other. -/
theorem catch_up_strands_newest_message :
    let w := run (step .default "u") (start onV2) (answeredTwice ++ [.crash 2])
    Fresh "u" 1 onV2 ∧
      ∃ m ∈ w.db.chat.rows, m.msgId = "m3" ∧ w.db.unanswered "u" m = true ∧ ¬ Tended "u" w m := by
  intro w
  have hinv : TurnsInv "u" 1 w :=
    invariant_all (TurnsInv "u" 1) (fun w l h => (step_keeps h l).1) (start_inv onV2_fresh) _
  have hnext : w.db.jobs.next = 3 := by decide +kernel
  have hturns : ∀ k < 3, w.turns k = none := by decide +kernel
  have hfailures : w.db.failures.rows = [] := by decide +kernel
  have hactive : w.db.hasActive "u" .chat = false := by decide +kernel
  have hnet : w.db.reconcileUnenqueued "u" = none := by decide +kernel
  refine ⟨onV2_fresh, ⟨3, "u", "m3", 0, ⟨.user, "chat", "hi", "", "", "", "", "", "", ""⟩⟩,
    by decide +kernel, rfl, by decide +kernel, ?_⟩
  rintro (h | ⟨k, t, j, ht, -⟩ | h | ⟨f, hf, -⟩)
  · rw [hactive] at h
    cases h
  · obtain ⟨i, hi, -⟩ := hinv.lane.turns k t ht
    have hlt := Serial.lt_next (Db.laneRow_eq_some.mp hi).1
    rw [hturns k (hnext ▸ hlt)] at ht
    cases ht
  · rw [hnet] at h
    cases h
  · rw [hfailures] at hf
    cases hf

/-- Before that the third message is tended: the turn has its follow-up to do. -/
theorem unanswered_messages_are_tended_answered_twice :
    let w := run (step .default "u") (start onV2) answeredTwice
    Fresh "u" 1 onV2 ∧ Along (step .default "u") (netHoldsAt "u") (start onV2) answeredTwice ∧
      (w.db.latestUnanswered "u").map (·.msgId) = some "m3" ∧
      ∀ m ∈ w.db.chat.rows, w.db.unanswered "u" m = true → Tended "u" w m :=
  have hls : Along (step .default "u") (netHoldsAt "u") (start onV2) answeredTwice := by
    decide +kernel
  ⟨onV2_fresh, hls,
    by
  decide +kernel, unanswered_messages_are_tended .default "u" 1 onV2 onV2_fresh answeredTwice hls⟩

end ReplyWorld

end Feedling
