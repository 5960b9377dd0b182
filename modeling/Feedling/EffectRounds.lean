import Feedling.QueueTxn
import Feedling.ReplyFences

/-!
# What one round of the applier can do

`Round` lists the outcomes of `applyEffect` on an effect that is open and due, each with the
checks that led to it. Every property of the outbox is read off this list.
-/

namespace Feedling

open KeyedTable

namespace Db

/-- The outcomes of a round on the open, due effect `e` of the user `u`. -/
inductive Round (cfg : Config) (db : Db) (u : UserId) (e : Effect) (d : Delivery) : Applied → Prop
  /-- Another generation, or not on `v2`. -/
  | stale : db.v2Generation u ≠ some e.expectedGeneration → Round cfg db u e d ⟨db.discardStale u e,
      false, true⟩
  /-- An error before any sink was called. -/
  | unreadable : db.v2Generation u = some e.expectedGeneration →
      Round cfg db u e d (db.dispatchError e.effectId (.failed "RuntimeError") false)
  /-- A refused reply that changes nothing else. -/
  | refused (reason : DiscardReason) : db.v2Generation u = some e.expectedGeneration →
      Round cfg db u e d ⟨db.discardEffect e.effectId reason.text, false, true⟩
  /-- A reply to a call that ended: it consumes job and input without a message. -/
  | voiceEnded (p : Payload) (check : FenceCheck) (done : Db) :
      db.v2Generation u = some e.expectedGeneration → e.payload = some p →
      db.replyFenceMatches cfg u e.jobId e.effectType p = some check → check.reason = none →
      (check.mode = .final ∨ check.mode = .legacyFinal) →
      db.completeFinalReplyJob u e.jobId check p.glanceFingerprint.1 = some done →
      Round cfg db u e d
        ⟨(done.advanceCursor u ((p.exactNat? "reply_through_seq").getD 0)).discardEffect
        e.effectId DiscardReason.voiceCallEnded.text, false, true⟩
  /-- The completion of such a reply raised. -/
  | rolledBack : db.v2Generation u = some e.expectedGeneration →
      Round cfg db u e d ⟨db, false, false⟩
  /-- A legacy final reply that lost to newer input. -/
  | handedOff (p : Payload) (check : FenceCheck) : db.v2Generation u = some e.expectedGeneration →
      e.payload = some p → db.replyFenceMatches cfg u e.jobId e.effectType p = some check →
      check.mode = .legacyFinal →
      Round cfg db u e d ⟨(handoffLegacyChatFinal cfg db u e.jobId check.claimedBy
        e.expectedGeneration).discardEffect e.effectId DiscardReason.inputAdvanced.text,
          false, true⟩
  /-- An ordinary sink that raised. -/
  | sinkFailed (p : Payload) (check : FenceCheck) (outcome : DeliveryOutcome) :
      db.v2Generation u = some e.expectedGeneration → e.payload = some p →
      db.replyFenceMatches cfg u e.jobId e.effectType p = some check → check.mode = .ordinary →
        outcome ≠ .ok →
      Round cfg db u e d ((ordinarySink cfg db u e p d).dispatchError e.effectId outcome true)
  /-- An ordinary sink that returned. -/
  | sinkApplied (p : Payload) (check : FenceCheck) : db.v2Generation u = some e.expectedGeneration →
      e.payload = some p → db.replyFenceMatches cfg u e.jobId e.effectType p = some check →
      check.mode = .ordinary →
      Round cfg db u e d ⟨(ordinarySink cfg db u e p d).markApplied e d.results, true, true⟩
  /-- A reply whose savepoint was undone. -/
  | replyFailed (outcome : DeliveryOutcome) (dispatched : Bool) :
      db.v2Generation u = some e.expectedGeneration → outcome ≠ .ok →
      Round cfg db u e d (db.dispatchError e.effectId outcome dispatched)
  /-- A reply that leaves its turn running. -/
  | replied (p : Payload) (check : FenceCheck) (published : Db) :
      db.v2Generation u = some e.expectedGeneration → e.payload = some p →
      db.replyFenceMatches cfg u e.jobId e.effectType p = some check → check.reason = none →
      check.mode = .transactional →
      sinkReplyInTransaction cfg db u p d.uuid = some published →
      Round cfg db u e d ⟨published.markApplied e none, true, true⟩
  /-- A reply that ends its turn. -/
  | published (p : Payload) (check : FenceCheck) (done published : Db) :
      db.v2Generation u = some e.expectedGeneration → e.payload = some p →
      db.replyFenceMatches cfg u e.jobId e.effectType p = some check → check.reason = none →
      check.mode.consumesJob = true →
      db.completeFinalReplyJob u e.jobId check p.glanceFingerprint.1 = some done →
      sinkReplyInTransaction cfg done u p d.uuid = some published →
      Round cfg db u e d ⟨published.markApplied e none, true, true⟩

variable {db : Db} {u : UserId} {e : Effect} {p : Payload} {check : FenceCheck}

/-- The reason a reply is discarded is the fence's own unless the fence accepted. -/
theorem discardReason_of_fence
    {reason : DiscardReason} (h : db.discardReason u e p check = some reason) :
    check.reason = some reason ∨ check.reason = none := by
  unfold discardReason at h
  dsimp only at h
  split at h
  · exact .inl h
  · next hn => exact .inr (by simpa using hn)

theorem reason_none_of_discardReason
    (h : db.discardReason u e p check = none) : check.reason = none := by
  unfold discardReason at h
  dsimp only at h
  split at h
  · next hs => rw [h] at hs; cases hs
  · next hn => simpa using hn

variable {cfg : Config} {job : Option JobId}

section

variable (hgen : db.v2Generation u = some e.expectedGeneration) (hp : e.payload = some p)
  (hcheck : db.replyFenceMatches cfg u e.jobId e.effectType p = some check)
include hgen hp hcheck

theorem discardReply_round {d : Delivery} {reason : DiscardReason} {discarded : Db}
    (hreason : db.discardReason u e p check = some reason)
    (h : discardReply cfg db u e.expectedGeneration e p check reason = some discarded) :
    Round cfg db u e d ⟨discarded, false, true⟩ := by
  unfold discardReply at h
  split at h
  · next hvoice =>
    obtain ⟨rfl, hmode⟩ := hvoice
    obtain ⟨done, hdone, rfl⟩ := Option.map_eq_some_iff.mp h
    have hnone : check.reason = none :=
      (discardReason_of_fence hreason).resolve_left (replyFenceMatches_spec hcheck).reason
    exact .voiceEnded p check done hgen hp hcheck hnone hmode hdone
  · split at h
    · next hlegacy =>
      obtain ⟨hmode, rfl⟩ := hlegacy
      cases h
      exact .handedOff p check hgen hp hcheck hmode
    · cases h
      exact .refused reason hgen

theorem deliver_round {d : Delivery} (hnone : check.reason = none) :
    Round cfg db u e d (deliver cfg db u e p check d) := by
  unfold deliver
  split
  · next hmode =>
    dsimp only
    split
    · split
      · exact .sinkApplied p check hgen hp hcheck hmode
      · exact .sinkFailed p check _ hgen hp hcheck hmode (by simp)
    · next outcome hne => exact .sinkFailed p check _ hgen hp hcheck hmode hne
  · next hmode =>
    dsimp only
    split
    · exact .unreadable hgen
    · next _ completed hcompleted houtcome =>
      split
      · next published hpublished =>
        split at hcompleted
        · next hconsumes =>
          exact .published p check completed published hgen hp hcheck hnone hconsumes hcompleted
            hpublished
        · next hconsumes =>
          cases hcompleted
          refine .replied p check published hgen hp hcheck hnone ?_ hpublished
          cases hm : check.mode <;> simp_all [ReplyMode.consumesJob]
      · exact .replyFailed _ true hgen (by simp)
    · next _ _ _ _ hne => exact .replyFailed _ true hgen hne

end

/-- One round of the applier: nothing but the runtime row, or an outcome of the open, due effect. -/
theorem applyEffect_round (cfg : Config) (db : Db) (u : UserId) (eid : String) (d : Delivery) :
    ((applyEffect cfg db u eid d).db = db.materializeRuntime u ∧
      (applyEffect cfg db u eid d).dispatched = false ∧
      ((applyEffect cfg db u eid d).continues = true →
        ∀ e, (db.materializeRuntime u).effects.find? eid = some e → e.status.isOpen = false)) ∨
    ∃ e, (db.materializeRuntime u).effects.find? eid = some e ∧ e.status.isOpen = true ∧
      (db.materializeRuntime u).due e = true ∧
      Round cfg (db.materializeRuntime u) u e d (applyEffect cfg db u eid d) := by
  unfold applyEffect
  dsimp only
  split
  · next hnone => exact .inl ⟨rfl, rfl, fun _ e he => by rw [hnone] at he; cases he⟩
  · next e he =>
    split
    · next hclosed =>
      refine .inl ⟨rfl, rfl, fun _ e' he' => ?_⟩
      rw [he] at he'
      cases he'
      simpa using hclosed
    · next hopen =>
      split
      · exact .inl ⟨rfl, rfl, by simp⟩
      · next hdue =>
        refine .inr ⟨e, he, by simpa using hopen, by simpa using hdue, ?_⟩
        split
        · next hgen =>
          rw [beq_iff_eq] at hgen
          unfold applyCurrent
          split
          · exact .unreadable hgen
          · next p hp =>
            split
            · exact .unreadable hgen
            · next check hcheck =>
              split
              · next reason hreason =>
                split
                · next discarded hdiscarded =>
                    exact discardReply_round hgen hp hcheck hreason hdiscarded
                · exact .rolledBack hgen
              · next hnone =>
                  exact deliver_round hgen hp hcheck (reason_none_of_discardReason hnone)
        · next hgen => exact .stale (by simpa using hgen)

/-! ## What the parts of a round leave alone -/

theorem completeFinalReplyJob_eq {db done : Db}
    {glance : Option String} (h : db.completeFinalReplyJob u job check glance = some done) :
    ∃ j, job = some j.id ∧ db.jobs.get? j.id = some j ∧ j.userId = u ∧ j.lane.replySource = true ∧
      j.status = .running ∧ j.claimedBy = check.claimedBy ∧ j.claimedBy.isSome = true ∧
      check.inputGeneration = some j.inputGeneration ∧ done = db.completeJob j.id := by
  unfold completeFinalReplyJob at h
  split at h
  · next j hj =>
    split at h
    · next hg =>
      obtain ⟨k, rfl, hk⟩ := Option.bind_eq_some_iff.mp hj
      obtain rfl : j.id = k := Serial.key_of_get? hk
      simp only [Bool.and_eq_true, beq_iff_eq] at hg
      obtain ⟨⟨⟨⟨⟨⟨hu, hlane⟩, hrun⟩, hsome⟩, hclaim⟩, hgen⟩, -⟩ := hg
      cases h
      exact ⟨j, rfl, hk, hu, hlane, hrun, hclaim, hsome, hgen.symm, rfl⟩
    · cases h
  · cases h

variable {db db' : Db}

theorem placeReply_frame {m : ReplyMessage}
    (h : placeReply cfg db u m = some db') : { db' with chat := db.chat } = db := by
  unfold placeReply at h
  split at h
  · split at h
    · cases h; rfl
    · cases h
  · cases h
    split
    · unfold supersedeFailure
      split <;> rfl
    · rfl

theorem chatAppendEffectWithCursor_frame {m : ReplyMessage}
    (h : chatAppendEffectWithCursor cfg db u m = some db') :
    { db' with chat := db.chat, runtimeDoc := db.runtimeDoc } = db := by
  unfold chatAppendEffectWithCursor at h
  split at h
  · cases h
  · dsimp only at h
    split at h
    · have := placeReply_frame h
      rw [← this]
    · split at h
      · cases h
      · obtain ⟨placed, hplaced, rfl⟩ := Option.map_eq_some_iff.mp h
        have := placeReply_frame hplaced
        rw [← this]
        rfl

theorem foldlM_append_frame {ms : List ReplyMessage}
    (h : ms.foldlM (fun db m => chatAppendEffectWithCursor cfg db u m) db = some db') :
    { db' with chat := db.chat, runtimeDoc := db.runtimeDoc } = db := by
  induction ms generalizing db with
  | nil => cases h; rfl
  | cons m ms ih =>
    rw [List.foldlM_cons] at h
    obtain ⟨mid, hmid, hrest⟩ := Option.bind_eq_some_iff.mp h
    have hhead := chatAppendEffectWithCursor_frame hmid
    have htail := ih hrest
    rw [← hhead, ← htail]

theorem sinkReplyInTransaction_frame
    {uuid : Nat → String} (h : sinkReplyInTransaction cfg db u p uuid = some db') :
    { db' with chat := db.chat, runtimeDoc := db.runtimeDoc } = db := by
  obtain ⟨ms, -, hms⟩ := Option.bind_eq_some_iff.mp h
  exact foldlM_append_frame hms

theorem sinkReplyInTransaction_effects
    {uuid : Nat → String} (h : sinkReplyInTransaction cfg db u p uuid = some db') :
    db'.effects = db.effects := by
  have heffects := congrArg Db.effects (sinkReplyInTransaction_frame h)
  exact heffects

theorem ordinarySink_cases (cfg : Config) (db : Db) (u : UserId) (e : Effect) (p : Payload)
    (d : Delivery) : ordinarySink cfg db u e p d = db ∨
    (∃ n, e.effectType = .other "cursor" ∧ ordinarySink cfg db u e p d = db.advanceCursor u n) ∨
    (∃ r, ordinarySink cfg db u e p d = (enqueueJob cfg db r).1) ∨
    (∃ msgId ts doc, doc.role = .openclaw ∧
      ordinarySink cfg db u e p d = (db.chatInsert u msgId ts doc).1) := by
  unfold ordinarySink
  split
  · split
    · next htype =>
      split
      · next v _ =>
        cases v.int? with
        | none => exact .inl rfl
        | some n => exact .inr (.inl ⟨n.toNat, htype, rfl⟩)
      · exact .inl rfl
    · dsimp only
      split
      · split
        · exact .inr (.inr (.inl ⟨_, rfl⟩))
        · exact .inl rfl
      · exact .inl rfl
    · exact .inr (.inr (.inr ⟨_, _, _, rfl, rfl⟩))
    · exact .inl rfl
  · exact .inl rfl

theorem ordinarySink_effects (cfg : Config) (db : Db) (u : UserId) (e : Effect) (p : Payload)
    (d : Delivery) : (ordinarySink cfg db u e p d).effects = db.effects := by
  obtain h | ⟨n, -, h⟩ | ⟨r, h⟩ | ⟨msgId, ts, doc, -, h⟩ := ordinarySink_cases cfg db u e p d
  · rw [h]
  · rw [h]; rfl
  · rw [h]; exact (enqueueJob_step cfg db r).effects
  · have heffects := congrArg Db.effects (db.chatInsert_rest u msgId ts doc)
    rw [h]
    exact heffects

theorem completeFinalReplyJob_blocks {done : Db} {glance : Option String}
    (h : db.completeFinalReplyJob u job check glance = some done) : Blocks .free db done := by
  obtain ⟨j, -, hj, -, -, hrun, -, -, -, rfl⟩ := completeFinalReplyJob_eq h
  exact .completeJob (fun _ _ => trivial) hj (by rw [hrun]; rfl)

theorem completeFinalReplyJob_step {done : Db} {glance : Option String}
    (h : db.completeFinalReplyJob u job check glance = some done) : QueueStep db done :=
  .of_free (completeFinalReplyJob_blocks h)

theorem handoffLegacyChatFinal_blocks (cfg : Config) (db : Db) (u : UserId) (job : Option JobId)
    (claimedBy : Option WorkerId) (generation : Nat) :
    Blocks .free db (handoffLegacyChatFinal cfg db u job claimedBy generation) := by
  unfold handoffLegacyChatFinal
  split
  · next j hj =>
    split
    · next hg =>
      obtain ⟨k, -, hk⟩ := Option.bind_eq_some_iff.mp hj
      obtain rfl : j.id = k := Serial.key_of_get? hk
      simp only [Bool.and_eq_true, beq_iff_eq] at hg
      have hactive : j.status.active = true := by rw [hg.1.2]; rfl
      refine Relation.ReflTransGen.trans (Blocks.writeRow hk ?_) (Blocks.insertJob trivial rfl rfl)
      exact .finish ⟨rfl, rfl, rfl, rfl, rfl⟩ hactive (.inl rfl) rfl rfl trivial
    · exact .refl
  · exact .refl

/-- Blocks of the queue, and writes to the chat log, the cursors and the outbox. -/
def QueuePart (db db' : Db) : Prop :=
  ∃ mid, Blocks .free db mid ∧
    { db' with chat := mid.chat, runtimeDoc := mid.runtimeDoc, effects := mid.effects } = mid

theorem QueuePart.dispatchError (h : QueuePart db db') (eid : String) (outcome : DeliveryOutcome)
    (dispatched : Bool) : QueuePart db (db'.dispatchError eid outcome dispatched).db := by
  unfold Db.dispatchError
  split <;> exact h

theorem ordinarySink_queue (cfg : Config) (db : Db) (u : UserId) (e : Effect) (p : Payload)
    (d : Delivery) : QueuePart db (ordinarySink cfg db u e p d) := by
  obtain h | ⟨n, -, h⟩ | ⟨r, h⟩ | ⟨msgId, ts, doc, -, h⟩ := ordinarySink_cases cfg db u e p d
  · rw [h]
    exact ⟨db, .refl, rfl⟩
  · rw [h]
    exact ⟨db, .refl, rfl⟩
  · rw [h]
    exact ⟨_, .enqueueJob cfg db r trivial (fun _ _ _ => trivial) fun _ _ => trivial, rfl⟩
  · rw [h]
    refine ⟨db, .refl, ?_⟩
    unfold chatInsert
    split <;> rfl

theorem sinkReplyInTransaction_queue {done : Db} {uuid : Nat → String} (h : Blocks .free db done)
    (hsink : sinkReplyInTransaction cfg done u p uuid = some db') (e : Effect)
    (results : Option (List Bool)) :
    QueuePart db (db'.markApplied e results) := by
  have hframe := sinkReplyInTransaction_frame hsink
  refine ⟨done, h, ?_⟩
  rw [← hframe]
  rfl

end Db

/-! ## The one effect a round writes -/

/-- One update of one effect, which keeps what identifies it. -/
structure EffectWrite (db db' : Db) (e e' : Effect) : Prop where
  before : db.effects.find? e.effectId = some e
  find : ∀ i, db'.effects.find? i = if i = e.effectId then some e' else db.effects.find? i
  enqueueSeq : e'.enqueueSeq = e.enqueueSeq
  effectId : e'.effectId = e.effectId
  userId : e'.userId = e.userId
  jobId : e'.jobId = e.jobId
  effectType : e'.effectType = e.effectType
  expectedGeneration : e'.expectedGeneration = e.expectedGeneration
  inputFrontierSeq : e'.inputFrontierSeq = e.inputFrontierSeq
  next : db'.effects.next = db.effects.next

namespace Db

theorem updateEffect_write {db mid : Db} {e : Effect} (hmid : mid.effects = db.effects)
    (he : db.effects.find? e.effectId = some e) {f : Effect → Effect}
    (hf : ∀ e, (f e).enqueueSeq = e.enqueueSeq) (hid : ∀ e, (f e).effectId = e.effectId)
    (huser : (f e).userId = e.userId) (hjob : (f e).jobId = e.jobId)
    (htype : (f e).effectType = e.effectType)
    (hgen : (f e).expectedGeneration = e.expectedGeneration)
    (hfrontier : (f e).inputFrontierSeq = e.inputFrontierSeq) :
    EffectWrite db (mid.updateEffect e.effectId f hf hid) e (f e) := by
  refine ⟨he, fun i => ?_, hf e, hid e, huser, hjob, htype, hgen, hfrontier, ?_⟩
  · simp only [updateEffect, Indexed.find?_modify, hmid]
    split
    · next h => simp [h, he]
    · next h =>
      cases hi : db.effects.find? i with
      | none => rfl
      | some x =>
        have hne : ¬ x.effectId = e.effectId := by rw [(Indexed.find?_eq_some.mp hi).2]; exact h
        simp [hne]
  · simp only [updateEffect, Indexed.modify, hmid]
    rfl

section DispatchError

variable (db : Db) (eid : String) (outcome : DeliveryOutcome) (dispatched : Bool)

theorem dispatchError_frame :
    { (db.dispatchError eid outcome dispatched).db with effects := db.effects } = db := by
  unfold dispatchError
  split <;> rfl

@[simp] theorem dispatchError_runtimeDoc :
    (db.dispatchError eid outcome dispatched).db.runtimeDoc = db.runtimeDoc := by
  have h := congrArg Db.runtimeDoc (dispatchError_frame db eid outcome dispatched)
  exact h

end DispatchError

end Db

/-- How a round leaves its effect: closed, or open with one more failed attempt on record. -/
structure Settles (e e' : Effect) (r : Applied) : Prop where
  closed : r.continues = true → e'.status.isOpen = false
  retried : e'.status.isOpen = true →
    e'.attemptCount = e.attemptCount + 1 ∧ e'.attemptCount < Db.effectMaxAttempts
  payload : e'.status.isOpen = true → e'.payload = e.payload

theorem Settles.of_closed {e e' : Effect} {r : Applied} (h : e'.status.isOpen = false) :
    Settles e e' r := by
  refine ⟨fun _ => h, fun hopen => ?_, fun hopen => ?_⟩ <;> rw [h] at hopen <;> cases hopen

namespace Db

section Writes

variable {db mid : Db} {e : Effect}

section

variable (hmid : mid.effects = db.effects) (he : db.effects.find? e.effectId = some e)
include hmid he

theorem discardEffect_write (hopen : e.status.isOpen = true) (reason : String) (b c : Bool) :
    ∃ e', EffectWrite db (mid.discardEffect e.effectId reason) e e' ∧ e'.status = .discarded ∧
      Settles e e' ⟨mid.discardEffect e.effectId reason, b, c⟩ := by
  have hclosed : (if e.status.isOpen then EffectStatus.discarded else e.status) = .discarded :=
    if_pos hopen
  refine ⟨_, updateEffect_write hmid he _ _ rfl rfl rfl rfl rfl, hclosed, .of_closed ?_⟩
  exact congrArg EffectStatus.isOpen hclosed

theorem markApplied_write (results : Option (List Bool)) (b c : Bool) :
    ∃ e', EffectWrite db (mid.markApplied e results) e e' ∧
      (e'.payload = if results.isSome then some resultPayload
        else if e.effectType.legacySensitive then some scrubbedPayload else e.payload) ∧
      Settles e e' ⟨mid.markApplied e results, b, c⟩ := by
  cases results with
  | none =>
    exact ⟨_, updateEffect_write hmid he _ _ rfl rfl rfl rfl rfl, rfl, .of_closed rfl⟩
  | some items =>
    refine ⟨_, updateEffect_write hmid he _ _ rfl rfl rfl rfl rfl, rfl, .of_closed ?_⟩
    dsimp only
    split <;> rfl

end

theorem discardStale_write (he : db.effects.find? e.effectId = some e) (u : UserId) (b c : Bool) :
    ∃ e', EffectWrite db (db.discardStale u e) e e' ∧ e'.status = .discarded ∧
      Settles e e' ⟨db.discardStale u e, b, c⟩ :=
  ⟨_, updateEffect_write rfl he _ _ rfl rfl rfl rfl rfl, rfl, .of_closed rfl⟩

section

variable (hmid : mid.effects = db.effects) (he : db.effects.find? e.effectId = some e)
  (hopen : e.status.isOpen = true)
include hmid he hopen

theorem effectRecordError_write (error : String) (required : Bool) (b : Bool) :
    ∃ e', EffectWrite db (mid.effectRecordError e.effectId error required) e e' ∧
      (e'.status = e.status ∨ e'.status = .needsReconciliation) ∧
      Settles e e' ⟨mid.effectRecordError e.effectId error required, b, false⟩ := by
  have hrow : errorRecorded mid.clock error required e = { e with
      lastError := truncate 256 error, attemptCount := e.attemptCount + 1
      nextAttemptAt := mid.clock + retryDelay e.attemptCount
      status := if required || decide (effectMaxAttempts ≤ e.attemptCount + 1)
        then .needsReconciliation else e.status } := by
    rw [errorRecorded, if_pos hopen]
  refine ⟨errorRecorded mid.clock error required e,
    updateEffect_write hmid he _ _ (by rw [hrow]) (by rw [hrow])
    (by rw [hrow]) (by rw [hrow]) (by rw [hrow]), ?_, ⟨(fun h => nomatch h), ?_,
      fun _ => by rw [hrow]⟩⟩
  · rw [hrow]
    dsimp only
    split
    · exact .inr rfl
    · exact .inl rfl
  · rw [hrow]
    dsimp only
    split
    · intro h; cases h
    · next hlimit =>
      simp only [Bool.or_eq_true, decide_eq_true_eq, not_or, Nat.not_le] at hlimit
      exact fun _ => ⟨rfl, hlimit.2⟩

theorem dispatchError_write (outcome : DeliveryOutcome) (b : Bool) :
    ∃ e', EffectWrite db (mid.dispatchError e.effectId outcome b).db e e' ∧
      (e'.status = e.status ∨ e'.status = .needsReconciliation ∨ e'.status = .discarded) ∧
      Settles e e' (mid.dispatchError e.effectId outcome b) := by
  unfold dispatchError
  split
  · obtain ⟨e', hw, hs, hsettles⟩ :=
      discardEffect_write hmid he hopen DeliveryOutcome.terminalError.errorText b true
    exact ⟨e', hw, .inr (.inr hs), hsettles⟩
  · obtain ⟨e', hw, hs, hsettles⟩ :=
      effectRecordError_write hmid he hopen DeliveryOutcome.uncertain.errorText true b
    exact ⟨e', hw, hs.imp_right .inl, hsettles⟩
  · obtain ⟨e', hw, hs, hsettles⟩ := effectRecordError_write hmid he hopen outcome.errorText false b
    exact ⟨e', hw, hs.imp_right .inl, hsettles⟩

end

end Writes

namespace Round

variable {cfg : Config} {db : Db} {u : UserId} {e : Effect} {d : Delivery} {r : Applied}

theorem current_of_dispatched (h : Round cfg db u e d r) (hd : r.dispatched = true) :
    db.v2Generation u = some e.expectedGeneration := by
  cases h with
  | stale => cases hd
  | unreadable hgen | refused _ hgen | voiceEnded _ _ _ hgen | rolledBack hgen | handedOff _ _ hgen
  | sinkFailed _ _ _ hgen | sinkApplied _ _ hgen | replyFailed _ _ hgen | replied _ _ _ hgen
  | published _ _ _ _ hgen => exact hgen

theorem wrote {P : Effect → Prop} (h : ∃ e', EffectWrite db r.db e e' ∧ P e' ∧ Settles e e' r) :
    (r.db = db ∧ r.dispatched = false ∧ r.continues = false) ∨
      ∃ e', EffectWrite db r.db e e' ∧ Settles e e' r := by
  obtain ⟨e', hw, -, hs⟩ := h
  exact .inr ⟨e', hw, hs⟩

/-- A round writes its own effect and no other, except when it is undone as a whole. -/
theorem effect (h : Round cfg db u e d r) (he : db.effects.find? e.effectId = some e)
    (hopen : e.status.isOpen = true) :
    (r.db = db ∧ r.dispatched = false ∧ r.continues = false) ∨
      ∃ e', EffectWrite db r.db e e' ∧ Settles e e' r := by
  cases h with
  | rolledBack => exact .inl ⟨rfl, rfl, rfl⟩
  | stale =>
    exact wrote (discardStale_write he u false true)
  | unreadable =>
    exact wrote (dispatchError_write rfl he hopen (.failed "RuntimeError") false)
  | replyFailed outcome dispatched =>
    exact wrote (dispatchError_write rfl he hopen outcome dispatched)
  | refused reason =>
    exact wrote (discardEffect_write rfl he hopen reason.text false true)
  | voiceEnded p check done _ _ _ _ _ hdone =>
    have hmid : (done.advanceCursor u ((p.exactNat? "reply_through_seq").getD 0)).effects =
        db.effects :=
      (completeFinalReplyJob_step hdone).effects
    exact wrote (discardEffect_write hmid he hopen DiscardReason.voiceCallEnded.text false true)
  | handedOff p check =>
    have hmid := (QueueStep.of_free
      (handoffLegacyChatFinal_blocks cfg db u e.jobId check.claimedBy e.expectedGeneration)).effects
    exact wrote (discardEffect_write hmid he hopen DiscardReason.inputAdvanced.text false true)
  | sinkFailed p check outcome =>
    exact wrote (dispatchError_write (ordinarySink_effects cfg db u e p d) he hopen outcome true)
  | sinkApplied p check =>
    exact wrote (markApplied_write (ordinarySink_effects cfg db u e p d) he d.results true true)
  | replied p check published _ _ _ _ _ hpublished =>
    exact wrote (markApplied_write (sinkReplyInTransaction_effects hpublished) he none true true)
  | published p check done published _ _ _ _ _ hdone hpublished =>
    have hmid :=
      (sinkReplyInTransaction_effects hpublished).trans (completeFinalReplyJob_step hdone).effects
    exact wrote (markApplied_write hmid he none true true)

/-- What a round does beside the chat log, the cursors and the outbox. -/
theorem queue (h : Round cfg db u e d r) : QueuePart db r.db := by
  have hrefl : QueuePart db db := ⟨db, .refl, rfl⟩
  cases h with
  | rolledBack | stale | refused => exact hrefl
  | unreadable | replyFailed => exact hrefl.dispatchError ..
  | voiceEnded p check done _ _ _ _ _ hdone => exact ⟨done, completeFinalReplyJob_blocks hdone, rfl⟩
  | handedOff p check =>
    exact ⟨_, handoffLegacyChatFinal_blocks cfg db u e.jobId check.claimedBy e.expectedGeneration,
      rfl⟩
  | sinkFailed p check outcome => exact (ordinarySink_queue cfg db u e p d).dispatchError ..
  | sinkApplied p check =>
    obtain ⟨mid, hblocks, hframe⟩ := ordinarySink_queue cfg db u e p d
    exact ⟨mid, hblocks, hframe⟩
  | replied p check published _ _ _ _ _ hpublished =>
    exact sinkReplyInTransaction_queue .refl hpublished e none
  | published p check done published _ _ _ _ _ hdone hpublished =>
    exact sinkReplyInTransaction_queue (completeFinalReplyJob_blocks hdone) hpublished e none

theorem runtime (h : Round cfg db u e d r) : r.db.runtime = db.runtime := by
  obtain ⟨mid, hblocks, hframe⟩ := h.queue
  have hruntime := congrArg Db.runtime hframe
  exact hruntime.trans (QueueStep.of_free hblocks).runtime

end Round

end Db

end Feedling
