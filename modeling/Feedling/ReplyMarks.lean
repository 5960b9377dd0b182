import Feedling.EffectRounds

/-!
# What a reply writes into the chat log

A reply appends assistant rows, links the inputs it consumed, and may take over the link of its
own parent when an earlier failure had stamped it. No other mark of any row moves.
-/

namespace Feedling

open KeyedTable

/-- The change of one row `m` to `m'` by a reply of `u` that consumes the inputs after `cursor`
and up to `through`, and names `parent`. -/
structure ReplyTouch (u : UserId) (cursor : Nat) (through : Option Nat) (parent : String)
    (m m' : ChatRow) : Prop where
  seq : m'.seq = m.seq
  userId : m'.userId = m.userId
  msgId : m'.msgId = m.msgId
  role : m'.doc.role = m.doc.role
  source : m'.doc.source = m.doc.source
  stamp : m'.doc.replyErrorClass ≠ "" → m.doc.replyErrorClass ≠ "" ∨ through.isSome = true ∧
    m'.replied = true
  marks : m'.doc.replyStatus = m.doc.replyStatus ∧ m'.doc.replyMessageId = m.doc.replyMessageId ∨
    m'.replied = true ∧ m.inputOf u = true ∧
      ((∃ t, through = some t ∧ cursor < m.seq ∧ m.seq ≤ t) ∨ m.msgId = parent ∧
        m.doc.replyErrorClass ≠ "")

namespace ReplyTouch

variable {u : UserId} {cursor : Nat} {through : Option Nat} {parent : String} {m m' m'' : ChatRow}

theorem refl (m : ChatRow) : ReplyTouch u cursor through parent m m :=
  ⟨rfl, rfl, rfl, rfl, rfl, .inl, .inl ⟨rfl, rfl⟩⟩

theorem inputOf (h : ReplyTouch u cursor through parent m m') (v : UserId) :
    m'.inputOf v = m.inputOf v := by
  rw [ChatRow.inputOf, ChatRow.inputOf, h.userId, h.role]

theorem replied_of_marks (h : m'.doc.replyStatus = m.doc.replyStatus ∧
      m'.doc.replyMessageId = m.doc.replyMessageId) :
    m'.replied = m.replied := by
  rw [ChatRow.replied, ChatRow.replied, h.1, h.2]

theorem replied (h : ReplyTouch u cursor through parent m m') (hm : m.replied = true) :
    m'.replied = true := by
  obtain hsame | ⟨hr, -⟩ := h.marks
  · rw [replied_of_marks hsame, hm]
  · exact hr

theorem trans (h : ReplyTouch u cursor none parent m m')
    (h' : ReplyTouch u cursor through parent m' m'') :
    ReplyTouch u cursor through parent m m'' where
  seq := h'.seq.trans h.seq
  userId := h'.userId.trans h.userId
  msgId := h'.msgId.trans h.msgId
  role := h'.role.trans h.role
  source := h'.source.trans h.source
  stamp hs := by
    obtain hs | hs := h'.stamp hs
    · obtain hs | hs := h.stamp hs
      · exact .inl hs
      · cases hs.1
    · exact .inr hs
  marks := by
    obtain hsame' | ⟨hr', hi', hwhy'⟩ := h'.marks
    · obtain hsame | ⟨hr, hi, hwhy⟩ := h.marks
      · exact .inl ⟨hsame'.1.trans hsame.1, hsame'.2.trans hsame.2⟩
      · refine .inr ⟨by rw [replied_of_marks hsame']; exact hr, hi, ?_⟩
        obtain ⟨t, ht, -⟩ | hstamped := hwhy
        · cases ht
        · exact .inr hstamped
    · refine .inr ⟨hr', by rw [← h.inputOf]; exact hi', ?_⟩
      obtain ⟨t, ht, hlt, hle⟩ | ⟨hp, hs⟩ := hwhy'
      · exact .inl ⟨t, ht, by rw [← h.seq]; exact hlt, by rw [← h.seq]; exact hle⟩
      · obtain hs | hs := h.stamp hs
        · exact .inr ⟨by rw [← h.msgId]; exact hp, hs⟩
        · cases hs.1

end ReplyTouch

/-- What a reply does to the chat log and the cursor of its user. -/
structure ReplyWrites (u : UserId) (through : Option Nat) (parent : String) (db db' : Db) :
    Prop where
  rows : ∀ k m, db.chat.find? k = some m → ∃ m', db'.chat.find? k = some m' ∧
    ReplyTouch u (db.runtimeDoc u).replyCursorSeq through parent m m'
  fresh : ∀ k m', db'.chat.find? k = some m' → db.chat.find? k = none →
    m'.userId = u ∧ m'.doc.role = .openclaw ∧ db.chat.next ≤ m'.seq
  cursor : (db'.runtimeDoc u).replyCursorSeq = max (db.runtimeDoc u).replyCursorSeq (through.getD 0)
  mode : (db'.runtimeDoc u).hostedRuntimeMode = (db.runtimeDoc u).hostedRuntimeMode
  others : ∀ v, v ≠ u → db'.runtimeDoc v = db.runtimeDoc v
  next : db.chat.next ≤ db'.chat.next

namespace ReplyWrites

variable {u : UserId} {through : Option Nat} {parent : String} {db mid db' : Db}

theorem refl (db : Db) : ReplyWrites u none parent db db where
  rows k m hm := ⟨m, hm, .refl m⟩
  fresh k m hm hn := by rw [hm] at hn; cases hn
  cursor := by simp
  mode := rfl
  others _ _ := rfl
  next := Nat.le_refl _

theorem trans (h : ReplyWrites u none parent db mid) (h' : ReplyWrites u through parent mid db') :
    ReplyWrites u through parent db db' where
  rows k m hm := by
    obtain ⟨m', hm', ht⟩ := h.rows k m hm
    obtain ⟨m'', hm'', ht'⟩ := h'.rows k m' hm'
    have hcursor : (mid.runtimeDoc u).replyCursorSeq = (db.runtimeDoc u).replyCursorSeq := by
      rw [h.cursor]; simp
    rw [hcursor] at ht'
    exact ⟨m'', hm'', ht.trans ht'⟩
  fresh k m'' hm'' hn := by
    cases hmid : mid.chat.find? k with
    | none =>
      obtain ⟨hu, hr, hle⟩ := h'.fresh k m'' hm'' hmid
      exact ⟨hu, hr, h.next.trans hle⟩
    | some m' =>
      obtain ⟨hu, hr, hle⟩ := h.fresh k m' hmid hn
      obtain ⟨x, hx, ht⟩ := h'.rows k m' hmid
      rw [hm''] at hx
      cases hx
      exact ⟨ht.userId.trans hu, ht.role.trans hr, by rw [ht.seq]; exact hle⟩
  cursor := by rw [h'.cursor, h.cursor]; simp
  mode := h'.mode.trans h.mode
  others v hv := (h'.others v hv).trans (h.others v hv)
  next := h.next.trans h'.next

theorem of_modify (p : ChatRow → Bool) (f : ChatRow → ChatRow) (hf : ∀ r, (f r).seq = r.seq)
    (hk : ∀ r, (f r).key = r.key)
    (ht : ∀ r, db.chat.find? r.key = some r → p r = true →
      ReplyTouch u (db.runtimeDoc u).replyCursorSeq none parent r (f r)) :
    ReplyWrites u none parent db { db with chat := db.chat.modify p f hf hk } where
  rows k m hm := by
    have hkey := (Indexed.find?_eq_some.mp hm).2
    refine ⟨if p m then f m else m, by simp [Indexed.find?_modify, hm], ?_⟩
    split
    · next hp => exact ht m (by rw [hkey]; exact hm) hp
    · exact .refl m
  fresh k m' hm' hn := by simp [Indexed.find?_modify, hn] at hm'
  cursor := by simp
  mode := rfl
  others _ _ := rfl
  next := Nat.le_refl _

end ReplyWrites

namespace Db

variable {cfg : Config} {uuid : Nat → String} {ms : List ReplyMessage} (db : Db) (u : UserId)
  (m : ReplyMessage)

theorem insertReply_writes (hrole : m.doc.role = .openclaw)
    (parent : String) :
    ReplyWrites u none parent db { db with
      chat := db.chat.insert (u, m.msgId) (fun n => ⟨n, u, m.msgId, m.ts,
        m.doc⟩) (fun _ => rfl) fun _ => rfl } where
  rows k r hr := by
    refine ⟨r, ?_, .refl r⟩
    simp only [Indexed.find?_insert, hr]
    simp
  fresh k r hr hn := by
    simp only [Indexed.find?_insert, hn] at hr
    split at hr
    · cases hr; exact ⟨rfl, hrole, Nat.le_refl _⟩
    · cases hr
  cursor := by simp
  mode := rfl
  others _ _ := rfl
  next := by
    simp only [Indexed.insert]
    split
    · exact Nat.le_refl _
    · exact Nat.le_succ _

/-- A reply only takes over the link of its own parent, and only from a failure. -/
theorem supersedeFailure_writes :
    ReplyWrites u none m.doc.replyToMessageId db (db.supersedeFailure u m) := by
  unfold supersedeFailure
  split
  · exact .refl db
  · next stamped hstamped =>
    obtain ⟨hfind, hcond⟩ := Option.filter_eq_some_iff.mp hstamped
    simp only [Bool.and_eq_true, bne_iff_ne] at hcond
    have hkey := (Indexed.find?_eq_some.mp hfind).2
    have huser : stamped.userId = u := congrArg Prod.fst hkey
    have hmsg : stamped.msgId = m.doc.replyToMessageId := congrArg Prod.snd hkey
    have hrelink : ReplyWrites u none m.doc.replyToMessageId db (db.relinkParent u m) := by
      refine .of_modify _ m.relink m.relink_seq m.relink_key fun r hr hp => ?_
      rw [beq_iff_eq.mp hp, hfind] at hr
      cases hr
      refine ⟨rfl, rfl, rfl, rfl, rfl, fun h => absurd rfl h, .inr ⟨rfl, ?_, .inr ⟨hmsg, hcond.2⟩⟩⟩
      rw [ChatRow.inputOf, huser, hcond.1]
      simp
    refine hrelink.trans (.of_modify _ ChatRow.withoutFailure ChatRow.withoutFailure_seq
      ChatRow.withoutFailure_key fun r _ _ => ?_)
    exact ⟨rfl, rfl, rfl, rfl, rfl, .inl, .inl ⟨rfl, rfl⟩⟩

theorem placeReply_writes {db db' : Db} {u : UserId} {m : ReplyMessage}
    (hrole : m.doc.role = .openclaw) (h : placeReply cfg db u m = some db') :
    ReplyWrites u none m.doc.replyToMessageId db db' := by
  unfold placeReply at h
  split at h
  · split at h
    · cases h; exact .refl db
    · cases h
  · next hnone =>
    have hinsert := insertReply_writes db u m hrole m.doc.replyToMessageId
    cases h
    split
    · exact hinsert.trans (supersedeFailure_writes _ u m)
    · exact hinsert

theorem advanceCursor_writes (t : Nat) (parent : String) :
    ReplyWrites u (some t) parent db (db.advanceCursor u t) where
  rows k m hm := ⟨m, hm, .refl m⟩
  fresh k m hm hn := by
    rw [show (db.advanceCursor u t).chat = db.chat from rfl, hn] at hm
    cases hm
  cursor := by simp [advanceCursor]
  mode := by simp [advanceCursor]
  others v hv := by simp [advanceCursor, put_other _ _ hv]
  next := Nat.le_refl _

theorem markReplied_writes (t : Nat) (m : ReplyMessage) (parent : String) :
    ReplyWrites u (some t) parent db
      ((db.markReplied u (db.runtimeDoc u).replyCursorSeq t m).advanceCursor u t) where
  rows k r hr := by
    refine ⟨if r.openBetween u (db.runtimeDoc u).replyCursorSeq t then m.link r else r, ?_, ?_⟩
    · simp only [advanceCursor, markReplied, Indexed.find?_modify, hr, Option.map_some]
    · split
      · next hopen =>
        simp only [ChatRow.openBetween, Bool.and_eq_true, decide_eq_true_eq] at hopen
        exact ⟨rfl, rfl, rfl, rfl, rfl, fun _ => .inr ⟨rfl, rfl⟩,
          .inr ⟨rfl, hopen.1.1.1, .inl ⟨t, rfl, hopen.1.1.2, hopen.1.2⟩⟩⟩
      · exact .refl r
  fresh k r hr hn := by
    simp only [advanceCursor, markReplied, Indexed.find?_modify, hn, Option.map_none] at hr
    cases hr
  cursor := by simp [advanceCursor, markReplied]
  mode := by simp [advanceCursor, markReplied]
  others v hv := by simp [advanceCursor, markReplied, put_other _ _ hv]
  next := Nat.le_refl _

theorem chatAppendEffectWithCursor_writes {db db' : Db} {u : UserId} {m : ReplyMessage}
    (hrole : m.doc.role = .openclaw) (h : chatAppendEffectWithCursor cfg db u m = some db') :
    ReplyWrites u m.through m.doc.replyToMessageId db db' := by
  unfold chatAppendEffectWithCursor at h
  split at h
  · cases h
  · dsimp only at h
    split at h
    · next hthrough => rw [hthrough]; exact placeReply_writes hrole h
    · next t hthrough =>
      rw [hthrough]
      split at h
      · cases h
      · obtain ⟨placed, hplaced, rfl⟩ := Option.map_eq_some_iff.mp h
        have hplace := placeReply_writes hrole hplaced
        have hcursor : (placed.runtimeDoc u).replyCursorSeq = (db.runtimeDoc u).replyCursorSeq := by
          rw [hplace.cursor]; simp
        rw [← hcursor]
        exact hplace.trans (markReplied_writes placed u t m _)

/-- The parts of a reply: assistant messages under one parent, the last one with the frontier. -/
inductive ReplyParts (parent : String) (through : Option Nat) : List ReplyMessage → Prop
  | last (m : ReplyMessage) : m.doc.role = .openclaw → m.doc.replyToMessageId = parent →
      m.through = through → ReplyParts parent through [m]
  | cons (m : ReplyMessage) (ms : List ReplyMessage) : m.doc.role = .openclaw →
      m.doc.replyToMessageId = parent → m.through = none → ReplyParts parent through ms →
      ReplyParts parent through (m :: ms)

theorem followupParts_parts (uuid : Nat → String) (now : Time) (parent voice : String)
    (through : Option Nat) (i : Nat) (e : List (String × Scalar))
    (es : List (List (String × Scalar))) :
    ReplyParts parent through (followupParts uuid now parent voice through i (e :: es)) := by
  induction es generalizing i e with
  | nil => exact .last _ rfl rfl rfl
  | cons e' es ih => exact .cons _ _ rfl rfl rfl (ih (i + 1) e')

theorem replyMessages_parts {p : Payload} {now : Time}
    (h : replyMessages p now uuid = some ms) :
    ∃ parent, p.replyParentMessageId = some parent ∧
      ReplyParts parent (p.exactNat? "reply_through_seq") ms := by
  unfold replyMessages at h
  split at h
  · next envelope parent _ hparent =>
    refine ⟨parent, hparent, ?_⟩
    dsimp only at h
    split at h
    · cases h; exact .last _ rfl rfl rfl
    · next e es _ => cases h; exact .cons _ _ rfl rfl rfl (followupParts_parts ..)
    · cases h
    · cases h
  · cases h

theorem foldlM_writes {u : UserId} {parent : String} {through : Option Nat}
    (hms : ReplyParts parent through ms) {db db' : Db}
    (h : ms.foldlM (fun db m => chatAppendEffectWithCursor cfg db u m) db = some db') :
    ReplyWrites u through parent db db' := by
  induction hms generalizing db with
  | last m hrole hparent hthrough =>
    rw [List.foldlM_cons] at h
    obtain ⟨mid, hmid, hrest⟩ := Option.bind_eq_some_iff.mp h
    cases hrest
    have := chatAppendEffectWithCursor_writes hrole hmid
    rwa [hthrough, hparent] at this
  | cons m ms hrole hparent hthrough _ ih =>
    rw [List.foldlM_cons] at h
    obtain ⟨mid, hmid, hrest⟩ := Option.bind_eq_some_iff.mp h
    have := chatAppendEffectWithCursor_writes hrole hmid
    rw [hthrough, hparent] at this
    exact this.trans (ih hrest)

theorem sinkReplyInTransaction_writes {db db' : Db} {u : UserId} {p : Payload}
    (h : sinkReplyInTransaction cfg db u p uuid = some db') :
    ∃ parent, p.replyParentMessageId = some parent ∧
      ReplyWrites u (p.exactNat? "reply_through_seq") parent db db' := by
  obtain ⟨ms, hms, hfold⟩ := Option.bind_eq_some_iff.mp h
  obtain ⟨parent, hparent, hparts⟩ := replyMessages_parts hms
  exact ⟨parent, hparent, foldlM_writes hparts hfold⟩

end Db

end Feedling
