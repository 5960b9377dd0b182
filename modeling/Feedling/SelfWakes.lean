import Mathlib.Data.List.DropRight
import Feedling.Runs
import Feedling.Store

/-!
# Chains of self-scheduled wakes

A turn that nobody asked for may schedule the next one. Such a wake is admitted only while the
streak of admitted ones is below a limit, and a newer message of the user resets the streak at the
next decision. The newest message is read from the chat, where it may meanwhile be deleted, so the
stored number can fall. It only rises with a new message, and that is why the streak is reset once
for each message at most.
-/

namespace Feedling

namespace SelfWake

open KeyedTable

/-! ## Admission -/

/-- The columns of `v2_wake_schedule` for self-scheduled wakes, and their defaults. -/
structure SelfWakeRow where
  streak : Nat := 0
  userSeq : Nat := 0
  lastEffectId : String := ""
  lastEffectAccepted : Option Bool := none
  deriving DecidableEq, Repr

structure Reservation where
  accepted : Bool
  streak : Nat
  reason : String
  replayed : Bool
  deriving DecidableEq, Repr

/-- A message that the user really sent. -/
def genuine (u : UserId) (m : ChatRow) : Bool := m.inputOf u && m.doc.source ∉ ["verify_ping",
    "resident_maintenance"]

/-- `COALESCE(MAX(seq),0)`. -/
def maxSeq (seqs : List Nat) : Nat := seqs.foldr max 0

def userSeqOf (u : UserId) (rows : List ChatRow) : Nat :=
  maxSeq ((rows.filter (genuine u)).map (·.seq))

def loopGuard (accepted : Bool) : String := if accepted then "" else "self_wake_loop_guard"

/-- `reserve_self_wake`; `none` is the refusal of an empty effect id. -/
def reserveSelfWake (rows : List ChatRow) (u : UserId) (s : SelfWakeRow) (effectId : String)
    (maxConsecutive : Int) : Option (Reservation × SelfWakeRow) :=
  let normalized := strip effectId
  if normalized = "" then none
  else
    let limit := max 0 maxConsecutive
    if s.lastEffectId = normalized then
      let accepted := s.lastEffectAccepted.getD false
      some (⟨accepted, s.streak, loopGuard accepted, true⟩, s)
    else
      let userSeq := userSeqOf u rows
      let streak := if s.userSeq < userSeq then 0 else s.streak
      let accepted := decide (limit ≤ 0 ∨ (streak : Int) < limit)
      let nextStreak := if accepted then streak + 1 else streak
      some (⟨accepted, nextStreak, loopGuard accepted, false⟩, ⟨nextStreak, userSeq, normalized,
          some accepted⟩)

theorem le_maxSeq {seqs : List Nat} {n : Nat} (h : n ∈ seqs) : n ≤ maxSeq seqs := by
  induction seqs with
  | nil => cases h
  | cons m seqs ih =>
    rw [maxSeq, List.foldr_cons]
    obtain rfl | h := List.mem_cons.mp h
    · exact le_max_left _ _
    · exact (ih h).trans (le_max_right _ _)

theorem maxSeq_mem (seqs : List Nat) : maxSeq seqs = 0 ∨ maxSeq seqs ∈ seqs := by
  induction seqs with
  | nil => exact Or.inl rfl
  | cons m seqs ih =>
    have hcons : maxSeq (m :: seqs) = max m (maxSeq seqs) := rfl
    rw [hcons]
    obtain hle | hle := le_total (maxSeq seqs) m
    · rw [max_eq_left hle]
      exact Or.inr List.mem_cons_self
    · rw [max_eq_right hle]
      exact ih.imp_right (List.mem_cons_of_mem m)

theorem le_userSeqOf {u : UserId} {rows : List ChatRow} {m : ChatRow} (hm : m ∈ rows)
    (hgenuine : genuine u m = true) :
    m.seq ≤ userSeqOf u rows := le_maxSeq (List.mem_map_of_mem (List.mem_filter.mpr ⟨hm, hgenuine⟩))

theorem userSeqOf_cases (u : UserId) (rows : List ChatRow) :
    userSeqOf u rows = 0 ∨ ∃ m ∈ rows, genuine u m = true ∧ m.seq = userSeqOf u rows := by
  refine (maxSeq_mem _).imp_right fun hmem => ?_
  obtain ⟨m, hm, hseq⟩ := List.mem_map.mp hmem
  obtain ⟨hrow, hgenuine⟩ := List.mem_filter.mp hm
  exact ⟨m, hrow, hgenuine, hseq⟩

/-! ## Histories -/

/-- What happened: a message of the user, a call with the message that it read, or nothing that
matters. -/
inductive Event where
  | message (seq : Nat)
  | call (effectId : String) (observed : Option Nat) (result : Reservation)
  | quiet
  deriving DecidableEq, Repr

namespace Event

def isMessage : Event → Bool
  | message _ => true
  | _ => false

/-- A call that was decided and not replayed. -/
def fresh : Event → Bool
  | call _ _ result => !result.replayed
  | _ => false

/-- A call that returned accepted, and not as a replay. -/
def admitted : Event → Bool
  | call _ _ result => result.accepted && !result.replayed
  | _ => false

def observed : Event → Nat
  | call _ observed _ => observed.getD 0
  | _ => 0

def asCall? : Event → Option (String × Reservation)
  | call effectId _ result => some (effectId, result)
  | _ => none

theorem fresh_of_admitted {e : Event} (h : e.admitted = true) : e.fresh = true := by
  cases e with
  | message n => cases h
  | quiet => cases h
  | call effectId observed result =>
    rw [admitted, Bool.and_eq_true] at h
    exact h.2

end Event

def admissions (log : List Event) : Nat := log.countP Event.admitted

/-- The newest message that a call has read. -/
def observedMax (log : List Event) : Nat := maxSeq (log.map Event.observed)

/-- What happened since the last message with a number; since the start for none. -/
def since (n : Nat) (log : List Event) : List Event :=
  if n = 0 then log else log.rtakeWhile fun e => decide (e ≠ .message n)

def sinceMessage (log : List Event) : List Event := log.rtakeWhile fun e => !e.isMessage

def sinceFresh (log : List Event) : List Event := log.rtakeWhile fun e => !e.fresh

def lastCall? (log : List Event) : Option (String × Reservation) :=
  (log.filterMap Event.asCall?).getLast?

/-! ### Ends of histories -/

theorem rtakeWhile_suffix_of_mem {α : Type} {p q : α → Bool} {l : List α}
    (h : ∃ x ∈ l.rtakeWhile p, q x = false) : l.rtakeWhile q <:+ l.rtakeWhile p := by
  induction l using List.reverseRecOn with
  | nil => simp at h
  | append_singleton l y ih =>
    rw [List.rtakeWhile_concat] at h ⊢
    rw [List.rtakeWhile_concat]
    split_ifs at h ⊢ with hq hp hp
    · obtain ⟨x, hx, hqx⟩ := h
      obtain hx | hx := List.mem_append.mp hx
      · obtain ⟨front, hfront⟩ := ih ⟨x, hx, hqx⟩
        exact ⟨front, by rw [← List.append_assoc, hfront]⟩
      · rw [List.mem_singleton.mp hx, hq] at hqx
        cases hqx
    · simp at h
    · exact List.nil_suffix
    · simp at h

theorem admissions_append (log log' : List Event) :
    admissions (log ++ log') = admissions log + admissions log' := List.countP_append

variable {log : List Event}

theorem admissions_eq_zero (h : ∀ e ∈ log, e.fresh = false) : admissions log = 0 := by
  rw [admissions, List.countP_eq_zero]
  intro e he hadmitted
  have hfresh := Event.fresh_of_admitted hadmitted
  rw [h e he] at hfresh
  cases hfresh

theorem admissions_le_of_suffix {log log' : List Event} (h : log <:+ log') :
    admissions log ≤ admissions log' :=
  h.sublist.countP_le

theorem observedMax_concat (log : List Event) (e : Event) :
    observedMax (log ++ [e]) = max (observedMax log) e.observed := by
  rw [observedMax, observedMax, List.map_append]
  induction log.map Event.observed with
  | nil => simp [maxSeq]
  | cons n l ih =>
    have hcons : ∀ l, maxSeq (n :: l) = max n (maxSeq l) := fun _ => rfl
    rw [List.cons_append, hcons, hcons, ih, max_assoc]

theorem lastCall?_concat (log : List Event) (e : Event) :
    lastCall? (log ++ [e]) = e.asCall?.or (lastCall? log) := by
  rw [lastCall?, lastCall?, List.filterMap_append]
  cases e with
  | message n => simp [Event.asCall?]
  | quiet => simp [Event.asCall?]
  | call effectId observed result => simp [Event.asCall?]

variable {e : Event}

theorem since_concat {n : Nat} (h : e ≠ .message n) :
    since n (log ++ [e]) = since n log ++ [e] := by
  unfold since
  split_ifs
  · rfl
  · rw [List.rtakeWhile_concat, if_pos (decide_eq_true h)]

theorem sinceMessage_concat (h : e.isMessage = false) :
    sinceMessage (log ++ [e]) = sinceMessage log ++ [e] := by
  rw [sinceMessage, List.rtakeWhile_concat, if_pos (by rw [h]; rfl)]
  rfl

theorem sinceMessage_message (log : List Event) (n : Nat) :
    sinceMessage (log ++ [.message n]) = [] := by
  rw [sinceMessage, List.rtakeWhile_concat, if_neg (by simp [Event.isMessage])]

theorem sinceFresh_concat (h : e.fresh = false) :
    sinceFresh (log ++ [e]) = sinceFresh log ++ [e] := by
  rw [sinceFresh, List.rtakeWhile_concat, if_pos (by rw [h]; rfl)]
  rfl

/-! ## Runs -/

/-- The chat, the row of the user, and what happened. -/
structure SelfWakeWorld where
  chat : Indexed ChatRow.seq ChatRow.key
  wake : SelfWakeRow
  log : List Event

/-- What may happen; chat rows belong to any user, and any of them may be deleted. -/
inductive SelfWakeLabel where
  | reserve (effectId : String)
  | append (userId : UserId) (msgId : String) (ts : Time) (doc : ChatDoc)
  | delete (rows : ChatRow → Bool)
  | clear

namespace SelfWakeWorld

def start : SelfWakeWorld := ⟨Indexed.empty 1, {}, []⟩

def callEvent (rows : List ChatRow) (u : UserId) (effectId : String) (result : Reservation) :
    Event :=
  .call (strip effectId) (if result.replayed then none else some (userSeqOf u rows)) result

def next (u : UserId) (maxConsecutive : Int) (w : SelfWakeWorld) : SelfWakeLabel → SelfWakeWorld
  | .reserve effectId =>
    match reserveSelfWake w.chat.rows u w.wake effectId maxConsecutive with
    | none => { w with log := w.log ++ [.quiet] }
    | some (result, wake) =>
      { w with wake, log := w.log ++ [callEvent w.chat.rows u effectId result] }
  | .append userId msgId ts doc =>
    let row (n : Nat) : ChatRow := ⟨n, userId, msgId, ts, doc⟩
    let sent := (w.chat.find? (userId, msgId)).isNone && genuine u (row w.chat.next)
    { w with
      chat := w.chat.insert (userId, msgId) row (ChatRow.seq_mk userId msgId ts doc)
        (ChatRow.key_mk userId msgId ts doc)
      log := w.log ++ [if sent then .message w.chat.next else .quiet] }
  | .delete rows => { w with chat := w.chat.erase rows, log := w.log ++ [.quiet] }
  | .clear => { w with chat := w.chat.erase fun m => m.userId == u, log := w.log ++ [.quiet] }

variable {u : UserId} {maxConsecutive : Int} {w : SelfWakeWorld} {effectId : String}

theorem next_reserve_none
    (h : reserveSelfWake w.chat.rows u w.wake effectId maxConsecutive = none) :
    w.next u maxConsecutive (.reserve effectId) = { w with log := w.log ++ [.quiet] } := by
  simp only [next, h]

theorem next_reserve_some {result : Reservation} {wake : SelfWakeRow}
    (h : reserveSelfWake w.chat.rows u w.wake effectId maxConsecutive = some (result, wake)) :
    w.next u maxConsecutive (.reserve effectId) =
      { w with wake, log := w.log ++ [callEvent w.chat.rows u effectId result] } := by
  simp only [next, h]

end SelfWakeWorld

/-- No part of the history without a message admits more wakes than the limit. -/
def BoundedBetween (limit : Nat) (log : List Event) : Prop :=
  ∀ pre mid post, log = pre ++ mid ++ post → (∀ e ∈ mid, e.isMessage = false) →
    admissions mid ≤ limit

/-- The row against the history. -/
structure SelfWakeInv (u : UserId) (limit : Nat) (w : SelfWakeWorld) : Prop where
  within : w.wake.streak ≤ limit
  unread : ∀ m ∈ w.chat.rows, genuine u m = true → m.seq ≤ w.wake.userSeq ∨
    .message m.seq ∈ sinceFresh w.log
  newer : ∀ n, .message n ∈ sinceFresh w.log → observedMax w.log < n
  serial : observedMax w.log < w.chat.next
  seen : w.wake.userSeq ≤ observedMax w.log
  counted : admissions (since (observedMax w.log) w.log) = w.wake.streak
  interval : (∃ e ∈ sinceMessage w.log, e.fresh = true) →
    admissions (sinceMessage w.log) ≤ w.wake.streak
  bounded : BoundedBetween limit w.log
  last : ∀ call, lastCall? w.log = some call → w.wake.lastEffectId = call.1 ∧
    w.wake.lastEffectAccepted = some call.2.accepted
  first : lastCall? w.log = none → w.wake.lastEffectId = ""
  refused : w.wake.lastEffectAccepted = some false → w.wake.streak = limit

section Steps

variable {u : UserId} {limit : Nat} {w : SelfWakeWorld}

/-- Nothing is admitted between two messages before the first decision. -/
theorem admissions_sinceMessage (h : SelfWakeInv u limit w) :
    admissions (sinceMessage w.log) ≤ limit := by
  by_cases hfresh : ∃ e ∈ sinceMessage w.log, e.fresh = true
  · exact (h.interval hfresh).trans h.within
  · have hnone : ∀ e ∈ sinceMessage w.log, e.fresh = false := by
      intro e he
      by_contra hne
      exact hfresh ⟨e, he, by simpa using hne⟩
    rw [admissions_eq_zero hnone]
    exact Nat.zero_le _

/-- A part at the end of the history without a message lies behind the last message. -/
theorem suffix_sinceMessage {log mid pre : List Event} (h : log = pre ++ mid)
    (hmid : ∀ e ∈ mid, e.isMessage = false) : mid <:+ sinceMessage log := by
  subst h
  induction mid using List.reverseRecOn with
  | nil => exact List.nil_suffix
  | append_singleton mid e ih =>
    have he : (!e.isMessage) = true := by rw [hmid e (by simp)]; rfl
    rw [sinceMessage, ← List.append_assoc, List.rtakeWhile_concat, if_pos he]
    obtain ⟨front, hfront⟩ := ih fun x hx => hmid x (List.mem_append_left _ hx)
    exact ⟨front, by rw [← List.append_assoc, hfront]; rfl⟩

variable {log : List Event} {e : Event}

theorem BoundedBetween.concat (h : BoundedBetween limit log)
    (hend : admissions (sinceMessage (log ++ [e])) ≤ limit) :
    BoundedBetween limit (log ++ [e]) := by
  intro pre mid post hsplit hmid
  obtain rfl | ⟨post', x, rfl⟩ := List.eq_nil_or_concat post
  · rw [List.append_nil] at hsplit
    exact (admissions_le_of_suffix (suffix_sinceMessage hsplit hmid)).trans hend
  · rw [List.concat_eq_append, ← List.append_assoc] at hsplit
    obtain ⟨hlog, -⟩ := List.append_inj' hsplit rfl
    exact h pre mid post' hlog hmid

/-- An event that is neither a message nor a decision. -/
structure Silent (e : Event) : Prop where
  message : e.isMessage = false
  fresh : e.fresh = false
  observed : e.observed = 0

theorem Silent.quiet : Silent .quiet := ⟨rfl, rfl, rfl⟩

theorem SelfWakeInv.silent (h : SelfWakeInv u limit w) (he : Silent e)
    {chat : Indexed ChatRow.seq ChatRow.key} (hrows : ∀ m ∈ chat.rows, genuine u m = true →
      m ∈ w.chat.rows) (hnext : w.chat.next ≤ chat.next)
    (hcall : ∀ call, e.asCall? = some call → w.wake.lastEffectId = call.1 ∧
      w.wake.lastEffectAccepted = some call.2.accepted) :
    SelfWakeInv u limit ⟨chat, w.wake, w.log ++ [e]⟩ := by
  have hne : ∀ n, e ≠ .message n := by
    rintro n rfl
    cases he.message
  have hadmitted : admissions [e] = 0 :=
    admissions_eq_zero fun x hx => by rw [List.mem_singleton.mp hx, he.fresh]
  have hmessages : sinceMessage (w.log ++ [e]) = sinceMessage w.log ++ [e] :=
    sinceMessage_concat he.message
  have hfreshes : sinceFresh (w.log ++ [e]) = sinceFresh w.log ++ [e] := sinceFresh_concat he.fresh
  have hobserved : observedMax (w.log ++ [e]) = observedMax w.log := by
    rw [observedMax_concat, he.observed, Nat.max_zero]
  have hinterval : admissions (sinceMessage (w.log ++ [e])) = admissions (sinceMessage w.log) := by
    rw [hmessages, admissions_append, hadmitted, Nat.add_zero]
  refine ⟨h.within, ?_, ?_, ?_, ?_, ?_, ?_, ?_, ?_, ?_, h.refused⟩
  · intro m hm hgenuine
    dsimp only
    rw [hfreshes]
    exact (h.unread m (hrows m hm hgenuine) hgenuine).imp_right (List.mem_append_left _)
  · intro n hn
    dsimp only at hn ⊢
    rw [hfreshes, List.mem_append, List.mem_singleton] at hn
    rw [hobserved]
    exact h.newer n (hn.resolve_right fun heq => hne n heq.symm)
  · dsimp only
    rw [hobserved]
    exact Nat.lt_of_lt_of_le h.serial hnext
  · dsimp only
    rw [hobserved]
    exact h.seen
  · dsimp only
    rw [hobserved, since_concat (hne _), admissions_append, hadmitted, Nat.add_zero]
    exact h.counted
  · rintro ⟨x, hx, hfresh⟩
    dsimp only at hx ⊢
    rw [hmessages, List.mem_append, List.mem_singleton] at hx
    rw [hinterval]
    obtain hx | rfl := hx
    · exact h.interval ⟨x, hx, hfresh⟩
    · rw [he.fresh] at hfresh
      cases hfresh
  · exact h.bounded.concat (hinterval.trans_le (admissions_sinceMessage h))
  · intro call hlast
    dsimp only at hlast
    rw [lastCall?_concat] at hlast
    cases hcalled : e.asCall? with
    | none =>
      rw [hcalled, Option.none_or] at hlast
      exact h.last call hlast
    | some call' =>
      rw [hcalled, Option.some_or] at hlast
      cases hlast
      exact hcall call hcalled
  · intro hlast
    dsimp only at hlast
    rw [lastCall?_concat, Option.or_eq_none_iff] at hlast
    exact h.first hlast.2

theorem SelfWakeInv.message (h : SelfWakeInv u limit w) {chat : Indexed ChatRow.seq ChatRow.key}
    (hrows : ∀ m ∈ chat.rows, m ∈ w.chat.rows ∨ m.seq = w.chat.next)
    (hnext : chat.next = w.chat.next + 1) :
    SelfWakeInv u limit ⟨chat, w.wake, w.log ++ [.message w.chat.next]⟩ := by
  have hmessages := sinceMessage_message w.log w.chat.next
  have hfreshes : sinceFresh (w.log ++ [.message w.chat.next]) = sinceFresh w.log ++
      [.message w.chat.next] :=
    sinceFresh_concat rfl
  have hobserved : observedMax (w.log ++ [.message w.chat.next]) = observedMax w.log :=
    (observedMax_concat _ _).trans (Nat.max_zero _)
  have hcalls : lastCall? (w.log ++ [.message w.chat.next]) = lastCall? w.log :=
    lastCall?_concat _ _
  have hserial := h.serial
  refine ⟨h.within, ?_, ?_, ?_, ?_, ?_, ?_, ?_, ?_, ?_, h.refused⟩
  · intro m hm hgenuine
    dsimp only
    rw [hfreshes]
    obtain hm | hseq := hrows m hm
    · exact (h.unread m hm hgenuine).imp_right (List.mem_append_left _)
    · rw [hseq]
      exact Or.inr (List.mem_append_right _ List.mem_cons_self)
  · intro n hn
    dsimp only at hn ⊢
    rw [hfreshes, List.mem_append, List.mem_singleton] at hn
    rw [hobserved]
    obtain hn | hn := hn
    · exact h.newer n hn
    · cases hn
      exact hserial
  · dsimp only
    rw [hobserved, hnext]
    omega
  · dsimp only
    rw [hobserved]
    exact h.seen
  · have hne : Event.message w.chat.next ≠ .message (observedMax w.log) := by
      intro heq
      injection heq with heq
      omega
    dsimp only
    rw [hobserved, since_concat hne, admissions_append]
    exact h.counted
  · rintro ⟨x, hx, -⟩
    dsimp only at hx
    rw [hmessages] at hx
    cases hx
  · refine h.bounded.concat ?_
    rw [hmessages]
    exact Nat.zero_le _
  · intro call hlast
    exact h.last call (hcalls.symm.trans hlast)
  · intro hlast
    exact h.first (hcalls.symm.trans hlast)

/-- What a decision starts from. -/
def openStreak (u : UserId) (w : SelfWakeWorld) : Nat :=
  if w.wake.userSeq < userSeqOf u w.chat.rows then 0 else w.wake.streak

theorem openStreak_le (h : SelfWakeInv u limit w) : openStreak u w ≤ limit := by
  unfold openStreak
  split_ifs
  · exact Nat.zero_le _
  · exact h.within

/-- The newest message is new to the calls, and nothing was decided since; or no call could count
from zero. -/
theorem userSeqOf_unread (h : SelfWakeInv u limit w)
    (hreset : w.wake.userSeq < userSeqOf u w.chat.rows) :
    .message (userSeqOf u w.chat.rows) ∈ sinceFresh w.log := by
  obtain hzero | ⟨m, hm, hgenuine, hseq⟩ := userSeqOf_cases u w.chat.rows
  · omega
  · obtain hle | hmem := h.unread m hm hgenuine
    · omega
    · rwa [hseq] at hmem

theorem fresh_of_mem_sinceFresh (h : e ∈ sinceFresh log) : e.fresh = false := by
  have hfresh := List.mem_rtakeWhile_imp h
  simpa using hfresh

theorem admissions_of_unread {n : Nat} {q : Event → Bool} (h : .message n ∈ sinceFresh log)
    (hq : q (.message n) = false) : admissions (log.rtakeWhile q) = 0 := by
  have hsuffix : log.rtakeWhile q <:+ sinceFresh log := rtakeWhile_suffix_of_mem ⟨.message n, h, hq⟩
  exact admissions_eq_zero fun e he => fresh_of_mem_sinceFresh (hsuffix.subset he)

section

variable (h : SelfWakeInv u limit w)
include h

theorem counted_open :
    admissions (since (max (observedMax w.log) (userSeqOf u w.chat.rows)) w.log) =
      openStreak u w := by
  unfold openStreak
  split_ifs with hreset
  · have hunread := userSeqOf_unread h hreset
    have hnewer := h.newer _ hunread
    rw [max_eq_right hnewer.le, since, if_neg (by omega)]
    exact admissions_of_unread hunread (by simp)
  · have hseen := h.seen
    rw [max_eq_left (by omega)]
    exact h.counted

theorem interval_open : admissions (sinceMessage w.log) ≤ openStreak u w := by
  unfold openStreak
  split_ifs with hreset
  · rw [sinceMessage, admissions_of_unread (userSeqOf_unread h hreset) rfl]
  · by_cases hfresh : ∃ e ∈ sinceMessage w.log, e.fresh = true
    · exact h.interval hfresh
    · rw [admissions_eq_zero fun e he => by simpa using fun hf => hfresh ⟨e, he, hf⟩]
      exact Nat.zero_le _

theorem userSeqOf_lt_next : userSeqOf u w.chat.rows < w.chat.next := by
  obtain hzero | ⟨m, hm, -, hseq⟩ := userSeqOf_cases u w.chat.rows
  · rw [hzero]
    exact Nat.zero_lt_of_lt h.serial
  · rw [← hseq]
    exact Serial.lt_next (Serial.mem_rows.mp hm)

/-- A decision: below the limit the wake is admitted and counted, at the limit it is refused. -/
theorem SelfWakeInv.decision {effectId reason : String} {accepted : Bool} {streak : Nat}
    (haccepted : accepted = true ↔ openStreak u w < limit)
    (hstreak : streak = openStreak u w + if accepted then 1 else 0) :
    let result : Reservation := ⟨accepted, streak, reason, false⟩
    SelfWakeInv u limit ⟨w.chat, ⟨streak, userSeqOf u w.chat.rows, effectId, some accepted⟩,
      w.log ++ [.call effectId (some (userSeqOf u w.chat.rows)) result]⟩ := by
  intro result
  have hle := openStreak_le h
  have hwithin : streak ≤ limit := by
    rw [hstreak]
    split_ifs with hif
    · exact haccepted.mp hif
    · exact hle
  have hadmitted : admissions [.call effectId (some (userSeqOf u w.chat.rows)) result] =
      if accepted then 1 else 0 := by
    cases accepted <;> rfl
  have hinterval : admissions (sinceMessage (w.log ++
      [.call effectId (some (userSeqOf u w.chat.rows)) result])) ≤ streak := by
    rw [sinceMessage_concat rfl, admissions_append, hadmitted, hstreak]
    exact Nat.add_le_add_right (interval_open h) _
  have hobserved : observedMax (w.log ++ [.call effectId (some (userSeqOf u w.chat.rows)) result]) =
      max (observedMax w.log) (userSeqOf u w.chat.rows) := observedMax_concat _ _
  have hcalls : lastCall? (w.log ++ [.call effectId (some (userSeqOf u w.chat.rows)) result]) =
      some (effectId, result) :=
    lastCall?_concat _ _
  refine ⟨hwithin, ?_, ?_, ?_, ?_, ?_, fun _ => hinterval, ?_, ?_, ?_, ?_⟩
  · intro m hm hgenuine
    exact Or.inl (le_userSeqOf hm hgenuine)
  · intro n hn
    dsimp only at hn
    rw [sinceFresh, List.rtakeWhile_concat, if_neg (by simp [Event.fresh, result])] at hn
    cases hn
  · dsimp only
    rw [hobserved]
    exact max_lt h.serial (userSeqOf_lt_next h)
  · dsimp only
    rw [hobserved]
    exact le_max_right _ _
  · dsimp only
    rw [hobserved, since_concat (by nofun), admissions_append, counted_open h, hadmitted, hstreak]
  · exact h.bounded.concat (hinterval.trans hwithin)
  · intro call hlast
    cases hcalls.symm.trans hlast
    exact ⟨rfl, rfl⟩
  · intro hlast
    cases hcalls.symm.trans hlast
  · intro hrefused
    injection hrefused with hrefused
    subst hrefused
    have hnot : ¬openStreak u w < limit := fun hlt => Bool.false_ne_true (haccepted.mpr hlt)
    dsimp only
    rw [hstreak, if_neg Bool.false_ne_true]
    omega

end

end Steps

/-- One inversion for a call: an empty id, a replay of the last call, or a decision. -/
theorem reserveSelfWake_cases (u : UserId) (limit : Nat) (w : SelfWakeWorld) (effectId : String)
    (hlimit : 1 ≤ limit) :
    strip effectId = "" ∧ reserveSelfWake w.chat.rows u w.wake effectId limit = none ∨
    strip effectId ≠ "" ∧ w.wake.lastEffectId = strip effectId ∧
      (∃ result : Reservation, reserveSelfWake w.chat.rows u w.wake effectId limit = some (result,
        w.wake) ∧ result.replayed = true ∧ result.accepted = w.wake.lastEffectAccepted.getD false) ∨
    strip effectId ≠ "" ∧ w.wake.lastEffectId ≠ strip effectId ∧ ∃ (accepted : Bool) (streak : Nat),
      (accepted = true ↔ openStreak u w < limit) ∧
        (streak = openStreak u w + if accepted then 1 else 0) ∧
      reserveSelfWake w.chat.rows u w.wake effectId limit =
        some (⟨accepted, streak, loopGuard accepted, false⟩, ⟨streak, userSeqOf u w.chat.rows,
          strip effectId, some accepted⟩) := by
  unfold reserveSelfWake
  by_cases hempty : strip effectId = ""
  · exact Or.inl ⟨hempty, if_pos hempty⟩
  · by_cases hlast : w.wake.lastEffectId = strip effectId
    · exact Or.inr (Or.inl ⟨hempty, hlast, _, by rw [if_neg hempty, if_pos hlast], rfl, rfl⟩)
    · refine Or.inr (Or.inr ⟨hempty, hlast, _, _, ?_, ?_, by rw [if_neg hempty, if_neg hlast]⟩)
      · rw [decide_eq_true_iff, openStreak]
        omega
      · rw [openStreak]
        split_ifs <;> rfl

theorem SelfWakeInv.start (u : UserId) (limit : Nat) : SelfWakeInv u limit SelfWakeWorld.start where
  within := Nat.zero_le _
  unread := by
    intro m hm
    cases hm
  newer := by
    intro n hn
    cases hn
  serial := Nat.zero_lt_one
  seen := Nat.le_refl _
  counted := rfl
  interval := by
    rintro ⟨e, he, -⟩
    cases he
  bounded := by
    intro pre mid post hsplit _
    obtain ⟨hfront, -⟩ := List.append_eq_nil_iff.mp hsplit.symm
    rw [(List.append_eq_nil_iff.mp hfront).2]
    exact Nat.zero_le _
  last := by
    intro call hlast
    cases hlast
  first := fun _ => rfl
  refused := by
    intro hrefused
    cases hrefused

variable {u : UserId} {limit : Nat} {w : SelfWakeWorld}

theorem SelfWakeInv.reserve (h : SelfWakeInv u limit w) (hlimit : 1 ≤ limit)
    (effectId : String) : SelfWakeInv u limit (w.next u limit (.reserve effectId)) := by
  obtain ⟨-, hnone⟩ | ⟨hempty, hid, result, hsome, hreplayed, haccepted⟩ | ⟨-, -, accepted, streak,
    hiff, hstreak, hsome⟩ :=
    reserveSelfWake_cases u limit w effectId hlimit
  · rw [SelfWakeWorld.next_reserve_none hnone]
    exact h.silent Silent.quiet (fun _ hm _ => hm) le_rfl (by nofun)
  · rw [SelfWakeWorld.next_reserve_some hsome]
    have hevent : SelfWakeWorld.callEvent w.chat.rows u effectId result =
        .call (strip effectId) none result := by
      rw [SelfWakeWorld.callEvent, hreplayed]
      rfl
    rw [hevent]
    refine h.silent ⟨rfl, by rw [Event.fresh, hreplayed]; rfl, rfl⟩ (fun _ hm _ => hm) le_rfl ?_
    intro call hcall
    cases hcall
    cases hlast : lastCall? w.log with
    | none => exact absurd (hid.symm.trans (h.first hlast)) hempty
    | some last =>
      obtain ⟨-, hverdict⟩ := h.last last hlast
      rw [hverdict] at haccepted ⊢
      exact ⟨hid, by rw [haccepted]; rfl⟩
  · rw [SelfWakeWorld.next_reserve_some hsome]
    exact h.decision hiff hstreak

theorem SelfWakeInv.append (h : SelfWakeInv u limit w) (userId : UserId)
    (msgId : String) (ts : Time) (doc : ChatDoc) (maxConsecutive : Int) :
    SelfWakeInv u limit (w.next u maxConsecutive (.append userId msgId ts doc)) := by
  unfold SelfWakeWorld.next
  dsimp only
  split_ifs with hsent
  · rw [Bool.and_eq_true, Option.isNone_iff_eq_none] at hsent
    refine h.message (fun m hm => ?_) ?_
    · obtain hm | ⟨rfl, -⟩ := Indexed.mem_insert hm
      · exact Or.inl hm
      · exact Or.inr rfl
    · rw [Indexed.insert_of_none hsent.1]
      rfl
  · refine h.silent Silent.quiet (fun m hm hgenuine => ?_) ?_ (by rintro _ ⟨⟩)
    · obtain hm | ⟨rfl, hnone⟩ := Indexed.mem_insert hm
      · exact hm
      · exact absurd (by rw [hnone, hgenuine]; rfl) hsent
    · cases hfind : w.chat.find? (userId, msgId) with
      | none =>
        rw [Indexed.insert_of_none hfind]
        exact Nat.le_succ _
      | some m =>
        obtain ⟨hm, hkey⟩ := Indexed.find?_eq_some.mp hfind
        rw [Indexed.insert, dif_pos (List.mem_map.mpr ⟨m, hm, hkey⟩)]

theorem SelfWakeInv.next (h : SelfWakeInv u limit w) (hlimit : 1 ≤ limit)
    (label : SelfWakeLabel) : SelfWakeInv u limit (w.next u limit label) := by
  cases label with
  | reserve effectId => exact h.reserve hlimit effectId
  | append userId msgId ts doc => exact h.append userId msgId ts doc limit
  | delete rows =>
    exact h.silent Silent.quiet (fun m hm _ => (List.mem_filter.mp hm).1) le_rfl (by nofun)
  | clear => exact h.silent Silent.quiet (fun m hm _ => (List.mem_filter.mp hm).1) le_rfl (by nofun)

theorem SelfWakeInv.run (u : UserId) (hlimit : 1 ≤ limit) (labels : List SelfWakeLabel) :
    SelfWakeInv u limit (Runs.run (SelfWakeWorld.next u limit) SelfWakeWorld.start labels) :=
  Runs.invariant_all (SelfWakeInv u limit) (fun _ label h => h.next hlimit label)
    (SelfWakeInv.start u limit) labels

theorem lastCall?_reserve {maxConsecutive : Int} {effectId : String} {result : Reservation}
    {wake : SelfWakeRow}
    (h : reserveSelfWake w.chat.rows u w.wake effectId maxConsecutive = some (result, wake)) :
    lastCall? (w.next u maxConsecutive (.reserve effectId)).log =
      some (strip effectId, result) := by
  rw [SelfWakeWorld.next_reserve_some h]
  exact lastCall?_concat _ _

/-- In every run: between two messages of the user at most as many wakes are admitted as the limit
says; the last call repeated gives its answer again and changes nothing; and a refusal means that
the limit was reached since the newest message that a call has read. -/
theorem self_wake_chains_bounded (u : UserId) (limit : Nat) (hlimit : 1 ≤ limit)
    (labels : List SelfWakeLabel) :
    let w := Runs.run (SelfWakeWorld.next u limit) SelfWakeWorld.start labels
    BoundedBetween limit w.log ∧
    (∀ effectId call, strip effectId ≠ "" → lastCall? w.log = some call → call.1 = strip effectId →
      ∃ result : Reservation, reserveSelfWake w.chat.rows u w.wake effectId limit = some (result,
        w.wake) ∧ result.accepted = call.2.accepted) ∧
    ∀ effectId result wake, reserveSelfWake w.chat.rows u w.wake effectId limit = some (result,
        wake) →
      result.accepted = false →
      let log := (w.next u limit (.reserve effectId)).log
      admissions (since (observedMax log) log) = limit := by
  intro w
  have h := SelfWakeInv.run u hlimit labels
  refine ⟨h.bounded, ?_, ?_⟩
  · intro effectId call hnonempty hlast hcall
    obtain ⟨hid, hverdict⟩ := h.last call hlast
    obtain ⟨hempty, -⟩ | ⟨-, -, result, hsome, -, haccepted⟩ | ⟨-, hother, -⟩ :=
      reserveSelfWake_cases u limit w effectId hlimit
    · exact absurd hempty hnonempty
    · rw [hverdict] at haccepted
      exact ⟨result, hsome, haccepted⟩
    · exact absurd (hid.trans hcall) hother
  · intro effectId result wake hsome hrefused log
    have hnext := h.next hlimit (.reserve effectId)
    obtain ⟨-, hverdict⟩ := hnext.last _ (lastCall?_reserve hsome)
    rw [hrefused] at hverdict
    exact hnext.counted.trans (hnext.refused hverdict)

/-- The message that was read is deleted, and the streak stays at the limit. -/
def deletedMessage : List SelfWakeLabel :=
  [.reserve "a", .append "u" "m" 1 ⟨.user, "", "", "", "", "", "", "", "", ""⟩, .reserve "b",
    .delete fun _ => true]

theorem self_wake_chains_bounded_deleted :
    let w := Runs.run (SelfWakeWorld.next "u" (1 : Nat)) SelfWakeWorld.start deletedMessage
    let log := (w.next "u" (1 : Nat) (.reserve "c")).log
    reserveSelfWake w.chat.rows "u" w.wake "c" (1 : Nat) =
      some (⟨false, 1, "self_wake_loop_guard", false⟩, ⟨1, 0, "c", some false⟩) ∧
    observedMax log = 1 ∧ admissions (since (observedMax log) log) = 1 := by
  intro w log
  have hrefused : reserveSelfWake w.chat.rows "u" w.wake "c" (1 : Nat) =
      some (⟨false, 1, "self_wake_loop_guard", false⟩, ⟨1, 0, "c", some false⟩) := by decide +kernel
  exact ⟨hrefused,
    by decide +kernel,
      (self_wake_chains_bounded "u" 1 (by decide) deletedMessage).2.2 "c" _ _ hrefused rfl⟩

end SelfWake

end Feedling
