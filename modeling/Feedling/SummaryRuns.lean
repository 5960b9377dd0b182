import Feedling.Runs
import Feedling.SummaryCover

/-!
# The summary frontier in every run

Chat rows arrive and go, the history is cleared, and the three summary writers run with whatever
arguments they are given. They compare a version and a watermark that somebody read earlier. In
every state with segments the canonical cover passes validation and is the one the head names.
-/

namespace Feedling

open KeyedTable NestedCover

/-! ## What the writers write -/

variable {t : SegmentTable} {p : Provenance} {t' : SegmentTable} {envelope : String}

theorem SegmentTable.insertSegment_some {id : Nat}
    (h : SegmentTable.insertSegment t p envelope = .ok (some (t', id))) :
    ∃ hstorable : p.storable = true, id = t.next ∧ t'.rows = t.rows ++
      [⟨t.next, p, envelope, hstorable⟩] ∧ t'.next = t.next + 1 := by
  unfold SegmentTable.insertSegment at h
  by_cases hstorable : p.storable = true
  · rw [dif_pos hstorable] at h
    by_cases htaken : (t.find? p.range).isSome = true
    · rw [if_pos htaken] at h
      cases h
    · rw [if_neg htaken] at h
      have hnone : t.find? p.range = none := by simpa using htaken
      injection h with h
      injection h with h
      injection h with htable hid
      have hserial : (t.insert p.range (fun n => (⟨n, p, envelope, hstorable⟩ : SegmentRow))
          (fun _ => rfl)
          fun _ => rfl).toSerial = t.toSerial.insert _ fun _ => rfl := Indexed.insert_of_none hnone
      refine ⟨hstorable, hid.symm, ?_, ?_⟩
      · rw [← htable]
        exact congrArg Serial.rows hserial
      · rw [← htable]
        exact congrArg Serial.next hserial
  · rw [dif_neg hstorable] at h
    cases h

theorem SegmentTable.insertSegment_of_none (hstorable : p.storable = true)
    (hnone : t.find? p.range = none) (envelope : String) : ∃ t' : SegmentTable,
    SegmentTable.insertSegment t p envelope = .ok (some (t', t.next)) ∧
      t'.rows = t.rows ++ [⟨t.next, p, envelope, hstorable⟩] := by
  have hserial : (t.insert p.range (fun n => (⟨n, p, envelope, hstorable⟩ : SegmentRow))
      (fun _ => rfl)
      fun _ => rfl).toSerial = t.toSerial.insert _ fun _ => rfl := Indexed.insert_of_none hnone
  refine ⟨_, ?_, congrArg Serial.rows hserial⟩
  rw [SegmentTable.insertSegment, dif_pos hstorable, hnone]
  rfl

theorem SegmentTable.insertNew_ok {id : Nat}
    (h : SegmentTable.insertNew t p envelope = .ok (t', id)) :
    ∃ hstorable : p.storable = true, id = t.next ∧ t'.rows = t.rows ++
      [⟨t.next, p, envelope, hstorable⟩] ∧ t'.next = t.next + 1 := by
  unfold SegmentTable.insertNew at h
  cases hinsert : SegmentTable.insertSegment t p envelope with
  | error e =>
    rw [hinsert] at h
    cases h
  | ok r =>
    rw [hinsert] at h
    cases r with
    | none => cases h
    | some r =>
      injection h with h
      subst h
      exact SegmentTable.insertSegment_some hinsert

theorem SummaryStore.updateHead_ok {old new : SummaryHead} {b : Bool} {s : SummaryStore}
    (h : (SummaryStore.updateHead t old new).map (true, ·) = .ok (b, s)) : s = ⟨some new, t⟩ := by
  unfold SummaryStore.updateHead at h
  by_cases hversion : 2147483647 < new.version
  · rw [if_pos hversion] at h
    cases h
  · rw [if_neg hversion] at h
    split at h
    · cases h
    · injection h with h
      injection h with _ h
      exact h.symm

/-- What a leaf that is stored has passed and left behind; `t` is the table it was appended to. -/
structure LeafWritten (chat : List ChatRow) (u : UserId) (s : SummaryStore) (a : SummaryLeaf)
    (t : SegmentTable) (s' : SummaryStore) : Prop where
  start_pos : 0 < a.startSeq
  start_le_end : a.startSeq ≤ a.endSeq
  previous_nonneg : 0 ≤ a.previousWatermarkSeq
  headMatches : a.headMatches s.head = true
  witnessed : a.witnessed chat u = true
  legacy : s.withLegacy a = .ok (some t)
  inserted : SegmentTable.insertNew t a.provenance a.summaryEnvelope = .ok (s'.segments, t.next)
  head : ∃ version, s'.head = some
    ⟨a.compatibilityEnvelope, a.watermarkTs, version, a.endSeq,
      canonicalIds s'.segments.rows a.endSeq⟩

namespace SummaryStore

variable {chat : List ChatRow} {u : UserId} {s s' : SummaryStore} {b : Bool}

theorem writeLeaf_ok {a : SummaryLeaf} {t : SegmentTable} (h : s.writeLeaf a t = .ok (b, s')) :
    SegmentTable.insertNew t a.provenance a.summaryEnvelope = .ok (s'.segments, t.next) ∧
      ∃ version, s'.head = some
        ⟨a.compatibilityEnvelope, a.watermarkTs, version, a.endSeq,
          canonicalIds s'.segments.rows a.endSeq⟩ := by
  unfold writeLeaf at h
  cases hinsert : SegmentTable.insertNew t a.provenance a.summaryEnvelope with
  | error e =>
    rw [hinsert] at h
    cases h
  | ok r =>
    obtain ⟨stored, leafId⟩ := r
    obtain ⟨_, hid, _, _⟩ := SegmentTable.insertNew_ok hinsert
    rw [hinsert] at h
    by_cases hlast : (canonicalIds stored.rows a.endSeq).getLast? ≠ some leafId
    · simp only [if_pos hlast] at h
      cases h
    · simp only [if_neg hlast] at h
      cases hhead : s.head with
      | none =>
        rw [hhead] at h
        injection h with h
        injection h with _ h
        subst h
        exact ⟨by rw [hid], 1, rfl⟩
      | some head =>
        rw [hhead] at h
        rw [updateHead_ok h]
        exact ⟨by rw [hid], _, rfl⟩

theorem appendSummaryLeafCas_ok {a : SummaryLeaf}
    (h : appendSummaryLeafCas chat u s a = .ok (b, s')) :
    s' = s ∨ ∃ t, LeafWritten chat u s a t s' := by
  unfold appendSummaryLeafCas at h
  split at h
  · cases h
  · next hbounds =>
    split at h
    · cases h
    · split at h
      · injection h with h
        injection h with _ h
        exact .inl h.symm
      · next hpassed =>
        rw [Bool.not_eq_true', Bool.not_eq_false, Bool.and_eq_true] at hpassed
        cases hlegacy : s.withLegacy a with
        | error e =>
          rw [hlegacy] at h
          cases h
        | ok r =>
          rw [hlegacy] at h
          cases r with
          | none =>
            injection h with h
            injection h with _ h
            exact .inl h.symm
          | some t =>
            obtain ⟨hinserted, hhead⟩ := writeLeaf_ok h
            exact .inr ⟨t,
              by omega, by omega, by omega, hpassed.1, hpassed.2, hlegacy, hinserted, hhead⟩

theorem seedLegacySummarySegment_ok {a : LegacySeed}
    (h : s.seedLegacySummarySegment a = .ok (b, s')) :
    s' = s ∨ ∃ head, s.head = some head ∧ s.segments.rows = [] ∧ 0 ≤ a.translatedWatermarkSeq ∧
      (head.watermarkSeq = 0 ∨ head.watermarkSeq = a.translatedWatermarkSeq) ∧
      SegmentTable.insertNew s.segments (.legacy (max head.watermarkSeq a.translatedWatermarkSeq))
        head.summaryEnvelope = .ok (s'.segments, s.segments.next) ∧
      s'.head = some { head with watermarkSeq := max head.watermarkSeq a.translatedWatermarkSeq
                                 materializedSegmentIds := [s.segments.next],
                                 version := head.version + 1 } := by
  unfold seedLegacySummarySegment at h
  split at h
  · cases h
  · next hbounds =>
    cases hhead : s.head with
    | none =>
      rw [hhead] at h
      injection h with h
      injection h with _ h
      exact .inl h.symm
    | some head =>
      rw [hhead] at h
      simp only at h
      split at h
      · injection h with h
        injection h with _ h
        exact .inl h.symm
      · next hrows =>
        split at h
        · injection h with h
          injection h with _ h
          exact .inl h.symm
        · split at h
          · injection h with h
            injection h with _ h
            exact .inl h.symm
          · next hstored =>
            cases hinsert : SegmentTable.insertNew s.segments
                (.legacy (max head.watermarkSeq a.translatedWatermarkSeq)) head.summaryEnvelope with
            | error e =>
              rw [hinsert] at h
              cases h
            | ok r =>
              obtain ⟨stored, segmentId⟩ := r
              obtain ⟨_, rfl, _, _⟩ := SegmentTable.insertNew_ok hinsert
              rw [hinsert] at h
              rw [updateHead_ok h]
              exact .inr ⟨head, rfl, by simpa using hrows, by omega, by omega, hinsert, rfl⟩

theorem insertSummaryCheckpoint_ok {a : SummaryCheckpoint}
    (h : s.insertSummaryCheckpoint a = .ok (b, s')) :
    s' = s ∨ ∃ p head, a.provenance? = some p ∧ s.head = some head ∧
      s.admitsCheckpoint head a p = true ∧
      SegmentTable.insertSegment s.segments p a.summaryEnvelope = .ok
        (some (s'.segments, s.segments.next)) ∧
      s'.head = some
        { head with
          summaryEnvelope := a.headSummaryEnvelope
          materializedSegmentIds := canonicalIds s'.segments.rows a.expectedWatermarkSeq
          version := head.version + 1 } := by
  unfold insertSummaryCheckpoint at h
  cases hprov : a.provenance? with
  | none =>
    rw [hprov] at h
    cases h
  | some p =>
    rw [hprov] at h
    cases hhead : s.head with
    | none =>
      rw [hhead] at h
      injection h with h
      injection h with _ h
      exact .inl h.symm
    | some head =>
      rw [hhead] at h
      simp only at h
      split at h
      · injection h with h
        injection h with _ h
        exact .inl h.symm
      · next hadmits =>
        rw [Bool.not_eq_true', Bool.not_eq_false] at hadmits
        cases hinsert : SegmentTable.insertSegment s.segments p a.summaryEnvelope with
        | error e =>
          rw [hinsert] at h
          cases h
        | ok r =>
          rw [hinsert] at h
          cases r with
          | none =>
            injection h with h
            injection h with _ h
            exact .inl h.symm
          | some r =>
            obtain ⟨stored, parentId⟩ := r
            obtain ⟨_, rfl, _, _⟩ := SegmentTable.insertSegment_some hinsert
            simp only at h
            split at h
            · cases h
            · rw [updateHead_ok h]
              exact .inr ⟨p, head, rfl, rfl, hadmits, hinsert, rfl⟩

end SummaryStore

/-! ## Deleting chat rows -/

/-- The rows a delete keeps because a summary covers them; an old head covers by its timestamp
too. -/
def coveredSeq (chat : List ChatRow) (u : UserId) : Option SummaryHead → Int
  | none => 0
  | some h =>
    if 0 < h.watermarkTs then max h.watermarkSeq (maxSeq (chat.filter fun m => m.userId == u &&
        decide (m.ts ≤ h.watermarkTs)))
    else h.watermarkSeq

/-- `normalized_targets`. -/
def normalizedTargets (targets : List (String × Int)) : List String :=
  ((targets.map fun t => (strip t.1, t.2)).filter fun t => t.1 != "" && decide (0 < t.2)).map (·.1)

/-- The counts that `chat_delete_uncovered_many` returns. -/
structure UncoveredDelete where
  deleted : Nat
  retainedCovered : Nat
  remaining : Nat
  deriving DecidableEq, Repr

/-- `chat_delete_uncovered_many`. -/
def chatDeleteUncoveredMany (chat : Indexed ChatRow.seq ChatRow.key) (u : UserId)
    (head : Option SummaryHead) (targets : List (String × Int)) :
    Indexed ChatRow.seq ChatRow.key × UncoveredDelete :=
  let ids := normalizedTargets targets
  let covered := coveredSeq chat.rows u head
  let current := chat.rows.filter fun m => m.userId == u && decide (m.msgId ∈ ids)
  (chat.erase fun m => m.userId == u && decide (m.msgId ∈ ids) && decide (covered < m.seq),
    ⟨(current.filter fun m => decide (covered < m.seq)).length,
      (current.filter fun m => decide ((m.seq : Int) ≤ covered)).length, 0⟩)

/-! ## Runs -/

/-- The chat log, the summary of one user, and the versions and watermarks that were read of it. -/
structure SummaryWorld where
  chat : Indexed ChatRow.seq ChatRow.key
  store : SummaryStore
  seen : List (Int × Int)

inductive SummaryLabel where
  | append (userId : UserId) (msgId : String) (ts : Time) (doc : ChatDoc)
  | deleteSynthetic (msgId : String)
  | deleteUncovered (targets : List (String × Int))
  | clear
  | read
  | leaf (a : SummaryLeaf)
  | seed (a : LegacySeed)
  | checkpoint (a : SummaryCheckpoint)
  deriving DecidableEq, Repr

/-- The pair a writer takes from `get_summary_frontier_state`. -/
def readPair (chat : List ChatRow) (u : UserId) (s : SummaryStore) : Int × Int :=
  match getSummaryFrontierState chat u s with
  | none => (0, 0)
  | some state => (state.version, state.watermarkSeq)

/-- The store after a writer; one that raises is rolled back. -/
def SummaryStore.after (s : SummaryStore) : Except SummaryError (Bool × SummaryStore) → SummaryStore
  | .ok (_, s') => s'
  | .error _ => s

namespace SummaryWorld

/-- One step; the summary is the one of `u`, chat rows belong to any user. -/
def step (u : UserId) (w : SummaryWorld) : SummaryLabel → SummaryWorld
  | .append userId msgId ts doc =>
    { w with
      chat := w.chat.insert (userId, msgId) (fun n => ⟨n, userId, msgId, ts,
          doc⟩) (ChatRow.seq_mk userId msgId ts doc)
        (ChatRow.key_mk userId msgId ts doc) }
  | .deleteSynthetic msgId =>
    { w with chat := w.chat.erase fun m => m.userId == u && m.msgId == msgId && m.synthetic }
  | .deleteUncovered targets =>
    { w with chat := (chatDeleteUncoveredMany w.chat u w.store.head targets).1 }
  | .clear =>
    { w with chat := w.chat.erase fun m => m.userId == u
             store := ⟨none, w.store.segments.erase fun _ => true⟩ }
  | .read => { w with seen := readPair w.chat.rows u w.store :: w.seen }
  | .leaf a => { w with store := w.store.after (w.store.appendSummaryLeafCas w.chat.rows u a) }
  | .seed a => { w with store := w.store.after (w.store.seedLegacySummarySegment a) }
  | .checkpoint a => { w with store := w.store.after (w.store.insertSummaryCheckpoint a) }

/-- The writer of a leaf presents a version and a watermark that somebody read. -/
def Presents (w : SummaryWorld) : SummaryLabel → Prop
  | .leaf a => (a.expectedVersion, a.previousWatermarkSeq) ∈ w.seen
  | _ => True

instance (w : SummaryWorld) : (l : SummaryLabel) → Decidable (w.Presents l)
  | .leaf a => inferInstanceAs (Decidable ((a.expectedVersion, a.previousWatermarkSeq) ∈ w.seen))
  | .append .. | .deleteSynthetic _ | .deleteUncovered _ | .clear | .read | .seed _ | .checkpoint
    _ => isTrue trivial

/-- No summary yet, or one from before segmentation. -/
structure Start (w : SummaryWorld) : Prop where
  rows : w.store.segments.rows = []
  next : 0 < w.store.segments.next
  head : ∀ h, w.store.head = some h → h.summaryEnvelope ≠ "" ∧ h.materializedSegmentIds = []
  seen : w.seen = []

/-- The segments are covered by what the head names. A head at watermark `0` is the first one, so
its version was read with no other watermark once it has a segment. -/
structure Inv (u : UserId) (w : SummaryWorld) : Prop where
  next_pos : 0 < w.store.segments.next
  rows_ok : ∀ r ∈ w.store.segments.rows, 0 < r.segmentId ∧ r.provenance.childSegmentIds.Nodup
  named : w.store.segments.rows = [] ∨ ∃ h cover, w.store.head = some h ∧
    Frontier w.chat.rows w.chat.next u w.store.segments.rows h.watermarkSeq cover ∧
    h.materializedSegmentIds = cover.map (·.segmentId)
  zero : ∀ h, w.store.head = some h → h.watermarkSeq = 0 →
    ∀ p ∈ w.seen, p.1 ≤ h.version ∧ (w.store.segments.rows ≠ [] → p.1 = h.version → p.2 = 0)

variable {u : UserId} {w : SummaryWorld}

theorem Start.inv (h : w.Start) : w.Inv u where
  next_pos := h.next
  rows_ok := by
    intro r hr
    rw [h.rows] at hr
    cases hr
  named := .inl h.rows
  zero := by
    intro _ _ _ p hp
    rw [h.seen] at hp
    cases hp

def fresh : SummaryWorld := ⟨Indexed.empty 1, ⟨none, Indexed.empty 1⟩, []⟩

theorem start_fresh : fresh.Start := ⟨rfl, Nat.one_pos, by rintro _ ⟨⟩, rfl⟩

section

variable (h : w.Inv u)
include h

theorem Inv.of_chat {chat : Indexed ChatRow.seq ChatRow.key} (hnext : w.chat.next ≤ chat.next)
    (hrows : ∀ head, w.store.head = some head → head.watermarkSeq < w.chat.next →
      ∀ low, sourceRows chat.rows u low head.watermarkSeq =
        sourceRows w.chat.rows u low head.watermarkSeq) :
    ({ w with chat := chat } : SummaryWorld).Inv u where
  next_pos := h.next_pos
  rows_ok := h.rows_ok
  named := by
    obtain hnil | ⟨head, cover, hhead, hfrontier, hids⟩ := h.named
    · exact .inl hnil
    · exact .inr ⟨head, cover, hhead, hfrontier.of_chat hnext (hrows head hhead), hids⟩
  zero := h.zero

theorem Inv.append (userId : UserId) (msgId : String) (ts : Time) (doc : ChatDoc) :
    (w.step u (.append userId msgId ts doc)).Inv u := by
  refine h.of_chat ?_ ?_
  · show w.chat.next ≤ (w.chat.insert (userId, msgId) _ _ _).next
    unfold Indexed.insert
    split
    · exact Nat.le_refl _
    · exact Nat.le_succ _
  · intro head _ hlt low
    show sourceRows (w.chat.insert (userId, msgId) _ _ _).rows u low head.watermarkSeq = _
    unfold Indexed.insert
    split
    · rfl
    · show sourceRows (w.chat.rows ++ [_]) u low head.watermarkSeq = _
      rw [sourceRows, List.filter_append, sourceRows]
      refine (congrArg _ (List.filter_eq_nil_iff.mpr ?_)).trans (List.append_nil _)
      intro m hm
      rw [List.mem_singleton.mp hm]
      simp only [Bool.and_eq_true, decide_eq_true_eq]
      omega

theorem Inv.erase {p : ChatRow → Bool}
    (hp : ∀ head, w.store.head = some head → ∀ m ∈ w.chat.rows, m.userId = u → m.synthetic = false →
      (m.seq : Int) ≤ head.watermarkSeq → p m = false) :
    ({ w with chat := w.chat.erase p } : SummaryWorld).Inv u := by
  refine h.of_chat (Nat.le_refl _) ?_
  intro head hhead _ low
  show sourceRows (w.chat.rows.filter fun m => !p m) u low head.watermarkSeq = _
  rw [sourceRows, List.filter_filter, sourceRows]
  refine List.filter_congr fun m hm => ?_
  by_cases hcounted : (m.userId == u && decide (low < m.seq ∧ (m.seq : Int) ≤ head.watermarkSeq) &&
      !m.synthetic) = true
  · rw [hcounted]
    simp only [Bool.and_eq_true, beq_iff_eq, decide_eq_true_eq, Bool.not_eq_true'] at hcounted
    rw [hp head hhead m hm hcounted.1.1 hcounted.2 hcounted.1.2.2]
    rfl
  · rw [Bool.not_eq_true] at hcounted
    rw [hcounted]
    rfl

theorem Inv.deleteSynthetic (msgId : String) : (w.step u (.deleteSynthetic msgId)).Inv u := by
  refine h.erase fun head _ m _ _ hreal _ => ?_
  simp [hreal]

theorem Inv.deleteUncovered (targets : List (String × Int)) :
    (w.step u (.deleteUncovered targets)).Inv u := by
  refine h.erase fun head hhead m _ _ _ hcovered => ?_
  have hle : head.watermarkSeq ≤ coveredSeq w.chat.rows u w.store.head := by
    rw [hhead, coveredSeq]
    split <;> omega
  have hnot : ¬ coveredSeq w.chat.rows u w.store.head < (m.seq : Int) := by omega
  simp [hnot]

theorem Inv.clear : (w.step u .clear).Inv u where
  next_pos := h.next_pos
  rows_ok := by
    intro r hr
    have hr' := List.mem_filter.mp hr
    exact absurd hr'.2 (by simp)
  named := by
    left
    show w.store.segments.rows.filter (fun _ => !true) = []
    simp
  zero := by
    intro head hhead
    cases hhead

theorem Inv.read : (w.step u .read).Inv u where
  next_pos := h.next_pos
  rows_ok := h.rows_ok
  named := h.named
  zero := by
    intro head hhead hzero p hp
    obtain rfl | hp := List.mem_cons.mp hp
    · have hread : readPair w.chat.rows u w.store =
          (head.version, head.translatedWatermark w.chat.rows u) := by
        rw [readPair, getSummaryFrontierState, show w.store.head = some head from hhead]
        rfl
      rw [hread]
      refine ⟨Int.le_refl _, fun hrows _ => ?_⟩
      obtain hnil | ⟨head', cover, hhead', hfrontier, hids⟩ := h.named
      · exact absurd hnil hrows
      · obtain rfl : head = head' := Option.some.inj (hhead.symm.trans hhead')
        have hne := hfrontier.cover_ne_nil hrows
        show head.translatedWatermark w.chat.rows u = 0
        rw [SummaryHead.translatedWatermark, if_neg, hzero]
        rintro ⟨_, _, hempty⟩
        rw [hids, List.map_eq_nil_iff] at hempty
        exact hne hempty
    · exact h.zero head hhead hzero p hp

end

/-! ## The writers keep the invariant -/

variable {a : SummaryLeaf} {head : SummaryHead} {t : SegmentTable} {p : SegmentRow}

theorem Inv.written {store : SummaryStore} {row : SegmentRow}
    {cover : List SegmentRow}
    (hrows : store.segments.rows = t.rows ++ [row]) (hnext : 0 < store.segments.next)
    (hid : row.segmentId = t.next)
    (ht : 0 < t.next ∧ ∀ r ∈ t.rows, 0 < r.segmentId ∧ r.provenance.childSegmentIds.Nodup)
    (hchildren : row.provenance.childSegmentIds.Nodup) (hhead : store.head = some head)
    (hfrontier : Frontier w.chat.rows w.chat.next u store.segments.rows head.watermarkSeq cover)
    (hnamed : head.materializedSegmentIds = cover.map (·.segmentId))
    (hzero : head.watermarkSeq = 0 → ∀ p ∈ w.seen, p.1 < head.version) :
    ({ w with store := store } : SummaryWorld).Inv u where
  next_pos := hnext
  rows_ok := by
    intro r hr
    rw [hrows] at hr
    obtain hr | hr := List.mem_append.mp hr
    · exact ht.2 r hr
    · rw [List.mem_singleton.mp hr, hid]
      exact ⟨ht.1, hchildren⟩
  named := .inr ⟨head, cover, hhead, hfrontier, hnamed⟩
  zero := by
    intro head' hhead' hwatermark p hp
    obtain rfl : head = head' := Option.some.inj (hhead.symm.trans hhead')
    have hlt := hzero hwatermark p hp
    refine ⟨by omega, fun _ heq => by omega⟩

/-- The rows behind an old summary are the rows behind its watermark. -/
theorem sourceRows_legacyEnd {chat : List ChatRow} (hstart : 0 < a.startSeq)
    (hprevious : 0 ≤ a.previousWatermarkSeq)
    (hfirst : minSeq (sourceRows chat u a.previousWatermarkSeq a.endSeq) = a.startSeq) :
    sourceRows chat u a.legacyEnd a.endSeq = sourceRows chat u a.previousWatermarkSeq a.endSeq := by
  unfold SummaryLeaf.legacyEnd
  by_cases hpos : 0 < a.previousWatermarkSeq
  · rw [if_pos hpos]
  · rw [if_neg hpos]
    have hall := ((minSeq_eq hstart).mp hfirst).2
    refine List.filter_congr fun m hm => ?_
    by_cases hcounted : m ∈ sourceRows chat u a.previousWatermarkSeq a.endSeq
    · have hle := hall m hcounted
      have hmem := mem_sourceRows.mp hcounted
      have h1 : max 0 (a.startSeq - 1) < (m.seq : Int) := by omega
      simp [hmem.2.1, h1, hmem.2.2.1]
    · have hnot : (m.userId == u && decide (a.previousWatermarkSeq < m.seq ∧
          (m.seq : Int) ≤ a.endSeq) && !m.synthetic) =
          false := by
        by_contra htrue
        rw [Bool.not_eq_false] at htrue
        exact hcounted (List.mem_filter.mpr ⟨hm, htrue⟩)
      rw [hnot]
      by_contra htrue
      rw [Bool.not_eq_false] at htrue
      simp only [Bool.and_eq_true, beq_iff_eq, decide_eq_true_eq, Bool.not_eq_true'] at htrue
      exact hcounted (mem_sourceRows.mpr ⟨hm, htrue.1.1, by omega, htrue.1.2.2, htrue.2⟩)

section

variable (h : w.Inv u) (hseen : (a.expectedVersion, a.previousWatermarkSeq) ∈ w.seen)
include h hseen

/-- The table a leaf is appended to is covered up to where its source rows start. -/
theorem Inv.leaf_base {s' : SummaryStore} (hw : LeafWritten w.chat.rows u w.store a t s') :
    (0 < t.next ∧ ∀ r ∈ t.rows, 0 < r.segmentId ∧ r.provenance.childSegmentIds.Nodup) ∧
    ∃ watermark cover, Frontier w.chat.rows w.chat.next u t.rows watermark cover ∧
      sourceRows w.chat.rows u watermark a.endSeq =
        sourceRows w.chat.rows u a.previousWatermarkSeq a.endSeq := by
  have hmatches := hw.headMatches
  have hlegacy := hw.legacy
  have hwitnessed := hw.witnessed
  simp only [SummaryLeaf.witnessed, Bool.and_eq_true, beq_iff_eq] at hwitnessed
  unfold SummaryStore.withLegacy at hlegacy
  cases hhead : w.store.head with
  | none =>
    rw [hhead] at hlegacy hmatches
    obtain rfl : w.store.segments = t := Option.some.inj (Except.ok.inj hlegacy)
    have hprevious : a.previousWatermarkSeq = 0 := by
      simp only [SummaryLeaf.headMatches, Bool.and_eq_true, beq_iff_eq] at hmatches
      exact hmatches.2
    obtain hnil | ⟨head, _, hsome, _⟩ := h.named
    · refine ⟨⟨h.next_pos, h.rows_ok⟩, 0, [], ?_, by rw [hprevious]⟩
      rw [hnil]
      exact Frontier.empty _ _ _
    · rw [hhead] at hsome
      cases hsome
  | some head =>
    rw [hhead] at hlegacy hmatches
    simp only [SummaryLeaf.headMatches, Bool.and_eq_true, Bool.or_eq_true, beq_iff_eq] at hmatches
    by_cases hempty : w.store.segments.rows.isEmpty = true
    · simp only [if_pos hempty] at hlegacy
      by_cases henvelope : head.summaryEnvelope = ""
      · rw [if_pos henvelope] at hlegacy
        cases hlegacy
      · rw [if_neg henvelope] at hlegacy
        cases hinsert : SegmentTable.insertNew w.store.segments
          (.legacy a.legacyEnd) head.summaryEnvelope with
        | error e =>
          rw [hinsert] at hlegacy
          cases hlegacy
        | ok r =>
          obtain ⟨t', id⟩ := r
          rw [hinsert] at hlegacy
          obtain rfl : t' = t := Option.some.inj (Except.ok.inj hlegacy)
          obtain ⟨hstorable, _, hrows, hnext⟩ := SegmentTable.insertNew_ok hinsert
          rw [List.isEmpty_iff.mp hempty, List.nil_append] at hrows
          refine ⟨⟨by omega, ?_⟩, a.legacyEnd, t'.rows, ?_,
            sourceRows_legacyEnd hw.start_pos hw.previous_nonneg hwitnessed.1.1⟩
          · intro r hr
            rw [hrows] at hr
            rw [List.mem_singleton.mp hr]
            exact ⟨h.next_pos, List.nodup_nil⟩
          · rw [hrows]
            exact Frontier.legacy _ _ _ rfl
    · simp only [if_neg hempty] at hlegacy
      obtain rfl : w.store.segments = t := Option.some.inj (Except.ok.inj hlegacy)
      have hne : w.store.segments.rows ≠ [] := fun hnil => hempty (List.isEmpty_iff.mpr hnil)
      obtain hnil | ⟨head', cover, hsome, hfrontier, _⟩ := h.named
      · exact absurd hnil hne
      · obtain rfl : head = head' := Option.some.inj (hhead.symm.trans hsome)
        refine ⟨⟨h.next_pos, h.rows_ok⟩, head.watermarkSeq, cover, hfrontier, ?_⟩
        -- a watermark of `0` accepts any other one, but none was read with this version
        obtain hzero | hsame := hmatches.2
        · have hpair := (h.zero head hhead hzero _ hseen).2 hne hmatches.1.symm
          simp only at hpair
          rw [hzero, hpair]
        · rw [hsame]

theorem Inv.leaf : (w.step u (.leaf a)).Inv u := by
  show ({ w with store := w.store.after
                   (w.store.appendSummaryLeafCas w.chat.rows u a) } : SummaryWorld).Inv u
  cases hresult : w.store.appendSummaryLeafCas w.chat.rows u a with
  | error e => exact h
  | ok r =>
    obtain ⟨b, s'⟩ := r
    obtain rfl | ⟨t, hw⟩ := SummaryStore.appendSummaryLeafCas_ok hresult
    · exact h
    · obtain ⟨ht, watermark, cover, hfrontier, hsource⟩ := h.leaf_base hseen hw
      obtain ⟨hstorable, _, hrows, hnext⟩ := SegmentTable.insertNew_ok hw.inserted
      obtain ⟨version, hhead⟩ := hw.head
      have hwitnessed := hw.witnessed
      simp only [SummaryLeaf.witnessed, Bool.and_eq_true, beq_iff_eq] at hwitnessed
      rw [← hsource] at hwitnessed
      have hpushed :=
        hfrontier.push (p := ⟨t.next, a.provenance, a.summaryEnvelope, hstorable⟩) w.chat.bound rfl
        hwitnessed.1.1 hwitnessed.1.2 hwitnessed.2
      rw [← hrows] at hpushed
      have hcanonical := hpushed.canonicalCover_eq s'.segments.nodup
      show ({ w with store := s' } : SummaryWorld).Inv u
      refine Inv.written hrows (by omega) rfl ht List.nodup_nil hhead hpushed ?_ ?_
      · show canonicalIds s'.segments.rows a.endSeq = _
        rw [canonicalIds, show canonicalCover s'.segments.rows a.endSeq = _ from hcanonical]
      · intro hzero
        have hstart := hw.start_pos
        have hend := hw.start_le_end
        have hwatermark : a.endSeq = 0 := hzero
        omega

end

theorem Inv.seed (h : w.Inv u) (a : LegacySeed) : (w.step u (.seed a)).Inv u := by
  show ({ w with store := w.store.after (w.store.seedLegacySummarySegment a) } : SummaryWorld).Inv u
  cases hresult : w.store.seedLegacySummarySegment a with
  | error e => exact h
  | ok r =>
    obtain ⟨b, s'⟩ := r
    obtain rfl | ⟨head, hhead, hnil, htranslated, hstored, hinserted, hhead'⟩ :=
      SummaryStore.seedLegacySummarySegment_ok hresult
    · exact h
    · obtain ⟨hstorable, _, hrows, hnext⟩ := SegmentTable.insertNew_ok hinserted
      have hfrontier : Frontier w.chat.rows w.chat.next u s'.segments.rows
          (max head.watermarkSeq a.translatedWatermarkSeq) s'.segments.rows := by
        rw [hrows, hnil, List.nil_append]
        exact Frontier.legacy _ _ _ rfl
      show ({ w with store := s' } : SummaryWorld).Inv u
      refine Inv.written hrows (by omega) rfl ⟨h.next_pos,
        h.rows_ok⟩ List.nodup_nil hhead' hfrontier ?_ ?_
      · rw [hrows, hnil]
        rfl
      · intro hzero p hp
        have hmax : max head.watermarkSeq a.translatedWatermarkSeq = 0 := hzero
        have hle := (h.zero head hhead (by omega) p hp).1
        show p.1 < head.version + 1
        omega

/-- A parent row keeps the range, the count and the opaque part of its run. -/
theorem Spans.of_summarises {children : List SegmentRow} (hapart : Apart SegmentRow.node children)
    (hexact : p.provenance.coverageKind = .exact → p.provenance.legacyOpaqueThroughSeq = 0)
    (h : p.provenance.summarises children = true) :
    Spans SegmentRow.node p.node children ∧
    (children.map (·.provenance.sourceMessageCount)).sum = p.provenance.sourceMessageCount ∧
    ∀ c ∈ children.head?,
      c.provenance.legacyOpaqueThroughSeq = p.provenance.legacyOpaqueThroughSeq ∧
      c.provenance.startSeq = p.provenance.startSeq := by
  simp only [Provenance.summarises, Bool.and_eq_true, beq_iff_eq, List.all_eq_true,
    decide_eq_true_eq] at h
  obtain ⟨⟨⟨⟨⟨hstart, hend⟩, hcount⟩, hlevel⟩, hkind⟩, _⟩ := h
  refine ⟨⟨hstart, hend, hlevel⟩, hcount, ?_⟩
  intro c hc
  obtain ⟨rest, rfl⟩ := List.head?_eq_some_iff.mp hc
  have hsame : c.provenance.startSeq = p.provenance.startSeq := by simpa using hstart
  refine ⟨?_, hsame⟩
  cases hp : p.provenance.coverageKind with
  | exact =>
    rw [hp] at hkind
    simp only [List.all_eq_true, beq_iff_eq] at hkind
    have hcov := c.coverage
    rw [hkind c (by simp)] at hcov
    simp at hcov
    rw [hexact hp, hcov.2.2.2]
  | legacyOpaque =>
    rw [hp] at hkind
    simp only [beq_iff_eq] at hkind
    -- the first segment alone can have an opaque part, and no opaque part is negative
    obtain ⟨hmem, hle⟩ := List.max?_eq_some_iff.mp hkind
    have hfirst := hle c.provenance.legacyOpaqueThroughSeq (by simp)
    have hnonneg := c.opaque_le_end.1
    obtain hmem | hmem := List.mem_cons.mp (by simpa using hmem :
        p.provenance.legacyOpaqueThroughSeq ∈ c.provenance.legacyOpaqueThroughSeq ::
          rest.map (·.provenance.legacyOpaqueThroughSeq))
    · exact hmem.symm
    · obtain ⟨d, hd, hopaqueSeq⟩ := List.mem_map.mp hmem
      have hcov := d.coverage
      rw [exact_of_tail hapart hd] at hcov
      simp at hcov
      omega

theorem SummaryCheckpoint.provenance?_some {a : SummaryCheckpoint} {p : Provenance}
    (h : a.provenance? = some p) :
    ∃ kind, p = ⟨kind, a.level, a.startSeq, a.endSeq, a.sourceMessageCount,
      a.legacyOpaqueThroughSeq, a.childSegmentIds⟩ ∧
      a.childSegmentIds ≠ [] ∧ a.childSegmentIds.Nodup ∧
        (kind = .exact → a.legacyOpaqueThroughSeq = 0) := by
  unfold SummaryCheckpoint.provenance? at h
  cases hkind : CoverageKind.ofName? a.coverageKind with
  | none =>
    rw [hkind] at h
    cases h
  | some kind =>
    rw [hkind] at h
    simp only at h
    split at h
    · cases h
    · next hvalid =>
      simp only [not_or, not_and, not_not] at hvalid
      obtain ⟨_, _, _, _, _, hne, hnodup, hexact, _⟩ := hvalid
      exact ⟨kind, (Option.some.inj h).symm, hne, hnodup, fun hk => (hexact hk).2⟩

/-- A checkpoint that is let in spans a run of the cover. -/
theorem Inv.checkpoint_run (h : w.Inv u) {a : SummaryCheckpoint}
    (hprov : a.provenance? = some p.provenance) (hhead : w.store.head = some head)
    (hadmits : w.store.admitsCheckpoint head a p.provenance = true) :
    ∃ front mid back, Frontier w.chat.rows w.chat.next u w.store.segments.rows head.watermarkSeq
      (front ++ mid ++ back) ∧
      Spans SegmentRow.node p.node mid ∧ a.childSegmentIds = mid.map (·.segmentId) ∧
      (mid.map (·.provenance.sourceMessageCount)).sum = p.provenance.sourceMessageCount ∧
      ∀ c ∈ mid.head?, c.provenance.legacyOpaqueThroughSeq = p.provenance.legacyOpaqueThroughSeq ∧
        c.provenance.startSeq = p.provenance.startSeq := by
  obtain ⟨kind, hp, hne, _, hexact⟩ := SummaryCheckpoint.provenance?_some hprov
  simp only [SummaryStore.admitsCheckpoint, Bool.and_eq_true, beq_iff_eq,
    decide_eq_true_eq] at hadmits
  obtain ⟨⟨⟨⟨⟨⟨_, _⟩, _⟩, _⟩, hchildren⟩, hsummarises⟩, hwithin⟩ := hadmits
  obtain hnil | ⟨head', cover, hsome, hfrontier, _⟩ := h.named
  · -- no segment, no children
    exfalso
    rw [SummaryCheckpoint.children, hnil] at hchildren
    exact hne (by simpa [NestedCover.sort] using hchildren.symm)
  · obtain rfl : head = head' := Option.some.inj (hhead.symm.trans hsome)
    rw [hfrontier.canonicalCover_eq w.store.segments.nodup] at hwithin
    have hmid : a.children w.store.segments.rows = cover.filter fun r =>
        r.node.within a.startSeq a.endSeq := by
      refine Serial.eq_of_map_key_eq (t := w.store.segments.toSerial) ?_ ?_
        (hchildren.trans hwithin.symm)
      · intro r hr
        have hr' := (List.perm_insertionSort _ _).mem_iff.mp hr
        exact List.mem_of_mem_filter hr'
      · intro r hr
        exact hfrontier.covers.subset r (List.mem_of_mem_filter hr)
    rw [hmid] at hsummarises
    have hapart : Apart SegmentRow.node (cover.filter fun r => r.node.within a.startSeq a.endSeq) :=
      hfrontier.covers.toApart.sublist List.filter_sublist
    have hzero : p.provenance.coverageKind = .exact → p.provenance.legacyOpaqueThroughSeq = 0 := by
      rw [hp]
      exact hexact
    obtain ⟨hspans, hcount, hfirst⟩ := Spans.of_summarises hapart hzero hsummarises
    have hnode : p.node.start = a.startSeq ∧ p.node.stop = a.endSeq := by
      rw [SegmentRow.node, hp]
      exact ⟨rfl, rfl⟩
    have hfilter : cover.filter (fun c => (SegmentRow.node c).within p.node.start p.node.stop) =
        cover.filter fun r => r.node.within a.startSeq a.endSeq := by
      rw [hnode.1, hnode.2]
    obtain ⟨front, back, hsplit⟩ := hfrontier.covers.toApart.exists_run hfilter hspans
    refine ⟨front, _, back, ?_, hspans, hwithin.symm, hcount, hfirst⟩
    rw [← hsplit]
    exact hfrontier

theorem Inv.checkpoint (h : w.Inv u) (a : SummaryCheckpoint) :
    (w.step u (.checkpoint a)).Inv u := by
  show ({ w with store := w.store.after (w.store.insertSummaryCheckpoint a) } : SummaryWorld).Inv u
  cases hresult : w.store.insertSummaryCheckpoint a with
  | error e => exact h
  | ok r =>
    obtain ⟨b, s'⟩ := r
    obtain rfl | ⟨p, head, hprov, hhead, hadmits, hinserted, hhead'⟩ :=
      SummaryStore.insertSummaryCheckpoint_ok hresult
    · exact h
    · obtain ⟨hstorable, _, hrows, hnext⟩ := SegmentTable.insertSegment_some hinserted
      obtain ⟨front, mid, back, hfrontier, hspans, _, hcount, hfirst⟩ :=
        h.checkpoint_run (p := ⟨w.store.segments.next, p, a.summaryEnvelope,
            hstorable⟩) hprov hhead hadmits
      have hreplaced := hfrontier.replace hspans hcount hfirst
      rw [← hrows] at hreplaced
      have hcanonical := hreplaced.canonicalCover_eq s'.segments.nodup
      have hwatermark : head.watermarkSeq = a.expectedWatermarkSeq := by
        simp only [SummaryStore.admitsCheckpoint, Bool.and_eq_true, beq_iff_eq] at hadmits
        exact hadmits.1.1.1.1.1.1
      have hchildren : p.childSegmentIds.Nodup := by
        obtain ⟨kind, hp, _, hnodup, _⟩ := SummaryCheckpoint.provenance?_some hprov
        rw [hp]
        exact hnodup
      show ({ w with store := s' } : SummaryWorld).Inv u
      refine Inv.written hrows (by omega) rfl ⟨h.next_pos,
        h.rows_ok⟩ hchildren hhead' hreplaced ?_ ?_
      · show canonicalIds s'.segments.rows a.expectedWatermarkSeq = _
        rw [canonicalIds, ← hwatermark, hcanonical]
      · intro hzero p hp
        have hle := (h.zero head hhead hzero p hp).1
        show p.1 < head.version + 1
        omega

/-- One step of a run keeps the invariant. -/
theorem Inv.step (h : w.Inv u) {l : SummaryLabel} (hl : w.Presents l) : (w.step u l).Inv u := by
  cases l with
  | append userId msgId ts doc => exact h.append userId msgId ts doc
  | deleteSynthetic msgId => exact h.deleteSynthetic msgId
  | deleteUncovered targets => exact h.deleteUncovered targets
  | clear => exact h.clear
  | read => exact h.read
  | leaf a => exact h.leaf hl
  | seed a => exact h.seed a
  | checkpoint a => exact h.checkpoint a

theorem Start.run (h : w.Start) {ls : List SummaryLabel} (hl : Runs.Along (step u) Presents w ls) :
    (Runs.run (SummaryWorld.step u) w ls).Inv u :=
  Runs.invariant (fun w => w.Inv u) (fun _ _ hinv hok => hinv.step hok) h.inv hl

/-! ## The canonical cover -/

theorem Inv.frontierState (h : w.Inv u) (hrows : w.store.segments.rows ≠ []) :
    ∃ head cover, w.store.head = some head ∧
      Frontier w.chat.rows w.chat.next u w.store.segments.rows head.watermarkSeq cover ∧
      head.materializedSegmentIds = cover.map (·.segmentId) ∧ cover ≠ [] ∧
      getSummaryFrontierState w.chat.rows u w.store = some
        { summaryEnvelope := head.summaryEnvelope, watermarkTs := head.watermarkTs,
          version := head.version
          watermarkSeq := head.watermarkSeq, materializedSegmentIds := head.materializedSegmentIds
          hasSegmentRows := true, segments := cover
          firstSourceSeq :=
            minSeq (sourceRows w.chat.rows u (opaqueThrough cover) head.watermarkSeq)
          coveredSourceCount :=
            (sourceRows w.chat.rows u (opaqueThrough cover) head.watermarkSeq).length } := by
  obtain hnil | ⟨head, cover, hhead, hfrontier, hids⟩ := h.named
  · exact absurd hnil hrows
  · have hne := hfrontier.cover_ne_nil hrows
    refine ⟨head, cover, hhead, hfrontier, hids, hne, ?_⟩
    have htranslated : head.translatedWatermark w.chat.rows u = head.watermarkSeq := by
      rw [SummaryHead.translatedWatermark, if_neg]
      rintro ⟨_, _, hempty⟩
      rw [hids, List.map_eq_nil_iff] at hempty
      exact hne hempty
    have hcanonical := hfrontier.canonicalCover_eq w.store.segments.nodup
    have hcover : cover.isEmpty = false := by
      rw [List.isEmpty_eq_false_iff]
      exact hne
    have hhas : w.store.segments.rows.isEmpty = false := by
      rw [List.isEmpty_eq_false_iff]
      exact hrows
    simp only [getSummaryFrontierState, hhead, Option.map_some, htranslated, hcanonical,
      hcover, hhas]
    rfl

theorem Inv.opens (h : w.Inv u) {r : SegmentRow} (hr : r ∈ w.store.segments.rows) {text : String}
    (htext : strip text ≠ "") :
    ∃ s : SummarySegment, SummarySegment.make r.segmentId r.provenance text = .ok s ∧
      s.row = r.row := by
  obtain ⟨hid, hchildren⟩ := h.rows_ok r hr
  have hcov := r.coverage
  have hlevels := r.levels
  have hcoverage : r.provenance.coverageDefect? = none := by
    unfold Provenance.coverageDefect?
    obtain hcov | hcov := hcov
    · rw [hcov.1]
      simp only
      rw [if_neg (by omega), if_neg (by omega)]
    · rw [hcov.1]
      simp only
      rw [if_neg (by omega)]
  have hdefect : r.provenance.defect? r.segmentId text = none := by
    unfold Provenance.defect?
    rw [if_neg (by omega), if_neg (by omega), hcoverage, Option.none_or, if_neg htext,
      if_neg (by simpa using hchildren)]
    rw [if_neg, if_neg]
    · rintro ⟨hpos, hnil⟩
      obtain hl | hl := hlevels
      · omega
      · exact hl.2 hnil
    · rintro ⟨hzero, hne⟩
      obtain hl | hl := hlevels
      · exact hne hl.2
      · omega
  refine ⟨⟨r.segmentId, r.provenance, text, hdefect⟩, ?_, rfl⟩
  rw [SummarySegment.make, dif_pos hdefect]

theorem exists_mapM {α β γ ε : Type} {f : α → Except ε β} {g : β → γ} {g' : α → γ} {l : List α}
    (h : ∀ x ∈ l, ∃ y, f x = .ok y ∧ g y = g' x) :
    ∃ ys, l.mapM f = .ok ys ∧ ys.map g = l.map g' := by
  induction l with
  | nil => exact ⟨[], rfl, rfl⟩
  | cons x l ih =>
    obtain ⟨y, hy, hg⟩ := h x (by simp)
    obtain ⟨ys, hys, hmap⟩ := ih fun z hz => h z (by simp [hz])
    refine ⟨y :: ys, ?_, by rw [List.map_cons, List.map_cons, hg, hmap]⟩
    rw [List.mapM_cons, hy, hys]
    rfl

/-- In every run the canonical cover of a summary that has segments is accepted, with the source
witness that was read with it and whatever texts its segments have, and it is the one the head
names. -/
theorem frontier_always_valid (u : UserId) (w : SummaryWorld) (hstart : w.Start)
    (ls : List SummaryLabel) (hl : Runs.Along (SummaryWorld.step u) Presents w ls)
    (hrows : (Runs.run (SummaryWorld.step u) w ls).store.segments.rows ≠ []) :
    ∃ state, getSummaryFrontierState (Runs.run (SummaryWorld.step u) w ls).chat.rows u
        (Runs.run (SummaryWorld.step u) w ls).store = some state ∧
      (∃ opened, summaryMetadataFrontier state = .ok opened ∧
        opened.map (·.row) = state.segments.map (·.row)) ∧
      (∀ frontier : List SummarySegment, frontier.map (·.row) = state.segments.map (·.row) →
        validateCanonicalFrontier frontier state.watermarkSeq state.firstSourceSeq
          state.coveredSourceCount = .ok frontier) ∧
      state.segments.map (·.segmentId) = state.materializedSegmentIds ∧
      ∃ head, (Runs.run (SummaryWorld.step u) w ls).store.head = some head ∧
        head.materializedSegmentIds = state.segments.map (·.segmentId) := by
  have hinv := hstart.run hl
  obtain ⟨head, cover, hhead, hfrontier, hids, hne, hstate⟩ := hinv.frontierState hrows
  have hnodup : (cover.map (·.segmentId)).Nodup :=
    Serial.nodup_keys _ hfrontier.covers.toApart.nodup hfrontier.covers.subset
  refine ⟨_, hstate, ?_, fun frontier hrow => hfrontier.validates hne hnodup hrow, hids.symm,
    head, hhead, hids⟩
  have hopens : ∀ r ∈ cover, ∃ s : SummarySegment,
      SummarySegment.make r.segmentId r.provenance "<encrypted-summary-segment>" = .ok s ∧
        s.row = r.row :=
    fun r hr => hinv.opens (hfrontier.covers.subset r hr) (by decide)
  obtain ⟨opened, hopened, hrow⟩ := exists_mapM hopens
  refine ⟨opened, ?_, hrow⟩
  have hopenedIds : opened.map (·.segmentId) = cover.map (·.segmentId) := by
    have hfst := congrArg (List.map Prod.fst) hrow
    rwa [List.map_map, List.map_map] at hfst
  simp only [summaryMetadataFrontier, hopened, hfrontier.validates hne hnodup hrow, hopenedIds,
    hids, ne_eq, not_true_eq_false, if_false]

/-- Two messages, a leaf over them and a checkpoint over the leaf. -/
def leafThenCheckpoint : List SummaryLabel :=
  [.append "u" "m1" 1 ⟨.user, "", "", "", "", "", "", "", "", ""⟩,
    .append "u" "m2" 2 ⟨.assistant, "", "", "", "", "", "", "", "", ""⟩,
    .read, .leaf ⟨"leaf", "", 1, 2, 2, 2, 0, 0⟩, .read,
    .checkpoint ⟨"parent", "head", 1, 1, 2, 2, [1], 1, 2, "exact", 0⟩]

theorem frontier_always_valid_checkpoint :
    Runs.Along (SummaryWorld.step "u") Presents fresh leafThenCheckpoint ∧
    (Runs.run (SummaryWorld.step "u") fresh leafThenCheckpoint).store.segments.rows.length = 2 ∧
    ∃ state, getSummaryFrontierState
      (Runs.run (SummaryWorld.step "u") fresh leafThenCheckpoint).chat.rows "u"
        (Runs.run (SummaryWorld.step "u") fresh leafThenCheckpoint).store = some state ∧
      state.segments.map (·.segmentId) = state.materializedSegmentIds ∧
      ∃ head, (Runs.run (SummaryWorld.step "u") fresh leafThenCheckpoint).store.head = some head ∧
        head.materializedSegmentIds = state.segments.map (·.segmentId) := by
  have hl : Runs.Along (SummaryWorld.step "u") Presents fresh leafThenCheckpoint := by
    decide +kernel
  have hlength : (Runs.run
      (SummaryWorld.step "u") fresh leafThenCheckpoint).store.segments.rows.length = 2 := by
    decide +kernel
  refine ⟨hl, hlength, ?_⟩
  obtain ⟨state, hstate, _, _, hids⟩ :=
    frontier_always_valid "u" fresh start_fresh leafThenCheckpoint hl (by
    intro hnil
    rw [hnil] at hlength
    cases hlength)
  exact ⟨state, hstate, hids⟩

end SummaryWorld

end Feedling
