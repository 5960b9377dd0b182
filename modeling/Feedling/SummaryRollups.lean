import Feedling.SummaryRuns

/-!
# A chosen roll-up is stored

The worker chooses a run of segments from a snapshot and asks the store for a checkpoint over it.
From every reachable summary the checkpoint passes every check: it takes the place of its run in
the cover and changes nothing else. The one thing that can stop it is a column that is too small.
-/

namespace Feedling

open KeyedTable NestedCover

/-! ## The run that is chosen -/

/-- The candidate is a run of the frontier, one level above its highest segment. -/
structure RollupCandidate.ChosenFrom (c : RollupCandidate) (frontier : List SummarySegment) :
    Prop where
  run : ∃ front back, frontier = front ++ c.children ++ back
  level : c.parentLevel = (c.children.map (·.provenance.level)).max?.getD 0 + 1

theorem rollupCandidate_some {children frontier : List SummarySegment} {reason : String}
    {c : RollupCandidate} (h : rollupCandidate children reason = .ok (some c))
    (hrun : ∃ front back, frontier = front ++ children ++ back) :
    c.ChosenFrom frontier := by
  unfold rollupCandidate at h
  by_cases hnil : children = []
  · rw [dif_pos hnil] at h
    cases h
  · rw [dif_neg hnil] at h
    injection h with h
    injection h with h
    subst h
    exact ⟨hrun, rfl⟩

theorem closedRun_some {fanout : Nat} {run items selected : List SummarySegment}
    (h : closedRun fanout run items = some selected) :
    ∃ front back, run ++ items = front ++ selected ++ back := by
  induction items generalizing run with
  | nil =>
    rw [closedRun] at h
    split at h
    · cases h
      exact ⟨[], run.drop fanout, by simp⟩
    · cases h
  | cons item rest ih =>
    rw [closedRun] at h
    split at h
    · obtain ⟨front, back, hsplit⟩ := ih h
      exact ⟨front, back, by rw [← hsplit, List.append_assoc, List.singleton_append]⟩
    · split at h
      · cases h
        refine ⟨[], run.drop fanout ++ item :: rest, ?_⟩
        rw [List.nil_append, ← List.append_assoc, List.take_append_drop]
      · obtain ⟨front, back, hsplit⟩ := ih h
        refine ⟨run ++ front, back, ?_⟩
        rw [List.singleton_append] at hsplit
        rw [hsplit, List.append_assoc, List.append_assoc, List.append_assoc]

theorem chooseRollupCandidate_some {frontier : List SummarySegment}
    {fanout maxSegments maxChars : Int} {c : RollupCandidate}
    (h : chooseRollupCandidate frontier fanout maxSegments maxChars = .ok (some c)) :
    c.ChosenFrom frontier := by
  unfold chooseRollupCandidate at h
  split at h
  · cases h
  · split at h
    · cases h
    · split at h
      · next item hitem =>
        refine rollupCandidate_some h ?_
        obtain ⟨front, back, hsplit⟩ := List.append_of_mem (List.mem_of_find?_eq_some hitem)
        exact ⟨front, back, by rw [hsplit, List.append_assoc, List.singleton_append]⟩
      · split at h
        · next selected hselected =>
          exact rollupCandidate_some h (closedRun_some hselected)
        · split at h
          · cases h
          · simp only at h
            split at h
            · cases h
            · refine rollupCandidate_some h ⟨[], frontier.drop fanout.toNat, ?_⟩
              rw [List.nil_append, List.take_append_drop]

/-! ## The snapshot it is chosen from -/

theorem map_of_mapM {α β γ ε : Type} {f : α → Except ε β} {g : β → γ} {g' : α → γ} {l : List α}
    {ys : List β} (hf : ∀ x y, f x = .ok y → g y = g' x) (h : l.mapM f = .ok ys) :
    ys.map g = l.map g' := by
  induction l generalizing ys with
  | nil =>
    rw [List.mapM_nil] at h
    cases h
    rfl
  | cons x l ih =>
    rw [List.mapM_cons] at h
    cases hx : f x with
    | error e =>
      rw [hx] at h
      cases h
    | ok y =>
      cases hl : l.mapM f with
      | error e =>
        rw [hx, hl] at h
        cases h
      | ok zs =>
        rw [hx, hl] at h
        cases h
        rw [List.map_cons, List.map_cons, hf x y hx, ih hl]

theorem SummarySegment.make_ok {segmentId : Nat} {p : Provenance} {text : String}
    {s : SummarySegment} (h : SummarySegment.make segmentId p text = .ok s) :
    s.row = (segmentId, p) := by
  unfold SummarySegment.make at h
  split at h
  · cases h
    rfl
  · cases h

theorem SummarySegment.folded_ok {s s' : SummarySegment} (h : s.folded = .ok s') :
    s'.row = s.row := by
  unfold SummarySegment.folded at h
  split at h
  · cases h
  · exact SummarySegment.make_ok h

theorem summaryMetadataFrontier_ok {state : FrontierState} {metadata : List SummarySegment}
    (h : summaryMetadataFrontier state = .ok metadata) :
    metadata.map (·.row) = state.segments.map (·.row) := by
  unfold summaryMetadataFrontier at h
  split at h
  · cases h
  · next opened hopened =>
    split at h
    · cases h
    · next validated hvalidated =>
      split at h
      · cases h
      · cases h
        have hsame : metadata = opened := by
          unfold validateCanonicalFrontier at hvalidated
          simp only at hvalidated
          split at hvalidated
          · cases hvalidated
          · cases hvalidated
            rfl
        rw [hsame]
        exact map_of_mapM (fun r s hmake => SummarySegment.make_ok hmake) hopened

theorem FrontierState.snapshot_ok {state : FrontierState} {snapshot : SummaryFrontierSnapshot}
    (h : state.snapshot = .ok snapshot) :
    snapshot.segments.map (·.row) = state.segments.map (·.row) ∧
      snapshot.headVersion = state.version ∧ snapshot.watermarkSeq = state.watermarkSeq := by
  unfold FrontierState.snapshot at h
  split at h
  · cases h
  · next metadata hmetadata =>
    split at h
    · cases h
    · next deterministic hfolded =>
      have hrows := map_of_mapM (fun s s' hs => SummarySegment.folded_ok hs) hfolded
      unfold SummaryFrontierSnapshot.make at h
      split at h
      · split at h
        · cases h
          exact ⟨hrows.trans (summaryMetadataFrontier_ok hmetadata), rfl, rfl⟩
        · cases h
      · cases h

namespace SummaryWorld

variable {u : UserId} {w : SummaryWorld}

/-- Seeding an old summary is one of the steps of a run. -/
theorem Inv.seeded (h : w.Inv u) {state : FrontierState} {store : SummaryStore}
    (hs : seededState w.chat.rows u w.store = (.ok (some state), store)) :
    ({ w with store := store } : SummaryWorld).Inv u ∧
      getSummaryFrontierState w.chat.rows u store = some state := by
  unfold seededState at hs
  cases hread : getSummaryFrontierState w.chat.rows u w.store with
  | none =>
    rw [hread] at hs
    cases hs
  | some first =>
    rw [hread] at hs
    simp only at hs
    split at hs
    · have hseed := h.seed ⟨first.version, first.watermarkSeq⟩
      have hstep : w.step u (.seed ⟨first.version, first.watermarkSeq⟩) =
          { w with store := w.store.after (w.store.seedLegacySummarySegment ⟨first.version,
                       first.watermarkSeq⟩) } := rfl
      rw [hstep] at hseed
      cases hresult : w.store.seedLegacySummarySegment ⟨first.version, first.watermarkSeq⟩ with
      | error e =>
        rw [hresult] at hs
        cases hs
      | ok r =>
        obtain ⟨b, s'⟩ := r
        rw [hresult] at hs hseed
        cases b with
        | false => cases hs
        | true =>
          simp only [Prod.mk.injEq, Except.ok.injEq] at hs
          obtain ⟨hstate, rfl⟩ := hs
          exact ⟨hseed, hstate⟩
    · simp only [Prod.mk.injEq, Except.ok.injEq, Option.some.injEq] at hs
      obtain ⟨rfl, rfl⟩ := hs
      exact ⟨h, hread⟩

theorem Inv.snapshot (h : w.Inv u) {snapshot : SummaryFrontierSnapshot} {store : SummaryStore}
    (hs : readSummaryFrontierMetadata w.chat.rows u w.store = (.ok (some snapshot), store)) :
    ({ w with store := store } : SummaryWorld).Inv u ∧ ∃ head cover, store.head = some head ∧
      Frontier w.chat.rows w.chat.next u store.segments.rows head.watermarkSeq cover ∧
      head.materializedSegmentIds = cover.map (·.segmentId) ∧
      snapshot.segments.map (·.row) = cover.map (·.row) ∧ snapshot.headVersion = head.version ∧
      snapshot.watermarkSeq = head.watermarkSeq := by
  unfold readSummaryFrontierMetadata at hs
  split at hs
  · cases hs
  · cases hs
  · next state s' hseeded =>
    split at hs
    · cases hs
    · next hnonempty =>
      simp only [Prod.mk.injEq] at hs
      obtain ⟨hsnapshot, rfl⟩ := hs
      obtain ⟨hinv, hstate⟩ := h.seeded hseeded
      refine ⟨hinv, ?_⟩
      have hmade : state.snapshot = .ok snapshot := by
        cases hmake : state.snapshot with
        | error e =>
          rw [hmake] at hsnapshot
          cases hsnapshot
        | ok made =>
          rw [hmake] at hsnapshot
          cases hsnapshot
          rfl
      obtain ⟨hrow, hversion, hwatermark⟩ := FrontierState.snapshot_ok hmade
      by_cases hrows : s'.segments.rows = []
      · -- without segments there is no cover
        exfalso
        rw [getSummaryFrontierState] at hstate
        obtain ⟨head, _, rfl⟩ := Option.map_eq_some_iff.mp hstate
        rw [hrows] at hnonempty
        exact hnonempty rfl
      · obtain ⟨head, cover, hhead, hfrontier, hids, _, hread⟩ := hinv.frontierState hrows
        obtain rfl := Option.some.inj (hread.symm.trans hstate)
        exact ⟨head, cover, hhead, hfrontier, hids, hrow, hversion, hwatermark⟩

end SummaryWorld

/-! ## The checkpoint passes -/

/-- The row that the checkpoint of the candidate asks for. -/
def RollupCandidate.provenance (c : RollupCandidate) : Provenance where
  coverageKind := if c.children.any fun s => s.provenance.isLegacy then .legacyOpaque else .exact
  level := c.parentLevel
  startSeq := c.startSeq
  endSeq := c.endSeq
  sourceMessageCount := c.sourceMessageCount
  legacyOpaqueThroughSeq := c.legacyOpaqueThroughSeq
  childSegmentIds := c.childSegmentIds

/-- The stored rows `mid` are the children of the candidate. -/
structure RollupCandidate.Over (c : RollupCandidate) (mid : List SegmentRow) : Prop where
  rows : c.children.map (·.row) = mid.map (·.row)
  apart : Apart SegmentRow.node mid
  level : c.parentLevel = (c.children.map (·.provenance.level)).max?.getD 0 + 1

theorem sum_counts_nonneg (rows : List SegmentRow) :
    0 ≤ (rows.map (·.provenance.sourceMessageCount)).sum := by
  induction rows with
  | nil => simp
  | cons r rows ih =>
    have hr := r.count_nonneg
    simp only [List.map_cons, List.sum_cons]
    omega

namespace RollupCandidate.Over

variable {c : RollupCandidate} {mid : List SegmentRow}

section

variable (h : c.Over mid)
include h

theorem provenances : c.children.map (·.provenance) = mid.map (·.provenance) := by
  have hsnd := congrArg (List.map Prod.snd) h.rows
  rwa [List.map_map, List.map_map] at hsnd

theorem column {β : Type} (f : Provenance → β) :
    c.children.map (fun s => f s.provenance) = mid.map (fun r => f r.provenance) := by
  have hmap := congrArg (List.map f) h.provenances
  rwa [List.map_map, List.map_map] at hmap

theorem childSegmentIds : c.childSegmentIds = mid.map (·.segmentId) := by
  have hfst := congrArg (List.map Prod.fst) h.rows
  rwa [List.map_map, List.map_map] at hfst

theorem ne_nil : mid ≠ [] := by
  rintro rfl
  exact c.nonempty (List.map_eq_nil_iff.mp h.rows)

theorem head : mid.head?.map (·.provenance.startSeq) = some c.startSeq := by
  have hheads := congrArg List.head? (h.column Provenance.startSeq)
  rw [List.head?_map, List.head?_map, List.head?_eq_some_head c.nonempty] at hheads
  exact hheads.symm

theorem last : mid.getLast?.map (·.provenance.endSeq) = some c.endSeq := by
  have hlasts := congrArg List.getLast? (h.column Provenance.endSeq)
  rw [List.getLast?_map, List.getLast?_map, List.getLast?_eq_some_getLast c.nonempty] at hlasts
  exact hlasts.symm

theorem count : (mid.map (·.provenance.sourceMessageCount)).sum = c.sourceMessageCount :=
  congrArg List.sum (h.column Provenance.sourceMessageCount).symm

theorem opaqueMax :
    (mid.map (·.provenance.legacyOpaqueThroughSeq)).max? = some c.legacyOpaqueThroughSeq := by
  obtain ⟨r, rest, rfl⟩ := List.exists_cons_of_ne_nil h.ne_nil
  rw [RollupCandidate.legacyOpaqueThroughSeq, h.column Provenance.legacyOpaqueThroughSeq]
  rfl

theorem levelMax : (mid.map (·.provenance.level)).max? = some (c.parentLevel - 1) := by
  obtain ⟨r, rest, rfl⟩ := List.exists_cons_of_ne_nil h.ne_nil
  rw [h.level, h.column Provenance.level]
  simp [List.max?]

theorem spans : Spans SegmentRow.node c.provenance.node mid where
  start := h.head
  stop := h.last
  above := by
    intro r hr
    have hle :=
      (List.max?_eq_some_iff.mp h.levelMax).2 r.provenance.level (List.mem_map.mpr ⟨r, hr, rfl⟩)
    show r.provenance.level < c.parentLevel
    omega

theorem level_pos : 0 < c.parentLevel := by
  obtain ⟨r, hr⟩ := List.exists_mem_of_ne_nil mid h.ne_nil
  have habove : r.provenance.level < c.parentLevel := h.spans.above r hr
  have hlevels := r.levels
  omega

theorem any_legacy :
    (c.children.any fun s => s.provenance.isLegacy) = mid.any fun r => r.provenance.isLegacy := by
  have hany := congrArg (List.any · id) (h.column Provenance.isLegacy)
  simpa [List.any_map, Function.comp_def] using hany

theorem kind_exact (hkind : c.provenance.coverageKind = .exact) :
    ∀ r ∈ mid, r.provenance.coverageKind = .exact := by
  intro r hr
  have hnone : (mid.any fun r => r.provenance.isLegacy) = false := by
    rw [← h.any_legacy]
    by_contra hany
    rw [Bool.not_eq_false] at hany
    rw [RollupCandidate.provenance, if_pos hany] at hkind
    cases hkind
  have hr' := List.any_eq_false.mp hnone r hr
  cases hk : r.provenance.coverageKind with
  | exact => rfl
  | legacyOpaque =>
    exfalso
    apply hr'
    rw [Provenance.isLegacy, hk]
    rfl

theorem kind_legacy (hkind : c.provenance.coverageKind = .legacyOpaque) :
    ∃ r ∈ mid, r.provenance.coverageKind = .legacyOpaque := by
  have hsome : (mid.any fun r => r.provenance.isLegacy) = true := by
    rw [← h.any_legacy]
    by_contra hany
    rw [RollupCandidate.provenance, if_neg hany] at hkind
    cases hkind
  obtain ⟨r, hr, hlegacy⟩ := List.any_eq_true.mp hsome
  exact ⟨r, hr, by simpa [Provenance.isLegacy] using hlegacy⟩

theorem checked : c.provenance.coverageChecked = true ∧ c.provenance.levelChecked = true := by
  have hpos := h.level_pos
  have hids : c.childSegmentIds ≠ [] := by
    rw [h.childSegmentIds, ne_eq, List.map_eq_nil_iff]
    exact h.ne_nil
  have hproper : c.startSeq ≤ c.endSeq := h.spans.proper h.apart
  have hcount := h.count
  obtain ⟨hmem, hmax⟩ := List.max?_eq_some_iff.mp h.opaqueMax
  obtain ⟨top, htop, htopOpaque⟩ := List.mem_map.mp hmem
  refine ⟨?_, ?_⟩
  · unfold Provenance.coverageChecked
    cases hkind : c.provenance.coverageKind with
    | exact =>
      have hexact := h.kind_exact hkind
      obtain ⟨r, hr, hstart⟩ := h.spans.exists_head
      have hstart : r.provenance.startSeq = c.startSeq := hstart
      have hfirst := SegmentRow.kind_exact_iff.mp (hexact r hr)
      have hcov := top.coverage
      rw [hexact top htop] at hcov
      simp at hcov
      have hcounted : 0 < c.sourceMessageCount := by
        obtain ⟨d, rest, rfl⟩ := List.exists_cons_of_ne_nil h.ne_nil
        have hd := d.coverage
        rw [hexact d (by simp)] at hd
        simp at hd
        have hrest := sum_counts_nonneg rest
        simp only [List.map_cons, List.sum_cons] at hcount
        omega
      refine decide_eq_true ⟨?_, hproper, hcounted, ?_⟩
      · show 0 < c.startSeq
        omega
      · show c.legacyOpaqueThroughSeq = 0
        omega
    | legacyOpaque =>
      obtain ⟨r, hr, hlegacy⟩ := h.kind_legacy hkind
      have hcov := r.coverage
      rw [hlegacy] at hcov
      simp at hcov
      have hle : c.startSeq ≤ r.provenance.startSeq := h.spans.start_le h.apart hr
      obtain ⟨first, hfirst, hstart⟩ := h.spans.exists_head
      have hstart : first.provenance.startSeq = c.startSeq := hstart
      have hnonneg := first.start_nonneg
      have hend : top.provenance.endSeq ≤ c.endSeq := h.spans.le_stop h.apart htop
      have htopBounds := top.opaque_le_end
      have hsum := sum_counts_nonneg mid
      refine decide_eq_true ⟨?_, ?_, ?_, ?_⟩
      · show c.startSeq = 0
        omega
      · show c.legacyOpaqueThroughSeq ≤ c.endSeq
        omega
      · show 0 ≤ c.legacyOpaqueThroughSeq
        omega
      · show 0 ≤ c.sourceMessageCount
        omega
  · exact decide_eq_true (.inr ⟨hpos, hids⟩)

theorem provenance?_checkpoint (hnodup : (mid.map (·.segmentId)).Nodup)
    (snapshot : SummaryFrontierSnapshot) (envelope headEnvelope : String) :
    (c.checkpoint snapshot envelope headEnvelope).provenance? = some c.provenance := by
  have hname : CoverageKind.ofName? c.coverageKind = some c.provenance.coverageKind := by
    rw [RollupCandidate.coverageKind, RollupCandidate.provenance]
    split <;> rfl
  have hpos := h.level_pos
  have hids : c.childSegmentIds ≠ [] := by
    rw [h.childSegmentIds, ne_eq, List.map_eq_nil_iff]
    exact h.ne_nil
  have hproper : c.startSeq ≤ c.endSeq := h.spans.proper h.apart
  have hpinned := snapshot.pinned
  have hchecked := h.checked.1
  have hcounted : 0 ≤ c.sourceMessageCount := by
    rw [← h.count]
    exact sum_counts_nonneg mid
  unfold SummaryCheckpoint.provenance?
  rw [show (c.checkpoint snapshot envelope headEnvelope).coverageKind = c.coverageKind from rfl,
    hname]
  simp only
  rw [if_neg]
  · rfl
  · simp only [RollupCandidate.checkpoint]
    unfold Provenance.coverageChecked at hchecked
    cases hkind : c.provenance.coverageKind with
    | exact =>
      rw [hkind] at hchecked
      have hcols : 0 < c.startSeq ∧ c.startSeq ≤ c.endSeq ∧ 0 < c.sourceMessageCount ∧
          c.legacyOpaqueThroughSeq = 0 :=
        of_decide_eq_true hchecked
      simp only [hids, h.childSegmentIds ▸ hnodup, not_true_eq_false, reduceCtorEq, false_and,
        true_and, false_or]
      omega
    | legacyOpaque =>
      rw [hkind] at hchecked
      have hcols : c.startSeq = 0 ∧ c.legacyOpaqueThroughSeq ≤ c.endSeq ∧
        0 ≤ c.legacyOpaqueThroughSeq ∧
          0 ≤ c.sourceMessageCount := of_decide_eq_true hchecked
      simp only [hids, h.childSegmentIds ▸ hnodup, not_true_eq_false, reduceCtorEq, false_and,
        true_and, false_or]
      omega

theorem summarises : c.provenance.summarises mid = true := by
  simp only [Provenance.summarises, Bool.and_eq_true, beq_iff_eq, List.all_eq_true,
    decide_eq_true_eq]
  refine ⟨⟨⟨⟨⟨h.head, h.last⟩, h.count⟩, h.spans.above⟩, ?_⟩, ?_⟩
  · cases hkind : c.provenance.coverageKind with
    | exact =>
      simp only [List.all_eq_true, beq_iff_eq]
      exact h.kind_exact hkind
    | legacyOpaque =>
      simp only [beq_iff_eq]
      exact h.opaqueMax
  · -- neighbours in a chain
    intro e he
    have hapart := h.apart.apart
    clear h
    induction mid with
    | nil => cases he
    | cons a rest ih =>
      cases rest with
      | nil => cases he
      | cons b rest =>
        rw [List.tail_cons, List.zip_cons_cons] at he
        obtain rfl | he := List.mem_cons.mp he
        · exact (List.pairwise_cons.mp hapart).1 b (by simp)
        · exact ih he (List.pairwise_cons.mp hapart).2

end

end RollupCandidate.Over

section Stored

variable {chat : List ChatRow} {next : Nat} {u : UserId} {store : SummaryStore} {head : SummaryHead}
  {front mid back : List SegmentRow} {c : RollupCandidate} {snapshot : SummaryFrontierSnapshot}

theorem RollupCandidate.Over.children (h : c.Over mid)
    (hsubset : ∀ r ∈ mid, r ∈ store.segments.rows) (envelope headEnvelope : String) :
    (c.checkpoint snapshot envelope headEnvelope).children store.segments.rows = mid := by
  refine h.apart.sort_eq (store.segments.nodup.filter _) fun r => ?_
  simp only [List.mem_filter, decide_eq_true_eq]
  rw [show (c.checkpoint snapshot envelope headEnvelope).childSegmentIds = mid.map (·.segmentId)
    from h.childSegmentIds]
  constructor
  · rintro ⟨hr, hid⟩
    obtain ⟨x, hx, hsame⟩ := List.mem_map.mp hid
    rw [← Serial.eq_of_key_eq (hsubset x hx) hr hsame]
    exact hx
  · intro hr
    exact ⟨hsubset r hr, List.mem_map.mpr ⟨r, hr, rfl⟩⟩

theorem RollupCandidate.Over.admits (h : c.Over mid)
    (hfrontier : Frontier chat next u store.segments.rows head.watermarkSeq (front ++ mid ++ back))
    (hids : head.materializedSegmentIds = (front ++ mid ++ back).map (·.segmentId))
    (hversion : snapshot.headVersion = head.version)
    (hwatermark : snapshot.watermarkSeq = head.watermarkSeq)
    (envelope headEnvelope : String) :
    store.admitsCheckpoint head (c.checkpoint snapshot envelope headEnvelope) c.provenance =
      true := by
  have hsubset : ∀ r ∈ mid, r ∈ store.segments.rows :=
    fun r hr => hfrontier.covers.subset r (by simp [hr])
  have hcanonical := hfrontier.canonicalCover_eq store.segments.nodup
  have hend : c.endSeq ≤ head.watermarkSeq := by
    obtain ⟨last, hlast, hstop⟩ := h.spans.exists_last
    have hle := hfrontier.eligible (hsubset last hlast)
    have hstop : last.provenance.endSeq = c.endSeq := hstop
    omega
  have hwithin : (front ++ mid ++ back).filter (fun r => r.node.within c.startSeq c.endSeq) = mid :=
    h.spans.filter_within hfrontier.covers.toApart
  simp only [SummaryStore.admitsCheckpoint, Bool.and_eq_true, beq_iff_eq, decide_eq_true_eq]
  rw [h.children hsubset, hcanonical]
  refine ⟨⟨⟨⟨⟨⟨hwatermark.symm, hversion.symm⟩, ?_⟩, ?_⟩, ?_⟩, h.summarises⟩, ?_⟩
  · show c.endSeq ≤ snapshot.watermarkSeq
    omega
  · show canonicalIds store.segments.rows snapshot.watermarkSeq = head.materializedSegmentIds
    rw [canonicalIds, hwatermark, hcanonical, hids]
  · exact h.childSegmentIds.symm
  · show ((front ++ mid ++ back).filter fun r => r.node.within c.startSeq c.endSeq).map
      (·.segmentId) = c.childSegmentIds
    rw [hwithin, h.childSegmentIds]

theorem RollupCandidate.Over.find?_range (h : c.Over mid)
    (hcovers : Covers SegmentRow.node (front ++ mid ++ back) store.segments.rows) :
    store.segments.find? c.provenance.range = none := by
  rw [Indexed.find?_eq_none]
  intro r hr hrange
  obtain ⟨child, hchild⟩ := List.exists_mem_of_ne_nil mid h.ne_nil
  have hhides := h.spans.hides h.apart hchild
  have hnode : r.node = c.provenance.node := by
    simp only [SegmentRow.range, Provenance.range, Prod.mk.injEq] at hrange
    rw [SegmentRow.node, Provenance.node, hrange.1, hrange.2.1, hrange.2.2]
    rfl
  rw [← hnode, hcovers.hides_eq_false (by simp [hchild]) hr] at hhides
  cases hhides

/-- The parent row and the head's next version fit their columns. -/
def RollupCandidate.fits (c : RollupCandidate) (snapshot : SummaryFrontierSnapshot) : Bool :=
  c.provenance.fitsColumns && decide (snapshot.headVersion < 2147483647)

/-- What the checkpoint of a candidate does to the store. -/
structure RolledUp (c : RollupCandidate) (store store' : SummaryStore) : Prop where
  rows : ∃ parent : SegmentRow, parent.segmentId = store.segments.next ∧
    parent.provenance = c.provenance ∧ store'.segments.rows = store.segments.rows ++ [parent]
  head : ∃ old new front back, store.head = some old ∧ store'.head = some new ∧
    new.watermarkSeq = old.watermarkSeq ∧
    old.materializedSegmentIds = front ++ c.childSegmentIds ++ back ∧
    new.materializedSegmentIds = front ++ [store.segments.next] ++ back

def SummaryHead.rolledUp (head : SummaryHead) (headEnvelope : String) (ids : List Nat) :
    SummaryHead :=
  { head with summaryEnvelope := headEnvelope, materializedSegmentIds := ids,
              version := head.version + 1 }

section

variable (h : c.Over mid) (hhead : store.head = some head)
  (hfrontier : Frontier chat next u store.segments.rows head.watermarkSeq (front ++ mid ++ back))
  (hids : head.materializedSegmentIds = (front ++ mid ++ back).map (·.segmentId))
include h hhead hfrontier hids

section

variable (hversion : snapshot.headVersion = head.version)
  (hwatermark : snapshot.watermarkSeq = head.watermarkSeq)
include hversion hwatermark

theorem RollupCandidate.Over.insert_eq (hfits : c.provenance.fitsColumns = true)
    (envelope headEnvelope : String) :
    ∃ (stored : SegmentTable) (parent : SegmentRow), parent.segmentId = store.segments.next ∧
      parent.provenance = c.provenance ∧ stored.rows = store.segments.rows ++ [parent] ∧
      store.insertSummaryCheckpoint (c.checkpoint snapshot envelope headEnvelope) =
        (SummaryStore.updateHead stored head (head.rolledUp headEnvelope
          (front.map (·.segmentId) ++ [store.segments.next] ++ back.map (·.segmentId)))).map (true,
            ·) := by
  have hsubset : ∀ r ∈ mid, r ∈ store.segments.rows :=
    fun r hr => hfrontier.covers.subset r (by simp [hr])
  have hprov := h.provenance?_checkpoint (Serial.nodup_keys _ h.apart.nodup hsubset) snapshot
    envelope headEnvelope
  have hadmits := h.admits hfrontier hids hversion hwatermark envelope headEnvelope
  have hstorable : c.provenance.storable = true := by
    rw [Provenance.storable, h.checked.1, h.checked.2, hfits]
    rfl
  obtain ⟨stored, hinsert, hrows⟩ :=
    SegmentTable.insertSegment_of_none hstorable (h.find?_range hfrontier.covers) envelope
  refine ⟨stored, _, rfl, rfl, hrows, ?_⟩
  have hreplaced : Frontier chat next u stored.rows head.watermarkSeq
      (front ++ [⟨store.segments.next, c.provenance, envelope, hstorable⟩] ++ back) := by
    rw [hrows]
    refine hfrontier.replace h.spans h.count ?_
    have hexact : c.provenance.coverageKind = .exact → c.provenance.legacyOpaqueThroughSeq = 0 := by
      intro hkind
      have hcov := SegmentRow.coverage ⟨store.segments.next, c.provenance, envelope, hstorable⟩
      simp only [hkind] at hcov
      simp at hcov
      exact hcov.2.2.2
    exact (SummaryWorld.Spans.of_summarises h.apart hexact h.summarises).2.2
  have hnewIds : canonicalIds stored.rows snapshot.watermarkSeq =
      front.map (·.segmentId) ++ [store.segments.next] ++ back.map (·.segmentId) := by
    rw [canonicalIds, hwatermark, hreplaced.canonicalCover_eq stored.nodup]
    simp
  unfold SummaryStore.insertSummaryCheckpoint
  rw [hprov]
  simp only [hhead, hadmits]
  rw [show (c.checkpoint snapshot envelope headEnvelope).summaryEnvelope = envelope from rfl,
    hinsert]
  simp only [Bool.not_true, Bool.false_eq_true, if_false]
  rw [show (c.checkpoint snapshot envelope headEnvelope).expectedWatermarkSeq =
    snapshot.watermarkSeq from rfl, hnewIds]
  rw [if_neg (by simp)]
  rfl

theorem RollupCandidate.Over.insert_ok (hfits : c.fits snapshot = true)
    (envelope headEnvelope : String) :
    ∃ store', store.insertSummaryCheckpoint (c.checkpoint snapshot envelope headEnvelope) = .ok
      (true, store') ∧ RolledUp c store store' := by
  simp only [RollupCandidate.fits, Bool.and_eq_true, decide_eq_true_eq] at hfits
  obtain ⟨stored, parent, hid, hparent, hrows, hinsert⟩ :=
    h.insert_eq hhead hfrontier hids hversion hwatermark hfits.1 envelope headEnvelope
  refine ⟨⟨some (head.rolledUp headEnvelope
    (front.map (·.segmentId) ++ [store.segments.next] ++ back.map (·.segmentId))), stored⟩, ?_, ?_⟩
  · rw [hinsert, SummaryStore.updateHead, if_neg (by simp only [SummaryHead.rolledUp]; omega),
      if_neg]
    · rfl
    -- the parent's number is new, so the head names other segments than before
    · simp only [Bool.and_eq_true, beq_iff_eq]
      rintro ⟨_, hsame⟩
      have hmem : store.segments.next ∈ head.materializedSegmentIds := by
        rw [← hsame]
        simp [SummaryHead.rolledUp]
      rw [hids] at hmem
      obtain ⟨r, hr, hnumber⟩ := List.mem_map.mp hmem
      have hlt := store.segments.bound r (hfrontier.covers.subset r hr)
      omega
  · refine ⟨⟨parent, hid, hparent, hrows⟩,
      ⟨head, _, front.map (·.segmentId), back.map (·.segmentId), hhead, rfl, rfl, ?_, rfl⟩⟩
    rw [hids, h.childSegmentIds, List.map_append, List.map_append]

theorem RollupCandidate.Over.insert_rejected (hfits : c.fits snapshot = false)
    (envelope headEnvelope : String) :
    store.insertSummaryCheckpoint (c.checkpoint snapshot envelope headEnvelope) =
      .error .rejected := by
  cases hcolumns : c.provenance.fitsColumns with
  | false =>
    have hsubset : ∀ r ∈ mid, r ∈ store.segments.rows :=
      fun r hr => hfrontier.covers.subset r (by simp [hr])
    have hprov := h.provenance?_checkpoint (Serial.nodup_keys _ h.apart.nodup hsubset) snapshot
      envelope headEnvelope
    have hadmits := h.admits hfrontier hids hversion hwatermark envelope headEnvelope
    have hstorable : ¬ c.provenance.storable = true := by
      rw [Provenance.storable, hcolumns, Bool.and_false]
      exact Bool.false_ne_true
    unfold SummaryStore.insertSummaryCheckpoint
    rw [hprov]
    simp only [hhead, hadmits, SegmentTable.insertSegment, dif_neg hstorable]
    rfl
  | true =>
    obtain ⟨stored, parent, _, _, _, hinsert⟩ :=
      h.insert_eq hhead hfrontier hids hversion hwatermark hcolumns envelope headEnvelope
    have hlast : ¬ snapshot.headVersion < 2147483647 := by
      rw [RollupCandidate.fits, hcolumns] at hfits
      simpa using hfits
    rw [hinsert, SummaryStore.updateHead, if_pos (by simp only [SummaryHead.rolledUp]; omega)]
    rfl

end

end

end Stored

namespace SummaryWorld

/-- The candidate that a pass finds, with the snapshot and the store it is checked against. -/
def rollup? (u : UserId) (w : SummaryWorld) (fanout maxFrontierSegments maxFrontierChars : Int) :
    Option (SummaryFrontierSnapshot × SummaryStore × RollupCandidate) :=
  match readSummaryFrontierMetadata w.chat.rows u w.store with
  | (.ok (some snapshot), store) =>
    match chooseRollupCandidate snapshot.segments fanout maxFrontierSegments maxFrontierChars with
    | .ok (some c) => some (snapshot, store, c)
    | _ => none
  | _ => none

theorem rollup?_some {u : UserId} {w : SummaryWorld}
    {fanout maxFrontierSegments maxFrontierChars : Int} {snapshot : SummaryFrontierSnapshot}
    {store : SummaryStore} {c : RollupCandidate}
    (h : rollup? u w fanout maxFrontierSegments maxFrontierChars = some (snapshot, store, c)) :
    readSummaryFrontierMetadata w.chat.rows u w.store = (.ok (some snapshot), store) ∧
      chooseRollupCandidate snapshot.segments fanout maxFrontierSegments maxFrontierChars =
        .ok (some c) := by
  unfold rollup? at h
  split at h
  · next hread =>
    split at h
    · next hchosen =>
      cases h
      exact ⟨hread, hchosen⟩
    · cases h
  · cases h

/-- A message, its leaf, and a checkpoint over the leaf at the level given. -/
def leafBelow (level : Int) : List SummaryLabel :=
  [.append "u" "m1" 1 ⟨.user, "", "", "", "", "", "", "", "", ""⟩, .read,
    .leaf ⟨"leaf", "", 1, 1, 1, 1, 0, 0⟩, .read, .checkpoint ⟨"parent", "head", level, 1, 1, 1, [1],
      1, 1, "exact", 0⟩]

/-- In every run, the checkpoint of a candidate chosen from the snapshot is stored: it is appended
to the segments, the watermark stays, and its number takes the place of its children's run in what
the head names. A checkpoint that does not fit the columns is rejected instead. -/
theorem rollup_is_stored_or_too_large (u : UserId) (w : SummaryWorld) (hstart : w.Start)
    (ls : List SummaryLabel) (hl : Runs.Along (SummaryWorld.step u) Presents w ls)
    (fanout maxFrontierSegments maxFrontierChars : Int)
    (envelope headEnvelope : String) (snapshot : SummaryFrontierSnapshot) (store : SummaryStore)
    (hread : readSummaryFrontierMetadata (Runs.run (SummaryWorld.step u) w ls).chat.rows u
      (Runs.run (SummaryWorld.step u) w ls).store = (.ok (some snapshot), store))
    (c : RollupCandidate)
    (hchosen : chooseRollupCandidate snapshot.segments fanout maxFrontierSegments maxFrontierChars =
      .ok (some c)) :
    (c.fits snapshot = true → ∃ store',
      store.insertSummaryCheckpoint (c.checkpoint snapshot envelope headEnvelope) = .ok (true,
        store') ∧
      RolledUp c store store') ∧
    (c.fits snapshot = false →
      store.insertSummaryCheckpoint (c.checkpoint snapshot envelope headEnvelope) =
        .error .rejected) := by
  obtain ⟨_, head, cover, hhead, hfrontier, hids, hrows, hversion, hwatermark⟩ :=
    (hstart.run hl).snapshot hread
  obtain ⟨⟨front, back, hsplit⟩, hlevel⟩ := chooseRollupCandidate_some hchosen
  rw [hsplit, List.map_append, List.map_append] at hrows
  obtain ⟨coverFront, coverBack, rfl, hfront, hback⟩ := List.map_eq_append_iff.mp hrows.symm
  obtain ⟨coverHead, mid, rfl, hheadRows, hmid⟩ := List.map_eq_append_iff.mp hfront
  have hapart : Apart SegmentRow.node mid :=
    hfrontier.covers.toApart.sublist
      ((List.sublist_append_right coverHead mid).trans (List.sublist_append_left _ coverBack))
  have hover : c.Over mid := ⟨hmid.symm, hapart, hlevel⟩
  exact ⟨fun hfits => hover.insert_ok hhead hfrontier hids hversion hwatermark hfits envelope
    headEnvelope, fun hfits => hover.insert_rejected hhead hfrontier hids hversion hwatermark hfits
      envelope headEnvelope⟩

theorem rollup_is_stored_or_too_large_leaf : ∃ snapshot store c store',
    rollup? "u" (Runs.run (SummaryWorld.step "u") fresh (leafBelow 1)) 2 1 1 = some (snapshot,
      store, c) ∧
    c.fits snapshot = true ∧
    store.insertSummaryCheckpoint (c.checkpoint snapshot "parent" "head") = .ok (true, store') ∧
      RolledUp c store store' := by
  have hl : Runs.Along (SummaryWorld.step "u") Presents fresh (leafBelow 1) := by decide +kernel
  have hfits : ((rollup? "u" (Runs.run (SummaryWorld.step "u") fresh (leafBelow 1)) 2 1 1).any
      fun r => r.2.2.fits r.1) = true := by decide +kernel
  cases hrollup : rollup? "u" (Runs.run (SummaryWorld.step "u") fresh (leafBelow 1)) 2 1 1 with
  | none =>
    rw [hrollup] at hfits
    cases hfits
  | some r =>
    obtain ⟨snapshot, store, c⟩ := r
    rw [hrollup, Option.any_some] at hfits
    obtain ⟨hread, hchosen⟩ := rollup?_some hrollup
    obtain ⟨store', hinsert, hrolled⟩ :=
      (rollup_is_stored_or_too_large "u" fresh start_fresh (leafBelow 1) hl 2 1 1
      "parent" "head" snapshot store hread c hchosen).1 hfits
    exact ⟨snapshot, store, c, store', rfl, hfits, hinsert, hrolled⟩

/-- A segment on the highest level that the column holds has no room for a parent, and the store
refuses the checkpoint. -/
theorem parent_of_top_level_is_rejected :
    ¬ ∀ (u : UserId) (w : SummaryWorld), w.Start → ∀ ls : List SummaryLabel,
      Runs.Along (SummaryWorld.step u) Presents w ls →
      ∀ fanout maxFrontierSegments maxFrontierChars : Int, 2 ≤ fanout → 1 ≤ maxFrontierSegments →
        1 ≤ maxFrontierChars →
      ∀ (envelope headEnvelope : String) (snapshot : SummaryFrontierSnapshot)
        (store : SummaryStore),
      readSummaryFrontierMetadata (Runs.run (SummaryWorld.step u) w ls).chat.rows u
        (Runs.run (SummaryWorld.step u) w ls).store = (.ok (some snapshot), store) →
      ∀ c : RollupCandidate,
      chooseRollupCandidate snapshot.segments fanout maxFrontierSegments maxFrontierChars = .ok
        (some c) →
      ∃ store', store.insertSummaryCheckpoint (c.checkpoint snapshot envelope headEnvelope) =
        .ok (true, store') := by
  intro hclaim
  have hl : Runs.Along (SummaryWorld.step "u") Presents fresh (leafBelow 32767) := by decide +kernel
  have hrefused :
      ((rollup? "u" (Runs.run (SummaryWorld.step "u") fresh (leafBelow 32767)) 2 1 1).any fun r =>
      match r.2.1.insertSummaryCheckpoint (r.2.2.checkpoint r.1 "parent" "head") with
      | .error _ => true
      | .ok _ => false) = true := by decide +kernel
  cases hrollup : rollup? "u" (Runs.run (SummaryWorld.step "u") fresh (leafBelow 32767)) 2 1 1 with
  | none =>
    rw [hrollup] at hrefused
    cases hrefused
  | some r =>
    obtain ⟨snapshot, store, c⟩ := r
    obtain ⟨hread, hchosen⟩ := rollup?_some hrollup
    obtain ⟨store', hinsert⟩ :=
      hclaim "u" fresh start_fresh (leafBelow 32767) hl 2 1 1 (by decide) (by decide) (by decide)
      "parent" "head" snapshot store hread c hchosen
    rw [hrollup] at hrefused
    simp only [Option.any_some, hinsert] at hrefused
    cases hrefused

end SummaryWorld

end Feedling
