import Feedling.SummaryStore

/-!
# The canonical frontier as the worker sees it

The worker opens the canonical rows as segments with a text, proves from counts and ranges that
they reach the watermark without a gap, and chooses the run of segments that the next checkpoint
replaces. All of this is pure; every refusal has a detail text.
-/

namespace Feedling

open KeyedTable

/-- `SummaryFrontierIntegrityError`, `SummaryFrontierExhausted`, `ValueError`, and what a writer
raises. -/
inductive FrontierError where
  | integrity (detail : String)
  | exhausted (detail : String)
  | valueError (detail : String)
  | store (e : SummaryError)
  deriving DecidableEq, Repr

/-! ## Segments -/

namespace Provenance

def isLegacy (p : Provenance) : Bool := p.coverageKind == .legacyOpaque

def coverageDefect? (p : Provenance) : Option String :=
  match p.coverageKind with
  | .exact =>
    if p.startSeq ≤ 0 ∨ p.endSeq < p.startSeq then some "invalid_exact_seq_range"
    else if p.sourceMessageCount ≤ 0 ∨
      p.legacyOpaqueThroughSeq ≠ 0 then some "invalid_exact_source_witness"
    else none
  | .legacyOpaque =>
    if p.startSeq ≠ 0 ∨ p.legacyOpaqueThroughSeq < 0 ∨ p.endSeq < p.legacyOpaqueThroughSeq ∨
      p.sourceMessageCount < 0 then
      some "invalid_legacy_coverage"
    else none

/-- The checks of `SummarySegment.__post_init__`, in their order. -/
def defect? (segmentId : Nat) (p : Provenance) (text : String) : Option String :=
  if segmentId = 0 then some "invalid_segment_id"
  else if p.level < 0 then some "invalid_level"
  else p.coverageDefect?.or <|
    if strip text = "" then some "empty_segment_text"
    else if ¬ p.childSegmentIds.Nodup then some "duplicate_child_segment"
    else if p.level = 0 ∧ p.childSegmentIds ≠ [] then some "leaf_has_children"
    else if 0 < p.level ∧ p.childSegmentIds = [] then some "checkpoint_has_no_children"
    else none

end Provenance

/-- A segment with its text. -/
structure SummarySegment where
  segmentId : Nat
  provenance : Provenance
  text : String
  sound : provenance.defect? segmentId text = none
  deriving DecidableEq, Repr

def SummarySegment.make (segmentId : Nat) (p : Provenance) (text : String) :
    Except FrontierError SummarySegment :=
  if h : p.defect? segmentId text = none then .ok ⟨segmentId, p, text, h⟩
  else .error (.integrity ((p.defect? segmentId text).getD ""))

/-- The segment before its text is known. -/
def SummarySegment.row (s : SummarySegment) : Nat × Provenance := (s.segmentId, s.provenance)

def SegmentRow.row (r : SegmentRow) : Nat × Provenance := (r.segmentId, r.provenance)

/-! ## Validation -/

/-- The loop over the cover: no number twice, no overlap with the previous segment. -/
def orderDefect? (seen : List Nat) (previous : Option SummarySegment) :
    List SummarySegment → Option String
  | [] => none
  | item :: rest =>
    if item.segmentId ∈ seen then some "duplicate_canonical_segment"
    else if previous.any fun p => !item.provenance.isLegacy &&
      decide (item.provenance.startSeq ≤ p.provenance.endSeq) then
      some "overlapping_canonical_segments"
    else orderDefect? (item.segmentId :: seen) (some item) rest

/-- An opaque segment only stands first, and the source witness starts behind it. -/
def startDefect? (head : SummarySegment) (ordered : List SummarySegment) (first count : Int) :
    Option String :=
  let legacy := ordered.filter fun s => s.provenance.isLegacy
  if 1 < legacy.length ∨ (legacy ≠ [] ∧ head.provenance.isLegacy = false) then
    some "invalid_legacy_frontier_position"
  else
    match legacy.head? with
    | some o =>
      if o.provenance.startSeq ≠ 0 then some "legacy_frontier_start_mismatch"
      else if count < 0 ∨ (count = 0 ∧ first ≠ 0) ∨
        (0 < count ∧ first ≤ o.provenance.legacyOpaqueThroughSeq) then
        some "invalid_post_legacy_source_witness"
      else none
    | none =>
      if first ≤ 0 ∨ count ≤ 0 then some "missing_source_witness"
      else if head.provenance.startSeq ≠ first then some "frontier_start_mismatch"
      else none

def frontierDefect? (ordered : List SummarySegment) (watermark first count : Int) : Option String :=
  match ordered with
  | [] => some "missing_canonical_frontier"
  | head :: _ =>
    (startDefect? head ordered first count).or <|
      if ordered.getLast?.map (·.provenance.endSeq) ≠ some watermark then
      some "frontier_end_mismatch"
      else (orderDefect? [] none ordered).or <|
        if (ordered.map (·.provenance.sourceMessageCount)).sum ≠ count then
        some "source_count_mismatch" else none

/-- The only cover of an empty range is one empty opaque segment. -/
def zeroWatermarkDefect? (ordered : List SummarySegment) (first count : Int) : Option String :=
  match ordered with
  | [] => if first ≠ 0 ∨ count ≠ 0 then some "zero_watermark_has_source" else none
  | head :: rest =>
    if rest = [] ∧ head.provenance.isLegacy ∧ head.provenance.startSeq = 0 ∧
      head.provenance.endSeq = 0 ∧
        head.provenance.legacyOpaqueThroughSeq = 0 ∧ head.provenance.sourceMessageCount = 0 ∧
          first = 0 ∧ count = 0 then none
    else some "invalid_zero_watermark_legacy"

/-- `validate_canonical_frontier`. -/
def validateCanonicalFrontier (frontier : List SummarySegment)
    (watermarkSeq firstSourceSeq coveredSourceCount : Int) :
    Except FrontierError (List SummarySegment) :=
  let defect :=
    if watermarkSeq = 0 then zeroWatermarkDefect? frontier firstSourceSeq coveredSourceCount
    else frontierDefect? frontier watermarkSeq firstSourceSeq coveredSourceCount
  match defect with
  | some detail => .error (.integrity detail)
  | none => .ok frontier

/-- `_summary_metadata_frontier`: the cover under a placeholder text, checked against the head. -/
def summaryMetadataFrontier (state : FrontierState) : Except FrontierError (List SummarySegment) :=
  match state.segments.mapM fun r =>
    SummarySegment.make r.segmentId r.provenance "<encrypted-summary-segment>" with
  | .error e => .error e
  | .ok opened =>
    match validateCanonicalFrontier opened state.watermarkSeq state.firstSourceSeq
      state.coveredSourceCount with
    | .error e => .error e
    | .ok validated =>
      if validated.map (·.segmentId) ≠ state.materializedSegmentIds then
        .error (.integrity "materialized_head_provenance_mismatch")
      else .ok validated

/-! ## The snapshot of a roll-up -/

/-- `deterministic_fold`. -/
def deterministicFold (sourceMessageCount : Int) (includesLegacyOpaque : Bool) :
    Except FrontierError String :=
  if sourceMessageCount < 0 ∨ (sourceMessageCount = 0 ∧ includesLegacyOpaque = false) then
    .error (.valueError "source_message_count must prove coverage")
  else if includesLegacyOpaque && sourceMessageCount == 0 then .ok "- [更早的历史摘要已由长期记忆覆盖]"
  else if includesLegacyOpaque then .ok ("- [更早的历史摘要及 " ++ toString sourceMessageCount ++
      " 条消息已由长期记忆覆盖]")
  else .ok ("- [" ++ toString sourceMessageCount ++ " 条更早的消息已由长期记忆覆盖]")

/-- A cover with the version of the head that named it. -/
structure SummaryFrontierSnapshot where
  segments : List SummarySegment
  headVersion : Int
  watermarkSeq : Int
  pinned : 0 < headVersion ∧ 0 ≤ watermarkSeq
  reaches : segments.getLast?.map (·.provenance.endSeq) = some watermarkSeq

def SummaryFrontierSnapshot.make (segments : List SummarySegment) (headVersion watermarkSeq : Int) :
    Except FrontierError SummaryFrontierSnapshot :=
  if hpinned : 0 < headVersion ∧ 0 ≤ watermarkSeq then
    if hreaches : segments.getLast?.map (·.provenance.endSeq) = some watermarkSeq then
      .ok ⟨segments, headVersion, watermarkSeq, hpinned, hreaches⟩
    else .error (.integrity "snapshot_watermark_mismatch")
  else .error (.integrity "invalid_frontier_snapshot")

/-- The segment with its deterministic text. -/
def SummarySegment.folded (s : SummarySegment) : Except FrontierError SummarySegment :=
  match deterministicFold s.provenance.sourceMessageCount s.provenance.isLegacy with
  | .error e => .error e
  | .ok text => SummarySegment.make s.segmentId s.provenance text

/-- The snapshot of a state that has segments. -/
def FrontierState.snapshot (state : FrontierState) : Except FrontierError SummaryFrontierSnapshot :=
  match summaryMetadataFrontier state with
  | .error e => .error e
  | .ok metadata =>
    match metadata.mapM SummarySegment.folded with
    | .error e => .error e
    | .ok deterministic =>
      SummaryFrontierSnapshot.make deterministic state.version state.watermarkSeq

/-- The state a roll-up starts from: an old summary is first seeded as a segment. -/
def seededState (chat : List ChatRow) (u : UserId) (s : SummaryStore) :
    Except FrontierError (Option FrontierState) × SummaryStore :=
  match getSummaryFrontierState chat u s with
  | none => (.ok none, s)
  | some state =>
    if state.segments.isEmpty && state.summaryEnvelope != "" then
      match s.seedLegacySummarySegment ⟨state.version, state.watermarkSeq⟩ with
      | .error e => (.error (.store e), s)
      | .ok (false, s') => (.error (.integrity "legacy_summary_seed_race"), s')
      | .ok (true, s') => (.ok (getSummaryFrontierState chat u s'), s')
    else (.ok (some state), s)

/-- `_read_summary_frontier_metadata`, with the store it leaves behind. -/
def readSummaryFrontierMetadata (chat : List ChatRow) (u : UserId) (s : SummaryStore) :
    Except FrontierError (Option SummaryFrontierSnapshot) × SummaryStore :=
  match seededState chat u s with
  | (.error e, s') => (.error e, s')
  | (.ok none, s') => (.ok none, s')
  | (.ok (some state), s') =>
    if state.segments.isEmpty then (.ok none, s') else (state.snapshot.map some, s')

/-! ## The choice of a roll-up -/

/-- Some segments of the frontier that may become one parent. -/
structure RollupCandidate where
  children : List SummarySegment
  nonempty : children ≠ []
  parentLevel : Int
  reason : String

namespace RollupCandidate

def childSegmentIds (c : RollupCandidate) : List Nat := c.children.map (·.segmentId)

def startSeq (c : RollupCandidate) : Int := (c.children.head c.nonempty).provenance.startSeq

def endSeq (c : RollupCandidate) : Int := (c.children.getLast c.nonempty).provenance.endSeq

def sourceMessageCount (c : RollupCandidate) : Int :=
  (c.children.map (·.provenance.sourceMessageCount)).sum

def coverageKind (c : RollupCandidate) : String :=
  if c.children.any fun s => s.provenance.isLegacy then "legacy_opaque" else "exact"

def legacyOpaqueThroughSeq (c : RollupCandidate) : Int :=
  (c.children.map (·.provenance.legacyOpaqueThroughSeq)).max?.getD 0

/-- The call of `insert_summary_checkpoint` for the candidate. -/
def checkpoint (c : RollupCandidate) (snapshot : SummaryFrontierSnapshot)
    (envelope headEnvelope : String) : SummaryCheckpoint where
  summaryEnvelope := envelope
  headSummaryEnvelope := headEnvelope
  level := c.parentLevel
  startSeq := c.startSeq
  endSeq := c.endSeq
  sourceMessageCount := c.sourceMessageCount
  childSegmentIds := c.childSegmentIds
  expectedVersion := snapshot.headVersion
  expectedWatermarkSeq := snapshot.watermarkSeq
  coverageKind := c.coverageKind
  legacyOpaqueThroughSeq := c.legacyOpaqueThroughSeq

end RollupCandidate

/-- `_candidate`. -/
def rollupCandidate (children : List SummarySegment) (reason : String) :
    Except FrontierError (Option RollupCandidate) :=
  if h : children = [] then .error (.exhausted "empty_rollup_candidate")
  else .ok (some ⟨children, h, (children.map (·.provenance.level)).max?.getD 0 + 1, reason⟩)

/-- `len(text) + 2`. -/
def SummarySegment.chars (s : SummarySegment) : Int := s.text.length + 2

/-- The oldest run of `fanout` segments of one level; `run` is the run that is being read. -/
def closedRun (fanout : Nat) (run : List SummarySegment) :
    List SummarySegment → Option (List SummarySegment)
  | [] => if fanout ≤ run.length then some (run.take fanout) else none
  | item :: rest =>
    if run.getLast?.all fun last => last.provenance.level == item.provenance.level then
      closedRun fanout (run ++ [item]) rest
    else if fanout ≤ run.length then some (run.take fanout)
    else closedRun fanout [item] rest

/-- `choose_rollup_candidate`. -/
def chooseRollupCandidate (frontier : List SummarySegment)
    (fanout maxFrontierSegments maxFrontierChars : Int) :
    Except FrontierError (Option RollupCandidate) :=
  if frontier = [] then .ok none
  else if fanout < 2 ∨ maxFrontierSegments < 1 ∨ maxFrontierChars < 1 then
    .error (.valueError "summary frontier limits must be positive")
  else
    match frontier.find? fun s => decide (maxFrontierChars < s.chars) with
    | some item => rollupCandidate [item] "oversized_legacy_segment"
    | none =>
      match closedRun fanout.toNat [] frontier with
      | some selected => rollupCandidate selected "fanout"
      | none =>
        if (frontier.length : Int) ≤ maxFrontierSegments ∧
          (frontier.map (·.chars)).sum ≤ maxFrontierChars then .ok none
        else
          let selected := frontier.take fanout.toNat
          if selected.length < 2 then .error (.exhausted "no_reducing_rollup_candidate")
          else rollupCandidate selected "frontier_bound"

end Feedling
