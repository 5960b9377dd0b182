import Feedling.NestedCover
import Feedling.Store
import Mathlib.Algebra.Ring.Int.Defs

/-!
# The segmented conversation summary of a user

The summary is a head row and a table of immutable segments. A leaf covers one batch of chat
messages, a checkpoint covers a run of segments, and a summary from before segmentation is one
opaque segment from `0` on. The head names the segments of the canonical cover and carries the
version that every writer compares.

The three writers are transactions on the head and the segments of one user. A writer that raises
leaves both alone. An envelope is opaque text, empty for `{}` and `NULL`.
-/

namespace Feedling

open KeyedTable

inductive CoverageKind where
  | exact | legacyOpaque
  deriving DecidableEq, Repr

def CoverageKind.ofName? : String → Option CoverageKind
  | "exact" => some .exact
  | "legacy_opaque" => some .legacyOpaque
  | _ => none

/-- What a segment covers: its columns without the number and the envelope. -/
structure Provenance where
  coverageKind : CoverageKind
  level : Int
  startSeq : Int
  endSeq : Int
  sourceMessageCount : Int
  legacyOpaqueThroughSeq : Int
  childSegmentIds : List Nat
  deriving DecidableEq, Repr

namespace Provenance

/-- `ck_v2_summary_segment_coverage`. -/
def coverageChecked (p : Provenance) : Bool :=
  match p.coverageKind with
  | .exact =>
    decide (0 < p.startSeq ∧ p.startSeq ≤ p.endSeq ∧ 0 < p.sourceMessageCount ∧
        p.legacyOpaqueThroughSeq = 0)
  | .legacyOpaque =>
    decide (p.startSeq = 0 ∧ p.legacyOpaqueThroughSeq ≤ p.endSeq ∧ 0 ≤ p.legacyOpaqueThroughSeq ∧
      0 ≤ p.sourceMessageCount)

/-- `ck_v2_summary_segment_level` and `ck_v2_summary_segment_children`. -/
def levelChecked (p : Provenance) : Bool :=
  decide (p.level = 0 ∧ p.childSegmentIds = [] ∨ 0 < p.level ∧ p.childSegmentIds ≠ [])

/-- The level is a `SMALLINT` and the count an `INT`. -/
def fitsColumns (p : Provenance) : Bool :=
  decide (p.level ≤ 32767 ∧ p.sourceMessageCount ≤ 2147483647)

/-- The segment table takes the row. -/
def storable (p : Provenance) : Bool := p.coverageChecked && p.levelChecked && p.fitsColumns

/-- `uq_v2_summary_segment_cover`. -/
def range (p : Provenance) : Int × Int × Int := (p.level, p.startSeq, p.endSeq)

def node (p : Provenance) : NestedCover.Node := ⟨p.level, p.startSeq, p.endSeq⟩

/-- The opaque segment that stands for a summary from before segmentation. -/
def legacy (through : Int) : Provenance := ⟨.legacyOpaque, 0, 0, through, 0, through, []⟩

end Provenance

/-- A row of `v2_conversation_summary_segments`. -/
structure SegmentRow where
  segmentId : Nat
  provenance : Provenance
  summaryEnvelope : String
  storable : provenance.storable = true
  deriving DecidableEq, Repr

@[reducible] def SegmentRow.range (r : SegmentRow) : Int × Int × Int := r.provenance.range

def SegmentRow.node (r : SegmentRow) : NestedCover.Node := r.provenance.node

abbrev SegmentTable := Indexed SegmentRow.segmentId SegmentRow.range

/-- A row of `v2_conversation_summary`. -/
structure SummaryHead where
  summaryEnvelope : String
  watermarkTs : Time
  version : Int
  watermarkSeq : Int
  materializedSegmentIds : List Nat
  deriving DecidableEq, Repr

structure SummaryStore where
  head : Option SummaryHead
  segments : SegmentTable

/-- What a writer raises; `rejected` is a constraint, a column range or a trigger of the tables. -/
inductive SummaryError where
  | valueError (detail : String)
  | runtimeError (detail : String)
  | rejected
  deriving DecidableEq, Repr

/-! ## The source rows -/

/-- `source IN ('verify_ping','resident_maintenance')`: rows that are deleted again. -/
def ChatRow.synthetic (m : ChatRow) : Bool :=
  m.doc.source == "verify_ping" || m.doc.source == "resident_maintenance"

/-- The rows of the user in `(low, high]` that a summary counts. -/
def sourceRows (chat : List ChatRow) (u : UserId) (low high : Int) : List ChatRow :=
  chat.filter fun m => m.userId == u && decide (low < m.seq ∧ (m.seq : Int) ≤ high) && !m.synthetic

/-- `COALESCE(MIN(seq),0)`. -/
def minSeq (rows : List ChatRow) : Int := ((rows.map (·.seq)).min?.getD 0 : Nat)

/-- `COALESCE(MAX(seq),0)`. -/
def maxSeq (rows : List ChatRow) : Int := ((rows.map (·.seq)).max?.getD 0 : Nat)

/-! ## The canonical cover -/

/-- The segments up to the watermark that no higher segment contains, in order. -/
def canonicalCover (rows : List SegmentRow) (watermark : Int) : List SegmentRow :=
  NestedCover.canonical SegmentRow.node
    (rows.filter fun r => decide (r.provenance.endSeq ≤ watermark))

def canonicalIds (rows : List SegmentRow) (watermark : Int) : List Nat :=
  (canonicalCover rows watermark).map (·.segmentId)

/-- `legacy_opaque_through_seq` of the opaque part of a cover. -/
def opaqueThrough (cover : List SegmentRow) : Int :=
  ((cover.filter fun r => r.provenance.coverageKind == .legacyOpaque).map
    (·.provenance.legacyOpaqueThroughSeq)).foldl max 0

/-- What `get_summary_frontier_state` returns. -/
structure FrontierState where
  summaryEnvelope : String
  watermarkTs : Time
  version : Int
  watermarkSeq : Int
  materializedSegmentIds : List Nat
  hasSegmentRows : Bool
  segments : List SegmentRow
  firstSourceSeq : Int
  coveredSourceCount : Int

namespace SummaryHead

/-- A head that only has a timestamp covers the rows before it. -/
def translatedWatermark (h : SummaryHead) (chat : List ChatRow) (u : UserId) : Int :=
  if h.watermarkSeq = 0 ∧ 0 < h.watermarkTs ∧ h.materializedSegmentIds = [] then
    maxSeq (chat.filter fun m => m.userId == u && decide (m.ts < h.watermarkTs))
  else h.watermarkSeq

end SummaryHead

/-- `get_summary_frontier_state`. -/
def getSummaryFrontierState (chat : List ChatRow) (u : UserId) (s : SummaryStore) :
    Option FrontierState :=
  s.head.map fun h =>
    let watermark := h.translatedWatermark chat u
    let cover := canonicalCover s.segments.rows watermark
    let source := if cover.isEmpty then [] else sourceRows chat u (opaqueThrough cover) watermark
    { summaryEnvelope := h.summaryEnvelope
      watermarkTs := h.watermarkTs
      version := h.version
      watermarkSeq := watermark
      materializedSegmentIds := h.materializedSegmentIds
      hasSegmentRows := !s.segments.rows.isEmpty
      segments := cover
      firstSourceSeq := minSeq source
      coveredSourceCount := source.length }

/-! ## Statements -/

namespace SegmentTable

/-- `INSERT ... ON CONFLICT DO NOTHING RETURNING segment_id`. -/
def insertSegment (t : SegmentTable) (p : Provenance) (envelope : String) :
    Except SummaryError (Option (SegmentTable × Nat)) :=
  if h : p.storable = true then
    if (t.find? p.range).isSome then .ok none
    else .ok (some (t.insert p.range (fun n => ⟨n, p, envelope, h⟩) (fun _ => rfl) fun _ => rfl,
        t.next))
  else .error .rejected

/-- The insert without a conflict clause. -/
def insertNew (t : SegmentTable) (p : Provenance) (envelope : String) :
    Except SummaryError (SegmentTable × Nat) :=
  match t.insertSegment p envelope with
  | .error e => .error e
  | .ok none => .error .rejected
  | .ok (some r) => .ok r

end SegmentTable

/-- An update of the head under its lock. The version is an `INT`, and
`v2_guard_segmented_summary_head` refuses a new version over the same segments. -/
def SummaryStore.updateHead (t : SegmentTable) (old new : SummaryHead) :
    Except SummaryError SummaryStore :=
  if 2147483647 < new.version then .error .rejected
  else if !t.rows.isEmpty && new.version != old.version &&
    new.materializedSegmentIds == old.materializedSegmentIds then
    .error .rejected
  else .ok ⟨some new, t⟩

/-! ## Leaves -/

/-- The arguments of `append_summary_leaf_cas`. -/
structure SummaryLeaf where
  summaryEnvelope : String
  headSummaryEnvelope : String
  startSeq : Int
  endSeq : Int
  sourceMessageCount : Int
  watermarkTs : Time
  expectedVersion : Int
  previousWatermarkSeq : Int
  deriving DecidableEq, Repr

namespace SummaryLeaf

/-- `head_summary_envelope or summary_envelope`. -/
def compatibilityEnvelope (a : SummaryLeaf) : String :=
  if a.headSummaryEnvelope = "" then a.summaryEnvelope else a.headSummaryEnvelope

def headMatches (a : SummaryLeaf) : Option SummaryHead → Bool
  | none => a.expectedVersion == 0 && a.previousWatermarkSeq == 0
  | some h =>
    h.version == a.expectedVersion &&
      (h.watermarkSeq == 0 || h.watermarkSeq == a.previousWatermarkSeq)

/-- The retained rows behind the old watermark are exactly the ones the leaf claims. -/
def witnessed (a : SummaryLeaf) (chat : List ChatRow) (u : UserId) : Bool :=
  let source := sourceRows chat u a.previousWatermarkSeq a.endSeq
  minSeq source == a.startSeq && maxSeq source == a.endSeq &&
    (source.length : Int) == a.sourceMessageCount

def provenance (a : SummaryLeaf) : Provenance :=
  ⟨.exact, 0, a.startSeq, a.endSeq, a.sourceMessageCount, 0, []⟩

/-- Where the opaque segment of an old summary ends. -/
def legacyEnd (a : SummaryLeaf) : Int :=
  if 0 < a.previousWatermarkSeq then a.previousWatermarkSeq else max 0 (a.startSeq - 1)

end SummaryLeaf

namespace SummaryStore

/-- The first segmented write copies an old summary into an opaque segment; without an envelope
to copy it returns `False`. -/
def withLegacy (s : SummaryStore) (a : SummaryLeaf) : Except SummaryError (Option SegmentTable) :=
  match s.head with
  | none => .ok (some s.segments)
  | some h =>
    if s.segments.rows.isEmpty then
      if h.summaryEnvelope = "" then .ok none
      else (SegmentTable.insertNew s.segments (.legacy a.legacyEnd) h.summaryEnvelope).map fun r =>
        some r.1
    else .ok (some s.segments)

/-- The leaf and the head that names it. -/
def writeLeaf (s : SummaryStore) (a : SummaryLeaf) (t : SegmentTable) :
    Except SummaryError (Bool × SummaryStore) :=
  match SegmentTable.insertNew t a.provenance a.summaryEnvelope with
  | .error e => .error e
  | .ok (stored, leafId) =>
    let ids := canonicalIds stored.rows a.endSeq
    if ids.getLast? ≠ some leafId then .error (.runtimeError "new summary leaf is not canonical")
    else
      match s.head with
      | none =>
        .ok (true, ⟨some ⟨a.compatibilityEnvelope, a.watermarkTs, 1, a.endSeq, ids⟩, stored⟩)
      | some h =>
        (updateHead stored h
          ⟨a.compatibilityEnvelope, a.watermarkTs, h.version + 1, a.endSeq, ids⟩).map (true, ·)

/-- `append_summary_leaf_cas`. -/
def appendSummaryLeafCas (chat : List ChatRow) (u : UserId) (s : SummaryStore) (a : SummaryLeaf) :
    Except SummaryError (Bool × SummaryStore) :=
  if a.startSeq ≤ 0 ∨ a.endSeq < a.startSeq ∨ a.sourceMessageCount ≤ 0 ∨ a.expectedVersion < 0 ∨
      a.previousWatermarkSeq < 0 then
    .error (.valueError "invalid summary leaf metadata")
  else if a.previousWatermarkSeq ≠ 0 ∧ a.startSeq ≤ a.previousWatermarkSeq then
    .error (.valueError "summary leaf does not advance the watermark")
  else if !(a.headMatches s.head && a.witnessed chat u) then .ok (false, s)
  else
    match s.withLegacy a with
    | .error e => .error e
    | .ok none => .ok (false, s)
    | .ok (some t) => s.writeLeaf a t

end SummaryStore

/-! ## Seeding an old summary -/

/-- The arguments of `seed_legacy_summary_segment`. -/
structure LegacySeed where
  expectedVersion : Int
  translatedWatermarkSeq : Int
  deriving DecidableEq, Repr

/-- `seed_legacy_summary_segment`. -/
def SummaryStore.seedLegacySummarySegment (s : SummaryStore) (a : LegacySeed) :
    Except SummaryError (Bool × SummaryStore) :=
  if a.expectedVersion ≤ 0 ∨ a.translatedWatermarkSeq < 0 then
    .error (.valueError "invalid legacy summary seed metadata")
  else
    match s.head with
    | none => .ok (false, s)
    | some h =>
      if !s.segments.rows.isEmpty then
        .ok (!h.materializedSegmentIds.isEmpty && decide (a.expectedVersion < h.version), s)
      else if h.version ≠ a.expectedVersion ∨ h.materializedSegmentIds ≠ [] ∨
        h.summaryEnvelope = "" then .ok (false, s)
      else if h.watermarkSeq ≠ 0 ∧ h.watermarkSeq ≠ a.translatedWatermarkSeq then .ok (false, s)
      else
        let opaqueEnd := max h.watermarkSeq a.translatedWatermarkSeq
        match SegmentTable.insertNew s.segments (.legacy opaqueEnd) h.summaryEnvelope with
        | .error e => .error e
        | .ok (stored, segmentId) =>
          (updateHead stored h { h with watermarkSeq := opaqueEnd,
                                        materializedSegmentIds := [segmentId]
                                        version := h.version + 1 }).map (true, ·)

/-! ## Checkpoints -/

/-- The arguments of `insert_summary_checkpoint`. -/
structure SummaryCheckpoint where
  summaryEnvelope : String
  headSummaryEnvelope : String
  level : Int
  startSeq : Int
  endSeq : Int
  sourceMessageCount : Int
  childSegmentIds : List Nat
  expectedVersion : Int
  expectedWatermarkSeq : Int
  coverageKind : String
  legacyOpaqueThroughSeq : Int
  deriving DecidableEq, Repr

namespace SummaryCheckpoint

/-- The parent row, unless the arguments raise `ValueError`. -/
def provenance? (a : SummaryCheckpoint) : Option Provenance :=
  match CoverageKind.ofName? a.coverageKind with
  | none => none
  | some kind =>
    if a.level ≤ 0 ∨ (kind = .exact ∧ a.startSeq ≤ 0) ∨ (kind = .legacyOpaque ∧ a.startSeq ≠ 0) ∨
      a.endSeq < a.startSeq ∨
        a.sourceMessageCount < 0 ∨ a.childSegmentIds = [] ∨ ¬ a.childSegmentIds.Nodup ∨
        (kind = .exact ∧ (a.sourceMessageCount ≤ 0 ∨ a.legacyOpaqueThroughSeq ≠ 0)) ∨
        (kind = .legacyOpaque ∧
            (a.legacyOpaqueThroughSeq < 0 ∨ a.endSeq < a.legacyOpaqueThroughSeq)) ∨
        a.expectedVersion ≤ 0 ∨ a.expectedWatermarkSeq < 0 then none
    else some ⟨kind, a.level, a.startSeq, a.endSeq, a.sourceMessageCount, a.legacyOpaqueThroughSeq,
      a.childSegmentIds⟩

def children (a : SummaryCheckpoint) (rows : List SegmentRow) : List SegmentRow :=
  NestedCover.sort SegmentRow.node (rows.filter fun r => decide (r.segmentId ∈ a.childSegmentIds))

end SummaryCheckpoint

namespace Provenance

/-- The parent's columns are the ones its children give. -/
def summarises (p : Provenance) (children : List SegmentRow) : Bool :=
  children.head?.map (·.provenance.startSeq) == some p.startSeq &&
  children.getLast?.map (·.provenance.endSeq) == some p.endSeq &&
  (children.map (·.provenance.sourceMessageCount)).sum == p.sourceMessageCount &&
  (children.all fun r => decide (r.provenance.level < p.level)) &&
  (match p.coverageKind with
    | .legacyOpaque =>
      (children.map (·.provenance.legacyOpaqueThroughSeq)).max? == some p.legacyOpaqueThroughSeq
    | .exact => children.all fun r => r.provenance.coverageKind == .exact) &&
  (children.zip children.tail).all fun e => decide (e.1.provenance.endSeq < e.2.provenance.startSeq)

end Provenance

namespace SummaryStore

/-- The checks of a checkpoint against the locked head and the segments. -/
def admitsCheckpoint (s : SummaryStore) (h : SummaryHead) (a : SummaryCheckpoint) (p : Provenance) :
    Bool :=
  let children := a.children s.segments.rows
  h.watermarkSeq == a.expectedWatermarkSeq && h.version == a.expectedVersion &&
  decide (a.endSeq ≤ a.expectedWatermarkSeq) &&
  canonicalIds s.segments.rows a.expectedWatermarkSeq == h.materializedSegmentIds &&
  children.map (·.segmentId) == a.childSegmentIds &&
  p.summarises children &&
  ((canonicalCover s.segments.rows h.watermarkSeq).filter fun r =>
      r.node.within a.startSeq a.endSeq).map (·.segmentId) ==
    a.childSegmentIds

/-- `insert_summary_checkpoint`. -/
def insertSummaryCheckpoint (s : SummaryStore) (a : SummaryCheckpoint) :
    Except SummaryError (Bool × SummaryStore) :=
  match a.provenance? with
  | none => .error (.valueError "invalid summary checkpoint metadata")
  | some p =>
    match s.head with
    | none => .ok (false, s)
    | some h =>
      if !s.admitsCheckpoint h a p then .ok (false, s)
      else
        match SegmentTable.insertSegment s.segments p a.summaryEnvelope with
        | .error e => .error e
        | .ok none => .ok (false, s)
        | .ok (some (stored, parentId)) =>
          let ids := canonicalIds stored.rows a.expectedWatermarkSeq
          if parentId ∉ ids then .error (.runtimeError "new summary checkpoint is not canonical")
          else
            (updateHead stored h { h with summaryEnvelope := a.headSummaryEnvelope,
                                          materializedSegmentIds := ids
                                          version := h.version + 1 }).map (true, ·)

end SummaryStore

end Feedling
