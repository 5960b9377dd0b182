import Feedling.SummaryFrontier

/-!
# Covers that reach their watermark

`Frontier` says what a cover of stored segments has to do with the chat log: it ends at the
watermark, its counts add up to the rows behind the opaque part, and it starts at the first of
them. A leaf behind the watermark and a checkpoint over a run keep it, and it is all that
`validate_canonical_frontier` asks for.
-/

namespace Feedling

open KeyedTable NestedCover

/-! ## Stored segments -/

namespace SegmentRow

variable {r : SegmentRow}

theorem coverage (r : SegmentRow) :
    (r.provenance.coverageKind = .exact ∧ 0 < r.provenance.startSeq ∧
      r.provenance.startSeq ≤ r.provenance.endSeq ∧
      0 < r.provenance.sourceMessageCount ∧ r.provenance.legacyOpaqueThroughSeq = 0) ∨
    (r.provenance.coverageKind = .legacyOpaque ∧ r.provenance.startSeq = 0 ∧
      r.provenance.legacyOpaqueThroughSeq ≤ r.provenance.endSeq ∧
        0 ≤ r.provenance.legacyOpaqueThroughSeq ∧
      0 ≤ r.provenance.sourceMessageCount) := by
  have h := r.storable
  simp only [Provenance.storable, Provenance.coverageChecked, Bool.and_eq_true] at h
  cases hkind : r.provenance.coverageKind with
  | exact =>
    rw [hkind] at h
    exact .inl ⟨rfl, of_decide_eq_true h.1.1⟩
  | legacyOpaque =>
    rw [hkind] at h
    exact .inr ⟨rfl, of_decide_eq_true h.1.1⟩

theorem levels (r : SegmentRow) :
    r.provenance.level = 0 ∧ r.provenance.childSegmentIds = [] ∨
      0 < r.provenance.level ∧ r.provenance.childSegmentIds ≠ [] := by
  have h := r.storable
  simp only [Provenance.storable, Provenance.levelChecked, Bool.and_eq_true, decide_eq_true_eq] at h
  exact h.1.2

theorem start_le_end (r : SegmentRow) : r.provenance.startSeq ≤ r.provenance.endSeq := by
  have h := r.coverage
  omega

theorem start_nonneg (r : SegmentRow) : 0 ≤ r.provenance.startSeq := by
  have h := r.coverage
  omega

theorem opaque_le_end (r : SegmentRow) :
    0 ≤ r.provenance.legacyOpaqueThroughSeq ∧
      r.provenance.legacyOpaqueThroughSeq ≤ r.provenance.endSeq := by
  have h := r.coverage
  omega

theorem count_nonneg (r : SegmentRow) : 0 ≤ r.provenance.sourceMessageCount := by
  have h := r.coverage
  omega

theorem kind_exact_iff : r.provenance.coverageKind = .exact ↔ 0 < r.provenance.startSeq := by
  have h := r.coverage
  constructor
  · intro hkind
    rw [hkind] at h
    simp at h
    omega
  · intro hpos
    obtain h | h := h
    · exact h.1
    · omega

end SegmentRow

/-! ## Covers of stored segments -/

variable {cover rest front mid back rows : List SegmentRow} {c r : SegmentRow}

/-- Only the first segment of a cover can be opaque. -/
theorem exact_of_tail (h : Apart SegmentRow.node (c :: rest)) (hr : r ∈ rest) :
    r.provenance.coverageKind = .exact := by
  have hlt : c.provenance.endSeq < r.provenance.startSeq := (List.pairwise_cons.mp h.apart).1 r hr
  have hstart := c.start_nonneg
  have hle := c.start_le_end
  exact SegmentRow.kind_exact_iff.mpr (by omega)

theorem filter_legacy_tail (h : Apart SegmentRow.node (c :: rest)) :
    rest.filter (fun r => r.provenance.coverageKind == .legacyOpaque) = [] := by
  rw [List.filter_eq_nil_iff]
  intro r hr
  rw [exact_of_tail h hr]
  decide

@[simp] theorem opaqueThrough_nil : opaqueThrough [] = 0 := rfl

theorem opaqueThrough_cons (h : Apart SegmentRow.node (c :: rest)) :
    opaqueThrough (c :: rest) = c.provenance.legacyOpaqueThroughSeq := by
  unfold opaqueThrough
  have hcov := c.coverage
  cases hkind : c.provenance.coverageKind with
  | exact =>
    rw [List.filter_cons_of_neg (by rw [hkind]; decide), filter_legacy_tail h]
    rw [hkind] at hcov
    simp at hcov
    simp [hcov.2.2.2]
  | legacyOpaque =>
    rw [List.filter_cons_of_pos (by rw [hkind]; rfl), filter_legacy_tail h]
    have hnonneg := c.opaque_le_end.1
    simp only [List.map_cons, List.map_nil, List.foldl_cons, List.foldl_nil]
    omega

/-- The end of a cover, `0` without a segment. -/
def coverEnd (cover : List SegmentRow) : Int := (cover.getLast?.map (·.provenance.endSeq)).getD 0

@[simp] theorem coverEnd_append_singleton (cover : List SegmentRow) (r : SegmentRow) :
    coverEnd (cover ++ [r]) = r.provenance.endSeq := by
  simp [coverEnd]

theorem coverEnd_append (cover : List SegmentRow) {tail : List SegmentRow} (h : tail ≠ []) :
    coverEnd (cover ++ tail) = coverEnd tail := by
  unfold coverEnd
  rw [List.getLast?_append_of_ne_nil _ h]

theorem end_le_coverEnd (h : Apart SegmentRow.node cover) (hc : c ∈ cover) :
    c.provenance.endSeq ≤ coverEnd cover := by
  obtain ⟨last, hlast⟩ : ∃ last, cover.getLast? = some last := by
    cases hnone : cover.getLast? with
    | none => rw [List.getLast?_eq_none_iff.mp hnone] at hc; cases hc
    | some last => exact ⟨last, rfl⟩
  obtain ⟨init, rfl⟩ := List.getLast?_eq_some_iff.mp hlast
  rw [coverEnd_append_singleton]
  obtain hc | hc := List.mem_append.mp hc
  · have hlt : c.provenance.endSeq < last.provenance.startSeq :=
      (List.pairwise_append.mp h.apart).2.2 c hc last (by simp)
    have hle := last.start_le_end
    omega
  · rw [List.mem_singleton.mp hc]

theorem opaqueThrough_le_coverEnd (h : Apart SegmentRow.node cover) :
    0 ≤ opaqueThrough cover ∧ opaqueThrough cover ≤ coverEnd cover := by
  cases cover with
  | nil => simp [coverEnd]
  | cons c rest =>
    rw [opaqueThrough_cons h]
    have hend := end_le_coverEnd h (c := c) (by simp)
    have hopaqueSeq := c.opaque_le_end
    omega

/-! ## Source rows -/

variable {chat chat' : List ChatRow} {u : UserId} {low middle high n : Int}

theorem mem_sourceRows {m : ChatRow} :
    m ∈ sourceRows chat u low high ↔ m ∈ chat ∧ m.userId = u ∧ low < m.seq ∧ (m.seq : Int) ≤ high ∧
      m.synthetic = false := by
  simp [sourceRows, and_assoc]

theorem sourceRows_eq_nil (h : high ≤ low) : sourceRows chat u low high = [] := by
  rw [sourceRows, List.filter_eq_nil_iff]
  intro m _
  simp only [Bool.and_eq_true, decide_eq_true_eq]
  omega

theorem length_sourceRows_add (hlow : low ≤ middle) (hhigh : middle ≤ high) :
    (sourceRows chat u low middle).length + (sourceRows chat u middle high).length =
      (sourceRows chat u low high).length := by
  induction chat with
  | nil => rfl
  | cons m chat ih =>
    simp only [sourceRows, List.filter_cons] at ih ⊢
    by_cases hu : (m.userId == u) = true
    · by_cases hs : m.synthetic = true
      · simp only [hs, Bool.not_true, Bool.and_false, Bool.false_eq_true, ↓reduceIte]
        exact ih
      · simp only [hu, hs, Bool.not_false, Bool.and_true, Bool.true_and, decide_eq_true_eq]
        split <;> split <;> split <;> (try simp only [List.length_cons]) <;> omega
    · simp only [hu, Bool.false_and, Bool.false_eq_true, ↓reduceIte]
      exact ih

theorem minSeq_eq (hn : 0 < n) :
    minSeq chat = n ↔ (∃ m ∈ chat, (m.seq : Int) = n) ∧ ∀ m ∈ chat, n ≤ m.seq := by
  unfold minSeq
  cases hmin : (chat.map (·.seq)).min? with
  | none =>
    have hnil : chat = [] := List.map_eq_nil_iff.mp (List.min?_eq_none_iff.mp hmin)
    subst hnil
    simp
    omega
  | some k =>
    rw [List.min?_eq_some_iff] at hmin
    obtain ⟨hmem, hle⟩ := hmin
    simp only [List.mem_map, forall_exists_index, and_imp, forall_apply_eq_imp_iff₂] at hmem hle
    obtain ⟨m, hm, rfl⟩ := hmem
    simp only [Option.getD_some]
    constructor
    · rintro rfl
      exact ⟨⟨m, hm, rfl⟩, fun x hx => by exact_mod_cast hle x hx⟩
    · rintro ⟨⟨x, hx, rfl⟩, hall⟩
      have h1 := hall m hm
      have h2 := hle x hx
      omega

theorem maxSeq_eq (hn : 0 < n) :
    maxSeq chat = n ↔ (∃ m ∈ chat, (m.seq : Int) = n) ∧ ∀ m ∈ chat, (m.seq : Int) ≤ n := by
  unfold maxSeq
  cases hmax : (chat.map (·.seq)).max? with
  | none =>
    have hnil : chat = [] := List.map_eq_nil_iff.mp (List.max?_eq_none_iff.mp hmax)
    subst hnil
    simp
    omega
  | some k =>
    rw [List.max?_eq_some_iff] at hmax
    obtain ⟨hmem, hle⟩ := hmax
    simp only [List.mem_map, forall_exists_index, and_imp, forall_apply_eq_imp_iff₂] at hmem hle
    obtain ⟨m, hm, rfl⟩ := hmem
    simp only [Option.getD_some]
    constructor
    · rintro rfl
      exact ⟨⟨m, hm, rfl⟩, fun x hx => by exact_mod_cast hle x hx⟩
    · rintro ⟨⟨x, hx, rfl⟩, hall⟩
      have h1 := hall m hm
      have h2 := hle x hx
      omega

/-- Rows behind the first ones do not change where they start. -/
theorem minSeq_sourceRows_extend (hn : 0 < n) (hhigh : middle ≤ high)
    (h : minSeq (sourceRows chat u low middle) = n) : minSeq (sourceRows chat u low high) = n := by
  rw [minSeq_eq hn] at h ⊢
  obtain ⟨⟨m, hm, hseq⟩, hall⟩ := h
  have hm' := mem_sourceRows.mp hm
  refine ⟨⟨m, mem_sourceRows.mpr ⟨hm'.1, hm'.2.1, hm'.2.2.1, by omega, hm'.2.2.2.2⟩, hseq⟩, ?_⟩
  intro x hx
  obtain ⟨hx, hu, hlow, hxhigh, hs⟩ := mem_sourceRows.mp hx
  by_cases hmid : (x.seq : Int) ≤ middle
  · exact hall x (mem_sourceRows.mpr ⟨hx, hu, hlow, hmid, hs⟩)
  · omega

/-! ## The frontier -/

/-- The cover of the stored rows and what it says about the chat log, of which no row has a number
from `next` on. -/
structure Frontier (chat : List ChatRow) (next : Nat) (u : UserId) (rows : List SegmentRow)
    (watermark : Int) (cover : List SegmentRow) : Prop where
  covers : Covers SegmentRow.node cover rows
  reaches : coverEnd cover = watermark
  counted : (cover.map (·.provenance.sourceMessageCount)).sum =
    (sourceRows chat u (opaqueThrough cover) watermark).length
  starts : ∀ c ∈ cover.head?, c.provenance.coverageKind = .exact →
    minSeq (sourceRows chat u 0 watermark) = c.provenance.startSeq
  recent : opaqueThrough cover = watermark ∨ watermark < next

namespace Frontier

variable {next next' : Nat} {watermark : Int} {p : SegmentRow}

theorem empty (chat : List ChatRow) (next : Nat) (u : UserId) : Frontier chat next u [] 0 [] where
  covers := Covers.nil
  reaches := rfl
  counted := by
    rw [sourceRows_eq_nil (by simp)]
    rfl
  starts := by simp
  recent := .inl rfl

theorem legacy (chat : List ChatRow) (next : Nat) (u : UserId) {through : Int}
    (hr : r.provenance = .legacy through) : Frontier chat next u [r] through [r] := by
  have hend : r.provenance.endSeq = through := by rw [hr]; rfl
  have hcovers : Covers SegmentRow.node [r] [r] := by
    refine Covers.push Covers.nil ?_ (by simp)
    show r.provenance.startSeq ≤ r.provenance.endSeq
    exact r.start_le_end
  have hopaqueSeq : opaqueThrough [r] = through := by
    rw [opaqueThrough_cons hcovers.toApart, hr]
    rfl
  constructor
  · exact hcovers
  · exact hend
  · rw [hopaqueSeq, sourceRows_eq_nil (Int.le_refl _)]
    simp [hr, Provenance.legacy]
  · intro c hc hkind
    obtain rfl : r = c := by simpa using hc
    rw [hr] at hkind
    cases hkind
  · exact .inl hopaqueSeq

section

variable (h : Frontier chat next u rows watermark cover)
include h

theorem of_chat (hnext : next ≤ next')
    (hrows : watermark < next →
      ∀ low, sourceRows chat' u low watermark = sourceRows chat u low watermark) :
    Frontier chat' next' u rows watermark cover where
  covers := h.covers
  reaches := h.reaches
  counted := by
    rw [h.counted]
    obtain hopaqueSeq | hlt := h.recent
    · rw [hopaqueSeq, sourceRows_eq_nil (Int.le_refl _), sourceRows_eq_nil (Int.le_refl _)]
    · rw [hrows hlt]
  starts := by
    intro c hc hkind
    have hstart := h.starts c hc hkind
    obtain hopaqueSeq | hlt := h.recent
    · -- the cover is exact and not empty, so its opaque part ends before its watermark
      exfalso
      obtain ⟨rest, rfl⟩ := List.head?_eq_some_iff.mp hc
      rw [opaqueThrough_cons h.covers.toApart] at hopaqueSeq
      have hend := end_le_coverEnd h.covers.toApart (c := c) (by simp)
      rw [h.reaches] at hend
      have hcov := c.coverage
      rw [hkind] at hcov
      simp at hcov
      omega
    · rw [hrows hlt]
      exact hstart
  recent := by
    have hrecent := h.recent
    omega

theorem eligible (hr : r ∈ rows) : r.provenance.endSeq ≤ watermark := by
  obtain ⟨c, hc, hor⟩ := h.covers.nested r hr
  have hend := end_le_coverEnd h.covers.toApart hc
  rw [h.reaches] at hend
  obtain rfl | hhides := hor
  · exact hend
  · have hhides := Node.hides_iff.mp hhides
    simp only [SegmentRow.node, Provenance.node] at hhides
    omega

theorem filter_eligible :
    rows.filter (fun r => decide (r.provenance.endSeq ≤ watermark)) = rows := by
  rw [List.filter_eq_self]
  intro r hr
  exact decide_eq_true (h.eligible hr)

theorem canonicalCover_eq (hrows : rows.Nodup) : canonicalCover rows watermark = cover := by
  rw [canonicalCover, h.filter_eligible]
  exact h.covers.canonical_eq hrows

theorem cover_ne_nil (hrows : rows ≠ []) : cover ≠ [] := by
  rintro rfl
  obtain ⟨r, hr⟩ := List.exists_mem_of_ne_nil rows hrows
  obtain ⟨c, hc, _⟩ := h.covers.nested r hr
  cases hc

theorem push (hnext : ∀ m ∈ chat, m.seq < next) (hkind : p.provenance.coverageKind = .exact)
    (hfirst : minSeq (sourceRows chat u watermark p.provenance.endSeq) = p.provenance.startSeq)
    (hlast : maxSeq (sourceRows chat u watermark p.provenance.endSeq) = p.provenance.endSeq)
    (hcount : ((sourceRows chat u watermark p.provenance.endSeq).length : Int) =
      p.provenance.sourceMessageCount) :
    Frontier chat next u (rows ++ [p]) p.provenance.endSeq (cover ++ [p]) := by
  have hstart : 0 < p.provenance.startSeq := SegmentRow.kind_exact_iff.mp hkind
  have hend : p.provenance.startSeq ≤ p.provenance.endSeq := p.start_le_end
  have hmin := (minSeq_eq hstart).mp hfirst
  have hmax := (maxSeq_eq (by omega)).mp hlast
  have hbehind : watermark < p.provenance.startSeq := by
    obtain ⟨⟨m, hm, hseq⟩, _⟩ := hmin
    have hm := mem_sourceRows.mp hm
    omega
  have hcovers : Covers SegmentRow.node (cover ++ [p]) (rows ++ [p]) := by
    refine h.covers.push p.start_le_end fun c hc => ?_
    have hle := end_le_coverEnd h.covers.toApart hc
    rw [h.reaches] at hle
    show c.provenance.endSeq < p.provenance.startSeq
    omega
  have hopaqueSeq : opaqueThrough (cover ++ [p]) = opaqueThrough cover := by
    cases cover with
    | nil =>
      have hcov := p.coverage
      rw [hkind] at hcov
      simp at hcov
      rw [List.nil_append, opaqueThrough_cons hcovers.toApart, hcov.2.2.2]
      rfl
    | cons c rest =>
      have hcons : Apart SegmentRow.node (c :: (rest ++ [p])) := hcovers.toApart
      rw [List.cons_append, opaqueThrough_cons hcons, opaqueThrough_cons h.covers.toApart]
  have hbounds := opaqueThrough_le_coverEnd h.covers.toApart
  rw [h.reaches] at hbounds
  constructor
  · exact hcovers
  · exact coverEnd_append_singleton cover p
  · rw [hopaqueSeq, ← length_sourceRows_add hbounds.2 (by omega : watermark ≤ p.provenance.endSeq)]
    rw [List.map_append, List.sum_append, h.counted]
    simp only [List.map_cons, List.map_nil, List.sum_cons, List.sum_nil]
    omega
  · intro c hc hexact
    cases cover with
    | nil =>
      obtain rfl : p = c := by simpa using hc
      have hzero : watermark = 0 := by rw [← h.reaches]; rfl
      rw [hzero] at hfirst
      exact hfirst
    | cons d rest =>
      obtain rfl : d = c := by simpa using hc
      have hpos := SegmentRow.kind_exact_iff.mp hexact
      exact minSeq_sourceRows_extend hpos (by omega) (h.starts d (by simp) hexact)
  · right
    obtain ⟨⟨m, hm, hseq⟩, _⟩ := hmax
    have hlt := hnext m (mem_sourceRows.mp hm).1
    omega

end

theorem replace (h : Frontier chat next u rows watermark (front ++ mid ++ back))
    (hspans : Spans SegmentRow.node p.node mid)
    (hcount : (mid.map (·.provenance.sourceMessageCount)).sum = p.provenance.sourceMessageCount)
    (hopaqueSeq : ∀ c ∈ mid.head?,
      c.provenance.legacyOpaqueThroughSeq = p.provenance.legacyOpaqueThroughSeq ∧
      c.provenance.startSeq = p.provenance.startSeq) :
    Frontier chat next u (rows ++ [p]) watermark (front ++ [p] ++ back) := by
  have hcovers := h.covers.replace hspans
  obtain ⟨first, hfirst, _⟩ := Option.map_eq_some_iff.mp hspans.start
  obtain ⟨tail, rfl⟩ := List.head?_eq_some_iff.mp hfirst
  have hsame := hopaqueSeq first (by simp)
  have hthrough : opaqueThrough (front ++ [p] ++ back) = opaqueThrough (front ++ (first :: tail) ++
      back) := by
    cases front with
    | nil =>
      rw [List.nil_append, List.nil_append, List.singleton_append, List.cons_append]
      rw [opaqueThrough_cons (by simpa using hcovers.toApart),
        opaqueThrough_cons (by simpa using h.covers.toApart)]
      exact hsame.1.symm
    | cons c rest =>
      simp only [List.cons_append]
      rw [opaqueThrough_cons (by simpa using hcovers.toApart),
        opaqueThrough_cons (by simpa using h.covers.toApart)]
  constructor
  · exact hcovers
  · rw [← h.reaches]
    cases back with
    | nil =>
      obtain ⟨last, hlast, hstop⟩ := Option.map_eq_some_iff.mp hspans.stop
      rw [List.append_nil, List.append_nil, coverEnd_append_singleton]
      obtain ⟨init, hinit⟩ := List.getLast?_eq_some_iff.mp hlast
      rw [hinit, ← List.append_assoc, coverEnd_append_singleton]
      exact hstop.symm
    | cons d rest => rw [coverEnd_append _ (by simp), coverEnd_append _ (by simp)]
  · rw [hthrough, ← h.counted]
    simp only [List.map_append, List.sum_append, List.map_cons, List.map_nil, List.sum_cons,
      List.sum_nil] at hcount ⊢
    omega
  · intro c hc hexact
    cases front with
    | nil =>
      obtain rfl : p = c := by simpa using hc
      rw [← hsame.2]
      refine h.starts first (by simp) (SegmentRow.kind_exact_iff.mpr ?_)
      rw [hsame.2]
      exact SegmentRow.kind_exact_iff.mp hexact
    | cons d rest =>
      obtain rfl : d = c := by simpa using hc
      exact h.starts d (by simp) hexact
  · rw [hthrough]
    exact h.recent

end Frontier

/-! ## Acceptance -/

variable {next : Nat} {watermark : Int} {ordered : List SummarySegment}


theorem orderDefect?_eq_none {seen : List Nat} {previous : Option SummarySegment}
    (hapart : ordered.Pairwise fun a b => a.provenance.endSeq < b.provenance.startSeq)
    (hnodup : (ordered.map (·.segmentId)).Nodup) (hseen : ∀ s ∈ ordered, s.segmentId ∉ seen)
    (hprevious : ∀ p ∈ previous, ∀ s ∈ ordered, p.provenance.endSeq < s.provenance.startSeq) :
    orderDefect? seen previous ordered = none := by
  induction ordered generalizing seen previous with
  | nil => rfl
  | cons item rest ih =>
    obtain ⟨hitem, hrest⟩ := List.pairwise_cons.mp hapart
    rw [List.map_cons, List.nodup_cons] at hnodup
    have hoverlap : (previous.any fun p =>
        !item.provenance.isLegacy && decide (item.provenance.startSeq ≤ p.provenance.endSeq)) =
          false := by
      cases previous with
      | none => rfl
      | some p =>
        have hlt := hprevious p rfl item (by simp)
        simp only [Option.any_some, Bool.and_eq_false_imp, decide_eq_false_iff_not]
        intro _
        omega
    rw [orderDefect?, if_neg (hseen item (by simp)), hoverlap]
    refine ih hrest hnodup.2 ?_ ?_
    · intro s hs
      rw [List.mem_cons, not_or]
      refine ⟨fun heq => hnodup.1 ?_, hseen s (by simp [hs])⟩
      exact List.mem_map.mpr ⟨s, hs, heq⟩
    · intro p hp s hs
      obtain rfl : item = p := by simpa using hp
      exact hitem s hs

theorem Frontier.zero_watermark (h : Frontier chat next u rows 0 (c :: rest)) :
    rest = [] ∧ c.provenance.coverageKind = .legacyOpaque ∧ c.provenance.startSeq = 0 ∧
      c.provenance.endSeq = 0 ∧
      c.provenance.legacyOpaqueThroughSeq = 0 ∧ c.provenance.sourceMessageCount = 0 := by
  have hends : ∀ d ∈ c :: rest, d.provenance.endSeq ≤ 0 := by
    intro d hd
    have hle := end_le_coverEnd h.covers.toApart hd
    rwa [h.reaches] at hle
  have hrest : rest = [] := by
    rw [List.eq_nil_iff_forall_not_mem]
    intro d hd
    have hexact := SegmentRow.kind_exact_iff.mp (exact_of_tail h.covers.toApart hd)
    have hle := d.start_le_end
    have hend := hends d (by simp [hd])
    omega
  subst hrest
  have hcov := c.coverage
  have hend := hends c (by simp)
  have hopaqueSeq := opaqueThrough_cons h.covers.toApart
  have hcount := h.counted
  rw [hopaqueSeq, sourceRows_eq_nil c.opaque_le_end.1] at hcount
  simp only [List.map_cons, List.map_nil, List.sum_cons, List.sum_nil, List.length_nil] at hcount
  obtain hcov | hcov := hcov
  · omega
  · refine ⟨rfl, hcov.1, hcov.2.1, ?_, ?_, ?_⟩ <;> omega

/-- The opaque part of a cover and its source witness fit. -/
theorem Frontier.startDefect?_eq_none (h : Frontier chat next u rows watermark (c :: rest))
    {o : SummarySegment} {os : List SummarySegment} (ho : o.provenance = c.provenance)
    (hos : ∀ s ∈ os, s.provenance.coverageKind = .exact) :
    startDefect? o (o :: os) (minSeq (sourceRows chat u (opaqueThrough (c :: rest)) watermark))
      (sourceRows chat u (opaqueThrough (c :: rest)) watermark).length = none := by
  have hopaqueSeq := opaqueThrough_cons h.covers.toApart
  have htail : os.filter (fun s => s.provenance.isLegacy) = [] := by
    rw [List.filter_eq_nil_iff]
    intro s hs
    rw [Provenance.isLegacy, hos s hs]
    decide
  have hcov := c.coverage
  cases hkind : c.provenance.coverageKind with
  | legacyOpaque =>
    have hlegacy : o.provenance.isLegacy = true := by rw [Provenance.isLegacy, ho, hkind]; rfl
    have hstart : o.provenance.startSeq = 0 := by
      rw [hkind] at hcov
      simp at hcov
      rw [ho]
      exact hcov.1
    have hfilter : (o :: os).filter (fun s => s.provenance.isLegacy) = [o] := by
      rw [List.filter_cons, if_pos hlegacy, htail]
    simp only [startDefect?, hfilter, List.head?_cons]
    rw [if_neg (by simp [hlegacy]), if_neg (by omega), if_neg]
    -- every counted row lies behind the opaque part, and no row gives the witness `0`
    rw [ho, ← hopaqueSeq]
    generalize hsource : sourceRows chat u (opaqueThrough (c :: rest)) watermark = source
    cases source with
    | nil => simp [minSeq]
    | cons m source =>
      have hpos : 0 < minSeq (m :: source) ∧ opaqueThrough (c :: rest) < minSeq (m :: source) := by
        have hseqs : ∀ x ∈ m :: source, opaqueThrough (c :: rest) < (x.seq : Int) := by
          intro x hx
          rw [← hsource] at hx
          exact (mem_sourceRows.mp hx).2.2.1
        have hnonneg := c.opaque_le_end.1
        rw [← hopaqueSeq] at hnonneg
        obtain ⟨k, hk⟩ : ∃ k, ((m :: source).map (·.seq)).min? = some k := ⟨_, rfl⟩
        obtain ⟨x, hx, hxk⟩ := List.mem_map.mp (List.min?_eq_some_iff.mp hk).1
        have hlt := hseqs x hx
        have hmin : minSeq (m :: source) = x.seq := by
          rw [minSeq, hk, ← hxk]
          rfl
        omega
      simp only [List.length_cons]
      omega
  | exact =>
    have hlegacy : ¬ o.provenance.isLegacy = true := by rw [Provenance.isLegacy, ho, hkind]; decide
    have hstarts := h.starts c (by simp) hkind
    rw [hkind] at hcov
    simp at hcov
    have hfirst : opaqueThrough (c :: rest) = 0 := by omega
    have hfilter : (o :: os).filter (fun s => s.provenance.isLegacy) = [] := by
      rw [List.filter_cons, if_neg hlegacy, htail]
    have hcount : 0 < (sourceRows chat u 0 watermark).length := by
      obtain ⟨⟨m, hm, _⟩, _⟩ := (minSeq_eq hcov.1).mp hstarts
      exact List.length_pos_of_mem hm
    rw [hfirst, hstarts]
    simp only [startDefect?, hfilter, List.head?_nil]
    rw [if_neg (by simp), if_neg (by omega), if_neg (by rw [ho]; simp)]

/-- The canonical cover is accepted, whatever texts its segments have. -/
theorem Frontier.validates (h : Frontier chat next u rows watermark cover) (hne : cover ≠ [])
    (hids : (cover.map (·.segmentId)).Nodup)
    (hrow : ordered.map SummarySegment.row = cover.map SegmentRow.row) :
    validateCanonicalFrontier ordered watermark
      (minSeq (sourceRows chat u (opaqueThrough cover) watermark))
        (sourceRows chat u (opaqueThrough cover) watermark).length = .ok ordered := by
  have hprov : ordered.map (·.provenance) = cover.map (·.provenance) := by
    have hsnd := congrArg (List.map Prod.snd) hrow
    rwa [List.map_map, List.map_map] at hsnd
  have hid : ordered.map (·.segmentId) = cover.map (·.segmentId) := by
    have hfst := congrArg (List.map Prod.fst) hrow
    rwa [List.map_map, List.map_map] at hfst
  obtain ⟨c, rest, rfl⟩ := List.exists_cons_of_ne_nil hne
  obtain ⟨o, os, rfl⟩ : ∃ o os, ordered = o :: os := by
    cases ordered with
    | nil => cases hprov
    | cons o os => exact ⟨o, os, rfl⟩
  have hsame := hprov
  simp only [List.map_cons, List.cons.injEq] at hprov
  by_cases hzero : watermark = 0
  · subst hzero
    obtain ⟨hrest, hkind, hstart, hend, hopaqueSeq, hcount⟩ := h.zero_watermark
    subst hrest
    have hos : os = [] := by simpa using hprov.2
    have hlegacy : c.provenance.isLegacy = true := by rw [Provenance.isLegacy, hkind]; rfl
    rw [opaqueThrough_cons h.covers.toApart, hopaqueSeq, sourceRows_eq_nil (Int.le_refl 0)]
    simp [validateCanonicalFrontier, zeroWatermarkDefect?, hos, hlegacy, hprov.1, hstart, hend,
      hopaqueSeq, hcount, minSeq]
  · have hexact : ∀ s ∈ os, s.provenance.coverageKind = .exact := by
      intro s hs
      have hmem : s.provenance ∈ rest.map (·.provenance) := hprov.2 ▸ List.mem_map.mpr ⟨s, hs, rfl⟩
      obtain ⟨d, hd, heq⟩ := List.mem_map.mp hmem
      rw [← heq]
      exact exact_of_tail h.covers.toApart hd
    have hlast : (o :: os).getLast?.map (·.provenance.endSeq) = some watermark := by
      have hmap : (o :: os).getLast?.map (·.provenance.endSeq) = (c :: rest).getLast?.map
          (·.provenance.endSeq) := by
        have hlasts := congrArg List.getLast? hsame
        rw [List.getLast?_map, List.getLast?_map] at hlasts
        have hends := congrArg (Option.map Provenance.endSeq) hlasts
        simpa [Option.map_map, Function.comp_def] using hends
      have hreach := h.reaches
      rw [coverEnd, ← hmap] at hreach
      obtain ⟨last, hlast⟩ : ∃ last, (o :: os).getLast? = some last := ⟨_, List.getLast?_cons⟩
      rw [hlast] at hreach ⊢
      simpa using hreach
    have horder : orderDefect? [] none (o :: os) = none := by
      refine orderDefect?_eq_none ?_ (hid ▸ hids) (by simp) (by simp)
      have hpair : ((c :: rest).map (·.provenance)).Pairwise fun a b => a.endSeq < b.startSeq :=
        List.pairwise_map.mpr h.covers.apart
      rw [← hsame] at hpair
      exact List.pairwise_map.mp hpair
    have hsum : ((o :: os).map (·.provenance.sourceMessageCount)).sum =
        ((sourceRows chat u (opaqueThrough (c :: rest)) watermark).length : Int) := by
      rw [← h.counted]
      have hcounts := congrArg (List.map Provenance.sourceMessageCount) hsame
      rw [List.map_map, List.map_map] at hcounts
      exact congrArg List.sum hcounts
    have hdefect : frontierDefect? (o :: os) watermark
        (minSeq (sourceRows chat u (opaqueThrough (c :: rest)) watermark))
        (sourceRows chat u (opaqueThrough (c :: rest)) watermark).length = none := by
      simp only [frontierDefect?, h.startDefect?_eq_none hprov.1 hexact, hlast, horder, hsum]
      simp
    simp only [validateCanonicalFrontier, if_neg hzero, hdefect]

end Feedling
