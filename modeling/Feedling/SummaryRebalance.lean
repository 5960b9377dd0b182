import Mathlib.Data.List.Infix
import Mathlib.Data.List.Sublists
import Feedling.SummaryRollups

/-!
# Roll-ups reach a bounded frontier

The worker replaces the run that it chooses by a parent with a deterministic text, until nothing is
left to choose. Every replacement makes the frontier shorter, because a deterministic text never
exceeds the limit alone. The loop is the worker's without the limit on its passes; nobody else
writes.
-/

namespace Feedling

/-! ## The loop -/

/-- The parent takes the place of its children. -/
def replaceRun (ids : List Nat) (parent : SummarySegment) :
    List SummarySegment → List SummarySegment
  | [] => []
  | s :: rest =>
    if s.segmentId ∈ ids then parent :: rest.filter fun t => decide (t.segmentId ∉ ids)
    else s :: replaceRun ids parent rest

/-- The deterministic text for a run of segments. -/
def foldOf (run : List SummarySegment) : Except FrontierError String :=
  deterministicFold (run.map (·.provenance.sourceMessageCount)).sum
    (run.any fun s => s.provenance.isLegacy)

/-- `frontier_chars`. -/
def frontierChars (frontier : List SummarySegment) : Int := (frontier.map (·.chars)).sum

section Loop

variable (fanout maxFrontierSegments maxFrontierChars : Int)

/-- One pass; `none` when nothing is chosen. The new segment gets the number `next`. -/
def rollupPass (next : Nat) (frontier : List SummarySegment) :
    Except FrontierError (Option (List SummarySegment)) :=
  match chooseRollupCandidate frontier fanout maxFrontierSegments maxFrontierChars with
  | .error e => .error e
  | .ok none => .ok none
  | .ok (some c) =>
    match foldOf c.children with
    | .error e => .error e
    | .ok checkpoint =>
      match foldOf frontier with
      | .error e => .error e
      | .ok _ =>
        match SummarySegment.make next c.provenance checkpoint with
        | .error e => .error e
        | .ok parent => .ok (some (replaceRun c.childSegmentIds parent frontier))

/-- The loop of `_rebalance_summary_frontier` with room for some replacements; `none` when they are
used up and there still is a candidate. -/
def rebalanceSummaryFrontier :
    Nat → Nat → List SummarySegment → Except FrontierError (Option (List SummarySegment))
  | room, next, frontier =>
    match rollupPass fanout maxFrontierSegments maxFrontierChars next frontier with
    | .error e => .error e
    | .ok none => .ok (some frontier)
    | .ok (some frontier') =>
      match room with
      | 0 => .ok none
      | room + 1 => rebalanceSummaryFrontier room (next + 1) frontier'

end Loop

/-! ## What a segment knows of itself -/

namespace SummarySegment

variable (s : SummarySegment)

theorem checks :
    s.segmentId ≠ 0 ∧ 0 ≤ s.provenance.level ∧ s.provenance.coverageDefect? = none := by
  have hsound := s.sound
  unfold Provenance.defect? at hsound
  by_cases hid : s.segmentId = 0
  · rw [if_pos hid] at hsound
    cases hsound
  rw [if_neg hid] at hsound
  by_cases hlevel : s.provenance.level < 0
  · rw [if_pos hlevel] at hsound
    cases hsound
  rw [if_neg hlevel, Option.or_eq_none_iff] at hsound
  exact ⟨hid, Int.not_lt.mp hlevel, hsound.1⟩

theorem exact_facts (h : s.provenance.isLegacy = false) : 0 < s.provenance.startSeq ∧
    s.provenance.startSeq ≤ s.provenance.endSeq ∧ 0 < s.provenance.sourceMessageCount ∧
      s.provenance.legacyOpaqueThroughSeq = 0 := by
  have hcoverage := s.checks.2.2
  unfold Provenance.coverageDefect? at hcoverage
  unfold Provenance.isLegacy at h
  split at hcoverage
  · split_ifs at hcoverage with hrange hwitness
    omega
  · next hkind =>
    rw [hkind] at h
    cases h

theorem legacy_facts (h : s.provenance.isLegacy = true) : s.provenance.startSeq = 0 ∧
    0 ≤ s.provenance.legacyOpaqueThroughSeq ∧
      s.provenance.legacyOpaqueThroughSeq ≤ s.provenance.endSeq ∧
    0 ≤ s.provenance.sourceMessageCount := by
  have hcoverage := s.checks.2.2
  unfold Provenance.coverageDefect? at hcoverage
  unfold Provenance.isLegacy at h
  split at hcoverage
  · next hkind =>
    rw [hkind] at h
    cases h
  · split_ifs at hcoverage with hrange
    omega

theorem count_nonneg : 0 ≤ s.provenance.sourceMessageCount := by
  cases h : s.provenance.isLegacy with
  | false => exact (s.exact_facts h).2.2.1.le
  | true => exact (s.legacy_facts h).2.2.2

end SummarySegment

/-! ## Deterministic texts -/

theorem deterministicFold_text {count : Int} {legacy : Bool} {text : String}
    (h : deterministicFold count legacy = .ok text) : strip text ≠ "" := by
  have hhead : ∃ rest, text.toList = '-' :: rest := by
    unfold deterministicFold at h
    split_ifs at h <;> injection h with h <;> subst h <;> simp [String.toList_append]
  obtain ⟨rest, hrest⟩ := hhead
  exact strip_ne_empty hrest (by decide)

theorem deterministicFold_ok {count : Int} {legacy : Bool}
    (h : 0 < count ∨ (0 ≤ count ∧ legacy = true)) :
    ∃ text, deterministicFold count legacy = .ok text := by
  have hproves : ¬(count < 0 ∨ (count = 0 ∧ legacy = false)) := by
    rintro (hneg | ⟨hzero, hlegacy⟩)
    · omega
    · obtain hpos | ⟨-, htrue⟩ := h
      · omega
      · rw [hlegacy] at htrue
        cases htrue
  unfold deterministicFold
  rw [if_neg hproves]
  split_ifs
  · exact ⟨_, rfl⟩
  · exact ⟨_, rfl⟩
  · exact ⟨_, rfl⟩

theorem sum_counts_pos {run : List SummarySegment} (hne : run ≠ []) :
    0 < (run.map (·.provenance.sourceMessageCount)).sum ∨
      (0 ≤ (run.map (·.provenance.sourceMessageCount)).sum ∧
        (run.any fun s => s.provenance.isLegacy) = true) := by
  have hnonneg : ∀ run : List SummarySegment,
      0 ≤ (run.map (·.provenance.sourceMessageCount)).sum := by
    intro run
    induction run with
    | nil => exact le_refl _
    | cons s run ih =>
      rw [List.map_cons, List.sum_cons]
      exact Int.add_nonneg s.count_nonneg ih
  cases run with
  | nil => exact absurd rfl hne
  | cons s run =>
    rw [List.map_cons, List.sum_cons, List.any_cons]
    have hrest := hnonneg run
    cases hs : s.provenance.isLegacy with
    | false =>
      have hpos := (s.exact_facts hs).2.2.1
      exact Or.inl (by omega)
    | true =>
      have hcount := s.count_nonneg
      exact Or.inr ⟨by omega, rfl⟩

theorem foldOf_ok {run : List SummarySegment} (hne : run ≠ []) : ∃ text, foldOf run = .ok text :=
  deterministicFold_ok (sum_counts_pos hne)

/-! ## The order of a frontier -/

/-- The second segment covers messages behind the first one. -/
def SummarySegment.Precedes (a b : SummarySegment) : Prop :=
  b.provenance.isLegacy = false ∧ a.provenance.endSeq < b.provenance.startSeq

/-- Different numbers, in the order of the messages, and only the first segment may be opaque. -/
structure Sequential (frontier : List SummarySegment) : Prop where
  ids : (frontier.map (·.segmentId)).Nodup
  seqs : frontier.Pairwise SummarySegment.Precedes

section Parent

variable {c : RollupCandidate} {frontier front back : List SummarySegment}

theorem RollupCandidate.head_mem (c : RollupCandidate) : c.children.head c.nonempty ∈ c.children :=
  List.head_mem c.nonempty

theorem RollupCandidate.last_mem (c : RollupCandidate) :
    c.children.getLast c.nonempty ∈ c.children := List.getLast_mem c.nonempty

theorem RollupCandidate.isLegacy_provenance (c : RollupCandidate) :
    c.provenance.isLegacy = c.children.any fun s => s.provenance.isLegacy := by
  have hkind : c.provenance.coverageKind = if c.children.any fun s => s.provenance.isLegacy then
    .legacyOpaque else .exact := rfl
  rw [Provenance.isLegacy, hkind]
  split_ifs with hany
  · rw [hany]
    rfl
  · rw [Bool.not_eq_true] at hany
    rw [hany]
    rfl

theorem Sequential.isLegacy_of_ne_head (h : Sequential c.children) {s : SummarySegment}
    (hs : s ∈ c.children) (hne : s ≠ c.children.head c.nonempty) :
    (c.children.head c.nonempty).Precedes s := by
  have hseqs := h.seqs
  rw [← List.cons_head_tail c.nonempty] at hseqs hs
  obtain heq | hs := List.mem_cons.mp hs
  · exact absurd heq hne
  · exact (List.pairwise_cons.mp hseqs).1 s hs

theorem Sequential.headEnd_le (h : Sequential c.children) {s : SummarySegment}
    (hs : s ∈ c.children) :
    (c.children.head c.nonempty).provenance.endSeq ≤ s.provenance.endSeq := by
  by_cases heq : s = c.children.head c.nonempty
  · rw [heq]
  · obtain ⟨hexact, hbehind⟩ := h.isLegacy_of_ne_head hs heq
    have hproper := (s.exact_facts hexact).2.1
    omega

theorem RollupCandidate.max_mem (c : RollupCandidate) (f : SummarySegment → Int) :
    ∃ s ∈ c.children, (c.children.map f).max?.getD 0 = f s := by
  cases hmax : (c.children.map f).max? with
  | none => exact absurd (List.map_eq_nil_iff.mp (List.max?_eq_none_iff.mp hmax)) c.nonempty
  | some m =>
    obtain ⟨s, hs, heq⟩ := List.mem_map.mp (List.max?_mem hmax)
    exact ⟨s, hs, heq.symm⟩

theorem RollupCandidate.level_pos
    (hlevel : c.parentLevel = (c.children.map (·.provenance.level)).max?.getD 0 + 1) :
    0 < c.parentLevel := by
  obtain ⟨s, -, heq⟩ := c.max_mem (·.provenance.level)
  have hnonneg := s.checks.2.1
  omega

theorem Sequential.coverageDefect?_none (h : Sequential c.children) :
    c.provenance.coverageDefect? = none := by
  have hheadEnd : (c.children.head c.nonempty).provenance.endSeq ≤ c.endSeq :=
    h.headEnd_le c.last_mem
  have hcounts := sum_counts_pos c.nonempty
  obtain ⟨s, hs, hthrough⟩ := c.max_mem (·.provenance.legacyOpaqueThroughSeq)
  have hthrough : c.legacyOpaqueThroughSeq = s.provenance.legacyOpaqueThroughSeq := hthrough
  unfold Provenance.coverageDefect?
  cases hany : c.children.any fun s => s.provenance.isLegacy with
  | false =>
    have hexact : ∀ s ∈ c.children, s.provenance.isLegacy = false := by simpa using hany
    have hhead := (c.children.head c.nonempty).exact_facts (hexact _ c.head_mem)
    have hs := s.exact_facts (hexact s hs)
    rw [hany] at hcounts
    have hstart : c.startSeq = (c.children.head c.nonempty).provenance.startSeq := rfl
    have hcount : c.sourceMessageCount = (c.children.map (·.provenance.sourceMessageCount)).sum :=
      rfl
    have hpos : 0 < c.sourceMessageCount := by simpa [hcount] using hcounts
    simp only [RollupCandidate.provenance, hany, Bool.false_eq_true, if_false]
    rw [if_neg (by omega), if_neg (by omega)]
  | true =>
    -- the head is the opaque one
    have hlegacy : (c.children.head c.nonempty).provenance.isLegacy = true := by
      obtain ⟨o, ho, hopaque⟩ := List.any_eq_true.mp hany
      by_contra hhead
      have hne : o ≠ c.children.head c.nonempty := by
        rintro rfl
        exact hhead hopaque
      rw [(h.isLegacy_of_ne_head ho hne).1] at hopaque
      cases hopaque
    have hhead := (c.children.head c.nonempty).legacy_facts hlegacy
    have hstart : c.startSeq = (c.children.head c.nonempty).provenance.startSeq := rfl
    have hcount : c.sourceMessageCount = (c.children.map (·.provenance.sourceMessageCount)).sum :=
      rfl
    have hbound : 0 ≤ s.provenance.legacyOpaqueThroughSeq ∧
        s.provenance.legacyOpaqueThroughSeq ≤ c.endSeq := by
      by_cases heq : s = c.children.head c.nonempty
      · rw [heq]
        omega
      · have hzero := (s.exact_facts (h.isLegacy_of_ne_head hs heq).1).2.2.2
        omega
    simp only [RollupCandidate.provenance, hany, if_true]
    rw [if_neg (by omega)]

theorem Sequential.makes (h : Sequential c.children)
    (hlevel : c.parentLevel = (c.children.map (·.provenance.level)).max?.getD 0 + 1) {next : Nat}
    (hnext : next ≠ 0) {text : String}
    (htext : strip text ≠ "") : ∃ parent, SummarySegment.make next c.provenance text = .ok parent ∧
      parent.segmentId = next ∧ parent.provenance = c.provenance ∧ parent.text = text := by
  have hpos : 0 < c.provenance.level := RollupCandidate.level_pos hlevel
  have hids : c.provenance.childSegmentIds.Nodup := h.ids
  have hchildren : c.provenance.childSegmentIds ≠ [] :=
    fun hnil => c.nonempty (List.map_eq_nil_iff.mp hnil)
  have hsound : c.provenance.defect? next text = none := by
    unfold Provenance.defect?
    rw [if_neg hnext, if_neg (by omega), h.coverageDefect?_none, Option.none_or, if_neg htext,
      if_neg (not_not.mpr hids), if_neg fun hleaf => absurd hleaf.1 (by omega),
        if_neg fun hparent => hchildren hparent.2]
  unfold SummarySegment.make
  rw [dif_pos hsound]
  exact ⟨_, rfl, rfl, rfl, rfl⟩

theorem Sequential.replace (h : Sequential (front ++ c.children ++ back)) {parent : SummarySegment}
    (hprovenance : parent.provenance = c.provenance)
    (hfresh : ∀ s ∈ front ++ c.children ++ back, s.segmentId ≠ parent.segmentId) :
    Sequential (front ++ parent :: back) := by
  have hsublist : (front ++ back).Sublist (front ++ c.children ++ back) :=
    (List.sublist_append_left front c.children).append_right back
  have hstart : parent.provenance.startSeq = (c.children.head c.nonempty).provenance.startSeq := by
    rw [hprovenance]
    rfl
  have hend : parent.provenance.endSeq = (c.children.getLast c.nonempty).provenance.endSeq := by
    rw [hprovenance]
    rfl
  constructor
  · refine (List.perm_middle.map SummarySegment.segmentId).nodup_iff.mpr ?_
    rw [List.map_cons, List.nodup_cons]
    refine ⟨fun hmem => ?_, h.ids.sublist (hsublist.map _)⟩
    obtain ⟨s, hs, heq⟩ := List.mem_map.mp hmem
    exact hfresh s (hsublist.subset hs) heq
  · obtain ⟨hfront, hrest, hcross⟩ := List.pairwise_append.mp h.seqs
    obtain ⟨hfront, -, hcross'⟩ := List.pairwise_append.mp hfront
    refine List.pairwise_append.mpr ⟨hfront, List.pairwise_cons.mpr ⟨?_, hrest⟩, ?_⟩
    · intro b hb
      have hlast := hcross _ (List.mem_append_right front c.last_mem) b hb
      exact ⟨hlast.1, hend ▸ hlast.2⟩
    · intro a ha b hb
      obtain rfl | hb := List.mem_cons.mp hb
      · refine ⟨?_, hstart ▸ (hcross' a ha _ c.head_mem).2⟩
        rw [hprovenance, c.isLegacy_provenance, List.any_eq_false]
        intro s hs
        rw [(hcross' a ha s hs).1]
        exact Bool.false_ne_true
      · exact hcross a (List.mem_append_left _ ha) b hb

theorem replaceRun_eq (hids : ((front ++ c.children ++ back).map (·.segmentId)).Nodup)
    (parent : SummarySegment) :
    replaceRun c.childSegmentIds parent (front ++ c.children ++ back) = front ++
      parent :: back := by
  rw [List.map_append, List.map_append, List.nodup_append, List.nodup_append] at hids
  obtain ⟨⟨-, -, hfirst⟩, -, hlast⟩ := hids
  have hfront : ∀ s ∈ front, s.segmentId ∉ c.childSegmentIds :=
    fun s hs hmem => hfirst _ (List.mem_map_of_mem hs) _ hmem rfl
  have hback : ∀ s ∈ back, s.segmentId ∉ c.childSegmentIds :=
    fun s hs hmem => hlast _ (List.mem_append_right _ hmem) _ (List.mem_map_of_mem hs) rfl
  clear hfirst hlast
  induction front with
  | nil =>
    cases hchildren : c.children with
    | nil => exact absurd hchildren c.nonempty
    | cons s rest =>
      have hall : ∀ t ∈ s :: rest, t.segmentId ∈ c.childSegmentIds := by
        intro t ht
        rw [RollupCandidate.childSegmentIds, hchildren]
        exact List.mem_map_of_mem ht
      have hnil : (rest.filter fun t => decide (t.segmentId ∉ c.childSegmentIds)) = [] := by
        rw [List.filter_eq_nil_iff]
        intro t ht
        simpa using hall t (List.mem_cons_of_mem s ht)
      have hself : (back.filter fun t => decide (t.segmentId ∉ c.childSegmentIds)) = back := by
        rw [List.filter_eq_self]
        intro t ht
        simpa using hback t ht
      rw [List.nil_append, List.cons_append, replaceRun, if_pos (hall s List.mem_cons_self),
        List.filter_append, hnil, hself]
      rfl
  | cons s front ih =>
    rw [List.cons_append, List.cons_append, replaceRun, if_neg (hfront s List.mem_cons_self),
      ih fun t ht => hfront t (List.mem_cons_of_mem s ht)]
    rfl

end Parent

/-! ## Room for the texts -/

theorem infix_append_cases {α : Type} {l xs ys : List α} (h : l <:+: xs ++ ys) :
    l <:+: xs ∨ l <:+: ys ∨ ∃ t t', t ≠ [] ∧ t' ≠ [] ∧ l = t ++ t' ∧ t <:+ xs ∧ t' <+: ys := by
  obtain ⟨pre, post, heq⟩ := h
  rw [List.append_assoc, List.append_eq_append_iff] at heq
  obtain ⟨as, hxs, hrest⟩ | ⟨bs, -, hys⟩ := heq
  · rw [List.append_eq_append_iff] at hrest
    obtain ⟨cs, has, -⟩ | ⟨cs, hl, hys⟩ := hrest
    · exact Or.inl ⟨pre, cs, by rw [hxs, has, List.append_assoc]⟩
    · by_cases hnil : as = []
      · refine Or.inr (Or.inl ⟨[], post, ?_⟩)
        rw [hys, hl, hnil]
        rfl
      by_cases hnil' : cs = []
      · refine Or.inl ⟨pre, [], ?_⟩
        rw [hxs, hl, hnil', List.append_nil, List.append_nil]
      · exact Or.inr (Or.inr ⟨as, cs, hnil, hnil', hl, ⟨pre, hxs.symm⟩, ⟨post, hys.symm⟩⟩)
  · exact Or.inr (Or.inl ⟨bs, post, by rw [hys, List.append_assoc]⟩)

/-- The text of every run is shorter than the limit. -/
def Fits (maxFrontierChars : Int) (frontier : List SummarySegment) : Prop :=
  ∀ run, run <:+: frontier → ∀ text, foldOf run = .ok text →
    (text.length : Int) + 2 < maxFrontierChars

/-- A run over the parent has the text of the run over its children. -/
theorem foldOf_replace {pre post : List SummarySegment} {c : RollupCandidate}
    {parent : SummarySegment} (hprovenance : parent.provenance = c.provenance) :
    foldOf (pre ++ parent :: post) = foldOf (pre ++ c.children ++ post) := by
  have hlegacy : parent.provenance.isLegacy = c.children.any fun s => s.provenance.isLegacy := by
    rw [hprovenance, c.isLegacy_provenance]
  have hcount : parent.provenance.sourceMessageCount =
      (c.children.map (·.provenance.sourceMessageCount)).sum := by
    rw [hprovenance]
    rfl
  rw [foldOf, foldOf]
  congr 1
  · simp only [List.map_append, List.map_cons, List.sum_append, List.sum_cons, hcount,
      Int.add_assoc]
  · simp only [List.any_append, List.any_cons, hlegacy, Bool.or_assoc]

theorem Fits.replace {maxFrontierChars : Int} {front back : List SummarySegment}
    {c : RollupCandidate} {parent : SummarySegment}
    (h : Fits maxFrontierChars (front ++ c.children ++ back))
    (hprovenance : parent.provenance = c.provenance) :
    Fits maxFrontierChars (front ++ parent :: back) := by
  -- every run over the parent is a run over the children
  have hover : ∀ pre post, pre <:+ front → post <+: back → ∀ text,
      foldOf (pre ++ parent :: post) = .ok text →
        (text.length : Int) + 2 < maxFrontierChars := by
    rintro pre post ⟨front', rfl⟩ ⟨back', rfl⟩ text htext
    rw [foldOf_replace hprovenance] at htext
    exact h _ ⟨front', back', by simp only [List.append_assoc]⟩ text htext
  intro run hrun text htext
  obtain hfront | hback | ⟨t, t', -, hne, rfl, ht, ht'⟩ := infix_append_cases hrun
  · exact h run (List.infix_append_of_infix_left (List.infix_append_of_infix_left hfront))
      text htext
  · obtain hprefix | hback := List.infix_cons_iff.mp hback
    · obtain rfl | ⟨post, rfl, hpost⟩ := List.prefix_cons_iff.mp hprefix
      · exact h [] List.nil_infix text htext
      · exact hover [] post List.nil_suffix hpost text htext
    · exact h run (List.infix_append_of_infix_right hback) text htext
  · obtain rfl | ⟨post, rfl, hpost⟩ := List.prefix_cons_iff.mp ht'
    · exact absurd rfl hne
    · exact hover t post ht hpost text htext

/-! ## The choice -/

/-- Some segments, all of one level. -/
def SameLevel (run : List SummarySegment) : Prop :=
  ∀ s ∈ run, ∀ t ∈ run, s.provenance.level = t.provenance.level

theorem closedRun_length {fanout : Nat} {run items selected : List SummarySegment}
    (h : closedRun fanout run items = some selected) : selected.length = fanout := by
  induction items generalizing run with
  | nil =>
    rw [closedRun] at h
    split_ifs at h with hlength
    cases h
    rw [List.length_take, Nat.min_eq_left hlength]
  | cons item rest ih =>
    rw [closedRun] at h
    split_ifs at h with hsame hlength
    · exact ih h
    · cases h
      rw [List.length_take, Nat.min_eq_left hlength]
    · exact ih h

theorem closedRun_none {fanout : Nat} {run items : List SummarySegment}
    (h : closedRun fanout run items = none) (hrun : SameLevel run) {mid : List SummarySegment}
    (hmid : mid <:+: run ++ items) (hsame : SameLevel mid) : mid.length < fanout := by
  induction items generalizing run with
  | nil =>
    rw [closedRun] at h
    split_ifs at h with hlength
    rw [List.append_nil] at hmid
    exact Nat.lt_of_le_of_lt hmid.length_le (Nat.not_le.mp hlength)
  | cons item rest ih =>
    rw [closedRun] at h
    split_ifs at h with hlevel hlength
    · refine ih h ?_ (by rwa [List.append_assoc])
      -- the last segment of the run has the level of all of them
      cases hlast : run.getLast? with
      | none =>
        rw [List.getLast?_eq_none_iff.mp hlast]
        intro s hs t ht
        rw [List.mem_singleton.mp hs, List.mem_singleton.mp ht]
      | some last =>
        rw [hlast, Option.all_some, beq_iff_eq] at hlevel
        have hmem := List.mem_of_getLast? hlast
        have hitem : ∀ s ∈ run ++ [item], s.provenance.level = item.provenance.level := by
          intro s hs
          obtain hs | hs := List.mem_append.mp hs
          · exact (hrun s hs last hmem).trans hlevel
          · rw [List.mem_singleton.mp hs]
        intro s hs t ht
        exact (hitem s hs).trans (hitem t ht).symm
    · obtain hfirst | hrest | ⟨t, t', hne, hne', rfl, ht, ht'⟩ := infix_append_cases hmid
      · exact Nat.lt_of_le_of_lt hfirst.length_le (Nat.not_le.mp hlength)
      · refine ih h ?_ hrest
        intro s hs t ht
        rw [List.mem_singleton.mp hs, List.mem_singleton.mp ht]
      · -- a run over the border has the two levels that differ there
        obtain rfl | ⟨post, rfl, -⟩ := List.prefix_cons_iff.mp ht'
        · exact absurd rfl hne'
        refine absurd ?_ hlevel
        cases hlast : t.getLast? with
        | none => exact absurd (List.getLast?_eq_none_iff.mp hlast) hne
        | some last =>
          obtain ⟨pre, rfl⟩ := ht
          have hmem := List.mem_of_getLast? hlast
          rw [List.getLast?_append, hlast, Option.some_or, Option.all_some, beq_iff_eq]
          exact hsame last (List.mem_append_left _ hmem) item
            (List.mem_append_right _ List.mem_cons_self)

/-- Within the limits, and no complete run is left. -/
structure Bounded (fanout maxFrontierSegments maxFrontierChars : Nat)
    (frontier : List SummarySegment) : Prop where
  segments : frontier.length ≤ maxFrontierSegments
  chars : frontierChars frontier ≤ maxFrontierChars
  runs : ∀ run, run <:+: frontier → run.length = fanout → ¬SameLevel run

section Choice

variable {fanout maxFrontierSegments maxFrontierChars : Nat} {frontier : List SummarySegment}

theorem rollupCandidate_ok {children : List SummarySegment} (h : 2 ≤ children.length)
    (reason : String) :
    ∃ c, rollupCandidate children reason = .ok (some c) ∧ c.children = children := by
  have hne : children ≠ [] := by
    rintro rfl
    cases h
  rw [rollupCandidate, dif_neg hne]
  exact ⟨_, rfl, rfl⟩

/-- With no segment above the limit alone, the choice is a run of two or more, or the frontier is
bounded. -/
theorem chooseRollupCandidate_cases (hfanout : 2 ≤ fanout) (hsegments : 1 ≤ maxFrontierSegments)
    (hchars : ∀ s ∈ frontier, s.chars ≤ maxFrontierChars) :
    (chooseRollupCandidate frontier fanout maxFrontierSegments maxFrontierChars = .ok none ∧
      Bounded fanout maxFrontierSegments maxFrontierChars frontier) ∨
    ∃ c, chooseRollupCandidate frontier fanout maxFrontierSegments maxFrontierChars = .ok (some c) ∧
      2 ≤ c.children.length := by
  unfold chooseRollupCandidate
  cases hfrontier : frontier with
  | nil =>
    refine Or.inl ⟨if_pos rfl, Nat.zero_le _, Int.natCast_nonneg _, ?_⟩
    intro run hrun hlength
    rw [List.infix_nil.mp hrun, List.length_nil] at hlength
    omega
  | cons head rest =>
    rw [← hfrontier]
    have hhead : head ∈ frontier := by
      rw [hfrontier]
      exact List.mem_cons_self
    have hlimits : ¬((fanout : Int) < 2 ∨ (maxFrontierSegments : Int) < 1 ∨
        (maxFrontierChars : Int) < 1) := by
      have hfits := hchars head hhead
      rw [SummarySegment.chars] at hfits
      omega
    have hsmall : (frontier.find? fun s => decide ((maxFrontierChars : Int) < s.chars)) = none := by
      rw [List.find?_eq_none]
      intro s hs
      have hfits := hchars s hs
      simpa using hfits
    rw [if_neg (List.ne_nil_of_mem hhead), if_neg hlimits, hsmall, Int.toNat_natCast]
    dsimp only
    cases hclosed : closedRun fanout [] frontier with
    | some selected =>
      have hlength : 2 ≤ selected.length := hfanout.trans_eq (closedRun_length hclosed).symm
      obtain ⟨c, hc, hchildren⟩ := rollupCandidate_ok hlength "fanout"
      exact Or.inr ⟨c, hc, hchildren ▸ hlength⟩
    | none =>
      dsimp only
      by_cases hbound : (frontier.length : Int) ≤ maxFrontierSegments ∧
        (frontier.map (·.chars)).sum ≤ (maxFrontierChars : Int)
      · rw [if_pos hbound]
        refine Or.inl ⟨rfl, Int.ofNat_le.mp hbound.1, hbound.2, ?_⟩
        intro run hrun hlength hsame
        have hshort := closedRun_none hclosed (by intro s hs; cases hs) (by simpa using hrun) hsame
        omega
      · rw [if_neg hbound]
        -- one segment would be within both limits
        have htwo : 2 ≤ frontier.length := by
          by_contra hone
          have hrest : rest = [] := by
            rw [hfrontier, List.length_cons] at hone
            exact List.eq_nil_of_length_eq_zero (by omega)
          refine hbound ?_
          have hfits := hchars head hhead
          rw [hfrontier, hrest]
          constructor
          · rw [List.length_singleton]
            omega
          · rw [List.map_singleton, List.sum_singleton]
            exact hfits
        have hlength : 2 ≤ (frontier.take fanout).length := by
          rw [List.length_take]
          omega
        obtain ⟨c, hc, hchildren⟩ := rollupCandidate_ok hlength "frontier_bound"
        rw [if_neg (Nat.not_lt.mpr hlength)]
        exact Or.inr ⟨c, hc, hchildren ▸ hlength⟩

end Choice

/-! ## The loop ends -/

/-- Every text is the deterministic one. -/
def FoldedTexts (frontier : List SummarySegment) : Prop :=
  ∀ s ∈ frontier, deterministicFold s.provenance.sourceMessageCount s.provenance.isLegacy =
    .ok s.text

theorem foldOf_singleton (s : SummarySegment) :
    foldOf [s] = deterministicFold s.provenance.sourceMessageCount s.provenance.isLegacy := by
  simp [foldOf]

/-- What every pass keeps. -/
structure Rebalancing (maxFrontierChars next : Nat) (frontier : List SummarySegment) : Prop where
  sequential : Sequential frontier
  folded : FoldedTexts frontier
  fits : Fits maxFrontierChars frontier
  fresh : ∀ s ∈ frontier, s.segmentId < next

section Passes

variable {fanout maxFrontierSegments maxFrontierChars next : Nat} {frontier : List SummarySegment}

section

variable (h : Rebalancing maxFrontierChars next frontier)
include h

theorem Rebalancing.chars : ∀ s ∈ frontier, s.chars ≤ maxFrontierChars := by
  intro s hs
  have htext := h.folded s hs
  rw [← foldOf_singleton] at htext
  exact (h.fits [s] ((List.singleton_infix_iff s frontier).mpr hs) s.text htext).le

/-- A pass finds the frontier bounded, or makes it shorter. -/
theorem Rebalancing.pass (hfanout : 2 ≤ fanout) (hsegments : 1 ≤ maxFrontierSegments) :
    (rollupPass fanout maxFrontierSegments maxFrontierChars next frontier = .ok none ∧
      Bounded fanout maxFrontierSegments maxFrontierChars frontier) ∨
    ∃ frontier', rollupPass fanout maxFrontierSegments maxFrontierChars next frontier = .ok
      (some frontier') ∧
      frontier'.length < frontier.length ∧ frontier' ≠ [] ∧
        Rebalancing maxFrontierChars (next + 1) frontier' := by
  unfold rollupPass
  obtain ⟨hnone, hbounded⟩ | ⟨c, hsome, hlength⟩ :=
    chooseRollupCandidate_cases hfanout hsegments h.chars
  · rw [hnone]
    exact Or.inl ⟨rfl, hbounded⟩
  obtain ⟨⟨front, back, rfl⟩, hlevel⟩ := chooseRollupCandidate_some hsome
  have hchildren : Sequential c.children :=
    ⟨h.sequential.ids.sublist
      (List.Sublist.map _ (List.infix_append front c.children back).sublist),
      h.sequential.seqs.sublist (List.infix_append front c.children back).sublist⟩
  have hmem : ∀ s ∈ c.children, s ∈ front ++ c.children ++ back :=
    (List.infix_append front c.children back).subset
  have hnext : next ≠ 0 := by
    have hhead := h.fresh _ (hmem _ c.head_mem)
    omega
  obtain ⟨checkpoint, hcheckpoint⟩ := foldOf_ok c.nonempty
  obtain ⟨head, hhead⟩ := foldOf_ok (List.ne_nil_of_mem (hmem _ c.head_mem))
  obtain ⟨parent, hparent, hid, hprovenance, htext⟩ :=
    hchildren.makes hlevel hnext (deterministicFold_text hcheckpoint)
  rw [hsome]
  dsimp only
  rw [hcheckpoint]
  dsimp only
  rw [hhead, hparent]
  refine Or.inr ⟨front ++ parent :: back, ?_, ?_, by simp, ?_⟩
  · dsimp only
    rw [replaceRun_eq h.sequential.ids]
  · simp only [List.length_append, List.length_cons]
    omega
  · have hkept : ∀ s ∈ front ++ parent :: back, s = parent ∨ s ∈ front ++ c.children ++ back := by
      intro s hs
      obtain hs | hs := List.mem_append.mp hs
      · exact Or.inr (List.mem_append_left _ (List.mem_append_left _ hs))
      · obtain heq | hs := List.mem_cons.mp hs
        · exact Or.inl heq
        · exact Or.inr (List.mem_append_right _ hs)
    refine ⟨h.sequential.replace hprovenance fun s hs heq => ?_, ?_, h.fits.replace hprovenance, ?_⟩
    · have hless := h.fresh s hs
      omega
    · intro s hs
      obtain rfl | hs := hkept s hs
      · rw [hprovenance, c.isLegacy_provenance, htext]
        exact hcheckpoint
      · exact h.folded s hs
    · intro s hs
      obtain rfl | hs := hkept s hs
      · omega
      · exact Nat.lt_succ_of_lt (h.fresh s hs)

theorem Rebalancing.run (hfanout : 2 ≤ fanout) (hsegments : 1 ≤ maxFrontierSegments) {room : Nat}
    (hroom : frontier.length ≤ room + 1) :
    ∃ final, rebalanceSummaryFrontier fanout maxFrontierSegments maxFrontierChars room
      next frontier = .ok (some final) ∧
      Bounded fanout maxFrontierSegments maxFrontierChars final := by
  induction room generalizing next frontier with
  | zero =>
    unfold rebalanceSummaryFrontier
    obtain ⟨hnone, hbounded⟩ | ⟨frontier', -, hshorter, hne, -⟩ := h.pass hfanout hsegments
    · rw [hnone]
      exact ⟨frontier, rfl, hbounded⟩
    · have hpos := List.length_pos_of_ne_nil hne
      omega
  | succ room ih =>
    unfold rebalanceSummaryFrontier
    obtain ⟨hnone, hbounded⟩ | ⟨frontier', hsome, hshorter, -, hkept⟩ := h.pass hfanout hsegments
    · rw [hnone]
      exact ⟨frontier, rfl, hbounded⟩
    · rw [hsome]
      exact ih hkept (by omega)

end

end Passes

end Feedling
