import Feedling.ReplicationPage

/-!
# No row is left behind the cursor

A pass is a run of pages. Every page that takes effect moves the cursor from the watermark at which
it was read over the rows in front of the first failure, and what was done to earlier rows stays
done. So a row that the cursor has passed is settled if and only if the page that passed it, or
another one of the pass, settled it.
-/

namespace Feedling

namespace Replication

variable {α δ κ : Type}

/-! ## Pages -/

/-- A page that a pass comes to: the rows that were read, the rows that each attempt stored that
took effect, and the target before. -/
structure Visit (α δ : Type) where
  rows : List (SourceRow δ)
  landings : List (List (RowKey × α))
  target : Target α

/-- The pages of the loop of `run_table`. -/
def visits [LinearOrder κ] (cfg : TableConfig) (rank : CursorParams → κ)
    (outcome : SourceRow δ → Outcome α) (poison : Stmt α → Bool) (retries : Nat)
    (source : List (SourceRow δ)) :
    Nat → (Nat → Nat → Attempt) → ℚ × String → Option Nat → Target α → List (Visit α δ)
  | 0, _, _, _, _ => []
  | pages + 1, attempts, watermark, remaining, t =>
    let page := (remaining.map (min batch ·)).getD batch
    let rows := selectPage cfg rank source watermark page
    if rows = [] then []
    else
      let p := readPage cfg outcome watermark rows
      ⟨rows, landings poison cfg p retries (attempts 0), t⟩ ::
        match flushBatch poison cfg retries (attempts 0) p t with
        | (_, none) => []
        | (t, some _) =>
          if p.frozen || rows.length < page then []
          else visits cfg rank outcome poison retries source pages (fun i => attempts (i + 1)) p.adv
            (remaining.map (· - rows.length)) t

section Pages

variable [LinearOrder κ] {table : ReplicatedTable} {rank : CursorParams → κ}
  {outcome : SourceRow δ → Outcome α} {poison : Stmt α → Bool} {source : List (SourceRow δ)}
  {watermark : ℚ × String}

theorem mem_of_initial (f : SourceRow δ → κ) {l l' : List (SourceRow δ)}
    (hl : l.Pairwise fun a b => f a < f b) (hinitial : l' <+: l) {a b : SourceRow δ} (ha : a ∈ l)
    (hb : b ∈ l') (hle : f a ≤ f b) : a ∈ l' := by
  obtain ⟨rest, rfl⟩ := hinitial
  obtain ha | ha := List.mem_append.mp ha
  · exact ha
  · exact absurd ((List.pairwise_append.mp hl).2.2 b hb a ha) (not_lt.mpr hle)

/-- The rows that the cursor passes are the ones behind it up to where it stands then. -/
theorem place_advanceOver (outcome : SourceRow δ → Outcome α) (watermark : ℚ × String) (page : Nat)
    (hsource : SourceOk table rank source) :
    placeOf table rank watermark ≤
        placeOf table rank (advanceOver table.config outcome watermark
          (selectPage table.config rank source watermark page)) ∧
      ∀ r ∈ source, placeOf table rank watermark < place table rank r →
        place table rank r ≤ placeOf table rank
          (advanceOver table.config outcome watermark
            (selectPage table.config rank source watermark page)) →
        r ∈ (selectPage table.config rank source watermark page).takeWhile (passes outcome) := by
  rw [advanceOver]
  have hinitial : (selectPage table.config rank source watermark page).takeWhile
      (passes outcome) <+:
        source.filter fun r => decide (rank (table.config.decodeCursor watermark) <
          rank (table.config.params r)) :=
    ( List.takeWhile_prefix _).trans ( List.take_prefix _ _)
  generalize (selectPage table.config rank source watermark page).takeWhile (passes outcome) =
    passed at hinitial ⊢
  cases hlast : passed.getLast? with
  | none => exact ⟨le_refl _, fun r _ hlt hle => absurd hlt (not_lt.mpr hle)⟩
  | some last =>
    have hmem : last ∈ passed := List.mem_of_getLast? hlast
    obtain ⟨hlastsource, hbehind⟩ := List.mem_filter.mp (hinitial.subset hmem)
    have hplace : placeOf table rank (table.config.encodeCursor (table.config.sortVal last)
        (table.config.itemId last.key)) = place table rank last := by
      rw [placeOf, decode_encode (hsource.rows last hlastsource), place]
    rw [Option.map_some, Option.getD_some, hplace]
    refine ⟨le_of_lt (of_decide_eq_true hbehind), fun r hr hlt hle => ?_⟩
    exact mem_of_initial (place table rank) (hsource.ordered.filter _) hinitial
      (List.mem_filter.mpr ⟨hr, decide_eq_true hlt⟩) hmem hle

variable {t : Target α} {retries : Nat} {attempts : Nat → Nat → Attempt} {r : SourceRow δ}

/-- The rows that the cursor passes are not above it. -/
theorem place_le_advanceOver (hsource : SourceOk table rank source) {page : Nat}
    (hr : r ∈ (selectPage table.config rank source watermark page).takeWhile (passes outcome)) :
    place table rank r ≤ placeOf table rank
      (advanceOver table.config outcome watermark
        (selectPage table.config rank source watermark page)) := by
  have hsub : ((selectPage table.config rank source watermark page).takeWhile
      (passes outcome)).Sublist source :=
    (List.takeWhile_sublist _).trans ((List.take_sublist _ _).trans List.filter_sublist)
  rw [advanceOver]
  generalize (selectPage table.config rank source watermark page).takeWhile (passes outcome) =
    passed at hr hsub
  obtain ⟨front, last, rfl⟩ : ∃ front last, passed = front ++ [last] :=
    ⟨_, _, (List.dropLast_append_getLast (List.ne_nil_of_mem hr)).symm⟩
  have hordered : (front ++ [last]).Pairwise fun a b => place table rank a < place table rank b :=
    hsource.ordered.sublist hsub
  rw [List.getLast?_concat, Option.map_some, Option.getD_some, placeOf,
    decode_encode (hsource.rows last (hsub.subset (by simp)))]
  obtain hfront | hlast := List.mem_append.mp hr
  · exact le_of_lt ((List.pairwise_append.mp hordered).2.2 r hfront last (by simp))
  · rw [List.mem_singleton.mp hlast]
    exact le_refl _

/-! ## A pass as a run of pages -/

section Run

variable (table rank outcome source)

/-- The page was read at the watermark, and its attempts store only rows of it. -/
structure PageRead (watermark : ℚ × String) (v : Visit α δ) : Prop where
  rows : ∃ page, v.rows = selectPage table.config rank source watermark page
  stored : ∀ stored ∈ v.landings, ∀ w ∈ stored,
    w ∈ (readPage table.config outcome watermark v.rows).writes

def Visit.after (v : Visit α δ) (watermark : ℚ × String) : Target α :=
  v.landings.foldl (land table.config (readPage table.config outcome watermark v.rows)) v.target

/-- From the watermark and a target to another target by these pages. -/
inductive Pass : ℚ × String → Target α → List (Visit α δ) → Target α → Prop
  | stop (watermark : ℚ × String) (t : Target α) : Pass watermark t [] t
  | last {watermark : ℚ × String} {v : Visit α δ}
      (h : PageRead table rank outcome source watermark v) :
    Pass watermark v.target [v] (v.after table outcome watermark)
  | more {watermark : ℚ × String} {v : Visit α δ} {vs : List (Visit α δ)} {t' : Target α}
    (h : PageRead table rank outcome source watermark v) (hland : v.landings ≠ [])
    (rest : Pass (readPage table.config outcome watermark v.rows).adv
        (v.after table outcome watermark) vs t') :
    Pass watermark v.target (v :: vs) t'

end Run

theorem runPages_pass (hretries : 0 < retries) (pages : Nat) (attempts : Nat → Nat → Attempt)
    (watermark : ℚ × String) (remaining : Option Nat) (t : Target α) :
    Pass table rank outcome source watermark t
      (visits table.config rank outcome poison retries source pages attempts watermark remaining t)
      (runPages table.config rank outcome poison retries source pages attempts watermark remaining
        t).1 := by
  induction pages generalizing attempts watermark remaining t with
  | zero => exact .stop watermark t
  | succ pages ih =>
    rw [runPages, visits]
    dsimp only
    generalize (remaining.map (min batch ·)).getD batch = page
    by_cases hrows : selectPage table.config rank source watermark page = []
    · rw [if_pos hrows, if_pos hrows, ite_self]
      exact .stop watermark t
    · have hpage : page ≠ 0 := by
        rintro rfl
        exact hrows (List.take_zero ..)
      rw [if_neg hrows, if_neg hpage, if_neg hrows]
      obtain ⟨hflush, hreturns⟩ := flushBatch_landings poison table.config retries (attempts 0)
        (readPage table.config outcome watermark
          (selectPage table.config rank source watermark page)) t
      have hread : PageRead table rank outcome source watermark
          ⟨selectPage table.config rank source watermark page, landings poison table.config
            (readPage table.config outcome watermark
              (selectPage table.config rank source watermark page)) retries
            (attempts 0), t⟩ :=
        ⟨⟨page, rfl⟩, fun stored h => mem_landings h⟩
      generalize flushBatch poison table.config retries (attempts 0)
        (readPage table.config outcome watermark
          (selectPage table.config rank source watermark page)) t = result at *
      obtain ⟨after, skipped⟩ := result
      obtain rfl : after = _ := hflush
      cases skipped with
      | none => exact .last hread
      | some skipped =>
        dsimp only
        split_ifs
        · exact .last hread
        · exact .more hread (hreturns hretries (by simp)) (ih ..)

section Effects

variable (table outcome source)

/-- A page that took effect deletes the copy under this key. -/
def Deleted (vs : List (Visit α δ)) (k : RowKey) : Prop :=
  ∃ v ∈ vs, v.landings ≠ [] ∧ ∃ r ∈ v.rows, IsTerminal outcome r ∧ Deletes table r k

/-- A page that took effect leaves a terminal marker for the item. -/
def Marked (vs : List (Visit α δ)) (k : RowKey) : Prop :=
  ∃ v ∈ vs, v.landings ≠ [] ∧ ∃ r ∈ v.rows, IsTerminal outcome r ∧
    (r.key.1, table.config.itemId r.key) = k

/-- What pages do to the rows of the source. -/
structure After (vs : List (Visit α δ)) (t t' : Target α) : Prop where
  written : ∀ k, k ∈ t'.written ↔ k ∈ t.written ∨ ∃ v ∈ vs, ∃ stored ∈ v.landings, ∃ args,
    (k, args) ∈ stored
  rows : ∀ r ∈ source, IsTerminal outcome r →
    (t'.rows r.key = none ↔ t.rows r.key = none ∨ Deleted table outcome vs r.key)
  marked : ∀ k, t.Terminal k ∨ Marked table outcome vs k → t'.Terminal k

end Effects

variable {v : Visit α δ} {vs vs' : List (Visit α δ)} {t' t'' : Target α}

theorem After.refl (t : Target α) : After table outcome source [] t t :=
  ⟨by simp, by simp [Deleted], by simp [Marked]⟩

theorem After.trans (h : After table outcome source vs t t')
    (h' : After table outcome source vs' t' t'') :
    After table outcome source (vs ++ vs') t t'' := by
  refine ⟨fun k => ?_, fun r hr hterminal => ?_, fun k hk => h'.marked k ?_⟩
  · rw [h'.written, h.written, or_assoc]
    simp only [List.mem_append, or_and_right, exists_or]
  · rw [h'.rows r hr hterminal, h.rows r hr hterminal, or_assoc]
    simp only [Deleted, List.mem_append, or_and_right, exists_or]
  · have hsplit : Marked table outcome (vs ++ vs') k ↔ Marked table outcome vs k ∨
        Marked table outcome vs' k := by
      simp only [Marked, List.mem_append, or_and_right, exists_or]
    rw [hsplit, ← or_assoc] at hk
    exact hk.imp_left (h.marked k)

theorem adv_eq_advanceOver {page : Nat}
    (hrows : v.rows = selectPage table.config rank source watermark page) :
    (readPage table.config outcome watermark v.rows).adv =
      advanceOver table.config outcome watermark
        (selectPage table.config rank source watermark page) := by
  rw [readPage_eq, hrows]

theorem Pass.stored (h : Pass table rank outcome source watermark t vs t') (hv : v ∈ vs)
    {stored : List (RowKey × α)} (hstored : stored ∈ v.landings) {w : RowKey × α}
    (hw : w ∈ stored) :
    ∃ r ∈ v.rows, r.key = w.1 ∧ outcome r = .write w.2 := by
  induction h with
  | stop => cases hv
  | last h =>
    obtain rfl := List.mem_singleton.mp hv
    exact mem_writes_readPage.mp (h.stored stored hstored w hw)
  | more h _ _ ih =>
    obtain rfl | hv := List.mem_cons.mp hv
    · exact mem_writes_readPage.mp (h.stored stored hstored w hw)
    · exact ih hv

section

variable (hsource : SourceOk table rank source)
include hsource

theorem PageRead.after (h : PageRead table rank outcome source watermark v) :
    After table outcome source [v] v.target (v.after table outcome watermark) := by
  obtain ⟨⟨page, hrows⟩, hstored⟩ := h
  obtain ⟨rows, landings, t⟩ := v
  have hsub : ∀ r ∈ rows, r ∈ source := by
    rintro r hr
    rw [show rows = _ from hrows] at hr
    exact List.mem_of_mem_filter (List.mem_of_mem_take hr)
  -- a row without a copy is stored by no attempt
  have hterminal : ∀ stored ∈ landings, ∀ r ∈ source, IsTerminal outcome r → ∀ args,
      (r.key, args) ∉ stored := by
    intro stored hs r hr hterminal args hmem
    obtain ⟨r', hr', hkey, hwrite⟩ := mem_writes_readPage.mp (hstored stored hs _ hmem)
    rw [hsource.eq_of_key (hsub r' hr') hr hkey] at hwrite
    rw [IsTerminal, hwrite] at hterminal
    cases hterminal
  clear hstored
  induction landings generalizing t with
  | nil =>
    exact ⟨by simp [Visit.after], by simp [Visit.after, Deleted], by simp [Visit.after, Marked]⟩
  | cons stored landings ih =>
    obtain ⟨hwritten, hcopies, hmarked⟩ :=
      ih (land table.config (readPage table.config outcome watermark rows) t stored) hrows
      fun stored' hs => hterminal stored' (List.mem_cons_of_mem stored hs)
    refine ⟨fun k => (hwritten k).trans ?_, fun r hr hr' => (hcopies r hr hr').trans ?_,
      fun k hk => hmarked k (.inl ?_)⟩
    · rw [land_written]
      simp [or_assoc]
    · rw [land_rows (hterminal stored List.mem_cons_self r hr hr')]
      simp only [Deleted, List.mem_singleton, exists_eq_left, ne_eq, reduceCtorEq,
        not_false_eq_true, true_and]
      rw [or_assoc, or_iff_left_of_imp And.right]
    · refine land_terminal (hk.imp_right ?_)
      rintro ⟨v, hv, -, hr⟩
      rwa [List.mem_singleton.mp hv] at hr

namespace Pass

theorem after (h : Pass table rank outcome source watermark t vs t') :
    After table outcome source vs t t' := by
  induction h with
  | stop watermark t => exact .refl t
  | last h => exact h.after hsource
  | more h _ _ ih => exact (h.after hsource).trans ih

theorem behind (h : Pass table rank outcome source watermark t vs t') (hv : v ∈ vs)
    (hr : r ∈ v.rows) : r ∈ source ∧ placeOf table rank watermark < place table rank r := by
  have hread : ∀ {watermark} {v : Visit α δ}, PageRead table rank outcome source watermark v →
      r ∈ v.rows →
        r ∈ source ∧ placeOf table rank watermark < place table rank r := by
    rintro watermark v ⟨⟨page, hrows⟩, -⟩ hr
    rw [hrows] at hr
    obtain ⟨hsource, hbehind⟩ := List.mem_filter.mp (List.mem_of_mem_take hr)
    exact ⟨hsource, of_decide_eq_true hbehind⟩
  induction h with
  | stop => cases hv
  | last h => exact hread h (List.mem_singleton.mp hv ▸ hr)
  | more h _ _ ih =>
    obtain rfl | hv := List.mem_cons.mp hv
    · exact hread h hr
    · obtain ⟨hmem, hlt⟩ := ih hv
      obtain ⟨page, hrows⟩ := h.rows
      rw [adv_eq_advanceOver hrows] at hlt
      exact ⟨hmem, (place_advanceOver outcome _ page hsource).1.trans_lt hlt⟩

/-- The cursor does not go back, and the rows that it passes are those in front of the first failure
of the pages that took effect. -/
theorem cursor (h : Pass table rank outcome source watermark t vs t')
    (ht : placeOf table rank t.readCursor = placeOf table rank watermark) :
    placeOf table rank watermark ≤ placeOf table rank t'.readCursor ∧
      ∀ r ∈ source, placeOf table rank watermark < place table rank r →
        (place table rank r ≤ placeOf table rank t'.readCursor ↔
          ∃ v ∈ vs, v.landings ≠ [] ∧ r ∈ v.rows.takeWhile (passes outcome)) := by
  have hpage : ∀ {watermark} {v : Visit α δ}, PageRead table rank outcome source watermark v →
      placeOf table rank watermark ≤ placeOf table rank
        (readPage table.config outcome watermark v.rows).adv ∧
      ∀ r ∈ source, placeOf table rank watermark < place table rank r →
        (place table rank r ≤ placeOf table rank
          (readPage table.config outcome watermark v.rows).adv ↔
          r ∈ v.rows.takeWhile (passes outcome)) := by
    rintro watermark v ⟨⟨page, hrows⟩, -⟩
    obtain ⟨hle, hpassed⟩ := place_advanceOver outcome watermark page hsource
    rw [adv_eq_advanceOver hrows, hrows]
    exact ⟨hle, fun r hr hlt => ⟨hpassed r hr hlt, place_le_advanceOver hsource⟩⟩
  have hafter : ∀ {watermark} {v : Visit α δ}, v.landings ≠ [] →
      (v.after table outcome watermark).readCursor =
        (readPage table.config outcome watermark v.rows).adv := by
    rintro watermark ⟨rows, landings, t⟩ hland
    obtain ⟨front, last, rfl⟩ : ∃ front last, landings = front ++ [last] :=
      ⟨_, _, (List.dropLast_append_getLast hland).symm⟩
    rw [Visit.after, List.foldl_append, List.foldl_cons, List.foldl_nil, Target.readCursor,
      land_cursor]
    rfl
  induction h with
  | stop =>
    rw [ht]
    exact ⟨le_refl _, fun r _ hlt => by simp [not_le.mpr hlt]⟩
  | @last watermark v h =>
    by_cases hland : v.landings = []
    · rw [Visit.after, hland, List.foldl_nil, ht]
      exact ⟨le_refl _, fun r _ hlt => by simp [not_le.mpr hlt, hland]⟩
    · rw [hafter hland]
      simpa [hland] using hpage h
  | @more watermark v vs t' h hland rest ih =>
    obtain ⟨hle, hpassed⟩ := hpage h
    obtain ⟨hle', hpassed'⟩ := ih (by rw [hafter hland])
    refine ⟨hle.trans hle', fun r hr hlt => ?_⟩
    by_cases hfirst : place table rank r ≤ placeOf table rank
      (readPage table.config outcome watermark v.rows).adv
    · exact iff_of_true (hfirst.trans hle') ⟨v, List.mem_cons_self, hland,
        (hpassed r hr hlt).mp hfirst⟩
    · rw [hpassed' r hr (not_le.mp hfirst), List.exists_mem_cons_iff, or_iff_right]
      exact fun hmem => hfirst ((hpassed r hr hlt).mpr hmem.2)

/-- The pages before a page, and it with those after it, which do not read a row again that it
passed. -/
theorem split (h : Pass table rank outcome source watermark t vs t') (hv : v ∈ vs) :
    ∃ before rest, vs = before ++ v :: rest ∧ After table outcome source before t v.target ∧
      After table outcome source (v :: rest) v.target t' ∧
      ∀ r ∈ v.rows.takeWhile (passes outcome), ∀ v' ∈ rest, r ∉ v'.rows := by
  induction h with
  | stop => cases hv
  | last h =>
    obtain rfl := List.mem_singleton.mp hv
    exact ⟨[], [], rfl, .refl _, h.after hsource, by simp⟩
  | @more watermark v₀ vs t' h hland rest ih =>
    obtain rfl | hv := List.mem_cons.mp hv
    · refine ⟨[], vs, rfl, .refl _, (h.after hsource).trans (rest.after hsource),
        fun r hr v' hv' hmem => ?_⟩
      obtain ⟨page, hrows⟩ := h.rows
      have hlt := (rest.behind hsource hv' hmem).2
      rw [adv_eq_advanceOver hrows] at hlt
      rw [hrows] at hr
      exact absurd hlt (not_lt.mpr (place_le_advanceOver hsource hr))
    · obtain ⟨before, later, rfl, hfirst, hlast, hapart⟩ := ih hv
      exact ⟨v₀ :: before, later, rfl, (h.after hsource).trans hfirst, hlast, hapart⟩

end Pass

end

variable (table outcome poison) in
/-- What the page must do to a row that it passes: an attempt stores it, or it was stored before, or
it cannot be stored; and without a copy, the target has none, or a page of the pass deletes it. -/
def Visit.Settles (vs : List (Visit α δ)) (v : Visit α δ) (r : SourceRow δ) : Prop :=
  match outcome r with
  | .write args =>
    r.key ∈ v.target.written ∨ (∃ stored ∈ v.landings, (r.key, args) ∈ stored) ∨
      poison (.upsert r.key args) = true
  | _ => v.target.rows r.key = none ∨ Deleted table outcome vs r.key

theorem settled_iff_of_terminal (h : IsTerminal outcome r) : Settled table outcome poison t r ↔
    t.Terminal (r.key.1, table.config.itemId r.key) ∧ t.rows r.key = none := by
  rw [IsTerminal] at h
  cases hout : outcome r <;> simp [Settled, hout, Outcome.terminal?] at h ⊢

theorem Visit.settles_iff_of_terminal (h : IsTerminal outcome r) :
    v.Settles table outcome poison vs r ↔
    v.target.rows r.key = none ∨ Deleted table outcome vs r.key := by
  rw [IsTerminal] at h
  cases hout : outcome r <;> simp [Visit.Settles, hout, Outcome.terminal?] at h ⊢

/-- A row that a page passes is settled at the end of the pass as the page says. -/
theorem Pass.settled_iff (hsource : SourceOk table rank source)
    (h : Pass table rank outcome source watermark t vs t') (hv : v ∈ vs) (hland : v.landings ≠ [])
    (hr : r ∈ v.rows.takeWhile (passes outcome)) :
    Settled table outcome poison t' r ↔ v.Settles table outcome poison vs r := by
  obtain ⟨before, rest, rfl, hfirst, hlast, hapart⟩ := h.split hsource hv
  have hmem : r ∈ v.rows := (List.takeWhile_sublist _).subset hr
  have hrsource : r ∈ source := (h.behind hsource hv hmem).1
  obtain ⟨args, hwrite⟩ | hterminal := passes_cases (List.mem_takeWhile_imp hr)
  · simp only [Settled, Visit.Settles, hwrite]
    rw [hlast.written, or_assoc]
    refine or_congr_right (or_congr_left ⟨?_, fun ⟨stored, hs, hw⟩ => ⟨v, List.mem_cons_self,
        stored, hs, args, hw⟩⟩)
    rintro ⟨v', hv', stored, hs, args', hw⟩
    have hvisit : v' ∈ before ++ v :: rest := List.mem_append_right _ hv'
    obtain ⟨r', hr', hkey, hwrite'⟩ := h.stored hvisit hs hw
    obtain rfl := hsource.eq_of_key (h.behind hsource hvisit hr').1 hrsource hkey
    rw [hwrite] at hwrite'
    cases hwrite'
    obtain rfl | hrest := List.mem_cons.mp hv'
    · exact ⟨stored, hs, hw⟩
    · exact absurd hr' (hapart _ hr v' hrest)
  · have hmark := hlast.marked (r.key.1, table.config.itemId r.key)
      (.inr ⟨v, List.mem_cons_self, hland, r, hmem, hterminal, rfl⟩)
    rw [settled_iff_of_terminal hterminal, and_iff_right hmark,
      Visit.settles_iff_of_terminal hterminal, hlast.rows r hrsource hterminal]
    constructor
    · exact Or.imp_right fun ⟨v', hv', hdelete⟩ => ⟨v', List.mem_append_right _ hv', hdelete⟩
    · rintro (hnone | ⟨v', hv', hdelete⟩)
      · exact .inl hnone
      · obtain hv' | hv' := List.mem_append.mp hv'
        · exact .inl ((hfirst.rows r hrsource hterminal).mpr (.inr ⟨v', hv', hdelete⟩))
        · exact .inr ⟨v', hv', hdelete⟩

/-! ## The loop ends -/

/-- A page that freezes nothing takes the cursor over its rows. -/
theorem place_le_adv (hsource : SourceOk table rank source) {page : Nat}
    (hr : r ∈ selectPage table.config rank source watermark page)
    (hfrozen : (readPage table.config outcome watermark
      (selectPage table.config rank source watermark page)).frozen = false) :
    place table rank r ≤ placeOf table rank
      (readPage table.config outcome watermark
        (selectPage table.config rank source watermark page)).adv := by
  rw [readPage_eq] at hfrozen ⊢
  refine place_le_advanceOver hsource ?_
  rwa [List.takeWhile_eq_self_iff.mpr]
  intro r hr
  simpa using List.any_eq_false.mp hfrozen r hr

theorem length_behind_lt {watermark' : ℚ × String}
    (hr : r ∈ source.filter fun r => decide (placeOf table rank watermark < place table rank r))
    (hpassed : place table rank r ≤ placeOf table rank watermark') :
    (source.filter fun r => decide (placeOf table rank watermark' < place table rank r)).length <
      (source.filter fun r =>
        decide (placeOf table rank watermark < place table rank r)).length := by
  obtain ⟨-, hbehind⟩ := List.mem_filter.mp hr
  have hlt : placeOf table rank watermark < placeOf table rank watermark' :=
    lt_of_lt_of_le (of_decide_eq_true hbehind) hpassed
  have hsub :
      (source.filter fun r => decide (placeOf table rank watermark' < place table rank r)).Sublist
      (source.filter fun r => decide (placeOf table rank watermark < place table rank r)) :=
    List.monotone_filter_right _ fun a ha => decide_eq_true (hlt.trans (of_decide_eq_true ha))
  refine lt_of_le_of_ne hsub.length_le fun hlength => ?_
  rw [← hsub.eq_of_length hlength] at hr
  exact absurd (of_decide_eq_true (List.mem_filter.mp hr).2) (not_lt.mpr hpassed)

/-- The loop ends after at most one page for each row behind the watermark, and one more. -/
theorem runPages_ends (hsource : SourceOk table rank source) {pages : Nat}
    {remaining : Option Nat}
    (hpages : (source.filter fun r =>
      decide (placeOf table rank watermark < place table rank r)).length < pages) :
    (runPages table.config rank outcome poison retries source pages attempts watermark remaining
      t).2 ≠ .running := by
  induction pages generalizing attempts watermark remaining t with
  | zero => exact absurd hpages (Nat.not_lt_zero _)
  | succ pages ih =>
    rw [runPages]
    dsimp only
    generalize (remaining.map (min batch ·)).getD batch = page
    by_cases hpage : page = 0
    · rw [if_pos hpage]
      simp
    rw [if_neg hpage]
    by_cases hrows : selectPage table.config rank source watermark page = []
    · rw [if_pos hrows]
      simp
    rw [if_neg hrows]
    generalize flushBatch poison table.config retries (attempts 0)
      (readPage table.config outcome watermark (selectPage table.config rank source watermark page))
        t = result
    obtain ⟨after, skipped⟩ := result
    cases skipped with
    | none => simp
    | some skipped =>
      dsimp only
      split_ifs with hlast
      · simp
      · refine ih (lt_of_lt_of_le ?_ (Nat.lt_succ_iff.mp hpages))
        have hfrozen : (readPage table.config outcome watermark
            (selectPage table.config rank source watermark page)).frozen = false := by
          cases h : (readPage table.config outcome watermark
              (selectPage table.config rank source watermark page)).frozen
          · rfl
          · simp [h] at hlast
        obtain ⟨r, hr⟩ := List.exists_mem_of_ne_nil _ hrows
        exact length_behind_lt (List.mem_of_mem_take hr) (place_le_adv hsource hr hfrozen)

theorem setCursor_notMem_consumeStmts {cfg : TableConfig} {marker : RowKey}
    {fetched : Option (SourceRow δ × Outcome α)} :
    .setCursor watermark ∉ consumeStmts cfg marker fetched := by
  cases fetched with
  | none => simp [consumeStmts]
  | some read =>
    obtain ⟨row, result⟩ := read
    cases result <;> simp [consumeStmts, Outcome.terminal?]

theorem consumeRequeue_cursor (cfg : TableConfig) (outcome : SourceRow δ → Outcome α)
    (source : List (SourceRow δ)) (listed : List RowKey) (t : Target α) :
    (consumeRequeue cfg outcome source listed t).cursor = t.cursor := by
  rw [consumeRequeue]
  split_ifs
  · induction listed generalizing t with
    | nil => rfl
    | cons marker listed ih =>
      rw [List.foldl_cons, ih]
      refine Target.execAll_rule (fun t' => t'.cursor = t.cursor) (fun s hs t' ht' => ?_) rfl
      rw [← ht']
      cases s with
      | setCursor watermark => exact absurd hs setCursor_notMem_consumeStmts
      | _ => rfl
  · rfl

end Pages

/-! ## A pass -/

section Pass

variable [LinearOrder κ] {table : ReplicatedTable} {rank : CursorParams → κ}
  {outcome : SourceRow δ → Outcome α} {poison : Stmt α → Bool} {source : List (SourceRow δ)}

variable (table rank outcome poison source) in
/-- The cursor has not gone back, and every row that it has passed is settled. -/
def NoRowLeftBehind (t t' : Target α) : Prop :=
  placeOf table rank t.readCursor ≤ placeOf table rank t'.readCursor ∧
    ∀ r ∈ source, placeOf table rank t.readCursor < place table rank r →
      place table rank r ≤ placeOf table rank t'.readCursor → Settled table outcome poison t' r

/-- The pages of `run_table` with `dry_run` false. -/
def tableVisits (cfg : TableConfig) (rank : CursorParams → κ) (outcome : SourceRow δ → Outcome α)
    (poison : Stmt α → Bool) (retries : Nat) (source : List (SourceRow δ)) (listed : List RowKey)
    (limit : Option Nat) (pages : Nat)
    (attempts : Nat → Nat → Attempt) (t : Target α) : List (Visit α δ) :=
  visits cfg rank outcome poison retries source pages attempts t.readCursor limit
    (consumeRequeue cfg outcome source listed { t with written := [] })

/-- A pass leaves no row behind exactly if every page that takes effect settles the rows in front of
its first failure. -/
theorem no_row_left_behind_iff (hsource : SourceOk table rank source) {retries : Nat}
    (hretries : 0 < retries) (listed : List RowKey) (limit : Option Nat) (pages : Nat)
    (attempts : Nat → Nat → Attempt) (t : Target α) :
    NoRowLeftBehind table rank outcome poison source t
        (runTable table.config rank outcome poison retries source listed limit pages attempts t).1 ↔
      let vs :=
        tableVisits table.config rank outcome poison retries source listed limit pages attempts t
      ∀ v ∈ vs, v.landings ≠ [] → ∀ r ∈ v.rows.takeWhile (passes outcome),
        v.Settles table outcome poison vs r := by
  have hpass : Pass table rank outcome source t.readCursor
      (consumeRequeue table.config outcome source listed { t with written := [] })
      (tableVisits table.config rank outcome poison retries source listed limit pages attempts t)
      (runTable table.config rank outcome poison retries source listed limit pages attempts t).1 :=
    runPages_pass hretries pages attempts t.readCursor limit _
  obtain ⟨hle, hpassed⟩ :=
    hpass.cursor hsource (by rw [Target.readCursor, consumeRequeue_cursor]; rfl)
  constructor
  · rintro ⟨-, hsettled⟩ vs v hv hland r hr
    obtain ⟨hmem, hlt⟩ := hpass.behind hsource hv ((List.takeWhile_sublist _).subset hr)
    exact (hpass.settled_iff hsource hv hland hr).mp
      (hsettled r hmem hlt ((hpassed r hmem hlt).mpr ⟨v, hv, hland, hr⟩))
  · intro hsettles
    refine ⟨hle, fun r hr hlt hnew => ?_⟩
    obtain ⟨v, hv, hland, hfront⟩ := (hpassed r hr hlt).mp hnew
    exact (hpass.settled_iff hsource hv hland hfront).mpr (hsettles v hv hland r hfront)

/-- An order of the columns of a cursor for two fixed tables. -/
def sampleRank : CursorParams → Nat
  | .one item => item.length
  | .pair (.num ts) _ => ts.num.toNat
  | .pair (.text ts) _ => if ts = "-infinity" then 0 else ts.length

def twoMessages : List (SourceRow Nat) := [⟨("usr", "m1"), .num 1, 1⟩, ⟨("usr", "m2"), .num 2, 2⟩]

def emptyTarget : Target Nat := ⟨fun _ => none, fun _ => none, none, []⟩

/-- A message that cannot be stored is skipped and the next one is written. -/
theorem no_row_left_behind_iff_twoMessages :
    NoRowLeftBehind .chatMessages sampleRank (fun r => .write r.doc)
      (· == .upsert ("usr", "m1") 1) twoMessages emptyTarget
        (runTable ReplicatedTable.chatMessages.config sampleRank (fun r => .write r.doc)
          (· == .upsert ("usr", "m1") 1) 3
        twoMessages [] none 1 (fun _ _ => calm) emptyTarget).1 := by
  refine (no_row_left_behind_iff ⟨by decide, by decide, ?_⟩ (by decide) [] none 1
      (fun _ _ => calm) emptyTarget).mpr ?_
  · intro r hr
    obtain rfl | rfl : r = ⟨("usr", "m1"), .num 1, 1⟩ ∨ r = ⟨("usr", "m2"), .num 2, 2⟩ := by
      simpa [twoMessages] using hr
    all_goals exact ⟨fun _ => rfl, by decide⟩
  · simp only [Visit.Settles]
    decide +kernel

/-- With both messages behind the watermark the third page is the last one. -/
theorem runPages_ends_twoMessages :
    (runPages ReplicatedTable.chatMessages.config sampleRank (fun r => .write r.doc)
      (fun _ => false) 3 twoMessages 3 (fun _ _ => calm) (0, "") none emptyTarget).2 ≠
        .running := by
  refine runPages_ends ⟨by decide, by decide, fun r hr => ?_⟩ (by decide)
  obtain rfl | rfl : r = ⟨("usr", "m1"), .num 1, 1⟩ ∨ r = ⟨("usr", "m2"), .num 2, 2⟩ := by
    simpa [twoMessages] using hr
  all_goals exact ⟨fun _ => rfl, by decide⟩

/-- A workspace entry that can no longer be copied keeps its copy, since the marker's item is not
the path. An error of the live connection in the fallback leaves a message behind. -/
theorem rows_left_behind :
    ¬ NoRowLeftBehind .v2WorkspaceEntries sampleRank (fun _ => .pendingDeviceMigration "")
      (fun _ => false)
        [⟨("usr", "memo.md"), .text "2026-08-19", 1⟩] { emptyTarget with rows := fun _ => some 1 }
        (runTable ReplicatedTable.v2WorkspaceEntries.config sampleRank
          (fun _ => .pendingDeviceMigration "") (fun _ => false) 3
          [⟨("usr", "memo.md"), .text "2026-08-19", 1⟩] [] none 1 (fun _ _ => calm)
          { emptyTarget with rows := fun _ => some 1 }).1 ∧
    ¬ NoRowLeftBehind .chatMessages sampleRank (fun r => .write r.doc)
      (· == .upsert ("usr", "m1") 1) twoMessages emptyTarget
      (runTable ReplicatedTable.chatMessages.config sampleRank (fun r => .write r.doc)
        (· == .upsert ("usr", "m1") 1) 3 twoMessages [] none 1
        (fun _ _ => { calm with rows := fun k => if k = 1 then .live else .none })
        emptyTarget).1 := by
  constructor
  · rintro ⟨-, hsettled⟩
    have hcopy :=
      (hsettled ⟨("usr", "memo.md"), .text "2026-08-19", 1⟩ (by decide) (by decide) (by decide)).2
    revert hcopy
    decide
  · rintro ⟨-, hsettled⟩
    have hwritten := hsettled ⟨("usr", "m2"), .num 2, 2⟩ (by decide) (by decide) (by decide)
    revert hwritten
    simp only [Settled]
    decide

end Pass

end Replication

end Feedling
