import Feedling.ShadowOutbox

/-!
# The plaintext shadow has no silent gap

The generation of a dirty row says whether its key has changed since it was claimed. What a drain
has read for a claimed generation is therefore current while the generation is the same, and what it
has written is up to date until another reader overwrites it.
-/

namespace Feedling

namespace Shadow

variable {κ ρ α : Type} [DecidableEq κ] {table : κ → String} {lane : String → Lane}
  {view : κ → ρ → Option α}

/-! ## Small facts about the tables -/

section Tables

variable {dirty : κ → Option DirtyRow} {row : DirtyKey κ} {f : DirtyRow → Option DirtyRow}

/-- A fenced update gives no row a generation that it did not have. -/
theorem generationOf_fenced (hf : ∀ r r', f r = some r' → r'.generation = r.generation) {key : κ}
    {g : Nat} (h : generationOf (fenced dirty row f) key = some g) :
    generationOf dirty key = some g := by
  rw [fenced] at h
  cases hrow : dirty row.key with
  | none => rwa [hrow] at h
  | some r =>
    rw [hrow] at h
    dsimp only at h
    split_ifs at h
    · by_cases hkey : key = row.key
      · subst hkey
        rw [generationOf, Function.update_self] at h
        obtain ⟨r', hr', rfl⟩ := Option.map_eq_some_iff.mp h
        rw [generationOf, hrow, Option.map_some, hf r r' hr']
      · rwa [generationOf, Function.update_of_ne hkey] at h
    · exact h

theorem fenced_eq_none {key : κ} (h : fenced dirty row f key = none) :
    dirty key = none ∨ key = row.key ∧ generationOf dirty row.key = some row.generation ∧
      ∃ r, f r = none := by
  rw [fenced] at h
  cases hrow : dirty row.key with
  | none =>
    rw [hrow] at h
    exact .inl h
  | some r =>
    rw [hrow] at h
    dsimp only at h
    split_ifs at h with hgeneration
    · by_cases hkey : key = row.key
      · subst hkey
        rw [Function.update_self] at h
        exact .inr ⟨rfl, by rw [generationOf, hrow, ← hgeneration]; rfl, r, h⟩
      · rw [Function.update_of_ne hkey] at h
        exact .inl h
    · exact .inl h

theorem applyAll_cases (view : κ → ρ → Option α) (target : κ → Option α)
    (seen : List (κ × Option ρ)) (key : κ) :
    (∃ v, (key, v) ∈ seen ∧ applyAll view target seen key = viewOf view key v) ∨
      (∀ v, (key, v) ∉ seen) ∧ applyAll view target seen key = target key := by
  induction seen generalizing target with
  | nil => exact .inr ⟨by simp, rfl⟩
  | cons read seen ih =>
    obtain ⟨v, hv, heq⟩ | ⟨hnone, heq⟩ :=
      ih (Function.update target read.1 (viewOf view read.1 read.2))
    · exact .inl ⟨v, List.mem_cons_of_mem read hv, heq⟩
    · by_cases hkey : key = read.1
      · subst hkey
        refine .inl ⟨read.2, List.mem_cons_self, heq.trans ?_⟩
        rw [Function.update_self]
      · refine .inr ⟨fun v hv => ?_, heq.trans (Function.update_of_ne hkey _ _)⟩
        obtain heq | hmem := List.mem_cons.mp hv
        · exact hkey (by rw [← heq])
        · exact hnone v hmem

end Tables

/-! ## The invariant -/

variable (table lane view) in
/-- A drain against the tables. -/
structure DrainInv (w : ShadowWorld κ ρ α) (d : Drain κ ρ) : Prop where
  claimed : ∀ c ∈ d.rows, c.generation < w.generation
  read : ∀ seen, d.stage = .read seen → ∀ c ∈ d.rows, ∀ v, (c.key, v) ∈ seen →
    generationOf w.dirty c.key = some c.generation → v = w.source c.key
  scope : ∀ seen, d.stage = .read seen → ∀ row rows, d.rows = row :: rows → ∀ c ∈ d.rows,
    c = row ∨ lane (table row.key) = .snapshot ∧ table c.key = table row.key →
      ∃ v, (c.key, v) ∈ seen
  covered : ∀ c ∈ d.rows, Covered table d c → generationOf w.dirty c.key = some c.generation →
    w.target c.key = viewOf view c.key (w.source c.key)

variable (table lane view) in
structure ShadowInv (w : ShadowWorld κ ρ α) : Prop where
  gap : NoSilentGap view w
  fresh : ∀ key g, generationOf w.dirty key = some g → g < w.generation
  drains : ∀ d ∈ w.drains, DrainInv table lane view w d

omit [DecidableEq κ] in
theorem ShadowInv.start (source : κ → Option ρ) : ShadowInv table lane view (.start view source) :=
  ⟨fun _ h => absurd rfl h, fun _ _ h => (by cases h), fun _ h => (by cases h)⟩

variable {w w' : ShadowWorld κ ρ α} {d : Drain κ ρ}

omit [DecidableEq κ] in
theorem DrainInv.of_dirty (h : DrainInv table lane view w d) {dirty : κ → Option DirtyRow}
    (hdirty : ∀ key g, generationOf dirty key = some g → generationOf w.dirty key = some g) :
    DrainInv table lane view { w with dirty := dirty } d :=
  ⟨h.claimed, fun seen hs c hc v hv hg => h.read seen hs c hc v hv (hdirty _ _ hg), h.scope,
    fun c hc hcov hg => h.covered c hc hcov (hdirty _ _ hg)⟩

theorem change_cases (w : ShadowWorld κ ρ α) (key : κ) (row : Option ρ) :
    w.change key row = w ∨ ∃ g, w.generation ≤ g ∧ w.change key row =
      { w with
        source := Function.update w.source key row
        dirty := Function.update w.dirty key (some ⟨g, 0, w.clock, false⟩)
        generation := g + 1 } := by
  rw [ShadowWorld.change]
  by_cases hnone : (row.isNone && (w.source key).isNone) = true
  · exact .inl (if_pos hnone)
  · rw [if_neg hnone]
    refine .inr ⟨_, ?_, rfl⟩
    by_cases hdirty : (w.dirty key).isSome = true
    · rw [if_pos hdirty]
      exact Nat.le_succ _
    · exact Nat.le_of_eq (if_neg hdirty).symm

/-- After a change, the claimed generations of its key are gone. -/
theorem DrainInv.change (h : DrainInv table lane view w d) (key : κ) (row : Option ρ) :
    DrainInv table lane view (w.change key row) d := by
  obtain hsame | ⟨g, hle, hchange⟩ := change_cases w key row
  · rw [hsame]
    exact h
  rw [hchange]
  have hother : ∀ c ∈ d.rows,
      generationOf (Function.update w.dirty key (some ⟨g, 0, w.clock, false⟩)) c.key =
        some c.generation → c.key ≠ key ∧ generationOf w.dirty c.key = some c.generation := by
    intro c hc hgeneration
    by_cases hkey : c.key = key
    · rw [generationOf, hkey, Function.update_self] at hgeneration
      have hsame : g = c.generation := Option.some.inj hgeneration
      exact absurd (h.claimed c hc) (by omega)
    · rw [generationOf, Function.update_of_ne hkey] at hgeneration
      exact ⟨hkey, hgeneration⟩
  constructor
  · exact fun c hc => Nat.lt_of_lt_of_le (h.claimed c hc) (Nat.le_succ_of_le hle)
  · intro seen hs c hc v hv hgeneration
    obtain ⟨hkey, hold⟩ := hother c hc hgeneration
    rw [h.read seen hs c hc v hv hold]
    exact (Function.update_of_ne hkey _ _).symm
  · exact h.scope
  · intro c hc hcov hgeneration
    obtain ⟨hkey, hold⟩ := hother c hc hgeneration
    rw [h.covered c hc hcov hold]
    dsimp only
    rw [Function.update_of_ne hkey]

theorem ShadowInv.change (h : ShadowInv table lane view w) (key : κ) (row : Option ρ) :
    ShadowInv table lane view (w.change key row) := by
  have hdrains := fun d hd => (h.drains d hd).change key row
  obtain hsame | ⟨g, hle, hchange⟩ := change_cases w key row
  · rw [hsame]
    exact h
  rw [hchange] at hdrains ⊢
  refine ⟨fun other hother => ?_, fun other g' hg' => ?_, hdrains⟩
  · by_cases hkey : other = key
    · simp [hkey]
    · dsimp only at hother ⊢
      rw [Function.update_of_ne hkey] at hother ⊢
      exact h.gap other hother
  · dsimp only at hg'
    by_cases hkey : other = key
    · rw [generationOf, hkey, Function.update_self] at hg'
      have hsame : g = g' := Option.some.inj hg'
      dsimp only
      omega
    · rw [generationOf, Function.update_of_ne hkey] at hg'
      exact Nat.lt_of_lt_of_le (h.fresh other g' hg') (Nat.le_succ_of_le hle)

/-- A safe write keeps what the drains have written up to date. -/
theorem DrainInv.applyAll (h : DrainInv table lane view w d) (hd : d ∈ w.drains)
    {seen : List (κ × Option ρ)} (hsafe : SafeToWrite table view w seen) :
    DrainInv table lane view { w with target := Shadow.applyAll view w.target seen } d := by
  refine ⟨h.claimed, h.read, h.scope, fun c hc hcov hgeneration => ?_⟩
  obtain ⟨v, hv, heq⟩ | ⟨-, heq⟩ := applyAll_cases view w.target seen c.key
  · obtain hcurrent | hguarded := hsafe (c.key, v) hv
    · exact heq.trans hcurrent
    · exact absurd hgeneration (hguarded.2 d hd c hc rfl hcov)
  · exact heq.trans (h.covered c hc hcov hgeneration)

theorem ShadowInv.applyAll (h : ShadowInv table lane view w) {seen : List (κ × Option ρ)}
    (hsafe : SafeToWrite table view w seen) :
    ShadowInv table lane view { w with target := Shadow.applyAll view w.target seen } := by
  refine ⟨fun key hkey => ?_, h.fresh, fun d hd => (h.drains d hd).applyAll hd hsafe⟩
  obtain ⟨v, hv, heq⟩ | ⟨-, heq⟩ := applyAll_cases view w.target seen key
  · obtain hcurrent | hguarded := hsafe (key, v) hv
    · exact absurd (heq.trans hcurrent) hkey
    · exact hguarded.1
  · exact h.gap key fun hsame => hkey (heq.trans hsame)

omit [DecidableEq κ] in
theorem ShadowInv.of_dirty (h : ShadowInv table lane view w) {dirty : κ → Option DirtyRow}
    (hdirty : ∀ key g, generationOf dirty key = some g → generationOf w.dirty key = some g)
    (hremoved : ∀ key, dirty key = none → w.dirty key = none ∨
      w.target key = viewOf view key (w.source key)) :
    ShadowInv table lane view { w with dirty := dirty } := by
  refine ⟨fun key hkey hnone => ?_, fun key g hg => h.fresh key g (hdirty key g hg),
    fun d hd => (h.drains d hd).of_dirty hdirty⟩
  obtain hold | hsame := hremoved key hnone
  · exact h.gap key hkey hold
  · exact hkey hsame

/-! ## Steps -/

omit [DecidableEq κ] in
theorem ShadowInv.setDrain (h : ShadowInv table lane view w) {i : Nat} {d : Drain κ ρ}
    (hd : DrainInv table lane view w d) :
    ShadowInv table lane view { w with drains := w.drains.set i d } := by
  refine ⟨h.gap, h.fresh, fun d' hd' => ?_⟩
  obtain hmem | heq := List.mem_or_eq_of_mem_set hd'
  · have := h.drains d' hmem
    exact ⟨this.claimed, this.read, this.scope, this.covered⟩
  · rw [heq]
    exact ⟨hd.claimed, hd.read, hd.scope, hd.covered⟩

omit [DecidableEq κ] in
theorem DrainInv.next (h : DrainInv table lane view w d) {rows : List (DirtyKey κ)}
    {snapshots : List (String × Bool)} (hrows : ∀ c ∈ rows, c ∈ d.rows)
    (hsnapshots : ∀ name, (name, true) ∈ snapshots → (name, true) ∈ d.snapshots) :
    DrainInv table lane view w ⟨rows, .ready, snapshots⟩ := by
  refine ⟨fun c hc => h.claimed c (hrows c hc), nofun, nofun,
    fun c hc hcov => h.covered c (hrows c hc) ?_⟩
  obtain ⟨hstage, -⟩ | hsnapshot := hcov
  · cases hstage
  · exact .inr (hsnapshots _ hsnapshot)

omit [DecidableEq κ] in
theorem DrainInv.read_scope (h : DrainInv table lane view w d) {row : DirtyKey κ}
    {rows : List (DirtyKey κ)} (hrows : d.rows = row :: rows) (others : List κ) :
    DrainInv table lane view w
      { d with stage := .read ((Shadow.scope table lane row rows others).map fun key =>
                   (key, w.source key)) } := by
  constructor
  · exact h.claimed
  · rintro seen ⟨⟩ c hc v hv -
    obtain ⟨key, -, heq⟩ := List.mem_map.mp hv
    cases heq
    rfl
  · rintro seen ⟨⟩ row' rows' hrows' c hc hscope
    dsimp only at hrows' hc
    rw [hrows] at hrows' hc
    cases hrows'
    refine ⟨w.source c.key, List.mem_map.mpr ⟨c.key, ?_, rfl⟩⟩
    rw [Shadow.scope]
    by_cases hlane : lane (table row.key) = .snapshot
    · rw [if_pos hlane]
      refine List.mem_filter.mpr ⟨List.mem_append_left _ (List.mem_map.mpr ⟨c, hc, rfl⟩), ?_⟩
      obtain rfl | ⟨-, htable⟩ := hscope
      · simp
      · simp [htable]
    · rw [if_neg hlane]
      obtain rfl | ⟨hsnapshot, -⟩ := hscope
      · simp
      · exact absurd hsnapshot hlane
  · intro c hc hcov
    refine h.covered c hc ?_
    obtain ⟨hstage, -⟩ | hsnapshot := hcov
    · cases hstage
    · exact .inr hsnapshot

theorem DrainInv.write_seen (h : DrainInv table lane view w d) (hd : d ∈ w.drains)
    {row : DirtyKey κ} {rows : List (DirtyKey κ)} (hrows : d.rows = row :: rows)
    {seen : List (κ × Option ρ)} (hstage : d.stage = .read seen)
    (hsafe : SafeToWrite table view w seen) (pending : Bool) :
    DrainInv table lane view { w with target := Shadow.applyAll view w.target seen }
      { d with
        stage := .written pending
        snapshots := if lane (table row.key) = .snapshot then (table row.key, true) :: d.snapshots
          else d.snapshots } := by
  have hold := h.applyAll hd hsafe
  -- a claimed key that was read is up to date now
  have hseen : ∀ c ∈ d.rows, c = row ∨ lane (table row.key) = .snapshot ∧
      table c.key = table row.key →
        generationOf w.dirty c.key = some c.generation →
        Shadow.applyAll view w.target seen c.key = viewOf view c.key (w.source c.key) := by
    intro c hc hscope hgeneration
    obtain ⟨v, hv, heq⟩ | ⟨hnone, -⟩ := applyAll_cases view w.target seen c.key
    · rw [heq, h.read seen hstage c hc v hv hgeneration]
    · obtain ⟨v, hv⟩ := h.scope seen hstage row rows hrows c hc hscope
      exact absurd hv (hnone v)
  refine ⟨h.claimed, nofun, nofun, fun c hc hcov hgeneration => ?_⟩
  obtain ⟨-, hhead⟩ | hsnapshot := hcov
  · refine hseen c hc (.inl ?_) hgeneration
    dsimp only at hhead
    rw [hrows] at hhead
    exact (Option.some.inj hhead).symm
  · dsimp only at hsnapshot
    split_ifs at hsnapshot with hlane
    · obtain heq | hmem := List.mem_cons.mp hsnapshot
      · exact hseen c hc (.inr ⟨hlane, (Prod.mk.inj heq).1⟩) hgeneration
      · exact hold.covered c hc (.inr hmem) hgeneration
    · exact hold.covered c hc (.inr hsnapshot) hgeneration

section

variable (h : ShadowInv table lane view w)
include h

theorem ShadowInv.fenced (row : DirtyKey κ) {f : DirtyRow → DirtyRow}
    (hf : ∀ r, (f r).generation = r.generation) :
    ShadowInv table lane view
      { w with dirty := Shadow.fenced w.dirty row fun r => some (f r) } := by
  refine h.of_dirty (fun key g => generationOf_fenced ?_) fun key hnone => .inl ?_
  · rintro r r' ⟨⟩
    exact hf r
  · obtain hold | ⟨-, -, r, hr⟩ := fenced_eq_none hnone
    · exact hold
    · cases hr

theorem ShadowInv.ack (hd : d ∈ w.drains) {row : DirtyKey κ} (hrow : row ∈ d.rows)
    (hcovered : Covered table d row) :
    ShadowInv table lane view { w with dirty := Shadow.ack w.dirty row } := by
  refine h.of_dirty (fun key g => generationOf_fenced fun _ _ hr => by cases hr) fun key hnone => ?_
  obtain hold | ⟨rfl, hgeneration, -⟩ := fenced_eq_none hnone
  · exact .inl hold
  · exact .inr ((h.drains d hd).covered row hrow hcovered hgeneration)

theorem ShadowInv.drainStep (hd : d ∈ w.drains) {l : ShadowLabel κ ρ} {d' : Drain κ ρ}
    (hsafe : ∀ i, l = .write i → ∀ seen, d.stage = .read seen → SafeToWrite table view w seen)
    (hstep : Shadow.drainStep table lane view w d l = some (w', d')) :
    ShadowInv table lane view w' ∧ w'.drains = w.drains ∧ DrainInv table lane view w' d' := by
  have hdrain := h.drains d hd
  unfold Shadow.drainStep at hstep
  split at hstep
  · rename_i i others row rows hstage hrows
    split_ifs at hstep
    cases hstep
    exact ⟨h, rfl, hdrain.read_scope hrows others⟩
  · rename_i i seen row rows hstage hrows
    cases hstep
    have hsafe := hsafe i rfl seen hstage
    exact ⟨h.applyAll hsafe, rfl, hdrain.write_seen hd hrows hstage hsafe _⟩
  · rename_i i row rows hstage hrows
    split_ifs at hstep with hsnapshot
    cases hstep
    refine ⟨h, rfl, hdrain.claimed, nofun, nofun, fun c hc hcov => hdrain.covered c hc (.inr ?_)⟩
    obtain ⟨-, hhead⟩ | hcov := hcov
    · dsimp only at hhead
      rw [hrows] at hhead
      cases hhead
      obtain ⟨l₁, l₂, hsplit, -⟩ := List.lookup_eq_some_iff.mp hsnapshot.2
      rw [hsplit]
      simp
    · exact hcov
  · rename_i i pending row rows hstage hrows
    cases hstep
    have hrow : row ∈ d.rows := by
      rw [hrows]
      exact List.mem_cons_self
    have hinv : ShadowInv table lane view
        { w with dirty := if pending then quarantine w.dirty row else Shadow.ack w.dirty row } := by
      cases pending with
      | true => exact h.fenced row fun _ => rfl
      | false => exact h.ack hd hrow (.inl ⟨by rw [hstage]; rfl, by rw [hrows]; rfl⟩)
    refine ⟨hinv, rfl, (hinv.drains d hd).next (fun c hc => ?_) fun _ hmem => hmem⟩
    rw [hrows]
    exact List.mem_cons_of_mem row hc
  · rename_i i row rows hrows
    cases hstep
    have hinv : ShadowInv table lane view { w with dirty := Shadow.fail w.clock w.dirty row } :=
      h.fenced row fun _ => rfl
    refine ⟨hinv, rfl, (hinv.drains d hd).next (fun c hc => ?_) fun name hmem => ?_⟩
    · rw [hrows]
      exact List.mem_cons_of_mem row hc
    · split_ifs at hmem
      · simpa using hmem
      · exact hmem
  · cases hstep

theorem ShadowInv.stepDrain (i : Nat) {l : ShadowLabel κ ρ}
    (hsafe : ∀ j, l = .write j → ∀ d, w.drains[i]? = some d → ∀ seen, d.stage = .read seen →
      SafeToWrite table view w seen) :
    ShadowInv table lane view (Shadow.stepDrain table lane view w i l) := by
  rw [Shadow.stepDrain]
  cases hd : w.drains[i]? with
  | none => exact h
  | some d =>
    dsimp only
    cases hstep : Shadow.drainStep table lane view w d l with
    | none => exact h
    | some next =>
      obtain ⟨w', d'⟩ := next
      obtain ⟨hinv, hdrains, hdrain⟩ :=
        h.drainStep (List.mem_of_getElem? hd) (fun j hl => hsafe j hl d hd) hstep
      dsimp only
      rw [← hdrains]
      exact hinv.setDrain hdrain

end

omit [DecidableEq κ] in
theorem claimable_some {key : κ} {row : DirtyKey κ} (h : w.claimable key = some row) :
    row.key = key ∧ generationOf w.dirty key = some row.generation := by
  rw [ShadowWorld.claimable] at h
  cases hrow : w.dirty key with
  | none =>
    rw [hrow] at h
    cases h
  | some r =>
    rw [hrow] at h
    dsimp only at h
    split_ifs at h
    cases h
    exact ⟨rfl, by rw [generationOf, hrow]; rfl⟩

theorem ShadowInv.lease (h : ShadowInv table lane view w) (rows : List (DirtyKey κ)) :
    ShadowInv table lane view { w with dirty := rows.foldl (Shadow.lease w.clock) w.dirty } := by
  induction rows generalizing w with
  | nil => exact h
  | cons row rows ih =>
    have hrow : ShadowInv table lane view { w with dirty := Shadow.lease w.clock w.dirty row } :=
      h.fenced row fun _ => rfl
    exact ih hrow

theorem ShadowInv.claim (h : ShadowInv table lane view w) (keys : List κ) :
    ShadowInv table lane view (w.claim keys) := by
  have hinv := h.lease (keys.dedup.filterMap w.claimable)
  refine ⟨hinv.gap, hinv.fresh, fun d hd => ?_⟩
  obtain hold | hnew := List.mem_append.mp hd
  · have := hinv.drains d hold
    exact ⟨this.claimed, this.read, this.scope, this.covered⟩
  · rw [List.mem_singleton.mp hnew]
    refine ⟨fun c hc => ?_, nofun, nofun, fun c hc hcov => ?_⟩
    · obtain ⟨key, -, hkey⟩ := List.mem_filterMap.mp hc
      exact h.fresh key c.generation (claimable_some hkey).2
    · obtain ⟨hstage, -⟩ | hsnapshot := hcov
      · cases hstage
      · cases hsnapshot

omit [DecidableEq κ] in
theorem ShadowInv.of_fewer (h : ShadowInv table lane view w) {drains : List (Drain κ ρ)}
    (hdrains : ∀ d ∈ drains, d ∈ w.drains) (pages : List (List (κ × Option ρ))) (clock : Time) :
    ShadowInv table lane view { w with drains := drains, pages := pages, clock := clock } := by
  refine ⟨h.gap, h.fresh, fun d hd => ?_⟩
  have := h.drains d (hdrains d hd)
  exact ⟨this.claimed, this.read, this.scope, this.covered⟩

/-- Every step keeps the invariant, a write if it is safe. -/
theorem ShadowInv.step (w : ShadowWorld κ ρ α) (l : ShadowLabel κ ρ)
    (h : ShadowInv table lane view w) (hsafe : WritesGuarded table view w l) :
    ShadowInv table lane view (shadowStep table lane view w l) := by
  cases l with
  | commit changes =>
    rw [shadowStep]
    induction changes generalizing w with
    | nil => exact h
    | cons change changes ih => exact ih _ (h.change change.1 change.2) trivial
  | claim keys => exact h.claim keys
  | read i others => exact h.stepDrain i nofun
  | write i =>
    refine h.stepDrain i ?_
    rintro j ⟨⟩ d hd seen hstage
    rw [WritesGuarded, hd, Option.map_some, Option.getD_some, hstage] at hsafe
    exact hsafe
  | reuse i => exact h.stepDrain i nofun
  | finish i => exact h.stepDrain i nofun
  | fail i => exact h.stepDrain i nofun
  | crash i => exact h.of_fewer (fun d hd => List.mem_of_mem_eraseIdx hd) w.pages w.clock
  | readPage keys => exact h.of_fewer (fun d hd => hd) _ w.clock
  | writePage j failed =>
    rw [shadowStep]
    cases hpage : w.pages[j]? with
    | none => exact h
    | some page =>
      rw [WritesGuarded, hpage, Option.getD_some] at hsafe
      exact (h.applyAll hsafe).of_fewer (fun d hd => hd) _ w.clock
  | dropPage j => exact h.of_fewer (fun d hd => hd) _ w.clock
  | tick seconds => exact h.of_fewer (fun d hd => hd) w.pages _

/-- In every run whose writes are safe, every key whose target is out of date is dirty. -/
theorem no_silent_gap (source : κ → Option ρ) {labels : List (ShadowLabel κ ρ)}
    (hsafe : Runs.Along (shadowStep table lane view) (WritesGuarded table view)
      (.start view source) labels) :
    NoSilentGap view (Runs.run (shadowStep table lane view) (.start view source) labels) :=
  (Runs.invariant (ShadowInv table lane view) ShadowInv.step (.start source) hsafe).gap

/-- One table of numbers that are copied as they are. -/
def sampleShadow (labels : List (ShadowLabel Nat Nat)) : ShadowWorld Nat Nat Nat :=
  Runs.run (shadowStep (fun _ => "memory_moments") (fun _ => .ciphertext) fun _ row => some row)
    (.start (fun _ row => some row) fun _ => none) labels

/-- A change that comes after the read leaves the key dirty, also after the older row was
written. -/
theorem no_silent_gap_overtaken :
    NoSilentGap (fun _ row => some row) (sampleShadow
      [.commit [(7, some 1)], .claim [7], .read 0 [], .commit [(7, some 2)], .write 0,
        .finish 0]) := by
  refine no_silent_gap (fun _ => none) ?_
  decide

/-- Two drains: the one that has read the older row writes last, after the key was acknowledged. -/
theorem silent_gap_after_older_write :
    (sampleShadow
      [.commit [(7, some 1)], .claim [7], .read 0 [], .commit [(7, some 2)], .claim [7], .read 1 [],
        .write 1, .finish 1, .write 0, .finish 0]).Quiet ∧
    ¬ NoSilentGap (fun _ row => some row) (sampleShadow
      [.commit [(7, some 1)], .claim [7], .read 0 [], .commit [(7, some 2)], .claim [7], .read 1 [],
        .write 1, .finish 1, .write 0, .finish 0]) := by
  refine ⟨by decide, fun h => h 7 (by decide) (by decide)⟩

end Shadow

end Feedling
