import Feedling.RequeueLane

/-!
# No announced change is lost in the requeue lane

The invariant ties the rows that a pass has read to the source: while a page waits to be written,
each of its rows is the current one, or its change is not announced yet, or a requeue marker is
there.
-/

namespace Feedling

namespace Replication

variable {α δ κ : Type} [LinearOrder κ] {table : ReplicatedTable} {rank : CursorParams → κ}
  {outcome : SourceRow δ → Outcome α} {poison : Stmt α → Bool}

variable {t : Target α} {r : SourceRow δ} {failed : RowKey → Bool} {reason : String}

theorem Target.execAll_flatMap_rule (Q : Target α → Prop) {β : Type} {f : β → List (Stmt α)}
    {l : List β} (h : ∀ x ∈ l, ∀ t : Target α, Q t → Q (t.execAll (f x))) (ht : Q t) :
    Q (t.execAll (l.flatMap f)) := by
  induction l generalizing t with
  | nil => exact ht
  | cons x l ih =>
    rw [List.flatMap_cons, Target.execAll_append]
    exact ih (fun y hy => h y (List.mem_cons_of_mem x hy)) (h x List.mem_cons_self t ht)

/-! ## A page that waits to be written -/

variable (table outcome) in
/-- The state of the target while the rows of a page are in flight. -/
structure PageInv (source : List (SourceRow δ)) (announced : RowKey → Bool)
    (rows : List (SourceRow δ)) (t : Target α) : Prop where
  served : ∀ key, announced key = true → Served table outcome (current source key) t key
  rows : ∀ r ∈ rows, announced r.key = true → current source r.key = some r ∨
    isRequeued t (table.markerOf r.key) = true

variable {source rows : List (SourceRow δ)} {announced : RowKey → Bool}

theorem produce_write {args : α} (h : produce outcome failed r = .write args) :
    outcome r = .write args := by
  rw [produce] at h
  split_ifs at h
  exact h

theorem produce_terminal
    (h : (produce outcome failed r).terminal? = some reason) :
    (outcome r).terminal? = some reason := by
  rw [produce] at h
  split_ifs at h
  · cases h
  · exact h

theorem PageInv.upsert (h : PageInv table outcome source announced rows t) (hr : r ∈ rows)
    {args : α} (hwrite : outcome r = .write args) :
    PageInv table outcome source announced rows (t.exec (.upsert r.key args)) := by
  refine ⟨fun key hkey => ?_, h.rows⟩
  by_cases heq : key = r.key
  · subst heq
    obtain hcurrent | hrequeued := h.rows r hr hkey
    · rw [hcurrent]
      exact .inr ((copied_of_write hwrite).mpr (by simp [Target.exec]))
    · exact .inl hrequeued
  · exact (h.served key hkey).congr (by simp [Target.exec, heq]) rfl

section

variable (hnamed : ∀ key, announced key = true →
    table.config.requeueKey (table.markerOf key).1 (table.markerOf key).2 = key)
  (hkeys : rows.Pairwise fun a b => a.key ≠ b.key)
include hnamed hkeys

/-- The statements for a row without a copy serve the key that they name, since its row is
current. -/
theorem PageInv.pend (h : PageInv table outcome source announced rows t) (hr : r ∈ rows)
    (hreason : (outcome r).terminal? = some reason)
    (hcurrent : announced (table.config.requeueKey r.key.1 (table.config.itemId r.key)) = true →
      current source (table.config.requeueKey r.key.1 (table.config.itemId r.key)) = some r)
    (hdelete : table.config.requeueDelete = true) : PageInv table outcome source announced rows
      (t.execAll (pendStmts table.config ((r.key.1, table.config.itemId r.key), reason))) := by
  have hmarker := markerOf_itemId table r.key
  -- of the announced keys, only the named one has this marker
  have hother : ∀ key, announced key = true →
      table.markerOf key = (r.key.1, table.config.itemId r.key) →
        key = table.config.requeueKey r.key.1 (table.config.itemId r.key) := by
    intro key hkey heq
    have := hnamed key hkey
    rw [heq] at this
    exact this.symm
  simp only [pendStmts, if_pos hdelete, List.singleton_append, Target.execAll_cons,
    Target.execAll_nil]
  constructor
  · intro key hkey
    by_cases heq : key = table.config.requeueKey r.key.1 (table.config.itemId r.key)
    · subst heq
      rw [hcurrent hkey]
      exact .inr
        ((copied_of_terminal hreason).mpr ⟨by simp [Target.exec], by simp [Target.exec, hmarker]⟩)
    · have hne : table.markerOf key ≠ (r.key.1, table.config.itemId r.key) :=
        fun hm => heq (hother key hkey hm)
      exact (h.served key hkey).congr (by simp [Target.exec, heq]) (by simp [Target.exec, hne])
  · intro r' hr' hkey
    by_cases hm : table.markerOf r'.key = (r.key.1, table.config.itemId r.key)
    · have heq := hother r'.key hkey hm
      rw [← heq] at hcurrent
      have hsame : r'.key = r.key := (current_some (hcurrent hkey)).2.symm
      have hrow : some r' = some r := by
        rw [← current_of_mem hkeys hr', hsame, current_of_mem hkeys hr]
      exact .inl ((hcurrent hkey).trans hrow.symm)
    · refine (h.rows r' hr' hkey).imp_right fun hrequeued => ?_
      simpa [isRequeued, Target.exec, hm] using hrequeued

/-- Writing the page keeps all announced changes served. -/
theorem PageInv.flush (hdelete : table.config.requeueDelete = true) {watermark : ℚ × String}
    {retries : Nat} {attempts : Nat → Attempt} (h : PageInv table outcome source announced rows t)
    (hcurrent : ∀ r ∈ rows, (produce outcome failed r).terminal?.isSome = true →
      announced (table.config.requeueKey r.key.1 (table.config.itemId r.key)) = true →
      current source (table.config.requeueKey r.key.1 (table.config.itemId r.key)) = some r) :
    PageInv table outcome source announced rows
      (flushBatch poison table.config retries attempts
        (readPage table.config (produce outcome failed) watermark rows) t).1 := by
  refine flushBatch_rule (fun written t hwritten ht => ?_) h
  rw [readPage_eq] at hwritten ⊢
  rw [writePendingAndCursor, Target.execAll_append, Target.execAll_append]
  have hupserts : PageInv table outcome source announced rows
      (t.execAll (upsertStmts written)) := by
    refine Target.execAll_rule (PageInv table outcome source announced rows)
      (fun s hs t ht => ?_) ht
    obtain ⟨w, hw, rfl⟩ := List.mem_map.mp hs
    obtain ⟨r, hr, hwrite⟩ := List.mem_filterMap.mp (hwritten w hw)
    cases hout : produce outcome failed r <;> simp only [writeOf, hout, reduceCtorEq] at hwrite
    cases hwrite
    exact ht.upsert hr (produce_write hout)
  have hpends : PageInv table outcome source announced rows
      ((t.execAll (upsertStmts written)).execAll
        ((rows.filterMap (pendOf table.config (produce outcome failed))).flatMap
          (pendStmts table.config))) := by
    refine Target.execAll_flatMap_rule (PageInv table outcome source announced rows)
      (fun row hrow t ht => ?_) hupserts
    obtain ⟨r, hr, hpend⟩ := List.mem_filterMap.mp hrow
    obtain ⟨reason, hreason, rfl⟩ := Option.map_eq_some_iff.mp hpend
    exact ht.pend hnamed hkeys hr (produce_terminal hreason)
      (hcurrent r hr (by rw [hreason]; rfl)) hdelete
  exact ⟨hpends.served, hpends.rows⟩

end

/-! ## The world -/

variable (table outcome) in
/-- What the pass has read, against the rest of the world. -/
def PhaseInv (w : LaneWorld α δ) : Prop :=
  match w.phase with
  | .idle => True
  | .lane _ markers fetched =>
    ((fetched.map Prod.fst).toList ++ markers).Nodup ∧
      (∀ m ∈ (fetched.map Prod.fst).toList ++ markers, w.target.pending m ≠ none) ∧
      ∀ m r, fetched = some (m, some r) → r.key = table.config.requeueKey m.1 m.2
  | .pages _ _ => True
  | .flushing _ _ _ rows =>
    (rows.Pairwise fun a b => a.key ≠ b.key) ∧
      ∀ r ∈ rows, w.announced r.key = true →
        current w.source r.key = some r ∨ isRequeued w.target (table.markerOf r.key) = true

variable (table outcome) in
structure LaneInv (w : LaneWorld α δ) : Prop where
  keys : w.source.Pairwise fun a b => a.key ≠ b.key
  named : ∀ key, w.announced key = true →
    table.config.requeueKey (table.markerOf key).1 (table.markerOf key).2 = key
  owing : ∀ m ∈ w.owing, table.markerOf (table.config.requeueKey m.1 m.2) = m
  served : NoChangeLost table outcome w
  phase : PhaseInv table w

theorem LaneInv.start (hkeys : source.Pairwise fun a b => a.key ≠ b.key) (target : Target α) :
    LaneInv table outcome (.start source target) :=
  ⟨hkeys, fun _ h => absurd h (by simp [LaneWorld.start]),
    fun _ h => absurd h (by simp [LaneWorld.start]), fun _ h =>
      absurd h (by simp [LaneWorld.start]), trivial⟩

variable {w : LaneWorld α δ}

section

variable (h : LaneInv table outcome w)
include h

theorem LaneInv.commit (user item : String) (change : Option (SortVal × δ)) :
    LaneInv table outcome (laneStep table rank outcome poison w (.commit user item change)) := by
  have hannounced : ∀ key,
      Function.update w.announced (table.config.requeueKey user item) false key = true →
        w.announced key = true ∧ key ≠ table.config.requeueKey user item := by
    intro key hkey
    by_cases heq : key = table.config.requeueKey user item
    · simp [heq] at hkey
    · exact ⟨by simpa [heq] using hkey, heq⟩
  constructor
  · exact keys_commitChange h.keys _ _
  · exact fun key hkey => h.named key (hannounced key hkey).1
  · intro m hm
    obtain hm | hm := List.mem_append.mp hm
    · exact h.owing m hm
    · rw [List.mem_singleton.mp hm, requeueKey_markerItem, markerOf_requeueKey]
  · intro key hkey
    obtain ⟨hkey, hne⟩ := hannounced key hkey
    have hserved := h.served key hkey
    rwa [← current_commitChange table rank w.source hne change] at hserved
  · have hphase := h.phase
    simp only [PhaseInv, laneStep] at hphase ⊢
    cases hw : w.phase with
    | idle => trivial
    | lane watermark markers fetched => rwa [hw] at hphase
    | pages watermark remaining => trivial
    | flushing watermark remaining page rows =>
      rw [hw] at hphase
      refine ⟨hphase.1, fun r hr hkey => ?_⟩
      obtain ⟨hkey, hne⟩ := hannounced r.key hkey
      rw [current_commitChange table rank w.source hne]
      exact hphase.2 r hr hkey

theorem LaneInv.mark (i : Nat) (detail : String) :
    LaneInv table outcome (laneStep table rank outcome poison w (.mark i detail)) := by
  rw [laneStep]
  cases hm : w.owing[i]? with
  | none => exact h
  | some m =>
    dsimp only
    have hmem : m ∈ w.owing := List.mem_of_getElem? hm
    have hself := h.owing m hmem
    have hrequeued : isRequeued (w.target.exec (.mark m ("requeue" ++ detail))) m = true := by
      simp [isRequeued, Target.exec, isRequeue_append]
    have hannounced : ∀ key,
        Function.update w.announced (table.config.requeueKey m.1 m.2) true key = true →
          key = table.config.requeueKey m.1 m.2 ∨ w.announced key = true ∧
            table.markerOf key ≠ m := by
      intro key hkey
      by_cases heq : key = table.config.requeueKey m.1 m.2
      · exact .inl heq
      · have hold : w.announced key = true := by simpa [heq] using hkey
        refine .inr ⟨hold, fun hm => heq ?_⟩
        rw [← hm, h.named key hold]
    constructor
    · exact h.keys
    · intro key hkey
      obtain rfl | ⟨hold, -⟩ := hannounced key hkey
      · rw [hself]
      · exact h.named key hold
    · exact fun m' hm' => h.owing m' (List.mem_of_mem_eraseIdx hm')
    · intro key hkey
      obtain rfl | ⟨hold, hne⟩ := hannounced key hkey
      · exact .inl (by rw [hself]; exact hrequeued)
      · exact (h.served key hold).congr rfl (by simp [Target.exec, hne])
    · have hphase := h.phase
      simp only [PhaseInv] at hphase ⊢
      cases hw : w.phase with
      | idle => trivial
      | lane watermark markers fetched =>
        rw [hw] at hphase
        refine ⟨hphase.1, fun m' hm' => ?_, hphase.2.2⟩
        by_cases heq : m' = m
        · simp [Target.exec, heq]
        · simpa [Target.exec, heq] using hphase.2.1 m' hm'
      | pages watermark remaining => trivial
      | flushing watermark remaining page rows =>
        rw [hw] at hphase
        refine ⟨hphase.1, fun r hr hkey => ?_⟩
        obtain heq | ⟨hold, hne⟩ := hannounced r.key hkey
        · exact .inr (by rw [heq, hself]; exact hrequeued)
        · refine (hphase.2 r hr hold).imp_right fun hold => ?_
          simpa [isRequeued, Target.exec, hne] using hold

theorem LaneInv.setPhase {phase : Phase δ} (hphase : PhaseInv table { w with phase := phase }) :
    LaneInv table outcome { w with phase := phase } :=
  ⟨h.keys, h.named, h.owing, h.served, hphase⟩

theorem LaneInv.listMarkers (markers : List RowKey) :
    LaneInv table outcome (laneStep table rank outcome poison w (.listMarkers markers)) := by
  rw [laneStep]
  split
  · refine h.setPhase ⟨?_, ?_, nofun⟩
    · split_ifs
      · exact List.nodup_dedup _
      · exact List.nodup_nil
    · intro m hm
      split_ifs at hm
      · have hrequeued := (List.mem_filter.mp (List.mem_dedup.mp hm)).2
        intro hnone
        change w.target.pending m = none at hnone
        simp [isRequeued, hnone] at hrequeued
      · cases hm
  · exact h

theorem LaneInv.fetch : LaneInv table outcome (laneStep table rank outcome poison w .fetch) := by
  rw [laneStep]
  split
  · rename_i watermark m markers hw
    have hphase := h.phase
    rw [PhaseInv, hw] at hphase
    refine h.setPhase ⟨hphase.1, hphase.2.1, ?_⟩
    intro m' r hfetched
    obtain ⟨rfl, hrow⟩ := Prod.mk.inj (Option.some.inj hfetched)
    exact (current_some hrow).2
  · exact h

end

theorem LaneInv.consume (hfetch : table.config.requeueFetch = true) (h : LaneInv table outcome w)
    (failed : Bool) (hcurrent : StillCurrent table outcome w (.consume failed)) :
    LaneInv table outcome (laneStep table rank outcome poison w (.consume failed)) := by
  rw [laneStep]
  split
  · rename_i watermark markers m fetched hw
    have hphase := h.phase
    rw [PhaseInv, hw] at hphase
    rw [StillCurrent, hw] at hcurrent
    obtain ⟨hnodup, hpending, hrow⟩ := hphase
    have hfetched : ∀ r, fetched = some r → r.key = table.config.requeueKey m.1 m.2 :=
      fun r hr => hrow m r (by rw [hr])
    refine ⟨h.keys, h.named, h.owing, fun key hkey => ?_, ?_, ?_, nofun⟩
    · have hserved := h.served key hkey
      by_cases hnone : consumed table outcome failed m fetched = []
      · dsimp only
        rw [hnone]
        exact hserved
      by_cases heq : key = table.config.requeueKey m.1 m.2
      · subst heq
        have hsame : current w.source (table.config.requeueKey m.1 m.2) = fetched :=
          hcurrent hnone hkey
        dsimp only
        rw [hsame] at hserved ⊢
        exact served_consumed hfetch (hpending m (by simp)) rfl hfetched hserved
      · refine served_consumed_of_ne hfetch hfetched heq (fun hm => heq ?_) hserved
        rw [← hm, h.named key hkey]
    · exact (List.nodup_cons.mp hnodup).2
    · intro m' hm'
      have hne : m' ≠ m := fun heq => (List.nodup_cons.mp hnodup).1 (heq ▸ hm')
      dsimp only
      rw [pending_consumed hfetch hne]
      exact hpending m' (List.mem_cons_of_mem m hm')
  · exact h

theorem LaneInv.startPages (h : LaneInv table outcome w) (limit : Option Nat) :
    LaneInv table outcome (laneStep table rank outcome poison w (.startPages limit)) := by
  rw [laneStep]
  split
  · exact h.setPhase trivial
  · exact h

theorem LaneInv.select (h : LaneInv table outcome w) :
    LaneInv table outcome (laneStep table rank outcome poison w .select) := by
  rw [laneStep]
  split
  · dsimp only
    split_ifs
    · exact h.setPhase trivial
    · refine h.setPhase ⟨(h.keys.filter _).sublist (List.take_sublist _ _), fun r hr _ => .inl ?_⟩
      exact current_of_mem h.keys (List.mem_of_mem_filter (List.mem_of_mem_take hr))
  · exact h

theorem LaneInv.flush (hfetch : table.config.requeueFetch = true) (h : LaneInv table outcome w)
    (failed : RowKey → Bool) (retries : Nat) (attempts : Nat → Attempt)
    (hcurrent : StillCurrent table outcome w (.flush failed retries attempts)) :
    LaneInv table outcome
      (laneStep table rank outcome poison w (.flush failed retries attempts)) := by
  rw [laneStep]
  split
  · rename_i watermark remaining page rows hw
    have hphase := h.phase
    rw [PhaseInv, hw] at hphase
    rw [StillCurrent, hw] at hcurrent
    have hpage : PageInv table outcome w.source w.announced rows w.target := ⟨h.served, hphase.2⟩
    have hwritten : PageInv table outcome w.source w.announced rows
        (flushBatch poison table.config retries attempts
          (readPage table.config (produce outcome failed) watermark rows) w.target).1 :=
      hpage.flush h.named hphase.1 (requeueDelete_of_requeueFetch hfetch) hcurrent
    dsimp only
    generalize flushBatch poison table.config retries attempts
      (readPage table.config (produce outcome failed) watermark rows) w.target = result at hwritten
    obtain ⟨t, skipped⟩ := result
    cases skipped with
    | none => exact ⟨h.keys, h.named, h.owing, hwritten.served, trivial⟩
    | some skipped =>
      refine ⟨h.keys, h.named, h.owing, hwritten.served, ?_⟩
      dsimp only [PhaseInv]
      split_ifs <;> trivial
  · exact h

/-- Every step keeps the invariant, a consumption and a write of a page if their rows are still
current. -/
theorem LaneInv.step (hfetch : table.config.requeueFetch = true) (w : LaneWorld α δ)
    (l : LaneLabel δ) (h : LaneInv table outcome w) (hcurrent : StillCurrent table outcome w l) :
    LaneInv table outcome (laneStep table rank outcome poison w l) := by
  cases l with
  | commit user item change => exact h.commit user item change
  | mark i detail => exact h.mark i detail
  | listMarkers markers => exact h.listMarkers markers
  | fetch => exact h.fetch
  | consume failed => exact h.consume hfetch failed hcurrent
  | startPages limit => exact h.startPages limit
  | select => exact h.select
  | flush failed retries attempts => exact h.flush hfetch failed retries attempts hcurrent
  | stop => exact h.setPhase trivial

/-- In every run in which no marker is removed or replaced for an outdated row, every announced
change has a requeue marker or is what the target holds. -/
theorem no_announced_change_lost (hfetch : table.config.requeueFetch = true)
    (hkeys : source.Pairwise fun a b => a.key ≠ b.key) (target : Target α)
    {labels : List (LaneLabel δ)}
    (hcurrent : Runs.Along (laneStep table rank outcome poison) (StillCurrent table outcome)
      (.start source target) labels) :
    NoChangeLost table outcome (Runs.run (laneStep table rank outcome poison)
      (.start source target) labels) :=
  (Runs.invariant (LaneInv table outcome) (LaneInv.step hfetch)
      (LaneInv.start hkeys target) hcurrent).served

/-- Documents are numbers here, and a zero cannot be copied. -/
def sampleOutcome (r : SourceRow Nat) : Outcome Nat :=
  if r.doc = 0 then .pendingDeviceMigration "" else .write r.doc

def sampleOrder : CursorParams → Nat
  | .pair (.text ts) _ => ts.length
  | _ => 0

/-- Steps on an empty table of moments. -/
def sampleRun (labels : List (LaneLabel Nat)) : LaneWorld Nat Nat :=
  Runs.run (laneStep .memoryMoments sampleOrder sampleOutcome fun _ => false)
    (.start [] ⟨fun _ => none, fun _ => none, none, []⟩) labels

/-- A moment is written and marked, fetched, changed, consumed, and only then marked again. -/
theorem no_announced_change_lost_interleaved :
    NoChangeLost .memoryMoments sampleOutcome (sampleRun
      [.commit "usr" "m" (some (.text "t", 1)), .mark 0 "", .listMarkers [("usr", "m")], .fetch,
        .commit "usr" "m" (some (.text "t", 2)), .consume false, .mark 0 ""]) := by
  refine no_announced_change_lost rfl List.Pairwise.nil _ ?_
  decide

/-- A second change is marked between the fetch and the transaction for the first marker, and both
are gone. A page with an outdated row that cannot be copied overwrites a marker. -/
theorem announced_changes_lost :
    ¬ NoChangeLost .memoryMoments sampleOutcome (sampleRun
      [.commit "usr" "m" (some (.text "t", 1)), .mark 0 "", .listMarkers [("usr", "m")], .fetch,
        .commit "usr" "m" (some (.text "t", 2)), .mark 0 "", .consume false]) ∧
    ¬ NoChangeLost .memoryMoments sampleOutcome (sampleRun
      [.commit "usr" "m" (some (.text "t", 0)), .listMarkers [], .startPages none, .select,
        .commit "usr" "m" (some (.text "t", 2)), .mark 1 "",
          .flush (fun _ => false) 1 fun _ => calm]) := by
  constructor
  · intro h
    have hserved := h ("usr", "m") (by decide)
    revert hserved
    decide
  · intro h
    have hserved := h ("usr", "m") (by decide)
    revert hserved
    decide

end Replication

end Feedling
