import Feedling.ScheduledWakes
import Feedling.Runs

/-!
# Runs of the timer store

Any number of workers schedule, cancel, claim, fire and block the timers of one user. A worker that
has claimed a timer acts on the record that the claim returned, however stale it is by then.
-/

namespace Feedling

open KeyedTable

/-! ## What a patch changes -/

/-- A patch moves a timer that can still fire to the status `k`, or leaves its status alone. -/
structure ScheduledWake.Evolves (k : ScheduledStatus) (r r' : ScheduledWake) : Prop where
  timerId : r'.timerId = r.timerId
  dueAt : r'.dueAt = r.dueAt
  repeatKind : r'.repeatKind = r.repeatKind
  series : r'.repeatSeriesId = r.repeatSeriesId
  change : r'.status = r.status ∧ r'.claimId = r.claimId ∨ r.pendingLike = true ∧ r'.status = k
  uncanceled : r'.pendingLike = true → r'.repeatCanceledAt = r.repeatCanceledAt

namespace ScheduledWake.Evolves

variable {k : ScheduledStatus} {r r' : ScheduledWake}

theorem refl (k : ScheduledStatus) (r : ScheduledWake) : Evolves k r r :=
  ⟨rfl, rfl, rfl, rfl, .inl ⟨rfl, rfl⟩, fun _ => rfl⟩

theorem final (h : Evolves k r r') (hr : r.pendingLike = false) : r'.status = r.status := by
  rcases h.change with hsame | ⟨hlive, -⟩
  · exact hsame.1
  · rw [hr] at hlive
    cases hlive

theorem pendingLike (h : Evolves k r r') (hr : r'.pendingLike = true) : r.pendingLike = true := by
  by_contra hnot
  have hstatus := h.final (Bool.not_eq_true _ ▸ hnot)
  rw [ScheduledWake.pendingLike, hstatus] at hr
  exact hnot hr

theorem status_of_ne (h : Evolves k r r') (hk : r'.status ≠ k) :
    r'.status = r.status ∧ r'.claimId = r.claimId := by
  rcases h.change with hsame | ⟨-, hstatus⟩
  · exact hsame
  · exact absurd hstatus hk

end ScheduledWake.Evolves

namespace ScheduledLog

variable {k : ScheduledStatus} {log log' : ScheduledLog}

/-- The rows of the log, each patched or not. -/
structure Patched (k : ScheduledStatus) (log log' : ScheduledLog) : Prop where
  kept : ∀ r ∈ log.rows, ∃ r' ∈ log'.rows, r'.seq = r.seq ∧ r.doc.Evolves k r'.doc
  born : ∀ r' ∈ log'.rows, ∃ r ∈ log.rows, r'.seq = r.seq ∧ r.doc.Evolves k r'.doc

theorem Patched.refl (k : ScheduledStatus) (log : ScheduledLog) : Patched k log log where
  kept := fun r hr => ⟨r, hr, rfl, .refl k r.doc⟩
  born := fun r hr => ⟨r, hr, rfl, .refl k r.doc⟩

theorem Patched.modify {p : ScheduledRow → Bool} {f : ScheduledWake → ScheduledWake}
    (h : ∀ r ∈ log.rows, p r = true → r.doc.Evolves k (f r.doc)) :
    Patched k log (log.modify p (fun r => { r with doc := f r.doc }) fun _ => rfl) := by
  have hrow : ∀ r ∈ log.rows, (if p r then { r with doc := f r.doc } else r).seq = r.seq ∧
      r.doc.Evolves k (if p r then { r with doc := f r.doc } else r).doc := by
    intro r hr
    by_cases hp : p r = true
    · rw [if_pos hp]
      exact ⟨rfl, h r hr hp⟩
    · rw [if_neg hp]
      exact ⟨rfl, .refl k r.doc⟩
  constructor
  · intro r hr
    exact ⟨_, List.mem_map_of_mem hr, hrow r hr⟩
  · intro r' hr'
    obtain ⟨r, hr, rfl⟩ := List.mem_map.mp hr'
    exact ⟨r, hr, hrow r hr⟩

theorem latest_spec {timerId : String} {row : ScheduledRow} (h : log.latest timerId = some row) :
    row ∈ log.rows ∧ row.doc.timerId = timerId := by
  have hmem := List.mem_of_getLast? h
  obtain ⟨hrow, hid⟩ := List.mem_filter.mp hmem
  exact ⟨hrow, beq_iff_eq.mp hid⟩

/-- A guarded patch misses, or hits the newest row of the timer. -/
theorem patchLatest_cases (log : ScheduledLog) (timerId : String) (guard : ScheduledWake → Bool)
    (patch : ScheduledWake → ScheduledWake) :
    log.patchLatest timerId guard patch = (log, none) ∨
      ∃ row ∈ log.rows, row.doc.timerId = timerId ∧ guard row.doc = true ∧
        log.patchLatest timerId guard patch =
          (log.patchRow row.seq patch, some (patch row.doc).fromDoc) := by
  unfold patchLatest
  cases hlatest : log.latest timerId with
  | none => exact .inl rfl
  | some row =>
    obtain ⟨hrow, hid⟩ := latest_spec hlatest
    by_cases hguard : guard row.doc = true
    · exact .inr ⟨row, hrow, hid, hguard, by simp only [if_pos hguard]⟩
    · exact .inl (by simp only [if_neg hguard])

theorem Patched.one {row : ScheduledRow} {patch : ScheduledWake → ScheduledWake}
    (hrow : row ∈ log.rows) (h : row.doc.Evolves k (patch row.doc)) :
    Patched k log (log.patchRow row.seq patch) := by
  refine .modify fun r hr hseq => ?_
  have heq : r = row := Serial.eq_of_key_eq hr hrow (beq_iff_eq.mp hseq)
  rw [heq]
  exact h

theorem doc_of_patched {row r' : ScheduledRow} {patch : ScheduledWake → ScheduledWake}
    (hrow : row ∈ log.rows) (hr' : r' ∈ (log.patchRow row.seq patch).rows)
    (hseq : r'.seq = row.seq) : r'.doc = patch row.doc := by
  obtain ⟨r, hr, rfl⟩ := List.mem_map.mp hr'
  by_cases hp : (r.seq == row.seq) = true
  · have heq : r = row := Serial.eq_of_key_eq hr hrow (beq_iff_eq.mp hp)
    rw [if_pos hp, heq]
  · rw [if_neg hp] at hseq
    exact absurd (beq_iff_eq.mpr hseq) hp

theorem mem_of_patched {row r' : ScheduledRow} {patch : ScheduledWake → ScheduledWake}
    (hr' : r' ∈ (log.patchRow row.seq patch).rows)
    (hseq : r'.seq ≠ row.seq) : r' ∈ log.rows := by
  obtain ⟨r, hr, rfl⟩ := List.mem_map.mp hr'
  by_cases hp : (r.seq == row.seq) = true
  · rw [if_pos hp] at hseq
    exact absurd (beq_iff_eq.mp hp) hseq
  · rw [if_neg hp]
    exact hr

theorem Patched.patchLatest {timerId : String} {guard : ScheduledWake → Bool}
    {patch : ScheduledWake → ScheduledWake} (h : ∀ d, guard d = true → d.Evolves k (patch d)) :
    Patched k log (log.patchLatest timerId guard patch).1 := by
  rcases patchLatest_cases log timerId guard patch with heq | ⟨row, hrow, -, hguard, heq⟩
  · rw [heq]
    exact .refl k log
  · rw [heq]
    exact .one hrow (h row.doc hguard)

/-! ## The log of one user -/

/-- A timer id names one row, a slot and a series have at most one timer that can still fire, a
series is named after a timer, and a timer that can fire is not in a canceled series. -/
structure Ok (log : ScheduledLog) : Prop where
  timers : ∀ a ∈ log.rows, ∀ b ∈ log.rows, a.doc.timerId = b.doc.timerId → a.seq = b.seq
  slots : ∀ a ∈ log.rows, ∀ b ∈ log.rows, a.doc.pendingLike = true → b.doc.pendingLike = true →
    a.doc.dueAt = b.doc.dueAt → a.doc.repeatKind = b.doc.repeatKind → a.seq = b.seq
  series : ∀ a ∈ log.rows, ∀ b ∈ log.rows, a.doc.pendingLike = true → b.doc.pendingLike = true →
    a.doc.repeatSeriesId ≠ "" → a.doc.repeatSeriesId = b.doc.repeatSeriesId → a.seq = b.seq
  origins : ∀ a ∈ log.rows, a.doc.repeatSeriesId ≠ "" → ∃ b ∈ log.rows,
    b.doc.timerId = a.doc.repeatSeriesId
  repeats : ∀ a ∈ log.rows, a.doc.repeatKind ≠ .once → a.doc.repeatSeriesId ≠ ""
  uncanceled : ∀ a ∈ log.rows, a.doc.pendingLike = true → a.doc.repeatCanceledAt = 0

theorem Ok.patched (h : log.Ok) (hp : Patched k log log') : log'.Ok := by
  constructor
  case timers =>
    intro a' ha' b' hb' hid
    obtain ⟨a, ha, hsa, hea⟩ := hp.born a' ha'
    obtain ⟨b, hb, hsb, heb⟩ := hp.born b' hb'
    rw [hsa, hsb]
    exact h.timers a ha b hb (by rw [← hea.timerId, ← heb.timerId, hid])
  case slots =>
    intro a' ha' b' hb' hla hlb hdue hrepeat
    obtain ⟨a, ha, hsa, hea⟩ := hp.born a' ha'
    obtain ⟨b, hb, hsb, heb⟩ := hp.born b' hb'
    rw [hsa, hsb]
    refine h.slots a ha b hb (hea.pendingLike hla) (heb.pendingLike hlb) ?_ ?_
    · rw [← hea.dueAt, ← heb.dueAt, hdue]
    · rw [← hea.repeatKind, ← heb.repeatKind, hrepeat]
  case series =>
    intro a' ha' b' hb' hla hlb hne hseries
    obtain ⟨a, ha, hsa, hea⟩ := hp.born a' ha'
    obtain ⟨b, hb, hsb, heb⟩ := hp.born b' hb'
    rw [hsa, hsb]
    rw [hea.series] at hne hseries
    exact h.series a ha b hb (hea.pendingLike hla) (heb.pendingLike hlb) hne
      (hseries.trans heb.series)
  case origins =>
    intro a' ha' hne
    obtain ⟨a, ha, -, hea⟩ := hp.born a' ha'
    rw [hea.series] at hne ⊢
    obtain ⟨b, hb, hid⟩ := h.origins a ha hne
    obtain ⟨b', hb', -, heb⟩ := hp.kept b hb
    exact ⟨b', hb', heb.timerId.trans hid⟩
  case repeats =>
    intro a' ha' hrepeat
    obtain ⟨a, ha, -, hea⟩ := hp.born a' ha'
    rw [hea.series]
    exact h.repeats a ha (hea.repeatKind ▸ hrepeat)
  case uncanceled =>
    intro a' ha' hla
    obtain ⟨a, ha, -, hea⟩ := hp.born a' ha'
    rw [hea.uncanceled hla]
    exact h.uncanceled a ha (hea.pendingLike hla)

variable {doc : ScheduledWake}

theorem mem_append {r : ScheduledRow} :
    r ∈ (log.append doc).rows ↔ r ∈ log.rows ∨ r = ⟨log.next, doc⟩ := by
  simp [append, Serial.insert]

theorem inSlot_eq_none {dueAt : ℚ} {repeatKind : WakeRepeat}
    (h : log.inSlot dueAt repeatKind = none) {r : ScheduledRow} (hr : r ∈ log.rows)
    (hlive : r.doc.pendingLike = true) (hdue : r.doc.dueAt = dueAt) :
    r.doc.repeatKind ≠ repeatKind := by
  intro hrepeat
  rw [inSlot, Option.map_eq_none_iff, List.getLast?_eq_none_iff] at h
  have hmem : r ∈ log.rows.filter (sameSlot dueAt repeatKind) :=
    List.mem_filter.mpr ⟨hr, by simp [sameSlot, hlive, hdue, hrepeat]⟩
  rw [h] at hmem
  cases hmem

theorem inSlot_eq_some {dueAt : ℚ} {repeatKind : WakeRepeat}
    (h : log.inSlot dueAt repeatKind = some doc) :
    ∃ r ∈ log.rows, r.doc = doc ∧ r.doc.pendingLike = true ∧ r.doc.dueAt = dueAt ∧
      r.doc.repeatKind = repeatKind := by
  obtain ⟨r, hlast, hdoc⟩ := Option.map_eq_some_iff.mp h
  obtain ⟨hr, hslot⟩ := List.mem_filter.mp (List.mem_of_getLast? hlast)
  simp only [sameSlot, Bool.and_eq_true, beq_iff_eq] at hslot
  exact ⟨r, hr, hdoc, hslot.1.1, hslot.1.2, hslot.2⟩

/-- A timer that may be added: its id is new, its slot is free, and its series is its own or one
that no other timer can fire for. -/
structure Admits (log : ScheduledLog) (doc : ScheduledWake) : Prop where
  fresh : ∀ r ∈ log.rows, r.doc.timerId ≠ doc.timerId
  slot : log.inSlot doc.dueAt doc.repeatKind = none
  idle : doc.repeatSeriesId ≠ "" → ∀ r ∈ log.rows, r.doc.pendingLike = true →
    r.doc.repeatSeriesId ≠ doc.repeatSeriesId
  origin : doc.repeatSeriesId ≠ "" →
    doc.repeatSeriesId = doc.timerId ∨ ∃ b ∈ log.rows, b.doc.timerId = doc.repeatSeriesId
  repeats : doc.repeatKind ≠ .once → doc.repeatSeriesId ≠ ""
  uncanceled : doc.repeatCanceledAt = 0

theorem Ok.append (h : log.Ok) (hdoc : Admits log doc) : (log.append doc).Ok := by
  constructor
  case timers =>
    intro a ha b hb hid
    rcases mem_append.mp ha with ha | rfl <;> rcases mem_append.mp hb with hb | rfl
    · exact h.timers a ha b hb hid
    · exact absurd hid (hdoc.fresh a ha)
    · exact absurd hid.symm (hdoc.fresh b hb)
    · rfl
  case slots =>
    intro a ha b hb hla hlb hdue hrepeat
    rcases mem_append.mp ha with ha | rfl <;> rcases mem_append.mp hb with hb | rfl
    · exact h.slots a ha b hb hla hlb hdue hrepeat
    · exact absurd hrepeat (inSlot_eq_none hdoc.slot ha hla hdue)
    · exact absurd hrepeat.symm (inSlot_eq_none hdoc.slot hb hlb hdue.symm)
    · rfl
  case series =>
    intro a ha b hb hla hlb hne hseries
    rcases mem_append.mp ha with ha | rfl <;> rcases mem_append.mp hb with hb | rfl
    · exact h.series a ha b hb hla hlb hne hseries
    · exact absurd hseries (hdoc.idle (hseries ▸ hne) a ha hla)
    · exact absurd hseries.symm (hdoc.idle hne b hb hlb)
    · rfl
  case origins =>
    intro a ha hne
    rcases mem_append.mp ha with ha | rfl
    · obtain ⟨b, hb, hid⟩ := h.origins a ha hne
      exact ⟨b, mem_append.mpr (.inl hb), hid⟩
    · rcases hdoc.origin hne with hself | ⟨b, hb, hid⟩
      · exact ⟨_, mem_append.mpr (.inr rfl), hself.symm⟩
      · exact ⟨b, mem_append.mpr (.inl hb), hid⟩
  case repeats =>
    intro a ha hrepeat
    rcases mem_append.mp ha with ha | rfl
    · exact h.repeats a ha hrepeat
    · exact hdoc.repeats hrepeat
  case uncanceled =>
    intro a ha hla
    rcases mem_append.mp ha with ha | rfl
    · exact h.uncanceled a ha hla
    · exact hdoc.uncanceled

/-! ## One call -/

variable {now : ℚ} {d : ScheduledWake}

theorem evolves_canceled {reason : String} (h : d.pendingLike = true) :
    d.Evolves .canceled (canceled reason now d) :=
  ⟨rfl, rfl, rfl, rfl, .inr ⟨h, rfl⟩, fun hlive => nomatch hlive⟩

theorem evolves_seriesCanceled (reason : String) (now : ℚ) (d : ScheduledWake) :
    d.Evolves .canceled (seriesCanceled reason now d) := by
  unfold seriesCanceled
  by_cases hlive : d.pendingLike = true
  · simp only [if_pos hlive]
    exact ⟨rfl, rfl, rfl, rfl, .inr ⟨hlive, rfl⟩, fun h => nomatch h⟩
  · simp only [if_neg hlive]
    exact ⟨rfl, rfl, rfl, rfl, .inl ⟨rfl, rfl⟩, fun h => absurd h hlive⟩

theorem Patched.cancel (timerId reason : String) (now : ℚ) :
    Patched .canceled log (log.cancel timerId reason now).1 := by
  unfold ScheduledLog.cancel
  cases hlatest : log.latest timerId with
  | none => exact .refl _ log
  | some target =>
    dsimp only
    split
    · exact .modify fun r _ _ => evolves_seriesCanceled reason now r.doc
    · exact .patchLatest fun d hlive => evolves_canceled hlive

/-- No timer of a series can fire after the series was canceled. -/
theorem cancel_series {timerId reason : String} {target : ScheduledRow}
    (hlatest : log.latest timerId = some target) (hrepeat : target.doc.repeatKind ≠ .once)
    (hseries : target.doc.repeatSeriesId ≠ "") :
    ∀ r ∈ (log.cancel timerId reason now).1.rows, r.doc.repeatSeriesId = target.doc.repeatSeriesId →
      r.doc.pendingLike = false := by
  intro r hr hsame
  simp only [cancel, hlatest, if_pos (And.intro hrepeat hseries)] at hr
  obtain ⟨x, -, rfl⟩ := List.mem_map.mp hr
  by_cases hp : (x.doc.repeatSeriesId == target.doc.repeatSeriesId) = true
  · rw [if_pos hp]
    show (seriesCanceled reason now x.doc).pendingLike = false
    unfold seriesCanceled
    by_cases hlive : x.doc.pendingLike = true
    · simp only [if_pos hlive]
      rfl
    · simp only [if_neg hlive]
      exact Bool.not_eq_true _ ▸ hlive
  · rw [if_neg hp] at hsame
    exact absurd (beq_iff_eq.mpr hsame) hp

theorem Patched.markBlocked (timerId claimId reason transparencyWakeId : String) (now : ℚ) :
    Patched .blocked log (log.markBlocked timerId claimId reason transparencyWakeId now).1 := by
  refine .patchLatest fun d hguard => ?_
  have hclaimed : d.status = .claimed := beq_iff_eq.mp (Bool.and_eq_true_iff.mp hguard).1
  exact ⟨rfl, rfl, rfl, rfl, .inr ⟨by rw [ScheduledWake.pendingLike, hclaimed]; rfl, rfl⟩,
    fun hlive => nomatch hlive⟩

theorem evolves_claimedBy {claimId ownerId : String} {now ttl : ℚ} (h : claimable now d = true) :
    d.Evolves .claimed (claimedBy claimId ownerId now ttl d) := by
  have hlive : d.pendingLike = true := by
    simp only [claimable, Bool.and_eq_true, Bool.or_eq_true, beq_iff_eq] at h
    rcases h.2 with hstatus | ⟨hstatus, -⟩
    · rw [ScheduledWake.pendingLike, hstatus]
      rfl
    · rw [ScheduledWake.pendingLike, hstatus]
      rfl
  exact ⟨rfl, rfl, rfl, rfl, .inr ⟨hlive, rfl⟩, fun _ => rfl⟩

theorem mayFire_spec {claimId : String} (h : mayFire claimId d = true) :
    d.status = .claimed ∧ d.claimId = claimId := by
  simp only [mayFire, Bool.and_eq_true, beq_iff_eq] at h
  exact h.1

theorem evolves_firedAs {claimId wakeId : String} {jobId : Int}
    (h : mayFire claimId d = true) : d.Evolves .fired (firedAs wakeId jobId now d) := by
  have hlive : d.pendingLike = true := by
    rw [ScheduledWake.pendingLike, (mayFire_spec h).1]
    rfl
  exact ⟨rfl, rfl, rfl, rfl, .inr ⟨hlive, rfl⟩, fun h => nomatch h⟩

/-- The successor is in the log, or somebody else is in its slot. -/
def Holds (log : ScheduledLog) (next : ScheduledWake) : Prop :=
  ∃ n ∈ log.rows, n.doc.pendingLike = true ∧ n.doc.repeatKind = next.repeatKind ∧
    n.doc.dueAt = next.dueAt

/-- `mark_fired` misses; or it fires the timer with the claim, and adds the successor unless its
slot is taken. -/
theorem markFired_cases (log : ScheduledLog) (timerId claimId wakeId : String) (jobId : Int)
    (now : ℚ) {nextRecord : Option ScheduledWake}
    (hpending : ∀ next, nextRecord = some next → next.status = .pending) :
    log.markFired timerId claimId wakeId jobId now nextRecord = (log, none) ∨
      ∃ row ∈ log.rows, ∃ fired : ScheduledLog, row.doc.timerId = timerId ∧
        row.doc.status = .claimed ∧ row.doc.claimId = claimId ∧ Patched .fired log fired ∧
        (∀ r ∈ fired.rows, r.seq = row.seq → r.doc.status = .fired) ∧
        (∀ r ∈ fired.rows, r.seq ≠ row.seq → r ∈ log.rows) ∧
        (log.markFired timerId claimId wakeId jobId now nextRecord).2.isSome = true ∧
        ((log.markFired timerId claimId wakeId jobId now nextRecord).1 = fired ∨
          ∃ next, nextRecord = some next ∧ inSlot fired next.dueAt next.repeatKind = none ∧
            (log.markFired timerId claimId wakeId jobId now nextRecord).1 = append fired next) ∧
        ∀ next, nextRecord = some next →
          Holds (log.markFired timerId claimId wakeId jobId now nextRecord).1 next := by
  rcases patchLatest_cases log timerId (mayFire claimId) (firedAs wakeId jobId now) with heq | ⟨row,
    hrow, hid, hguard, heq⟩
  · exact .inl (by simp only [markFired, heq])
  · obtain ⟨hstatus, hclaim⟩ := mayFire_spec hguard
    refine .inr ⟨row, hrow, log.patchRow row.seq (firedAs wakeId jobId now), hid, hstatus, hclaim,
      .one hrow (evolves_firedAs hguard), ?_,
      fun r hr hseq => mem_of_patched hr hseq, ?_⟩
    · intro r hr hseq
      rw [doc_of_patched hrow hr hseq]
      rfl
    · cases hnext : nextRecord with
      | none =>
        simp only [markFired, heq]
        exact ⟨rfl, .inl trivial, fun next h => nomatch h⟩
      | some next =>
        cases hslot : inSlot (log.patchRow row.seq (firedAs wakeId jobId now)) next.dueAt
          next.repeatKind with
        | some existing =>
          simp only [markFired, heq, hslot]
          refine ⟨rfl, .inl trivial, ?_⟩
          rintro _ ⟨⟩
          obtain ⟨n, hn, -, hlive, hdue, hrepeat⟩ := inSlot_eq_some hslot
          exact ⟨n, hn, hlive, hrepeat, hdue⟩
        | none =>
          simp only [markFired, heq, hslot]
          refine ⟨rfl, .inr ⟨next, rfl, hslot, rfl⟩, ?_⟩
          rintro _ ⟨⟩
          refine ⟨_, mem_append.mpr (.inr rfl), ?_, rfl, rfl⟩
          rw [ScheduledWake.pendingLike, hpending next hnext]
          rfl

end ScheduledLog

/-! ## Runs -/

/-- The log, the records that claims have returned so far, oldest first, and the timers that
`mark_fired` has fired. -/
structure ScheduleWorld where
  log : ScheduledLog
  claims : List ScheduledWake
  firings : List String

inductive ScheduleLabel where
  | schedule (action : ScheduleAction) (now : ℚ)
  | cancel (timerId reason : String) (now : ℚ)
  /-- A turn of `_enforce_pending_cap` over the records that it has read at some time. -/
  | evict (seen : List ScheduledWake) (cap : Nat) (keepTimerId : String) (now : ℚ)
  | claimDue (timerId claimId ownerId : String) (now ttl : ℚ)
  | markFired (claimed : ScheduledWake) (wakeId : String) (jobId : Int) (nextTimerId : String)
      (now : ℚ)
  | markBlocked (claimed : ScheduledWake) (reason transparencyWakeId : String) (now : ℚ)

namespace ScheduleWorld

variable (wallTime : ℚ → String → String)

def initial : ScheduleWorld := ⟨Serial.empty 1, [], []⟩

/-- The timer that the step cancels. -/
def cancels : ScheduleLabel → Option (String × String × ℚ)
  | .cancel timerId reason now => some (timerId, reason, now)
  | .evict seen cap keepTimerId now =>
    (ScheduledLog.capVictim cap keepTimerId seen).map fun victim => (victim.timerId,
        "pending_cap_evicted", now)
  | _ => none

def cancelStep (w : ScheduleWorld) : Option (String × String × ℚ) → ScheduleWorld
  | some (timerId, reason, now) => { w with log := (w.log.cancel timerId reason now).1 }
  | none => w

def step (w : ScheduleWorld) : ScheduleLabel → ScheduleWorld
  | .schedule action now => { w with log := (w.log.createUniquePending (action.record now)).1 }
  | .cancel timerId reason now => w.cancelStep (cancels (.cancel timerId reason now))
  | .evict seen cap keepTimerId now => w.cancelStep (cancels (.evict seen cap keepTimerId now))
  | .claimDue timerId claimId ownerId now ttl =>
    let (log, claimed) := w.log.claimDue timerId claimId ownerId now ttl
    { w with log := log, claims := w.claims ++ claimed.toList }
  | .markFired claimed wakeId jobId nextTimerId now =>
    let (log, fired) := w.log.markFired claimed.timerId claimed.claimId wakeId jobId now
      (claimed.nextRepeatRecord wallTime nextTimerId now)
    { w with log := log
             firings := if fired.isSome then w.firings ++ [claimed.timerId] else w.firings }
  | .markBlocked claimed reason transparencyWakeId now =>
    { w with
      log := (w.log.markBlocked claimed.timerId claimed.claimId reason transparencyWakeId now).1 }

def newTimer (w : ScheduleWorld) (timerId : String) : Prop :=
  timerId ≠ "" ∧ ∀ r ∈ w.log.rows, r.doc.timerId ≠ timerId

/-- New ids are new, and a worker fires or blocks what one of its claims has returned. -/
def Allowed (w : ScheduleWorld) : ScheduleLabel → Prop
  | .schedule action _ => w.newTimer action.timerId
  | .claimDue _ claimId _ _ _ => ∀ c ∈ w.claims, c.claimId ≠ claimId
  | .markFired claimed _ _ nextTimerId _ => claimed ∈ w.claims ∧ w.newTimer nextTimerId
  | .markBlocked claimed _ _ _ => claimed ∈ w.claims
  | .cancel .. | .evict .. => True

instance (w : ScheduleWorld) (timerId : String) : Decidable (w.newTimer timerId) :=
  inferInstanceAs (Decidable (timerId ≠ "" ∧ ∀ r ∈ w.log.rows, r.doc.timerId ≠ timerId))

instance (w : ScheduleWorld) (l : ScheduleLabel) : Decidable (w.Allowed l) :=
  match l with
  | .schedule action _ => inferInstanceAs (Decidable (w.newTimer action.timerId))
  | .claimDue _ claimId _ _ _ => inferInstanceAs (Decidable (∀ c ∈ w.claims, c.claimId ≠ claimId))
  | .markFired claimed _ _ nextTimerId _ =>
    inferInstanceAs (Decidable (claimed ∈ w.claims ∧ w.newTimer nextTimerId))
  | .markBlocked claimed _ _ _ => inferInstanceAs (Decidable (claimed ∈ w.claims))
  | .cancel .. => isTrue trivial
  | .evict .. => isTrue trivial

def currentClaim (w : ScheduleWorld) (timerId : String) : Option ScheduledWake :=
  (w.claims.filter fun c => c.timerId == timerId).getLast?

/-- A record that a claim returned, against the row of its timer. -/
structure Snapshot (c : ScheduledWake) (r : ScheduledWake) : Prop where
  timerId : r.timerId = c.timerId
  dueAt : r.dueAt = c.dueAt
  repeatKind : r.repeatKind = c.repeatKind
  series : r.repeatSeriesId = c.repeatSeriesId

structure Inv (w : ScheduleWorld) : Prop where
  ok : w.log.Ok
  claimed : ∀ c ∈ w.claims, c.repeatCanceledAt = 0 ∧ ∃ r ∈ w.log.rows, Snapshot c r.doc
  current : ∀ r ∈ w.log.rows, r.doc.status = .claimed →
    ∃ c, w.currentClaim r.doc.timerId = some c ∧ c.claimId = r.doc.claimId
  claimIds : (w.claims.map (·.claimId)).Nodup
  fired : ∀ t ∈ w.firings, ∃ r ∈ w.log.rows, r.doc.timerId = t ∧ r.doc.status = .fired
  once : w.firings.Nodup

theorem Inv.initial : Inv initial where
  ok := by constructor <;> intro a ha <;> cases ha
  claimed := by intro c hc; cases hc
  current := by intro r hr; cases hr
  claimIds := List.nodup_nil
  fired := by intro t ht; cases ht
  once := List.nodup_nil

variable {wallTime} {w : ScheduleWorld} {k : ScheduledStatus}

/-! ### What a step does to the log -/

/-- A row evolves, or it is new and its series is its own or that of a timer that just fired. -/
structure LogStep (log log' : ScheduledLog) : Prop where
  kept : ∀ r ∈ log.rows, ∃ k, ∃ r' ∈ log'.rows, r'.seq = r.seq ∧ r.doc.Evolves k r'.doc
  born : ∀ r' ∈ log'.rows, (∃ k, ∃ r ∈ log.rows, r'.seq = r.seq ∧ r.doc.Evolves k r'.doc) ∨
    (∀ r ∈ log.rows, r.doc.timerId ≠ r'.doc.timerId) ∧ (r'.doc.repeatSeriesId = "" ∨
      r'.doc.repeatSeriesId = r'.doc.timerId ∨
      ∃ r ∈ log.rows, r.doc.repeatSeriesId = r'.doc.repeatSeriesId ∧ r.doc.pendingLike = true)

variable {log log' : ScheduledLog}

theorem LogStep.of_patched (h : ScheduledLog.Patched k log log') : LogStep log log' where
  kept := fun r hr => ⟨k, h.kept r hr⟩
  born := fun r hr => .inl ⟨k, h.born r hr⟩

theorem LogStep.of_append {doc : ScheduledWake} (h : ScheduledLog.Patched k log log')
    (hfresh : ∀ r ∈ log.rows, r.doc.timerId ≠ doc.timerId)
    (hseries : doc.repeatSeriesId = "" ∨ doc.repeatSeriesId = doc.timerId ∨
      ∃ r ∈ log.rows, r.doc.repeatSeriesId = doc.repeatSeriesId ∧ r.doc.pendingLike = true) :
    LogStep log (log'.append doc) where
  kept := by
    intro r hr
    obtain ⟨r', hr', hev⟩ := h.kept r hr
    exact ⟨k, r', ScheduledLog.mem_append.mpr (.inl hr'), hev⟩
  born := by
    intro r' hr'
    rcases ScheduledLog.mem_append.mp hr' with hr' | rfl
    · exact .inl ⟨k, h.born r' hr'⟩
    · exact .inr ⟨hfresh, hseries⟩

variable {log : ScheduledLog}

/-- A log that only patches keeps what the world knows, as long as it claims and fires nothing
new. -/
theorem Inv.patched (h : Inv w) (hp : ScheduledLog.Patched k w.log log) (hk : k ≠ .claimed) :
    Inv { w with log := log } where
  ok := h.ok.patched hp
  claimed := by
    intro c hc
    obtain ⟨huncanceled, r, hr, hsnap⟩ := h.claimed c hc
    obtain ⟨r', hr', -, hev⟩ := hp.kept r hr
    exact ⟨huncanceled, r', hr', hev.timerId.trans hsnap.timerId, hev.dueAt.trans hsnap.dueAt,
      hev.repeatKind.trans hsnap.repeatKind, hev.series.trans hsnap.series⟩
  current := by
    intro r' hr' hstatus
    obtain ⟨r, hr, -, hev⟩ := hp.born r' hr'
    obtain ⟨hsame, hid⟩ := hev.status_of_ne (by rw [hstatus]; exact hk.symm)
    obtain ⟨c, hc, hclaim⟩ := h.current r hr (hsame.symm.trans hstatus)
    rw [hev.timerId]
    exact ⟨c, hc, hclaim.trans hid.symm⟩
  claimIds := h.claimIds
  fired := by
    intro t ht
    obtain ⟨r, hr, hid, hstatus⟩ := h.fired t ht
    obtain ⟨r', hr', -, hev⟩ := hp.kept r hr
    have hfinal : r.doc.pendingLike = false := by rw [ScheduledWake.pendingLike, hstatus]; rfl
    exact ⟨r', hr', hev.timerId.trans hid, (hev.final hfinal).trans hstatus⟩
  once := h.once

theorem Inv.append {doc : ScheduledWake} (h : Inv w) (hdoc : ScheduledLog.Admits w.log doc)
    (hpending : doc.status = .pending) : Inv { w with log := w.log.append doc } where
  ok := h.ok.append hdoc
  claimed := by
    intro c hc
    obtain ⟨huncanceled, r, hr, hsnap⟩ := h.claimed c hc
    exact ⟨huncanceled, r, ScheduledLog.mem_append.mpr (.inl hr), hsnap⟩
  current := by
    intro r hr hstatus
    rcases ScheduledLog.mem_append.mp hr with hr | rfl
    · exact h.current r hr hstatus
    · rw [hpending] at hstatus
      cases hstatus
  claimIds := h.claimIds
  fired := by
    intro t ht
    obtain ⟨r, hr, hfired⟩ := h.fired t ht
    exact ⟨r, ScheduledLog.mem_append.mpr (.inl hr), hfired⟩
  once := h.once

/-! ### The steps -/

theorem cancelStep_patched (w : ScheduleWorld) (target : Option (String × String × ℚ)) :
    ∃ log, ScheduledLog.Patched .canceled w.log log ∧
      w.cancelStep target = { w with log := log } := by
  cases target with
  | none => exact ⟨w.log, .refl _ _, rfl⟩
  | some target => exact ⟨_, .cancel target.1 target.2.1 target.2.2, rfl⟩

/-- What every step owes. -/
structure StepFacts (wallTime : ℚ → String → String) (w : ScheduleWorld) (l : ScheduleLabel) :
    Prop where
  inv : Inv (w.step wallTime l)
  logStep : LogStep w.log (w.step wallTime l).log
  /-- Only the holder of the current claim fires a timer, and a repeating one has a successor
  then. -/
  fires : ∀ r' ∈ (w.step wallTime l).log.rows, r'.doc.status = .fired →
    (∀ r ∈ w.log.rows, r.seq = r'.seq → r.doc.status ≠ .fired) →
    (∃ c wakeId jobId nextTimerId now, l = .markFired c wakeId jobId nextTimerId now ∧
      c.timerId = r'.doc.timerId ∧ w.currentClaim c.timerId = some c ∧
      (w.step wallTime l).firings = w.firings ++ [c.timerId]) ∧
    ∀ interval, r'.doc.repeatKind.interval = some interval →
      ∃ n ∈ (w.step wallTime l).log.rows, n.doc.pendingLike = true ∧
        n.doc.repeatKind = r'.doc.repeatKind ∧ n.doc.dueAt = r'.doc.dueAt + interval

theorem not_fired_of_patched (hp : ScheduledLog.Patched k w.log log) (hk : k ≠ .fired)
    {r' : ScheduledRow} (hr' : r' ∈ log.rows) (hfired : r'.doc.status = .fired)
    (hbefore : ∀ r ∈ w.log.rows, r.seq = r'.seq → r.doc.status ≠ .fired) : False := by
  obtain ⟨r, hr, hseq, hev⟩ := hp.born r' hr'
  have hsame := (hev.status_of_ne (by rw [hfired]; exact hk.symm)).1
  exact hbefore r hr hseq.symm (hsame.symm.trans hfired)

variable {l : ScheduleLabel}

theorem StepFacts.of_patched (h : Inv w)
    (hp : ScheduledLog.Patched k w.log log) (hclaim : k ≠ .claimed) (hfire : k ≠ .fired)
    (hstep : w.step wallTime l = { w with log := log }) : StepFacts wallTime w l where
  inv := by rw [hstep]; exact h.patched hp hclaim
  logStep := by rw [hstep]; exact .of_patched hp
  fires := by
    intro r' hr' hfired hbefore
    rw [hstep] at hr'
    exact (not_fired_of_patched hp hfire hr' hfired hbefore).elim

theorem StepFacts.cancels (h : Inv w) (target : Option (String × String × ℚ))
    (hstep : w.step wallTime l = w.cancelStep target) : StepFacts wallTime w l := by
  obtain ⟨log, hp, heq⟩ := cancelStep_patched w target
  exact .of_patched h hp (by decide) (by decide) (hstep.trans heq)

theorem StepFacts.markBlocked (h : Inv w) (claimed : ScheduledWake)
    (reason transparencyWakeId : String) (now : ℚ) :
    StepFacts wallTime w (.markBlocked claimed reason transparencyWakeId now) :=
  .of_patched h
    (ScheduledLog.Patched.markBlocked claimed.timerId claimed.claimId reason transparencyWakeId now)
    (by decide) (by decide) rfl

theorem record_series (action : ScheduleAction) (now : ℚ) :
    (action.record now).repeatKind = .once ∧ (action.record now).repeatSeriesId = "" ∨
      (action.record now).repeatKind ≠ .once ∧
        (action.record now).repeatSeriesId = action.timerId := by
  by_cases honce : action.repeatKind = .once
  · exact .inl ⟨honce, if_pos honce⟩
  · exact .inr ⟨honce, if_neg honce⟩

variable {now : ℚ}

theorem admits_record (h : Inv w) {action : ScheduleAction} (hnew : w.newTimer action.timerId)
    (hslot : w.log.inSlot (action.record now).dueAt (action.record now).repeatKind = none) :
    ScheduledLog.Admits w.log (action.record now) := by
  rcases record_series action now with ⟨honce, hnone⟩ | ⟨-, hown⟩
  · exact ⟨hnew.2, hslot, fun hne => absurd hnone hne, fun hne => absurd hnone hne,
      fun hr => absurd honce hr, rfl⟩
  · refine ⟨hnew.2, hslot, fun hne r hr _ hsame => ?_, fun _ => .inl hown,
      fun _ => by rw [hown]; exact hnew.1, rfl⟩
    obtain ⟨b, hb, hid⟩ := h.ok.origins r hr (by rw [hsame]; exact hne)
    exact hnew.2 b hb (hid.trans (hsame.trans hown))

theorem StepFacts.schedule (h : Inv w) {action : ScheduleAction}
    (hnew : w.newTimer action.timerId) : StepFacts wallTime w (.schedule action now) := by
  cases hslot : w.log.inSlot (action.record now).dueAt (action.record now).repeatKind with
  | some existing =>
    refine .of_patched h (.refl .canceled w.log) (by decide) (by decide) ?_
    simp only [ScheduleWorld.step, ScheduledLog.createUniquePending, hslot]
  | none =>
    have hstep : w.step wallTime (.schedule action now) =
        { w with log := w.log.append (action.record now) } := by
      simp only [ScheduleWorld.step, ScheduledLog.createUniquePending, hslot]
    have hadmits := admits_record h hnew hslot
    constructor
    case inv =>
      rw [hstep]
      exact h.append hadmits rfl
    case logStep =>
      rw [hstep]
      refine .of_append (.refl .canceled w.log) hadmits.fresh ?_
      rcases record_series action now with ⟨-, hnone⟩ | ⟨-, hown⟩
      · exact .inl hnone
      · exact .inr (.inl hown)
    case fires =>
      intro r' hr' hfired hbefore
      rw [hstep] at hr'
      rcases ScheduledLog.mem_append.mp hr' with hr' | rfl
      · exact absurd hfired (hbefore r' hr' rfl)
      · cases hfired

variable {c : ScheduledWake} {timerId : String}

theorem currentClaim_snoc_ne {claims : List ScheduledWake}
    (hne : c.timerId ≠ timerId) :
    ((claims ++ [c]).filter fun c => c.timerId == timerId).getLast? =
      (claims.filter fun c => c.timerId == timerId).getLast? := by
  simp [List.filter_append, hne]

theorem currentClaim_snoc {claims : List ScheduledWake} (h : c.timerId = timerId) :
    ((claims ++ [c]).filter fun x => x.timerId == timerId).getLast? = some c := by
  simp [List.filter_append, h]

theorem fromDoc_series {d : ScheduledWake} (h : d.repeatKind ≠ .once → d.repeatSeriesId ≠ "") :
    d.fromDoc.repeatSeriesId = d.repeatSeriesId := by
  unfold ScheduledWake.fromDoc
  by_cases hne : d.repeatSeriesId ≠ ""
  · simp only [if_pos hne]
  · have honce : d.repeatKind = .once := by
      by_contra hrepeat
      exact hne (h hrepeat)
    rw [not_not] at hne
    simp [hne, honce]

variable {row : ScheduledRow}

theorem Inv.claim {claimId ownerId : String} {now ttl : ℚ} (h : Inv w) (hrow : row ∈ w.log.rows)
    (hguard : ScheduledLog.claimable now row.doc = true)
    (hnew : ∀ c ∈ w.claims, c.claimId ≠ claimId) :
    Inv { w with
      log := w.log.patchRow row.seq (ScheduledLog.claimedBy claimId ownerId now ttl)
      claims :=
        w.claims ++ [(ScheduledLog.claimedBy claimId ownerId now ttl row.doc).fromDoc] } := by
  have hev : row.doc.Evolves .claimed (ScheduledLog.claimedBy claimId ownerId now ttl row.doc) :=
    ScheduledLog.evolves_claimedBy hguard
  have hp := ScheduledLog.Patched.one hrow hev
  have hlive : row.doc.pendingLike = true := hev.pendingLike rfl
  constructor
  case ok => exact h.ok.patched hp
  case claimed =>
    intro c hc
    rcases List.mem_append.mp hc with hc | hc
    · obtain ⟨huncanceled, r, hr, hsnap⟩ := h.claimed c hc
      obtain ⟨r', hr', -, hev'⟩ := hp.kept r hr
      exact ⟨huncanceled, r', hr', hev'.timerId.trans hsnap.timerId, hev'.dueAt.trans hsnap.dueAt,
        hev'.repeatKind.trans hsnap.repeatKind, hev'.series.trans hsnap.series⟩
    · rw [List.mem_singleton] at hc
      subst hc
      obtain ⟨r', hr', hseq, -⟩ := hp.kept row hrow
      refine ⟨h.ok.uncanceled row hrow hlive, r', hr', ?_⟩
      rw [ScheduledLog.doc_of_patched hrow hr' hseq]
      exact ⟨rfl, rfl, rfl, (fromDoc_series (h.ok.repeats row hrow)).symm⟩
  case current =>
    intro r' hr' hstatus
    by_cases hseq : r'.seq = row.seq
    · rw [ScheduledLog.doc_of_patched hrow hr' hseq]
      exact ⟨(ScheduledLog.claimedBy claimId ownerId now ttl row.doc).fromDoc,
        currentClaim_snoc rfl, rfl⟩
    · have hr := ScheduledLog.mem_of_patched hr' hseq
      obtain ⟨c, hc, hclaim⟩ := h.current r' hr hstatus
      have hother : (ScheduledLog.claimedBy claimId ownerId now ttl row.doc).fromDoc.timerId ≠
          r'.doc.timerId :=
        fun hid => hseq (h.ok.timers row hrow r' hr hid).symm
      exact ⟨c, (currentClaim_snoc_ne hother).trans hc, hclaim⟩
  case claimIds =>
    show ((w.claims ++ [(ScheduledLog.claimedBy claimId ownerId now ttl row.doc).fromDoc]).map
      fun c => c.claimId).Nodup
    rw [List.map_append, List.map_singleton]
    refine List.nodup_append.mpr ⟨h.claimIds, List.nodup_singleton _, fun id hid id' hid' he => ?_⟩
    obtain ⟨c, hc, rfl⟩ := List.mem_map.mp hid
    rw [List.mem_singleton] at hid'
    exact hnew c hc (he.trans hid')
  case fired =>
    intro t ht
    obtain ⟨r, hr, hid, hstatus⟩ := h.fired t ht
    obtain ⟨r', hr', -, hev'⟩ := hp.kept r hr
    have hfinal : r.doc.pendingLike = false := by rw [ScheduledWake.pendingLike, hstatus]; rfl
    exact ⟨r', hr', hev'.timerId.trans hid, (hev'.final hfinal).trans hstatus⟩
  case once => exact h.once

theorem StepFacts.claimDue (h : Inv w) {timerId claimId ownerId : String} {now ttl : ℚ}
    (hnew : ∀ c ∈ w.claims, c.claimId ≠ claimId) :
    StepFacts wallTime w (.claimDue timerId claimId ownerId now ttl) := by
  rcases ScheduledLog.patchLatest_cases w.log timerId (ScheduledLog.claimable now)
    (ScheduledLog.claimedBy claimId ownerId now ttl) with heq | ⟨row, hrow, -, hguard, heq⟩
  · refine .of_patched h (.refl .canceled w.log) (by decide) (by decide) ?_
    simp only [ScheduleWorld.step, ScheduledLog.claimDue, heq, Option.toList_none, List.append_nil]
  · have hp := ScheduledLog.Patched.one hrow
      (ScheduledLog.evolves_claimedBy hguard : row.doc.Evolves _
        (ScheduledLog.claimedBy claimId ownerId now ttl row.doc))
    have hstep : w.step wallTime (.claimDue timerId claimId ownerId now ttl) =
        { w with
          log := w.log.patchRow row.seq (ScheduledLog.claimedBy claimId ownerId now ttl)
          claims :=
            w.claims ++ [(ScheduledLog.claimedBy claimId ownerId now ttl row.doc).fromDoc] } := by
      simp only [ScheduleWorld.step, ScheduledLog.claimDue, heq, Option.toList_some]
    constructor
    case inv =>
      rw [hstep]
      exact h.claim hrow hguard hnew
    case logStep =>
      rw [hstep]
      exact .of_patched hp
    case fires =>
      intro r' hr' hfired hbefore
      rw [hstep] at hr'
      exact (not_fired_of_patched hp (by decide) hr' hfired hbefore).elim

/-! ### Firing -/

theorem nextRepeatRecord_spec {c next : ScheduledWake}
    (h : c.nextRepeatRecord wallTime timerId now = some next) :
    next.timerId = timerId ∧ next.status = .pending ∧ next.repeatKind = c.repeatKind ∧
      next.repeatSeriesId = (if c.repeatSeriesId ≠ "" then c.repeatSeriesId else c.timerId) ∧
      next.repeatCanceledAt = 0 ∧ ∃ interval, c.repeatKind.interval = some interval ∧
        next.dueAt = c.dueAt + interval := by
  unfold ScheduledWake.nextRepeatRecord at h
  cases hinterval : c.repeatKind.interval with
  | none =>
    rw [hinterval] at h
    cases h
  | some interval =>
    rw [hinterval] at h
    dsimp only at h
    by_cases hcanceled : c.repeatCanceledAt > 0
    · rw [if_pos hcanceled] at h
      cases h
    · rw [if_neg hcanceled] at h
      cases h
      exact ⟨rfl, rfl, rfl, rfl, rfl, interval, rfl, rfl⟩

theorem nextRepeatRecord_isSome {interval : ℚ} (hcanceled : c.repeatCanceledAt = 0)
    (hinterval : c.repeatKind.interval = some interval) (timerId : String) (now : ℚ) :
    ∃ next, c.nextRepeatRecord wallTime timerId now = some next := by
  unfold ScheduledWake.nextRepeatRecord
  rw [hinterval]
  simp [hcanceled]

theorem interval_ne_once {r : WakeRepeat} {interval : ℚ} (h : r.interval = some interval) :
    r ≠ .once := by
  rintro rfl
  cases h

/-- The successor may take the place of the timer that just fired. -/
theorem admits_next {c next : ScheduledWake} {fired : ScheduledLog}
    (h : Inv w) (hrow : row ∈ w.log.rows) (hlive : row.doc.pendingLike = true)
    (hsnap : Snapshot c row.doc)
    (hp : ScheduledLog.Patched .fired w.log fired)
    (hdone : ∀ r ∈ fired.rows, r.seq = row.seq → r.doc.status = .fired)
    (hnew : w.newTimer timerId) (hnext : c.nextRepeatRecord wallTime timerId now = some next)
    (hslot : fired.inSlot next.dueAt next.repeatKind = none) :
    ScheduledLog.Admits fired next ∧ next.repeatSeriesId = row.doc.repeatSeriesId := by
  obtain ⟨hid, -, hrepeat, hseries, huncanceled, interval, hinterval, -⟩ :=
    nextRepeatRecord_spec hnext
  have hne : row.doc.repeatSeriesId ≠ "" := by
    refine h.ok.repeats row hrow ?_
    rw [hsnap.repeatKind]
    exact interval_ne_once hinterval
  have hsame : next.repeatSeriesId = row.doc.repeatSeriesId := by
    rw [hseries, ← hsnap.series, if_pos hne]
  refine ⟨⟨?_, hslot, ?_, ?_, fun _ => by rw [hsame]; exact hne, huncanceled⟩, hsame⟩
  · intro r' hr'
    obtain ⟨r, hr, -, hev⟩ := hp.born r' hr'
    rw [hev.timerId, hid]
    exact hnew.2 r hr
  · intro _ r' hr' hlive' hseries'
    -- it would have been the timer that fired
    obtain ⟨r, hr, hseq, hev⟩ := hp.born r' hr'
    have hone := h.ok.series r hr row hrow (hev.pendingLike hlive') hlive
      (by rw [← hev.series, hseries', hsame]; exact hne) (by rw [← hev.series, hseries', hsame])
    rw [ScheduledWake.pendingLike, hdone r' hr' (hseq.trans hone)] at hlive'
    cases hlive'
  · intro _
    obtain ⟨b, hb, hidb⟩ := h.ok.origins row hrow hne
    obtain ⟨b', hb', -, hev⟩ := hp.kept b hb
    exact .inr ⟨b', hb', by rw [hev.timerId, hidb, hsame]⟩

theorem Inv.currentClaim_eq (h : Inv w) (hc : c ∈ w.claims)
    (hrow : row ∈ w.log.rows) (hid : row.doc.timerId = c.timerId)
    (hstatus : row.doc.status = .claimed)
    (hclaim : row.doc.claimId = c.claimId) : w.currentClaim c.timerId = some c := by
  obtain ⟨c', hc', hclaim'⟩ := h.current row hrow hstatus
  have hmem : c' ∈ w.claims := List.mem_of_mem_filter (List.mem_of_getLast? hc')
  have heq : c' = c := List.inj_on_of_nodup_map h.claimIds hmem hc (hclaim'.trans hclaim)
  rw [← hid, hc', heq]

theorem Inv.record_firing {fired : ScheduledLog} (h : Inv w)
    (hrow : row ∈ w.log.rows) (hid : row.doc.timerId = c.timerId)
    (hstatus : row.doc.status = .claimed)
    (hp : ScheduledLog.Patched .fired w.log fired)
    (hdone : ∀ r ∈ fired.rows, r.seq = row.seq → r.doc.status = .fired) :
    Inv { w with log := fired, firings := w.firings ++ [c.timerId] } := by
  have hpatched := h.patched hp (by decide)
  refine ⟨hpatched.ok, hpatched.claimed, hpatched.current, hpatched.claimIds, ?_, ?_⟩
  · intro t ht
    rcases List.mem_append.mp ht with ht | ht
    · exact hpatched.fired t ht
    · rw [List.mem_singleton] at ht
      obtain ⟨r', hr', hseq, hev⟩ := hp.kept row hrow
      exact ⟨r', hr', by rw [hev.timerId, hid, ht], hdone r' hr' hseq⟩
  · refine List.nodup_append.mpr ⟨h.once, List.nodup_singleton _, fun t ht t' ht' he => ?_⟩
    rw [List.mem_singleton] at ht'
    obtain ⟨r, hr, hidr, hfired⟩ := h.fired t ht
    have hseq := h.ok.timers r hr row hrow (by rw [hidr, he, ht', hid])
    rw [Serial.eq_of_key_eq hr hrow hseq, hstatus] at hfired
    cases hfired

theorem StepFacts.markFired (h : Inv w) {wakeId nextTimerId : String} {jobId : Int}
    (hc : c ∈ w.claims) (hnew : w.newTimer nextTimerId) :
    StepFacts wallTime w (.markFired c wakeId jobId nextTimerId now) := by
  have hpending : ∀ next, c.nextRepeatRecord wallTime nextTimerId now = some next →
      next.status = .pending :=
    fun next hnext => (nextRepeatRecord_spec hnext).2.1
  rcases ScheduledLog.markFired_cases w.log c.timerId c.claimId wakeId jobId now hpending with
    heq | ⟨row, hrow, fired, hid, hstatus, hclaim, hp, hdone, hothers, hsome, hlog, hholds⟩
  · refine .of_patched h (.refl .canceled w.log) (by decide) (by decide) ?_
    simp only [ScheduleWorld.step, heq, Option.isSome_none, Bool.false_eq_true, if_false]
  · obtain ⟨huncanceled, r, hr, hsnap⟩ := h.claimed c hc
    have hrrow : r = row :=
      Serial.eq_of_key_eq hr hrow (h.ok.timers r hr row hrow (hsnap.timerId.trans hid.symm))
    rw [hrrow] at hsnap
    have hlive : row.doc.pendingLike = true := by rw [ScheduledWake.pendingLike, hstatus]; rfl
    have hinv := h.record_firing hrow hid hstatus hp hdone
    have hstep : w.step wallTime (.markFired c wakeId jobId nextTimerId now) =
        { w with
          log :=
            (w.log.markFired c.timerId c.claimId wakeId jobId now
                (c.nextRepeatRecord wallTime nextTimerId now)).1
          firings := w.firings ++ [c.timerId] } := by
      simp only [ScheduleWorld.step, hsome, if_true]
    have hfires : ∀ r' ∈ fired.rows, r'.doc.status = .fired →
        (∀ r ∈ w.log.rows, r.seq = r'.seq → r.doc.status ≠ .fired) →
          row.doc.Evolves .fired r'.doc := by
      intro r' hr' hfired hbefore
      obtain ⟨x, hx, hseq, hev⟩ := hp.born r' hr'
      by_cases hsame : r'.seq = row.seq
      · rw [Serial.eq_of_key_eq hx hrow (hseq.symm.trans hsame)] at hev
        exact hev
      · exact absurd hfired (hbefore r' (hothers r' hr' hsame) rfl)
    have hcurrent := h.currentClaim_eq hc hrow hid hstatus hclaim
    constructor
    case inv =>
      rw [hstep]
      rcases hlog with hlog | ⟨next, hnext, hslot, hlog⟩
      · rw [hlog]
        exact hinv
      · rw [hlog]
        exact hinv.append (admits_next h hrow hlive hsnap hp hdone hnew hnext hslot).1
          (hpending next hnext)
    case logStep =>
      rw [hstep]
      rcases hlog with hlog | ⟨next, hnext, hslot, hlog⟩
      · rw [hlog]
        exact .of_patched hp
      · rw [hlog]
        refine .of_append hp (fun x hx => ?_) ?_
        · rw [(nextRepeatRecord_spec hnext).1]
          exact hnew.2 x hx
        · exact .inr (.inr ⟨row, hrow,
              (admits_next h hrow hlive hsnap hp hdone hnew hnext hslot).2.symm, hlive⟩)
    case fires =>
      intro r' hr' hfired hbefore
      have hev : row.doc.Evolves .fired r'.doc := by
        rw [hstep] at hr'
        rcases hlog with hlog | ⟨next, hnext, hslot, hlog⟩
        · rw [hlog] at hr'
          exact hfires r' hr' hfired hbefore
        · rw [hlog] at hr'
          rcases ScheduledLog.mem_append.mp hr' with hr' | rfl
          · exact hfires r' hr' hfired hbefore
          · rw [hpending next hnext] at hfired
            cases hfired
      refine ⟨⟨c, wakeId, jobId, nextTimerId, now, rfl, ?_, hcurrent, by rw [hstep]⟩,
        fun interval hinterval => ?_⟩
      · rw [hev.timerId, hid]
      · rw [hev.repeatKind, hsnap.repeatKind] at hinterval
        obtain ⟨next, hnext⟩ := nextRepeatRecord_isSome huncanceled hinterval nextTimerId now
        obtain ⟨-, -, hrepeat, -, -, interval', hinterval', hdue⟩ := nextRepeatRecord_spec hnext
        obtain ⟨n, hn, hnlive, hnrepeat, hndue⟩ := hholds next hnext
        have hintervals : interval' = interval := Option.some.inj (hinterval'.symm.trans hinterval)
        refine ⟨n, by rw [hstep]; exact hn, hnlive, ?_, ?_⟩
        · rw [hnrepeat, hrepeat, hev.repeatKind, hsnap.repeatKind]
        · rw [hndue, hdue, hintervals, hev.dueAt, hsnap.dueAt]

theorem step_facts (wallTime : ℚ → String → String) (h : Inv w) (hl : w.Allowed l) :
    StepFacts wallTime w l := by
  cases l with
  | schedule action now => exact .schedule h hl
  | cancel timerId reason now => exact .cancels h (cancels (.cancel timerId reason now)) rfl
  | evict seen cap keepTimerId now =>
    exact .cancels h (cancels (.evict seen cap keepTimerId now)) rfl
  | claimDue timerId claimId ownerId now ttl => exact .claimDue h hl
  | markFired c wakeId jobId nextTimerId now => exact .markFired h hl.1 hl.2
  | markBlocked c reason transparencyWakeId now =>
    exact .markBlocked h c reason transparencyWakeId now

variable {ls : List ScheduleLabel}

theorem Inv.run (h : Inv w) (hls : Runs.Along (step wallTime) Allowed w ls) :
    Inv (Runs.run (step wallTime) w ls) :=
  Runs.invariant Inv (fun _ _ h hl => (step_facts wallTime h hl).inv) h hls

/-! ### Whole runs -/

/-- A timer that cannot fire any more keeps its status along every run. -/
theorem final_run (h : Inv w) (hls : Runs.Along (step wallTime) Allowed w ls) :
    ∀ r ∈ w.log.rows, r.doc.pendingLike = false → ∃ r' ∈ (Runs.run (step wallTime) w ls).log.rows,
      r'.seq = r.seq ∧ r'.doc.timerId = r.doc.timerId ∧ r'.doc.status = r.doc.status := by
  induction ls generalizing w with
  | nil => exact fun r hr _ => ⟨r, hr, rfl, rfl, rfl⟩
  | cons l ls ih =>
    intro r hr hfinal
    have hfacts := step_facts wallTime h hls.1
    obtain ⟨k, x, hx, hseq, hev⟩ := hfacts.logStep.kept r hr
    have hstatus := hev.final hfinal
    have hxfinal : x.doc.pendingLike = false := by
      rw [ScheduledWake.pendingLike, hstatus]; exact hfinal
    obtain ⟨r', hr', hseq', hid', hstatus'⟩ := ih hfacts.inv hls.2 x hx hxfinal
    exact ⟨r', hr', hseq'.trans hseq, hid'.trans hev.timerId, hstatus'.trans hstatus⟩

/-- Nobody of the series can fire, and its name is taken. -/
def Ended (series : String) (log : ScheduledLog) : Prop :=
  (∀ r ∈ log.rows, r.doc.repeatSeriesId = series → r.doc.pendingLike = false) ∧
    ∃ r ∈ log.rows, r.doc.timerId = series

theorem Ended.step {series : String} (h : Ended series log) (hne : series ≠ "")
    (hstep : LogStep log log') : Ended series log' := by
  constructor
  · intro r' hr' hseries
    rcases hstep.born r' hr' with ⟨k, r, hr, -, hev⟩ | ⟨hfresh, hparent⟩
    · by_contra hlive
      rw [Bool.not_eq_false] at hlive
      have hbefore := hev.pendingLike hlive
      rw [h.1 r hr (hev.series.symm.trans hseries)] at hbefore
      cases hbefore
    · obtain ⟨b, hb, hid⟩ := h.2
      rcases hparent with hnone | hown | ⟨r, hr, hsame, hlive⟩
      · exact absurd (hseries.symm.trans hnone) hne
      · exact absurd (hid.trans (hseries.symm.trans hown)) (hfresh b hb)
      · rw [h.1 r hr (hsame.trans hseries)] at hlive
        cases hlive
  · obtain ⟨b, hb, hid⟩ := h.2
    obtain ⟨k, b', hb', -, hev⟩ := hstep.kept b hb
    exact ⟨b', hb', hev.timerId.trans hid⟩

theorem Ended.run {series : String} (h : Inv w) (hended : Ended series w.log)
    (hne : series ≠ "") (hls : Runs.Along (ScheduleWorld.step wallTime) Allowed w ls) :
    Ended series (Runs.run (ScheduleWorld.step wallTime) w ls).log := by
  induction ls generalizing w with
  | nil => exact hended
  | cons l ls ih =>
    have hfacts := step_facts wallTime h hls.1
    exact ih hfacts.inv (hended.step hne hfacts.logStep) hls.2

/-- The cancel of a repeating timer ends its series. -/
theorem ended_cancel (h : Inv w) {timerId reason : String} {target : ScheduledRow}
    (hlatest : w.log.latest timerId = some target) (hrepeat : target.doc.repeatKind ≠ .once)
    (hseries : target.doc.repeatSeriesId ≠ "") :
    Ended target.doc.repeatSeriesId (w.log.cancel timerId reason now).1 := by
  refine ⟨ScheduledLog.cancel_series hlatest hrepeat hseries, ?_⟩
  obtain ⟨b, hb, hid⟩ := h.ok.origins target (ScheduledLog.latest_spec hlatest).1 hseries
  have hp : ScheduledLog.Patched .canceled w.log (w.log.cancel timerId reason now).1 :=
    .cancel timerId reason now
  obtain ⟨b', hb', -, hev⟩ := hp.kept b hb
  exact ⟨b', hb', hev.timerId.trans hid⟩

theorem step_of_cancels (wallTime : ℚ → String → String) (w : ScheduleWorld)
    {timerId reason : String} (h : cancels l = some (timerId, reason, now)) :
    (w.step wallTime l).log = (w.log.cancel timerId reason now).1 ∧ w.Allowed l := by
  cases l with
  | cancel t r n =>
    cases h
    exact ⟨rfl, trivial⟩
  | evict seen cap keepTimerId n => exact ⟨by rw [step, h]; rfl, trivial⟩
  | schedule action n => cases h
  | claimDue t c o n ttl => cases h
  | markFired c wakeId jobId nextTimerId n => cases h
  | markBlocked c r tw n => cases h

/-- In every state of every run: a timer that fired, was canceled or was blocked stays so; a timer
fires at most once, through its current claim; a slot and a series have at most one timer that can
still fire; a repeating timer that fires has a successor right after; and nobody of a canceled
series ever fires again. -/
theorem scheduled_wakes_are_safe (wallTime : ℚ → String → String) (ls : List ScheduleLabel)
    (hls : Runs.Along (step wallTime) Allowed initial ls) :
    let w := Runs.run (step wallTime) initial ls
    (∀ ms, Runs.Along (step wallTime) Allowed w ms → ∀ r ∈ w.log.rows, r.doc.pendingLike = false →
      ∃ r' ∈ (Runs.run (step wallTime) w ms).log.rows,
        r'.seq = r.seq ∧ r'.doc.timerId = r.doc.timerId ∧ r'.doc.status = r.doc.status) ∧
      w.firings.Nodup ∧
      (∀ l, w.Allowed l → ∀ r' ∈ (w.step wallTime l).log.rows, r'.doc.status = .fired →
        (∀ r ∈ w.log.rows, r.seq = r'.seq → r.doc.status ≠ .fired) →
        (∃ c wakeId jobId nextTimerId now, l = .markFired c wakeId jobId nextTimerId now ∧
          c.timerId = r'.doc.timerId ∧ w.currentClaim c.timerId = some c ∧
          (w.step wallTime l).firings = w.firings ++ [c.timerId]) ∧
        ∀ interval, r'.doc.repeatKind.interval = some interval →
          ∃ n ∈ (w.step wallTime l).log.rows, n.doc.pendingLike = true ∧
            n.doc.repeatKind = r'.doc.repeatKind ∧ n.doc.dueAt = r'.doc.dueAt + interval) ∧
      (∀ a ∈ w.log.rows, ∀ b ∈ w.log.rows, a.doc.pendingLike = true → b.doc.pendingLike = true →
        (a.doc.dueAt = b.doc.dueAt ∧ a.doc.repeatKind = b.doc.repeatKind ∨
          a.doc.repeatSeriesId ≠ "" ∧ a.doc.repeatSeriesId = b.doc.repeatSeriesId) → a = b) ∧
      ∀ l timerId reason now target, cancels l = some (timerId, reason, now) →
        w.log.latest timerId = some target →
        target.doc.repeatKind ≠ .once → target.doc.repeatSeriesId ≠ "" →
        ∀ ms, Runs.Along (step wallTime) Allowed (w.step wallTime l) ms →
          ∀ r ∈ (Runs.run (step wallTime) (w.step wallTime l) ms).log.rows,
            r.doc.repeatSeriesId = target.doc.repeatSeriesId → r.doc.pendingLike = false := by
  intro w
  have h : Inv w := Inv.initial.run hls
  refine ⟨fun ms hms => final_run h hms, h.once, fun l hl => (step_facts wallTime h hl).fires,
    ?_, ?_⟩
  · rintro a ha b hb hla hlb (⟨hdue, hrepeat⟩ | ⟨hne, hseries⟩)
    · exact Serial.eq_of_key_eq ha hb (h.ok.slots a ha b hb hla hlb hdue hrepeat)
    · exact Serial.eq_of_key_eq ha hb (h.ok.series a ha b hb hla hlb hne hseries)
  · intro l timerId reason now target hcancels hlatest hrepeat hseries ms hms
    obtain ⟨hlog, hallowed⟩ := step_of_cancels wallTime w hcancels
    have hended : Ended target.doc.repeatSeriesId (w.step wallTime l).log := by
      rw [hlog]
      exact ended_cancel h hlatest hrepeat hseries
    exact (hended.run (step_facts wallTime h hallowed).inv hseries hms).1

/-- A daily timer that is due at 100, claimed in time, and fired. -/
def dailyTimer : List ScheduleLabel :=
  let action : ScheduleAction := ⟨"sched_1", "", "UTC", 100, .daily, "", [], "", []⟩
  let claimed := ScheduledLog.claimedBy "claim_1" "worker" 120 60 (action.record 0)
  [.schedule action 0, .claimDue "sched_1" "claim_1" "worker" 120 60,
    .markFired claimed "wake" 7 "sched_2" 121]

theorem scheduled_wakes_are_safe_daily :
    Runs.Along (step fun _ _ => "") Allowed initial dailyTimer ∧
      (Runs.run (step fun _ _ => "") initial dailyTimer).firings = ["sched_1"] ∧
      (Runs.run (step fun _ _ => "") initial dailyTimer).firings.Nodup ∧
      ((Runs.run (step fun _ _ => "") initial dailyTimer).log.rows.map fun r => (r.doc.status,
        r.doc.dueAt)) = [(.fired, 100), (.pending, 86500)] :=
  have hallowed : Runs.Along (step fun _ _ => "") Allowed initial dailyTimer := by decide +kernel
  ⟨hallowed,
    by decide +kernel, (scheduled_wakes_are_safe _ dailyTimer hallowed).2.1, by decide +kernel⟩

end ScheduleWorld

end Feedling
