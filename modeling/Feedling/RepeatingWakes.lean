import Feedling.ScheduledWakeRuns
import Feedling.Store
import Mathlib.Algebra.Group.Basic
import Mathlib.Logic.ExistsUnique
import Mathlib.Tactic.Linarith
import Mathlib.Tactic.Ring

/-!
# Repeating wakes and local time

A timer is scheduled at a wall time of some zone and keeps the instant as its index. A repeating
timer's successor is due a fixed number of seconds later, and its wall time is read off the instant.
-/

/-! ## Local time

A time zone gives every instant its offset from UTC, so an instant has one wall time. A wall time
may belong to no instant, to one or to several; `fromWall` chooses an instant for it and is only
known to choose right where there is no choice. -/

namespace LocalTime

structure Zone (α : Type) [AddCommGroup α] where
  utcOffset : α → α
  fromWall : α → α
  fromWall_exact : ∀ w, (∃! t, t + utcOffset t = w) → fromWall w + utcOffset (fromWall w) = w

namespace Zone

variable {α : Type} [AddCommGroup α] (z : Zone α)

def wall (t : α) : α := t + z.utcOffset t

/-- The wall time exists and is unambiguous. -/
def Unambiguous (w : α) : Prop := ∃! t, z.wall t = w

variable {z} {t d w : α}

theorem Unambiguous.wall_fromWall (h : z.Unambiguous w) : z.wall (z.fromWall w) = w :=
  z.fromWall_exact w h

theorem Unambiguous.eq_fromWall_iff (h : z.Unambiguous w) : t = z.fromWall w ↔ z.wall t = w := by
  constructor
  · rintro rfl
    exact h.wall_fromWall
  · intro ht
    exact h.unique ht h.wall_fromWall

theorem wall_add_eq_iff : z.wall (t + d) = z.wall t + d ↔ z.utcOffset (t + d) = z.utcOffset t := by
  rw [wall, wall, add_right_comm t (z.utcOffset t) d]
  exact add_right_inj (t + d)

end Zone

end LocalTime

namespace Feedling

open KeyedTable LocalTime

/-! ## Reading the time of a timer -/

/-- `_coerce_str`. -/
def coerceStr (limit : Nat) (text : String) : String := truncate limit (strip text)

/-- The zones of the `zoneinfo` database, which has the one `DEFAULT_TIMEZONE_V2` names, and the
`ValueError` for a name that is no key, such as an absolute path. -/
structure TzDatabase where
  keyError : String → Option String
  find : String → Option (Zone ℚ)
  defaultTimezone : String
  defaultZone : Zone ℚ
  find_default : find defaultTimezone = some defaultZone

namespace TzDatabase

variable (tz : TzDatabase)

/-- `ZoneInfo(name)` with its key, or the default zone. -/
def named (name : String) : String × Zone ℚ :=
  match tz.find name with
  | some zone => (name, zone)
  | none => (tz.defaultTimezone, tz.defaultZone)

def zoneName (text : String) : String :=
  if coerceStr 80 text = "" then tz.defaultTimezone else coerceStr 80 text

/-- `_zone` where it does not raise. -/
def zone (text : String) : String × Zone ℚ := tz.named (tz.zoneName text)

theorem find_named (name : String) : tz.find (tz.named name).1 = some (tz.named name).2 := by
  unfold named
  cases hfind : tz.find name with
  | some zone => exact hfind
  | none => exact tz.find_default

theorem find_zone (text : String) : tz.find (tz.zone text).1 = some (tz.zone text).2 :=
  tz.find_named _

end TzDatabase

/-- `datetime.isoformat` of a wall time, `datetime.fromisoformat` with the offset that the text has
or has not, and the delay that `_relative_delay_seconds_v2` reads. -/
structure TimeTexts where
  isoformat : ℚ → String
  fromisoformat : String → Option (ℚ × Option ℚ)
  relativeDelaySeconds : String → Option ℚ

section Schedule

variable (tz : TzDatabase) (texts : TimeTexts)

/-- `_wall_time_for_due_at`. -/
def wallTimeForDueAt (dueAt : ℚ) (tzName : String) : String :=
  texts.isoformat ((tz.zone tzName).2.wall dueAt)

/-- `local` of `schedule_instant_v2`, with its instant: a text without an offset is a wall time of
the zone, a text with one is an instant. -/
def localDatetime (zone : Zone ℚ) : ℚ × Option ℚ → ℚ × ℚ
  | (wall, none) => (wall, zone.fromWall wall)
  | (wall, some offset) => (zone.wall (wall - offset), wall - offset)

/-- The text that `datetime.fromisoformat` gets. -/
def normalizedAt (rawAt : String) : String :=
  if rawAt.toList.getLast? = some 'Z' then String.ofList rawAt.toList.dropLast ++ "+00:00"
    else rawAt

/-- `schedule_instant_v2`. -/
def scheduleInstant (atText tzText : String) (now : ℚ) : Except String (String × String × ℚ) :=
  let rawAt := coerceStr 120 atText
  if rawAt = "" then .error "missing_at"
  else
    match tz.keyError (tz.zoneName tzText) with
    | some message => .error message
    | none =>
      let zone := tz.zone tzText
      match texts.relativeDelaySeconds rawAt with
      | some delay =>
        if delay ≤ 0 then .error "invalid_at"
        else .ok (texts.isoformat (zone.2.wall (now + delay)), zone.1, now + delay)
      | none =>
        match texts.fromisoformat (normalizedAt rawAt) with
        | none => .error "invalid_at"
        | some parsed =>
          let datetime := localDatetime zone.2 parsed
          .ok (texts.isoformat datetime.1, zone.1, datetime.2)

/-- `_coerce_repeat`. -/
def coerceRepeat (text : String) : Except String WakeRepeat :=
  let kind := lower (coerceStr 20 text)
  if kind = "" then .ok .once
  else if kind = "daily" then .ok .daily
  else if kind = "weekly" then .ok .weekly
  else .error "invalid_repeat"

/-- `_coerce_origin_refs`; the value is `none` if it is not a sequence. -/
def coerceOriginRefs (value : Option (List String)) (fallback : List String) : List String :=
  let refs := ((value.getD fallback).map (coerceStr 200)).filter (· ≠ "")
  (refs.foldl (fun seen ref => if ref ∈ seen then seen else seen ++ [ref]) []).take 50

/-- A `schedule_wake` action with the turn that it comes from; `timerId` is the new id. -/
structure ScheduleRequest where
  atText : String
  tz : String
  repeatText : String
  note : String
  originRefs : Option (List String)
  turnOriginRefs : List String
  turnId : String
  wakeIds : List String
  timerId : String
  selfWake : Bool

/-- The zone that the request names, or the one of the settings. -/
def ScheduleRequest.zone (request : ScheduleRequest) (settingsTimezone : String) :
    String × Zone ℚ :=
  tz.zone (if request.tz = "" then settingsTimezone else request.tz)

/-- A wake that the agent gives itself is due too soon. -/
def clamped (selfWake : Bool) (minLead dueAt now : ℚ) : Bool :=
  selfWake && decide (0 < minLead) && decide (dueAt < now + minLead)

/-- `_schedule_action` up to the store; `minLead` is `self_wake_min_lead_sec`. -/
def scheduleAction (settingsTimezone : String) (minLead : ℚ) (request : ScheduleRequest) (now : ℚ) :
    Except String ScheduleAction := do
  let (wallTime, tzName, dueAt) ←
    scheduleInstant tz texts request.atText (if request.tz = "" then settingsTimezone
      else request.tz) now
  let repeatKind ← coerceRepeat request.repeatText
  let late := clamped request.selfWake minLead dueAt now
  return {
    timerId := request.timerId
    atText := if late then wallTimeForDueAt tz texts (now + minLead) tzName else wallTime
    timezone := tzName
    dueAt := if late then now + minLead else dueAt
    repeatKind := repeatKind
    note := coerceStr 1000 request.note
    originRefs := coerceOriginRefs request.originRefs
      (if request.turnOriginRefs = [] then request.wakeIds else request.turnOriginRefs)
    turnId := request.turnId
    wakeIds := request.wakeIds }

/-- The wall time in the zone that an absolute text names. -/
def absoluteWall (zone : Zone ℚ) (atText : String) : Option ℚ :=
  match texts.relativeDelaySeconds (coerceStr 120 atText) with
  | some _ => none
  | none =>
    (texts.fromisoformat (normalizedAt (coerceStr 120 atText))).map fun parsed =>
      (localDatetime zone parsed).1

end Schedule

section Schedule

variable {tz : TzDatabase} {texts : TimeTexts}

theorem localDatetime_exact {zone : Zone ℚ} {parsed : ℚ × Option ℚ}
    (h : zone.Unambiguous (localDatetime zone parsed).1) :
    (localDatetime zone parsed).2 = zone.fromWall (localDatetime zone parsed).1 := by
  rcases parsed with ⟨wall, _ | offset⟩
  · rfl
  · exact h.eq_fromWall_iff.mpr rfl

/-- An absolute text is due at the instant of its wall time. -/
theorem scheduleInstant_absolute {atText tzText wallTime tzName : String} {now dueAt wall : ℚ}
    (h : scheduleInstant tz texts atText tzText now = .ok (wallTime, tzName, dueAt))
    (hwall : absoluteWall texts (tz.zone tzText).2 atText = some wall)
    (hexact : (tz.zone tzText).2.Unambiguous wall) :
    tzName = (tz.zone tzText).1 ∧ dueAt = (tz.zone tzText).2.fromWall wall := by
  unfold scheduleInstant at h
  unfold absoluteWall at hwall
  generalize coerceStr 120 atText = rawAt at h hwall
  generalize tz.zone tzText = zone at h hwall hexact ⊢
  by_cases hempty : rawAt = ""
  · rw [if_pos hempty] at h
    cases h
  · rw [if_neg hempty] at h
    cases hdelay : texts.relativeDelaySeconds rawAt with
    | some delay =>
      rw [hdelay] at hwall
      cases hwall
    | none =>
      cases hkey : tz.keyError (tz.zoneName tzText) <;>
        cases hparsed : texts.fromisoformat (normalizedAt rawAt) <;>
        simp only [hkey, hdelay, hparsed, reduceCtorEq] at h
      next parsed =>
        simp only [hdelay, hparsed, Option.map_some, Option.some.injEq] at hwall
        cases h
        rw [← hwall] at hexact
        rw [← hwall]
        exact ⟨rfl, localDatetime_exact hexact⟩

theorem scheduleAction_absolute {settingsTimezone : String} {minLead now wall : ℚ}
    {request : ScheduleRequest} {action : ScheduleAction}
    (h : scheduleAction tz texts settingsTimezone minLead request now = .ok action)
    (hwall : absoluteWall texts (request.zone tz settingsTimezone).2 request.atText = some wall)
    (hexact : (request.zone tz settingsTimezone).2.Unambiguous wall) :
    action.timezone = (request.zone tz settingsTimezone).1 ∧
      (clamped request.selfWake minLead ((request.zone tz settingsTimezone).2.fromWall wall) now =
        false → action.dueAt = (request.zone tz settingsTimezone).2.fromWall wall) := by
  unfold scheduleAction at h
  cases hinstant : scheduleInstant tz texts request.atText (if request.tz = "" then settingsTimezone
      else request.tz) now with
  | error e =>
    rw [hinstant] at h
    cases h
  | ok instant =>
    obtain ⟨wallTime, tzName, dueAt⟩ := instant
    obtain ⟨hname, hdue⟩ := scheduleInstant_absolute hinstant hwall hexact
    rw [hinstant] at h
    cases hrepeat : coerceRepeat request.repeatText with
    | error e =>
      rw [hrepeat] at h
      cases h
    | ok repeatKind =>
      rw [hrepeat] at h
      cases h
      refine ⟨hname, fun hclamped => ?_⟩
      have hlate : clamped request.selfWake minLead dueAt now = false := by
        rw [hdue]; exact hclamped
      exact (if_neg (by rw [hlate]; decide)).trans hdue

end Schedule

/-! ## A series -/

namespace ScheduledLog

/-- The successor that `mark_fired` returns is in the log and due when the next record is. -/
theorem markFired_next {log : ScheduledLog} {timerId claimId wakeId : String} {jobId : Int}
    {now : ℚ} {nextRecord : Option ScheduledWake} {fired successor : ScheduledWake}
    (h : (log.markFired timerId claimId wakeId jobId now nextRecord).2 =
      some (fired, some successor)) :
    ∃ next, nextRecord = some next ∧
      ∃ r ∈ (log.markFired timerId claimId wakeId jobId now nextRecord).1.rows,
      r.doc.timerId = successor.timerId ∧ r.doc.dueAt = next.dueAt ∧
        r.doc.repeatKind = next.repeatKind := by
  rcases patchLatest_cases log timerId (mayFire claimId) (firedAs wakeId jobId now) with heq | ⟨row,
    _, _, _, heq⟩
  · simp only [markFired, heq] at h
    cases h
  · cases nextRecord with
    | none =>
      simp only [markFired, heq] at h
      cases h
    | some next =>
      refine ⟨next, rfl, ?_⟩
      cases hslot : inSlot (log.patchRow row.seq (firedAs wakeId jobId now)) next.dueAt
        next.repeatKind with
      | some existing =>
        simp only [markFired, heq, hslot] at h ⊢
        cases h
        obtain ⟨r, hr, rfl, _, hdue, hrepeat⟩ := inSlot_eq_some hslot
        exact ⟨r, hr, rfl, hdue, hrepeat⟩
      | none =>
        simp only [markFired, heq, hslot] at h ⊢
        cases h
        exact ⟨_, mem_append.mpr (.inr rfl), rfl, rfl, rfl⟩

end ScheduledLog

/-- A series among the other timers: the timer that is its latest member, and how often it has fired
and gone on. -/
structure SeriesWorld where
  world : ScheduleWorld
  current : String
  count : Nat

namespace SeriesWorld

variable (wallTime : ℚ → String → String)

/-- What `mark_fired` returns, if the step fires the latest member. -/
def successor (s : SeriesWorld) : ScheduleLabel → Option ScheduledWake
  | .markFired claimed wakeId jobId nextTimerId now =>
    if claimed.timerId = s.current then
      (s.world.log.markFired claimed.timerId claimed.claimId wakeId jobId now
        (claimed.nextRepeatRecord wallTime nextTimerId now)).2.bind (·.2)
    else none
  | _ => none

def step (s : SeriesWorld) (l : ScheduleLabel) : SeriesWorld :=
  match s.successor wallTime l with
  | some next => ⟨s.world.step wallTime l, next.timerId, s.count + 1⟩
  | none => { s with world := s.world.step wallTime l }

def Allowed (s : SeriesWorld) (l : ScheduleLabel) : Prop := s.world.Allowed l

instance (s : SeriesWorld) (l : ScheduleLabel) : Decidable (s.Allowed l) :=
  inferInstanceAs (Decidable (s.world.Allowed l))

/-- The latest member is due a whole number of intervals after the first. -/
structure Inv (kind : WakeRepeat) (dueAt interval : ℚ) (s : SeriesWorld) : Prop where
  world : s.world.Inv
  member : ∃ r ∈ s.world.log.rows, r.doc.timerId = s.current ∧ r.doc.repeatKind = kind ∧
    r.doc.dueAt = dueAt + s.count * interval

variable {wallTime} {kind : WakeRepeat} {dueAt interval : ℚ} {s : SeriesWorld}

theorem Inv.successor (h : s.Inv kind dueAt interval) (hinterval : kind.interval = some interval)
    {l : ScheduleLabel} {next : ScheduledWake} (hl : s.Allowed l)
    (hnext : s.successor wallTime l = some next) :
    ∃ r ∈ (s.world.step wallTime l).log.rows, r.doc.timerId = next.timerId ∧
      r.doc.repeatKind = kind ∧ r.doc.dueAt = dueAt + (s.count + 1 : Nat) * interval := by
  cases l with
  | markFired claimed wakeId jobId nextTimerId now =>
    rw [SeriesWorld.successor] at hnext
    by_cases hcurrent : claimed.timerId = s.current
    · rw [if_pos hcurrent, Option.bind_eq_some_iff] at hnext
      obtain ⟨⟨fired, successor⟩, hfired, rfl⟩ := hnext
      obtain ⟨record, hrecord, r, hr, hid, hdue, hrepeat⟩ := ScheduledLog.markFired_next hfired
      obtain ⟨-, -, hkind, -, -, interval', hinterval', hlater⟩ :=
        ScheduleWorld.nextRepeatRecord_spec hrecord
      -- the claim is a snapshot of the latest member
      obtain ⟨-, row, hrow, hsnap⟩ := h.world.claimed claimed hl.1
      obtain ⟨m, hm, hmid, hmkind, hmdue⟩ := h.member
      have hsame : row = m := Serial.eq_of_key_eq hrow hm
        (h.world.ok.timers row hrow m hm (by rw [hsnap.timerId, hcurrent, hmid]))
      rw [hsame] at hsnap
      have hclaimed : claimed.repeatKind = kind := hsnap.repeatKind.symm.trans hmkind
      rw [hclaimed, hinterval, Option.some.injEq] at hinterval'
      refine ⟨r, hr, hid, by rw [hrepeat, hkind, hclaimed], ?_⟩
      rw [hdue, hlater, ← hsnap.dueAt, hmdue, ← hinterval']
      push_cast
      ring
    · rw [if_neg hcurrent] at hnext
      cases hnext
  | schedule action now => cases hnext
  | cancel timerId reason now => cases hnext
  | evict seen cap keepTimerId now => cases hnext
  | claimDue timerId claimId ownerId now ttl => cases hnext
  | markBlocked claimed reason transparencyWakeId now => cases hnext

theorem Inv.step (h : s.Inv kind dueAt interval) (hinterval : kind.interval = some interval)
    {l : ScheduleLabel} (hl : s.Allowed l) : (s.step wallTime l).Inv kind dueAt interval := by
  have hfacts := ScheduleWorld.step_facts wallTime h.world hl
  cases hnext : s.successor wallTime l with
  | some next =>
    rw [SeriesWorld.step, hnext]
    exact ⟨hfacts.inv, h.successor hinterval hl hnext⟩
  | none =>
    rw [SeriesWorld.step, hnext]
    obtain ⟨m, hm, hid, hkind, hdue⟩ := h.member
    obtain ⟨_, m', hm', -, hev⟩ := hfacts.logStep.kept m hm
    exact ⟨hfacts.inv, m', hm', hev.timerId.trans hid, hev.repeatKind.trans hkind,
      hev.dueAt.trans hdue⟩

theorem Inv.created (wallTime : ℚ → String → String) {w : ScheduleWorld} (h : w.Inv)
    {action : ScheduleAction} {now : ℚ} (hnew : w.newTimer action.timerId)
    (hcreated : (w.log.createUniquePending (action.record now)).2.2 = true) :
    Inv action.repeatKind action.dueAt interval ⟨w.step wallTime (.schedule action now),
      action.timerId, 0⟩ where
  world := by
    have hfacts : ScheduleWorld.StepFacts wallTime w (.schedule action now) := .schedule h hnew
    exact hfacts.inv
  member := by
    unfold ScheduledLog.createUniquePending at hcreated
    cases hslot : w.log.inSlot (action.record now).dueAt (action.record now).repeatKind with
    | some existing =>
      rw [hslot] at hcreated
      cases hcreated
    | none =>
      simp only [ScheduleWorld.step, ScheduledLog.createUniquePending, hslot]
      exact ⟨_, ScheduledLog.mem_append.mpr (.inr rfl), rfl, rfl, by simp [ScheduleAction.record]⟩

/-- In every run: the latest member of a series that started at an absolute wall time is due at the
original wall time of day, so many days or weeks later, exactly when the zone has the offset that it
had at the start. -/
theorem repeat_keeps_local_time_iff (tz : TzDatabase) (texts : TimeTexts)
    (before : List ScheduleLabel)
    (hbefore : Runs.Along (ScheduleWorld.step (wallTimeForDueAt tz texts)) ScheduleWorld.Allowed
      .initial before)
    (settingsTimezone : String) (minLead : ℚ) (request : ScheduleRequest) (now wall interval : ℚ)
    (action : ScheduleAction)
    (haction : scheduleAction tz texts settingsTimezone minLead request now = .ok action)
    (hwall : absoluteWall texts (request.zone tz settingsTimezone).2 request.atText = some wall)
    (hexact : (request.zone tz settingsTimezone).2.Unambiguous wall)
    (hinterval : action.repeatKind.interval = some interval)
    (hnew : (Runs.run (ScheduleWorld.step (wallTimeForDueAt tz texts)) .initial before).newTimer
      action.timerId)
    (hcreated : ((Runs.run (ScheduleWorld.step (wallTimeForDueAt tz texts)) .initial
      before).log.createUniquePending (action.record now)).2.2 = true)
    (after : List ScheduleLabel)
    (hafter : Runs.Along (step (wallTimeForDueAt tz texts)) Allowed
      ⟨Runs.run (ScheduleWorld.step (wallTimeForDueAt tz texts)) .initial (before ++
        [.schedule action now]), action.timerId, 0⟩ after) :
    let zone := (request.zone tz settingsTimezone).2
    let original := zone.wall action.dueAt
    let s := Runs.run (step (wallTimeForDueAt tz texts))
      ⟨Runs.run (ScheduleWorld.step (wallTimeForDueAt tz texts)) .initial (before ++
        [.schedule action now]), action.timerId, 0⟩ after
    tz.find action.timezone = some zone ∧
      (clamped request.selfWake minLead (zone.fromWall wall) now = false → original = wall) ∧
      ∃ r ∈ s.world.log.rows, r.doc.timerId = s.current ∧
        (zone.Unambiguous (original + s.count * interval) →
          (r.doc.dueAt = zone.fromWall (original + s.count * interval) ↔
            zone.utcOffset (action.dueAt + s.count * interval) = zone.utcOffset action.dueAt)) := by
  intro zone original s
  obtain ⟨hname, hdue⟩ := scheduleAction_absolute haction hwall hexact
  refine ⟨?_, fun hclamped => ?_, ?_⟩
  · rw [hname]
    exact tz.find_zone _
  · show zone.wall action.dueAt = wall
    rw [hdue hclamped]
    exact hexact.wall_fromWall
  · have hstart : Inv action.repeatKind action.dueAt interval
        ⟨Runs.run (ScheduleWorld.step (wallTimeForDueAt tz texts)) .initial (before ++
          [.schedule action now]), action.timerId, 0⟩ := by
      rw [Runs.run_append]
      exact Inv.created (wallTimeForDueAt tz texts)
        (ScheduleWorld.Inv.initial.run hbefore) hnew hcreated
    obtain ⟨r, hr, hid, -, hlater⟩ := (Runs.invariant (Inv action.repeatKind action.dueAt interval)
      (fun _ _ h hl => h.step hinterval hl) hstart hafter).member
    refine ⟨r, hr, hid, fun htarget => ?_⟩
    rw [htarget.eq_fromWall_iff, hlater]
    exact Zone.wall_add_eq_iff

/-- Eastern time around 2027-03-14, when clocks go from five hours behind to four at 07:00 UTC. -/
def easternTime : Zone ℚ where
  utcOffset t := if t < 1805007600 then -18000 else -14400
  fromWall w := if w + 18000 < 1805007600 then w + 18000 else w + 14400
  fromWall_exact := by
    rintro w ⟨t, ht, -⟩
    split_ifs at ht ⊢ <;> linarith

theorem easternTime_before {w : ℚ} (h : w + 18000 < 1805007600) : easternTime.Unambiguous w := by
  refine ⟨w + 18000, by simp [Zone.wall, easternTime, h], fun t ht => ?_⟩
  simp only [Zone.wall, easternTime] at ht
  split_ifs at ht <;> linarith

theorem easternTime_after {w : ℚ} (h : 1805007600 ≤ w + 14400) : easternTime.Unambiguous w := by
  refine ⟨w + 14400, by simp [Zone.wall, easternTime, not_lt.mpr h], fun t ht => ?_⟩
  simp only [Zone.wall, easternTime] at ht
  split_ifs at ht <;> linarith

def easternDatabase : TzDatabase :=
  ⟨fun _ => none, fun _ => some easternTime, "America/New_York", easternTime, rfl⟩

/-- Every text is 09:00 on some day, without an offset. -/
def nineOClock (day : ℚ) : TimeTexts :=
  ⟨fun _ => "", fun _ => some (day + 32400, none), fun _ => none⟩

def dailyRequest : ScheduleRequest :=
  ⟨"09:00", "America/New_York", "daily", "", none, [], "turn", ["wake_0"], "sched_1", false⟩

/-- The timer of the request, for 14:00 UTC on a day before the change. -/
def dailyAction (dueAt : ℚ) : ScheduleAction :=
  ⟨"sched_1", "", "America/New_York", dueAt, .daily, "", ["wake_0"], "turn", ["wake_0"]⟩

/-- The timer is claimed when it is due, and fires. -/
def dailyFires (dueAt : ℚ) : List ScheduleLabel :=
  [.claimDue "sched_1" "claim_1" "worker" dueAt 60,
    .markFired (ScheduledLog.claimedBy "claim_1" "worker" dueAt 60 ((dailyAction dueAt).record 0))
      "wake_1" 7 "sched_2" dueAt]

/-- The series right after it was created, in an empty log. -/
def dailySeries (texts : TimeTexts) (dueAt : ℚ) : SeriesWorld :=
  ⟨Runs.run (ScheduleWorld.step (wallTimeForDueAt easternDatabase texts)) .initial ([] ++
      [.schedule (dailyAction dueAt) 0]),
    "sched_1", 0⟩

def dailyFired (texts : TimeTexts) (dueAt : ℚ) : SeriesWorld :=
  Runs.run (step (wallTimeForDueAt easternDatabase texts)) (dailySeries texts dueAt)
    (dailyFires dueAt)

theorem dailyRequest_zone : (dailyRequest.zone easternDatabase "").2 = easternTime := rfl

/-- Two days before the change the next wake is at 09:00 again. -/
theorem repeat_keeps_local_time_iff_daily :
    ∃ r ∈ (dailyFired (nineOClock 1804809600) 1804860000).world.log.rows,
      r.doc.timerId = "sched_2" ∧ r.doc.dueAt = easternTime.fromWall (1804842000 + 86400) := by
  have hafter : Runs.Along (step (wallTimeForDueAt easternDatabase (nineOClock 1804809600))) Allowed
      (dailySeries (nineOClock 1804809600) 1804860000) (dailyFires 1804860000) := by decide +kernel
  have hlast : (dailyFired (nineOClock 1804809600) 1804860000).count = 1 ∧
      (dailyFired (nineOClock 1804809600) 1804860000).current = "sched_2" := by decide +kernel
  have hoffset : easternTime.utcOffset (1804860000 + (1 : Nat) * 86400) =
      easternTime.utcOffset 1804860000 := by
    decide +kernel
  have hwall : easternTime.wall 1804860000 = 1804842000 := by decide +kernel
  obtain ⟨-, -, r, hr, hid, hiff⟩ :=
    repeat_keeps_local_time_iff easternDatabase (nineOClock 1804809600) [] trivial ""
    0 dailyRequest 0 1804842000 86400 (dailyAction 1804860000) (by decide +kernel)
      (by decide +kernel)
    (by rw [dailyRequest_zone]; exact easternTime_before (by norm_num)) rfl (by decide +kernel)
      (by decide +kernel) _ hafter
  change r.doc.timerId = (dailyFired (nineOClock 1804809600) 1804860000).current at hid
  change easternTime.Unambiguous (easternTime.wall 1804860000 +
      (dailyFired (nineOClock 1804809600) 1804860000).count * 86400) →
    (r.doc.dueAt = easternTime.fromWall (easternTime.wall 1804860000 +
        (dailyFired (nineOClock 1804809600) 1804860000).count * 86400) ↔
      easternTime.utcOffset (1804860000 +
          (dailyFired (nineOClock 1804809600) 1804860000).count * 86400) =
        easternTime.utcOffset 1804860000) at hiff
  rw [hlast.1, hwall] at hiff
  have hdue := (hiff (easternTime_before (by norm_num))).mpr hoffset
  rw [Nat.cast_one, one_mul] at hdue
  exact ⟨r, hr, hid.trans hlast.2, hdue⟩

/-- The wake of the day before the change comes at 10:00 on the next day. -/
theorem daily_wake_moves_with_clock_change :
    ¬ ∀ (tz : TzDatabase) (texts : TimeTexts) (before : List ScheduleLabel),
      Runs.Along (ScheduleWorld.step (wallTimeForDueAt tz texts)) ScheduleWorld.Allowed .initial
        before →
      ∀ (settingsTimezone : String) (minLead : ℚ) (request : ScheduleRequest)
        (now wall interval : ℚ) (action : ScheduleAction),
      scheduleAction tz texts settingsTimezone minLead request now = .ok action →
      absoluteWall texts (request.zone tz settingsTimezone).2 request.atText = some wall →
      (request.zone tz settingsTimezone).2.Unambiguous wall →
      action.repeatKind.interval = some interval →
      (Runs.run (ScheduleWorld.step (wallTimeForDueAt tz texts)) .initial before).newTimer
        action.timerId →
      ((Runs.run (ScheduleWorld.step (wallTimeForDueAt tz texts)) .initial
        before).log.createUniquePending (action.record now)).2.2 = true →
      ∀ after : List ScheduleLabel,
      Runs.Along (step (wallTimeForDueAt tz texts)) Allowed
        ⟨Runs.run (ScheduleWorld.step (wallTimeForDueAt tz texts)) .initial (before ++
          [.schedule action now]), action.timerId, 0⟩ after →
      let zone := (request.zone tz settingsTimezone).2
      let original := zone.wall action.dueAt
      let s := Runs.run (step (wallTimeForDueAt tz texts))
        ⟨Runs.run (ScheduleWorld.step (wallTimeForDueAt tz texts)) .initial (before ++
          [.schedule action now]), action.timerId, 0⟩ after
      ∀ r ∈ s.world.log.rows, r.doc.timerId = s.current →
        zone.Unambiguous (original + s.count * interval) →
        r.doc.dueAt = zone.fromWall (original + s.count * interval) := by
  intro hclaim
  have hafter : Runs.Along (step (wallTimeForDueAt easternDatabase (nineOClock 1804896000))) Allowed
      (dailySeries (nineOClock 1804896000) 1804946400) (dailyFires 1804946400) := by decide +kernel
  have hnext :=
    hclaim easternDatabase (nineOClock 1804896000) [] trivial "" 0 dailyRequest 0 1804928400 86400
    (dailyAction 1804946400) (by decide +kernel) (by decide +kernel)
    (by rw [dailyRequest_zone]; exact easternTime_before (by norm_num)) rfl (by decide +kernel)
      (by decide +kernel) _ hafter
  change ∀ r ∈ (dailyFired (nineOClock 1804896000) 1804946400).world.log.rows,
    r.doc.timerId = (dailyFired (nineOClock 1804896000) 1804946400).current →
    easternTime.Unambiguous (easternTime.wall 1804946400 +
      (dailyFired (nineOClock 1804896000) 1804946400).count * 86400) →
    r.doc.dueAt = easternTime.fromWall (easternTime.wall 1804946400 +
      (dailyFired (nineOClock 1804896000) 1804946400).count * 86400) at hnext
  have hcount : (dailyFired (nineOClock 1804896000) 1804946400).count = 1 := by decide +kernel
  have hwall : easternTime.wall 1804946400 = 1804928400 := by decide +kernel
  rw [hcount, hwall] at hnext
  -- 09:00 of the next day is 13:00 UTC, and the wake comes at 14:00 UTC
  have hlate : ∃ r ∈ (dailyFired (nineOClock 1804896000) 1804946400).world.log.rows,
      r.doc.timerId = (dailyFired (nineOClock 1804896000) 1804946400).current ∧
        r.doc.dueAt ≠ easternTime.fromWall (1804928400 + (1 : Nat) * 86400) := by decide +kernel
  obtain ⟨r, hr, hid, hne⟩ := hlate
  exact hne (hnext r hr hid (easternTime_after (by norm_num)))

end SeriesWorld

end Feedling
