import Feedling.KeyedTable
import Feedling.Runs
import Mathlib.Data.List.MinMax
import Mathlib.Data.Prod.Lex

/-!
# The enclave broker

One broker per instance hands out a fixed number of permits to three pools of slot children.
A reservation is a guarantee while its pool waits: permits that nobody claims are lent to any
pool. Every call that may free a permit ends in the loop `_drain_locked`, which grants one waiter
after the other and looks at the deficits again before each grant.
-/

namespace Feedling

open KeyedTable

/-- `_POOLS`. -/
inductive PoolName where
  | foreground
  | wake
  | heavy
  deriving DecidableEq, Repr

/-- `_BORROW_PRIORITY`. -/
def PoolName.borrowPriority : PoolName → Nat
  | .foreground => 0
  | .wake => 1
  | .heavy => 2

/-- `EnclaveRequest`; `identified` is what `__post_init__` checks. -/
structure EnclaveRequest where
  requestId : String
  pool : PoolName
  slotId : String
  slotGeneration : String
  identified : requestId ≠ "" ∧ slotId ≠ "" ∧ slotGeneration ≠ ""
  deriving DecidableEq

/-- The arguments that the constructor of the broker accepts. -/
structure BrokerLimits where
  limit : Nat
  reservations : PoolName → Nat
  positive : 0 < limit
  fits : reservations .foreground + reservations .wake + reservations .heavy ≤ limit

/-- An element of `_waiters`. -/
structure Waiter where
  sequence : Nat
  request : EnclaveRequest
  deriving DecidableEq

/-- `_granted` is keyed by request; `_waiters` is appended to with the next number of
`_sequence`. -/
structure EnclaveBroker where
  granted : Table EnclaveRequest.requestId
  waiters : Serial Waiter.sequence

/-- A call of `on_grant`, with the state of the broker that the grant was made in. -/
structure Grant where
  before : EnclaveBroker
  waiter : Waiter

namespace EnclaveBroker

variable (cfg : BrokerLimits)

def initial : EnclaveBroker := ⟨.empty, .empty 1⟩

/-- `counts[pool]`. -/
def grantedIn (b : EnclaveBroker) (p : PoolName) : Nat := b.granted.rows.countP fun r => r.pool == p

/-- `pool in waiting_pools`. -/
def waitsIn (b : EnclaveBroker) (p : PoolName) : Bool :=
  b.waiters.rows.any fun w => w.request.pool == p

/-- `pool in reserved_deficits`. -/
def reservedDeficit (b : EnclaveBroker) (p : PoolName) : Bool :=
  b.waitsIn p && decide (b.grantedIn p < cfg.reservations p)

/-- `pool in (reserved_deficits or waiting_pools)`. -/
def eligible (b : EnclaveBroker) (p : PoolName) : Bool :=
  if [PoolName.foreground, .wake, .heavy].any (b.reservedDeficit cfg) then b.reservedDeficit cfg p
    else b.waitsIn p

/-- The waiter that the loop pops: the least one by priority, then by sequence. -/
def nextWaiter (b : EnclaveBroker) : Option Waiter :=
  (b.waiters.rows.filter fun w => b.eligible cfg w.request.pool).argmin
    fun w => toLex (w.request.pool.borrowPriority, w.sequence)

/-- The waiter moves from the list to the map. -/
def grant (b : EnclaveBroker) (w : Waiter) : EnclaveBroker where
  granted := (b.granted.erase fun r => r.requestId == w.request.requestId).insert w.request
  waiters := b.waiters.erase fun x => x.sequence == w.sequence

/-- The loop of `_drain_locked`, which pops a waiter at every turn. -/
def drain : Nat → EnclaveBroker → EnclaveBroker × List Grant
  | 0, b => (b, [])
  | turns + 1, b =>
    if b.granted.rows.length < cfg.limit then
      match b.nextWaiter cfg with
      | some w => ((drain turns (b.grant w)).1, ⟨b, w⟩ :: (drain turns (b.grant w)).2)
      | none => (b, [])
    else (b, [])

def drainLocked (b : EnclaveBroker) : EnclaveBroker × List Grant :=
  b.drain cfg b.waiters.rows.length

def holds (b : EnclaveBroker) (id : String) : Bool :=
  (b.granted.get? id).isSome || b.waiters.rows.any fun w => w.request.requestId == id

def accept (b : EnclaveBroker) (r : EnclaveRequest) : EnclaveBroker :=
  { b with waiters := b.waiters.insert (fun n => ⟨n, r⟩) fun _ => rfl }

def request (b : EnclaveBroker) (r : EnclaveRequest) : EnclaveBroker × List Grant × Bool :=
  match b.granted.get? r.requestId with
  | some existing => (b, [], existing == r)
  | none =>
    if b.waiters.rows.any fun w => w.request.requestId == r.requestId then (b, [], false)
    else
      let drained := (b.accept r).drainLocked cfg
      (drained.1, drained.2, drained.2.any fun g => g.waiter.request.requestId == r.requestId)

def named (id generation : String) (r : EnclaveRequest) : Bool :=
  r.requestId == id && r.slotGeneration == generation

def release (b : EnclaveBroker) (id generation : String) : EnclaveBroker × List Grant :=
  if (b.granted.get? id).any (named id generation) then
    { b with granted := b.granted.erase fun r => r.requestId == id }.drainLocked cfg
  else (b, [])

def cancel (b : EnclaveBroker) (id generation : String) : EnclaveBroker × List Grant × Bool :=
  let waits := b.waiters.rows.any fun w => named id generation w.request
  let holdsPermit := (b.granted.get? id).any (named id generation)
  let kept : EnclaveBroker :=
    { granted := if holdsPermit then b.granted.erase fun r => r.requestId == id else b.granted
      waiters := b.waiters.erase fun w => named id generation w.request }
  if waits || holdsPermit then ((kept.drainLocked cfg).1, (kept.drainLocked cfg).2, true)
    else (kept, [], false)

def dropGeneration (b : EnclaveBroker) (generation : String) : EnclaveBroker × List Grant :=
  EnclaveBroker.drainLocked cfg
    { granted := b.granted.erase fun r => r.slotGeneration == generation
      waiters := b.waiters.erase fun w => w.request.slotGeneration == generation }

end EnclaveBroker

/-! ## One turn of the loop -/

namespace EnclaveBroker

variable {cfg : BrokerLimits} {b : EnclaveBroker} {w : Waiter}

theorem waitsIn_of_mem (h : w ∈ b.waiters.rows) : b.waitsIn w.request.pool = true :=
  List.any_eq_true.mpr ⟨w, h, by simp⟩

theorem reservedDeficit_any (p : PoolName) (h : b.reservedDeficit cfg p = true) :
    [PoolName.foreground, .wake, .heavy].any (b.reservedDeficit cfg) = true := by
  refine List.any_eq_true.mpr ⟨p, ?_, h⟩
  cases p <;> decide

theorem nextWaiter_eq_none : b.nextWaiter cfg = none ↔ b.waiters.rows = [] := by
  unfold nextWaiter
  rw [List.argmin_eq_none, List.filter_eq_nil_iff]
  constructor
  · intro h
    by_contra hne
    obtain ⟨w, hw⟩ := List.exists_mem_of_ne_nil _ hne
    by_cases hany : [PoolName.foreground, .wake, .heavy].any (b.reservedDeficit cfg) = true
    · obtain ⟨p, -, hp⟩ := List.any_eq_true.mp hany
      obtain ⟨x, hx, hpool⟩ := List.any_eq_true.mp (Bool.and_eq_true_iff.mp hp).1
      refine h x hx ?_
      rw [eligible, if_pos hany, beq_iff_eq.mp hpool]
      exact hp
    · refine h w hw ?_
      rw [eligible, if_neg hany]
      exact waitsIn_of_mem hw
  · intro h x hx
    rw [h] at hx
    cases hx

/-- The next waiter is the first of its pool, and a pool with a deficit goes before the others. -/
theorem nextWaiter_spec (h : b.nextWaiter cfg = some w) :
    w ∈ b.waiters.rows ∧
      (∀ x ∈ b.waiters.rows, x.request.pool = w.request.pool → w.sequence ≤ x.sequence) ∧
      ((∃ p, b.reservedDeficit cfg p = true) → b.reservedDeficit cfg w.request.pool = true) := by
  obtain ⟨hmem, heligible⟩ := List.mem_filter.mp (List.argmin_mem h)
  refine ⟨hmem, fun x hx hpool => ?_, ?_⟩
  · have hx' : x ∈ b.waiters.rows.filter fun w => b.eligible cfg w.request.pool :=
      List.mem_filter.mpr ⟨hx, by rw [hpool]; exact heligible⟩
    have hle := List.le_of_mem_argmin hx' h
    rw [Prod.Lex.toLex_le_toLex, hpool] at hle
    rcases hle with hlt | ⟨-, hle⟩
    · exact absurd hlt (lt_irrefl _)
    · exact hle
  · rintro ⟨p, hp⟩
    rw [eligible, if_pos (reservedDeficit_any p hp)] at heligible
    exact heligible

def heldIds (b : EnclaveBroker) : List String :=
  b.granted.rows.map (·.requestId) ++ b.waiters.rows.map (·.request.requestId)

theorem granted_eq_none (hids : b.heldIds.Nodup) (hw : w ∈ b.waiters.rows) :
    b.granted.get? w.request.requestId = none := by
  refine Table.get?_eq_none.mpr fun r hr he => ?_
  have hdisjoint := (List.nodup_append.mp hids).2.2
  exact hdisjoint r.requestId (List.mem_map_of_mem hr) w.request.requestId (List.mem_map.mpr ⟨w, hw,
      rfl⟩) he

theorem grant_granted_rows (hids : b.heldIds.Nodup) (hw : w ∈ b.waiters.rows) :
    (b.grant w).granted.rows = b.granted.rows ++ [w.request] := by
  have hnone := granted_eq_none hids hw
  have hkeep : (b.granted.erase fun r => r.requestId == w.request.requestId).rows =
      b.granted.rows := by
    refine List.filter_eq_self.mpr fun r hr => ?_
    have hne := Table.get?_eq_none.mp hnone r hr
    simp [hne]
  have hgone : (b.granted.erase fun r => r.requestId == w.request.requestId).get?
      w.request.requestId = none := by
    rw [Table.get?_erase, hnone]
    rfl
  show ((b.granted.erase _).insert w.request).rows = _
  rw [Table.rows_insert_of_none hgone, hkeep]

theorem mem_grant_waiters {x : Waiter} :
    x ∈ (b.grant w).waiters.rows ↔ x ∈ b.waiters.rows ∧ x.sequence ≠ w.sequence := by
  simp [grant, Serial.erase]

theorem grant_waiters_length (hw : w ∈ b.waiters.rows) :
    (b.grant w).waiters.rows.length + 1 ≤ b.waiters.rows.length := by
  have hlt : (b.waiters.rows.filter fun x => !(x.sequence == w.sequence)).length <
      b.waiters.rows.length := by
    refine List.length_filter_lt_length_iff_exists.mpr ⟨w, hw, ?_⟩
    simp
  exact hlt

theorem grant_heldIds (hids : b.heldIds.Nodup) (hw : w ∈ b.waiters.rows) :
    (b.grant w).heldIds.Nodup := by
  obtain ⟨hgranted, hwaiting, hdisjoint⟩ := List.nodup_append.mp hids
  have hsub : (b.grant w).waiters.rows.Sublist b.waiters.rows := List.filter_sublist
  have hinj : ∀ x ∈ b.waiters.rows, x.request.requestId = w.request.requestId → x = w := by
    intro x hx he
    exact List.inj_on_of_nodup_map hwaiting hx hw he
  unfold heldIds
  rw [grant_granted_rows hids hw, List.map_append, List.map_singleton]
  refine List.nodup_append.mpr ⟨?_, hwaiting.sublist (hsub.map _), ?_⟩
  · refine List.nodup_append.mpr ⟨hgranted, List.nodup_singleton _, ?_⟩
    intro id hid id' hid' he
    rw [List.mem_singleton] at hid'
    exact hdisjoint id hid id' (List.mem_map.mpr ⟨w, hw, hid'.symm⟩) he
  · intro id hid id' hid' he
    obtain ⟨x, hx, rfl⟩ := List.mem_map.mp hid'
    obtain ⟨hx, hne⟩ := mem_grant_waiters.mp hx
    rcases List.mem_append.mp hid with hid | hid
    · exact hdisjoint id hid _ (List.mem_map_of_mem hx) he
    · rw [List.mem_singleton] at hid
      exact hne (by rw [hinj x hx (he.symm.trans hid)])

end EnclaveBroker

/-! ## Calls and their history -/

/-- The broker with the requests it accepted so far and the calls of `on_grant` it made. -/
structure BrokerWorld where
  broker : EnclaveBroker
  accepted : List Waiter
  reports : List Grant

inductive BrokerCall where
  | request (r : EnclaveRequest)
  | release (id generation : String)
  | cancel (id generation : String)
  | dropGeneration (generation : String)

namespace BrokerWorld

def initial : BrokerWorld := ⟨.initial, [], []⟩

/-- The requests after the call `request r`: one more, unless its id is held. -/
def accepting (w : BrokerWorld) (r : EnclaveRequest) : List Waiter :=
  if w.broker.holds r.requestId then w.accepted else w.accepted ++ [⟨w.broker.waiters.next, r⟩]

def step (cfg : BrokerLimits) (w : BrokerWorld) : BrokerCall → BrokerWorld
  | .request r =>
    let (b, callbacks, _) := w.broker.request cfg r
    ⟨b, w.accepting r, w.reports ++ callbacks⟩
  | .release id generation =>
    let (b, callbacks) := w.broker.release cfg id generation
    ⟨b, w.accepted, w.reports ++ callbacks⟩
  | .cancel id generation =>
    let (b, callbacks, _) := w.broker.cancel cfg id generation
    ⟨b, w.accepted, w.reports ++ callbacks⟩
  | .dropGeneration generation =>
    let (b, callbacks) := w.broker.dropGeneration cfg generation
    ⟨b, w.accepted, w.reports ++ callbacks⟩

end BrokerWorld

/-- The request waited and had no permit, and if some waiting pool was below its reservation, then
so was the pool of the request. -/
structure Grant.Sound (cfg : BrokerLimits) (g : Grant) : Prop where
  waited : g.waiter ∈ g.before.waiters.rows
  ungranted : g.before.granted.get? g.waiter.request.requestId = none
  reserved : (∃ p, g.before.reservedDeficit cfg p = true) →
    g.before.reservedDeficit cfg g.waiter.request.pool = true

/-- The first was granted before the second: they are two requests, in order if they share a
pool. -/
def Grant.Precedes (g h : Grant) : Prop :=
  g.waiter.sequence ≠ h.waiter.sequence ∧
    (g.waiter.request.pool = h.waiter.request.pool → g.waiter.sequence < h.waiter.sequence)

namespace BrokerWorld

/-- What holds at every turn of the loop. -/
structure Inv (cfg : BrokerLimits) (w : BrokerWorld) : Prop where
  bounded : w.broker.granted.rows.length ≤ cfg.limit
  ids : w.broker.heldIds.Nodup
  numbered : w.accepted.Pairwise fun a b => a.sequence < b.sequence
  below : ∀ a ∈ w.accepted, a.sequence < w.broker.waiters.next
  waiting : ∀ x ∈ w.broker.waiters.rows, x ∈ w.accepted
  /-- A waiter stands behind every grant of its pool. -/
  behind : ∀ g ∈ w.reports, ∀ x ∈ w.broker.waiters.rows, g.Precedes ⟨w.broker, x⟩
  ordered : w.reports.Pairwise Grant.Precedes
  sound : ∀ g ∈ w.reports, g.waiter ∈ w.accepted ∧ g.Sound cfg

/-- No permit is idle while somebody waits. -/
def Drained (cfg : BrokerLimits) (b : EnclaveBroker) : Prop :=
  b.granted.rows.length < cfg.limit → b.waiters.rows = []

variable {cfg : BrokerLimits} {w : BrokerWorld}

theorem Inv.initial : Inv cfg BrokerWorld.initial where
  bounded := Nat.zero_le _
  ids := List.nodup_nil
  numbered := List.Pairwise.nil
  below := by intro a ha; cases ha
  waiting := by intro x hx; cases hx
  behind := by intro g hg; cases hg
  ordered := List.Pairwise.nil
  sound := by intro g hg; cases hg

theorem Inv.grant {x : Waiter} (h : Inv cfg w) (hroom : w.broker.granted.rows.length < cfg.limit)
    (hx : w.broker.nextWaiter cfg = some x) :
    Inv cfg ⟨w.broker.grant x, w.accepted, w.reports ++ [⟨w.broker, x⟩]⟩ := by
  obtain ⟨hmem, hfirst, hreserved⟩ := EnclaveBroker.nextWaiter_spec hx
  constructor
  case bounded =>
    show (w.broker.grant x).granted.rows.length ≤ cfg.limit
    rw [EnclaveBroker.grant_granted_rows h.ids hmem, List.length_append]
    exact hroom
  case ids => exact EnclaveBroker.grant_heldIds h.ids hmem
  case numbered => exact h.numbered
  case below => exact h.below
  case waiting => exact fun y hy => h.waiting y (EnclaveBroker.mem_grant_waiters.mp hy).1
  case behind =>
    intro g hg y hy
    obtain ⟨hy, hne⟩ := EnclaveBroker.mem_grant_waiters.mp hy
    rcases List.mem_append.mp hg with hg | hg
    · exact h.behind g hg y hy
    · rw [List.mem_singleton] at hg
      subst hg
      exact ⟨hne.symm, fun hpool => lt_of_le_of_ne (hfirst y hy hpool.symm) hne.symm⟩
  case ordered =>
    refine List.pairwise_append.mpr ⟨h.ordered, List.pairwise_singleton _ _, fun g hg g' hg' => ?_⟩
    rw [List.mem_singleton] at hg'
    subst hg'
    exact h.behind g hg x hmem
  case sound =>
    intro g hg
    rcases List.mem_append.mp hg with hg | hg
    · exact h.sound g hg
    · rw [List.mem_singleton] at hg
      subst hg
      exact ⟨h.waiting x hmem, hmem, EnclaveBroker.granted_eq_none h.ids hmem, hreserved⟩

/-- The loop keeps the invariant, and with a turn for every waiter it ends drained. -/
theorem Inv.drain {turns : Nat} (h : Inv cfg w) (hturns : w.broker.waiters.rows.length ≤ turns) :
    Inv cfg ⟨(w.broker.drain cfg turns).1, w.accepted, w.reports ++ (w.broker.drain cfg turns).2⟩ ∧
      Drained cfg (w.broker.drain cfg turns).1 := by
  induction turns generalizing w with
  | zero =>
    have hnil : w.broker.waiters.rows = [] := List.length_eq_zero_iff.mp (Nat.le_zero.mp hturns)
    rw [EnclaveBroker.drain, List.append_nil]
    exact ⟨h, fun _ => hnil⟩
  | succ turns ih =>
    rw [EnclaveBroker.drain]
    by_cases hroom : w.broker.granted.rows.length < cfg.limit
    · rw [if_pos hroom]
      cases hx : w.broker.nextWaiter cfg with
      | none =>
        dsimp only
        rw [List.append_nil]
        exact ⟨h, fun _ => EnclaveBroker.nextWaiter_eq_none.mp hx⟩
      | some x =>
        have hshorter := EnclaveBroker.grant_waiters_length (EnclaveBroker.nextWaiter_spec hx).1
        have hrest :=
          ih (h.grant hroom hx) (by show (w.broker.grant x).waiters.rows.length ≤ turns; omega)
        dsimp only at hrest ⊢
        rw [List.append_assoc, List.singleton_append] at hrest
        exact hrest
    · rw [if_neg hroom]
      dsimp only
      rw [List.append_nil]
      exact ⟨h, fun hlt => absurd hlt hroom⟩

theorem Inv.drainLocked (h : Inv cfg w) :
    Inv cfg ⟨(w.broker.drainLocked cfg).1, w.accepted, w.reports ++ (w.broker.drainLocked cfg).2⟩ ∧
      Drained cfg (w.broker.drainLocked cfg).1 :=
  h.drain (Nat.le_refl _)

theorem Inv.drop {b : EnclaveBroker} (h : Inv cfg w)
    (hgranted : b.granted.rows.Sublist w.broker.granted.rows)
    (hwaiters : b.waiters.rows.Sublist w.broker.waiters.rows)
    (hnext : b.waiters.next = w.broker.waiters.next) :
    Inv cfg ⟨b, w.accepted, w.reports⟩ where
  bounded := Nat.le_trans hgranted.length_le h.bounded
  ids := h.ids.sublist ((hgranted.map _).append (hwaiters.map _))
  numbered := h.numbered
  below := fun a ha => by
    show a.sequence < b.waiters.next
    rw [hnext]
    exact h.below a ha
  waiting := fun x hx => h.waiting x (hwaiters.subset hx)
  behind := fun g hg x hx => h.behind g hg x (hwaiters.subset hx)
  ordered := h.ordered
  sound := h.sound

theorem Inv.accept {r : EnclaveRequest} (h : Inv cfg w)
    (hfree : w.broker.holds r.requestId = false) :
    Inv cfg ⟨w.broker.accept r, w.accepted ++ [⟨w.broker.waiters.next, r⟩], w.reports⟩ := by
  obtain ⟨hungranted, hunwaiting⟩ := Bool.or_eq_false_iff.mp hfree
  have hlast : ∀ y ∈ [(⟨w.broker.waiters.next, r⟩ : Waiter)], y = ⟨w.broker.waiters.next, r⟩ :=
    fun y hy => List.mem_singleton.mp hy
  constructor
  case bounded => exact h.bounded
  case ids =>
    obtain ⟨hgranted, hwaiting, hdisjoint⟩ := List.nodup_append.mp h.ids
    show (w.broker.granted.rows.map _ ++ (w.broker.waiters.rows ++ [_]).map _).Nodup
    rw [List.map_append, List.map_singleton, ← List.append_assoc]
    refine List.nodup_append.mpr ⟨h.ids, List.nodup_singleton _, fun id hid id' hid' he => ?_⟩
    rw [List.mem_singleton] at hid'
    subst hid'
    rcases List.mem_append.mp hid with hid | hid
    · obtain ⟨x, hx, hkey⟩ := List.mem_map.mp hid
      have hnone : w.broker.granted.get? r.requestId = none :=
        Option.isNone_iff_eq_none.mp (Option.isSome_eq_false_iff.mp hungranted)
      exact Table.get?_eq_none.mp hnone x hx (hkey.trans he)
    · obtain ⟨x, hx, hkey⟩ := List.mem_map.mp hid
      have hne := List.any_eq_false.mp hunwaiting x hx
      exact hne (beq_iff_eq.mpr (hkey.trans he))
  case numbered =>
    refine List.pairwise_append.mpr ⟨h.numbered, List.pairwise_singleton _ _, fun a ha y hy => ?_⟩
    rw [hlast y hy]
    exact h.below a ha
  case below =>
    intro a ha
    show a.sequence < w.broker.waiters.next + 1
    rcases List.mem_append.mp ha with ha | ha
    · exact Nat.lt_succ_of_lt (h.below a ha)
    · rw [hlast a ha]
      exact Nat.lt_succ_self _
  case waiting =>
    intro x hx
    rcases List.mem_append.mp hx with hx | hx
    · exact List.mem_append_left _ (h.waiting x hx)
    · exact List.mem_append_right _ hx
  case behind =>
    intro g hg x hx
    rcases List.mem_append.mp hx with hx | hx
    · exact h.behind g hg x hx
    · have hlt := h.below g.waiter (h.sound g hg).1
      rw [hlast x hx]
      exact ⟨Nat.ne_of_lt hlt, fun _ => hlt⟩
  case ordered => exact h.ordered
  case sound =>
    intro g hg
    obtain ⟨hacc, hsound⟩ := h.sound g hg
    exact ⟨List.mem_append_left _ hacc, hsound⟩

/-! ## One call -/

structure Settled (cfg : BrokerLimits) (w : BrokerWorld) : Prop extends Inv cfg w where
  drained : Drained cfg w.broker

theorem Settled.initial : Settled cfg BrokerWorld.initial := ⟨.initial, fun _ => rfl⟩

theorem Inv.settled (h : Inv cfg w) :
    Settled cfg ⟨(w.broker.drainLocked cfg).1, w.accepted,
      w.reports ++ (w.broker.drainLocked cfg).2⟩ :=
  ⟨h.drainLocked.1, h.drainLocked.2⟩

section

variable (h : Settled cfg w)
include h

theorem Settled.request (r : EnclaveRequest) : Settled cfg (step cfg w (.request r)) := by
  unfold step EnclaveBroker.request accepting
  cases hold : w.broker.granted.get? r.requestId with
  | some existing =>
    have hheld : w.broker.holds r.requestId = true := by simp [EnclaveBroker.holds, hold]
    simp only [hold, hheld, if_true, List.append_nil]
    exact h
  | none =>
    by_cases hwaits : (w.broker.waiters.rows.any fun x => x.request.requestId == r.requestId) = true
    · have hheld : w.broker.holds r.requestId = true := by simp [EnclaveBroker.holds, hwaits]
      simp only [hold, hwaits, hheld, if_true, List.append_nil]
      exact h
    · have hfree : w.broker.holds r.requestId = false := by
        rw [EnclaveBroker.holds, hold, Bool.eq_false_iff.mpr hwaits]
        rfl
      simp only [hold, hfree, if_neg hwaits, Bool.false_eq_true, if_false]
      exact (h.toInv.accept hfree).settled

theorem Settled.release (id generation : String) :
    Settled cfg (step cfg w (.release id generation)) := by
  unfold step EnclaveBroker.release
  by_cases hmine : (w.broker.granted.get? id).any (EnclaveBroker.named id generation) = true
  · simp only [if_pos hmine]
    have hdrop :=
      h.toInv.drop
        (b := { w.broker with granted := w.broker.granted.erase fun r => r.requestId == id })
      List.filter_sublist (List.Sublist.refl _) rfl
    exact hdrop.settled
  · simp only [if_neg hmine, List.append_nil]
    exact h

theorem Settled.cancel (id generation : String) :
    Settled cfg (step cfg w (.cancel id generation)) := by
  unfold step EnclaveBroker.cancel
  by_cases hmine : (w.broker.granted.get? id).any (EnclaveBroker.named id generation) = true
  · simp only [hmine, Bool.or_true, if_true]
    have hdrop := h.toInv.drop
      (b := ⟨w.broker.granted.erase fun r => r.requestId == id,
        w.broker.waiters.erase fun x => EnclaveBroker.named id generation x.request⟩)
      List.filter_sublist List.filter_sublist rfl
    exact hdrop.settled
  · rw [Bool.not_eq_true] at hmine
    simp only [hmine, Bool.or_false, Bool.false_eq_true, if_false]
    have hdrop := h.toInv.drop
      (b := ⟨w.broker.granted,
        w.broker.waiters.erase fun x => EnclaveBroker.named id generation x.request⟩)
      (List.Sublist.refl _) List.filter_sublist rfl
    by_cases hwaits : (w.broker.waiters.rows.any fun x =>
        EnclaveBroker.named id generation x.request) = true
    · simp only [if_pos hwaits]
      exact hdrop.settled
    · simp only [if_neg hwaits, List.append_nil]
      refine ⟨hdrop, fun hlt => ?_⟩
      have hnil := h.drained hlt
      show w.broker.waiters.rows.filter _ = []
      rw [hnil]
      rfl

theorem Settled.dropGeneration (generation : String) :
    Settled cfg (step cfg w (.dropGeneration generation)) := by
  have hdrop := h.toInv.drop
    (b := ⟨w.broker.granted.erase fun r => r.slotGeneration == generation,
      w.broker.waiters.erase fun x => x.request.slotGeneration == generation⟩)
    List.filter_sublist List.filter_sublist rfl
  exact hdrop.settled

theorem Settled.step (call : BrokerCall) : Settled cfg (step cfg w call) := by
  cases call with
  | request r => exact h.request r
  | release id generation => exact h.release id generation
  | cancel id generation => exact h.cancel id generation
  | dropGeneration generation => exact h.dropGeneration generation

end

theorem settled_run (cfg : BrokerLimits) (calls : List BrokerCall) :
    Settled cfg (Runs.run (step cfg) initial calls) :=
  Runs.invariant_all (Settled cfg) (fun _ call h => h.step call) Settled.initial calls

/-! ## A dropped generation -/

/-- Nobody of the generation is granted or waits. -/
def FreeOf (generation : String) (b : EnclaveBroker) : Prop :=
  (∀ r ∈ b.granted.rows, r.slotGeneration ≠ generation) ∧
    ∀ x ∈ b.waiters.rows, x.request.slotGeneration ≠ generation

theorem FreeOf.drain {generation : String} {b : EnclaveBroker} (h : FreeOf generation b)
    (turns : Nat) : FreeOf generation (b.drain cfg turns).1 := by
  induction turns generalizing b with
  | zero => exact h
  | succ turns ih =>
    rw [EnclaveBroker.drain]
    by_cases hroom : b.granted.rows.length < cfg.limit
    · rw [if_pos hroom]
      cases hx : b.nextWaiter cfg with
      | none => exact h
      | some x =>
        refine ih ⟨fun r hr => ?_, fun y hy => h.2 y (EnclaveBroker.mem_grant_waiters.mp hy).1⟩
        rcases Table.mem_insert hr with hr | rfl
        · exact h.1 r (List.mem_of_mem_filter hr)
        · exact h.2 x (EnclaveBroker.nextWaiter_spec hx).1
    · rw [if_neg hroom]
      exact h

theorem freeOf_dropGeneration (w : BrokerWorld) (generation : String) :
    FreeOf generation (step cfg w (.dropGeneration generation)).broker := by
  have hfree : FreeOf generation
      ⟨w.broker.granted.erase fun r => r.slotGeneration == generation,
        w.broker.waiters.erase fun x => x.request.slotGeneration == generation⟩ := by
    constructor
    · intro r hr
      have hne := (List.mem_filter.mp hr).2
      simpa using hne
    · intro x hx
      have hne := (List.mem_filter.mp hx).2
      simpa using hne
  exact hfree.drain _

/-- Along every sequence of calls the broker stays within its limit, holds every id once, leaves no
permit idle while somebody waits, reports every accepted request at most once and in the order of
its pool, and serves reserved pools first; a dropped generation is gone. -/
theorem broker_honours_reservations (cfg : BrokerLimits) (calls : List BrokerCall) :
    let w := Runs.run (step cfg) initial calls
    w.broker.granted.rows.length ≤ cfg.limit ∧
      w.broker.heldIds.Nodup ∧
      (w.broker.granted.rows.length < cfg.limit → w.broker.waiters.rows = []) ∧
      w.accepted.Pairwise (fun a b => a.sequence < b.sequence) ∧
      (w.reports.map (·.waiter.sequence)).Nodup ∧
      (∀ g ∈ w.reports, g.waiter ∈ w.accepted ∧ g.waiter ∈ g.before.waiters.rows ∧
        g.before.granted.get? g.waiter.request.requestId = none) ∧
      (∀ p, ((w.reports.filter fun g => g.waiter.request.pool == p).map
          (·.waiter.sequence)).Pairwise (· < ·)) ∧
      (∀ g ∈ w.reports, (∃ p, g.before.waitsIn p = true ∧
          g.before.grantedIn p < cfg.reservations p) →
        g.before.grantedIn g.waiter.request.pool < cfg.reservations g.waiter.request.pool) ∧
      ∀ generation, FreeOf generation (step cfg w (.dropGeneration generation)).broker := by
  have h := settled_run cfg calls
  refine ⟨h.bounded, h.ids, h.drained, h.numbered, ?_, ?_, ?_, ?_,
    fun g => freeOf_dropGeneration _ g⟩
  · exact List.pairwise_map.mpr (h.ordered.imp fun hprec => hprec.1)
  · intro g hg
    obtain ⟨hacc, hsound⟩ := h.sound g hg
    exact ⟨hacc, hsound.waited, hsound.ungranted⟩
  · intro p
    refine List.pairwise_map.mpr ((h.ordered.filter _).imp_of_mem fun hg hg' hprec => ?_)
    have hpool := beq_iff_eq.mp (List.mem_filter.mp hg).2
    have hpool' := beq_iff_eq.mp (List.mem_filter.mp hg').2
    exact hprec.2 (hpool.trans hpool'.symm)
  · rintro g hg ⟨p, hwaits, hlow⟩
    have hdeficit : g.before.reservedDeficit cfg p = true :=
      Bool.and_eq_true_iff.mpr ⟨hwaits, decide_eq_true hlow⟩
    exact of_decide_eq_true (Bool.and_eq_true_iff.mp ((h.sound g hg).2.reserved ⟨p, hdeficit⟩)).2

/-- Both permits are lent to heavy work. The first that comes back goes to the foreground, though
heavy work has waited longer. -/
example :
    let cfg : BrokerLimits := ⟨2, fun p => if p = .foreground then 1 else 0, by decide, by decide⟩
    let w := Runs.run (step cfg) initial
      [.request ⟨"h1", .heavy, "s1", "g", by decide⟩, .request ⟨"h2", .heavy, "s2", "g", by decide⟩,
        .request ⟨"h3", .heavy, "s3", "g", by decide⟩, .request ⟨"f", .foreground, "s4", "g",
          by decide⟩,
        .release "h1" "g"]
    w.reports.map (·.waiter.request.requestId) = ["h1", "h2", "f"] ∧
      w.broker.waiters.rows.map (·.request.requestId) = ["h3"] := by decide +kernel

end BrokerWorld

end Feedling
