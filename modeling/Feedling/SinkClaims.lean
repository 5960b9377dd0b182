import Mathlib.Logic.Function.Basic
import Feedling.Runs

/-!
# The claim of a generic sink

A sink takes a claim under the id of its effect before it writes, and records `completed`
afterwards. If the write raises, the claim is released; if the process dies in between, the claim
stays and nobody may guess whether the write landed. `SinkWorld` follows any number of deliveries
of one effect, statement by statement.
-/

namespace Feedling

open Runs

/-! ## The three functions of the protocol -/

/-- `claim_state` of a row of `v2_effect_sink_applied`. -/
inductive ClaimState where
  | claimed | completed
  deriving DecidableEq, Repr

/-- What `effect_sink_claim` answers: `True`, `False`, or one of its two errors. -/
inductive ClaimAnswer where
  | fresh | alreadyCompleted | uncertain | invalidState
  deriving DecidableEq, Repr

/-- The first statement of `effect_sink_claim`, `INSERT ... ON CONFLICT DO NOTHING`. -/
def sinkInsert : Option ClaimState → Option ClaimState × Bool
  | none => (some .claimed, true)
  | row => (row, false)

/-- The second statement of `effect_sink_claim`, after a conflict. -/
def sinkLookup : Option ClaimState → ClaimAnswer
  | some .completed => .alreadyCompleted
  | some .claimed => .uncertain
  | none => .invalidState

def effectSinkClaim (row : Option ClaimState) : Option ClaimState × ClaimAnswer :=
  match sinkInsert row with
  | (row, true) => (row, .fresh)
  | (row, false) => (row, sinkLookup row)

/-- `effect_sink_complete`; the flag is off when it raises. -/
def effectSinkComplete : Option ClaimState → Option ClaimState × Bool
  | some .claimed => (some .completed, true)
  | some .completed => (some .completed, true)
  | none => (none, false)

/-- `effect_sink_release`: only an unresolved claim is removed. -/
def effectSinkRelease : Option ClaimState → Option ClaimState
  | some .claimed => none
  | row => row

/-! ## Deliveries -/

inductive SinkError where
  | uncertain | invalidState | writeFailed | cannotComplete
  deriving DecidableEq, Repr

/-- How far a delivery has come. `crashed true` died with the claim in its hands. -/
inductive DeliveryState where
  | idle | conflicted | claimed | landed | failed | returned
  | raised (e : SinkError)
  | crashed (held : Bool)
  deriving DecidableEq, Repr

/-- The delivery has taken the claim and neither completed nor released it. -/
def DeliveryState.holds : DeliveryState → Bool
  | .claimed | .landed | .failed => true
  | .crashed held => held
  | _ => false

def DeliveryState.ended : DeliveryState → Bool
  | .returned | .raised _ | .crashed _ => true
  | _ => false

/-- Where a delivery can get to while the claim of a dead one stands in its way. -/
def DeliveryState.barred : DeliveryState → Bool
  | .idle | .conflicted | .raised .uncertain => true
  | .crashed held => !held
  | _ => false

/-- The claim row of one effect, how often its write has landed, and the deliveries. -/
structure SinkWorld where
  row : Option ClaimState
  landings : Nat
  deliveries : Nat → DeliveryState

inductive SinkLabel where
  | insert (d : Nat)
  | lookup (d : Nat)
  | write (d : Nat)
  | writeRaises (d : Nat)
  | complete (d : Nat)
  | release (d : Nat)
  | crash (d : Nat)
  deriving DecidableEq, Repr

namespace SinkWorld

def init : SinkWorld := ⟨none, 0, fun _ => .idle⟩

/-- The delivery moves on, with the row and the target as it leaves them. -/
def move (w : SinkWorld) (d : Nat) (s : DeliveryState) (row : Option ClaimState) (landings : Nat) :
    SinkWorld :=
  ⟨row, landings, Function.update w.deliveries d s⟩

variable (w : SinkWorld) (d : Nat)

section

variable (s : DeliveryState) (row : Option ClaimState) (n : Nat)
include s row n

@[simp] theorem move_same : (w.move d s row n).deliveries d = s := by simp [move]
theorem move_other {d e : Nat} (h : e ≠ d) : (w.move d s row n).deliveries e = w.deliveries e := by
  simp [move, h]

end

/-- The error, or the return, that follows a conflict. -/
def afterLookup : ClaimAnswer → DeliveryState
  | .alreadyCompleted => .returned
  | .uncertain => .raised .uncertain
  | .invalidState => .raised .invalidState
  | .fresh => .claimed

def step (w : SinkWorld) : SinkLabel → SinkWorld
  | .insert d =>
    match w.deliveries d, sinkInsert w.row with
    | .idle, (row, true) => w.move d .claimed row w.landings
    | .idle, (row, false) => w.move d .conflicted row w.landings
    | _, _ => w
  | .lookup d =>
    if w.deliveries d = .conflicted then w.move d (afterLookup (sinkLookup w.row)) w.row w.landings
      else w
  | .write d => if w.deliveries d = .claimed then w.move d .landed w.row (w.landings + 1) else w
  | .writeRaises d => if w.deliveries d = .claimed then w.move d .failed w.row w.landings else w
  | .complete d =>
    match w.deliveries d, effectSinkComplete w.row with
    | .landed, (row, true) => w.move d .returned row w.landings
    | .landed, (row, false) => w.move d (.raised .cannotComplete) row w.landings
    | _, _ => w
  | .release d =>
    if w.deliveries d = .failed then w.move d (.raised .writeFailed)
      (effectSinkRelease w.row) w.landings else w
  | .crash d =>
    if (w.deliveries d).ended then w
      else w.move d (.crashed (w.deliveries d).holds) w.row w.landings

/-! ## One holder at a time -/

/-- The claim row tells who holds the claim and whether the write has landed. -/
structure Inv (w : SinkWorld) : Prop where
  held : ∀ d, (w.deliveries d).holds = true → w.row = some .claimed
  unique : ∀ d e, (w.deliveries d).holds = true → (w.deliveries e).holds = true → d = e
  free : w.row = none → w.landings = 0
  completed : w.row = some .completed → w.landings = 1
  unwritten : ∀ d, w.deliveries d = .claimed ∨ w.deliveries d = .failed → w.landings = 0
  written : ∀ d, w.deliveries d = .landed ∨ w.deliveries d = .returned → w.landings = 1
  atMostOnce : w.landings ≤ 1

theorem init_inv : Inv init := by
  constructor <;> simp [init, DeliveryState.holds]

section Step

variable {w : SinkWorld}

variable {d n : Nat} {s : DeliveryState} {later : Nat → Prop} {row : Option ClaimState}

section Move

variable (h : Inv w) (hrow : s.holds = true → row = some .claimed)
  (hfree : row = none → n = 0) (hcompleted : row = some .completed → n = 1)
  (hunwritten : s = .claimed ∨ s = .failed → n = 0) (hwritten : s = .landed ∨ s = .returned → n = 1)
  (hmono : w.landings ≤ n) (hn : n ≤ 1)
include h hrow hfree hcompleted hunwritten hwritten hmono hn

theorem Inv.move
    (hothers : ∀ e, e ≠ d → (w.deliveries e).holds = true → row = some .claimed ∧ s.holds = false ∧
      n = w.landings) :
    Inv (w.move d s row n) where
  held := (Function.forall_update_iff _ (p := fun _ (s : DeliveryState) => s.holds = true →
      row = some .claimed)).mpr
    ⟨hrow, fun e hed he => (hothers e hed he).1⟩
  unique e f he hf := by
    by_cases hed : e = d <;> by_cases hfd : f = d
    · rw [hed, hfd]
    · subst hed
      rw [move_other w s row n hfd] at hf
      rw [move_same, (hothers f hfd hf).2.1] at he
      cases he
    · subst hfd
      rw [move_other w s row n hed] at he
      rw [move_same, (hothers e hed he).2.1] at hf
      cases hf
    · rw [move_other w s row n hed] at he
      rw [move_other w s row n hfd] at hf
      exact h.unique e f he hf
  free := hfree
  completed := hcompleted
  unwritten := by
    refine (Function.forall_update_iff _ (p := fun _ (s : DeliveryState) => s = .claimed ∨
        s = .failed → n = 0)).mpr
      ⟨hunwritten, fun e hed he => ?_⟩
    have hheld : (w.deliveries e).holds = true := by obtain he | he := he <;> rw [he] <;> rfl
    rw [(hothers e hed hheld).2.2]
    exact h.unwritten e he
  written := by
    refine (Function.forall_update_iff _ (p := fun _ (s : DeliveryState) => s = .landed ∨
        s = .returned → n = 1)).mpr
      ⟨hwritten, fun e hed he => ?_⟩
    have hone := h.written e he
    omega
  atMostOnce := hn

/-- The holder of the claim moves: nobody else holds anything. -/
theorem Inv.holder (hd : (w.deliveries d).holds = true) : Inv (w.move d s row n) :=
  h.move hrow hfree hcompleted hunwritten hwritten hmono hn fun e hed he => absurd
    (h.unique e d he hd) hed

end Move

theorem Inv.bystander (h : Inv w) (hs : s.holds = false)
    (hreturned : s = .returned → w.row = some .completed) : Inv (w.move d s w.row w.landings) := by
  apply h.move
  · intro hheld
    rw [hs] at hheld
    cases hheld
  · exact h.free
  · exact h.completed
  · rintro (rfl | rfl) <;> cases hs
  · rintro (rfl | hret)
    · cases hs
    · exact h.completed (hreturned hret)
  · exact Nat.le_refl _
  · exact h.atMostOnce
  · exact fun e _ he => ⟨h.held e he, hs, rfl⟩

theorem insert_inv (h : Inv w) (d : Nat) : Inv (w.step (.insert d)) := by
  simp only [step]
  cases hd : w.deliveries d with
  | idle =>
    cases hr : w.row with
    | none =>
      have hzero := h.free hr
      have hnobody : ∀ e, (w.deliveries e).holds ≠ true := by
        intro e he
        have hclaimed := h.held e he
        rw [hr] at hclaimed
        cases hclaimed
      apply h.move <;> simp [hzero, hnobody]
    | some c =>
      have hstay := h.bystander (d := d) (s := .conflicted) rfl (fun hs => nomatch hs)
      rw [hr] at hstay
      exact hstay
  | _ => exact h

theorem lookup_inv (h : Inv w) (d : Nat) : Inv (w.step (.lookup d)) := by
  simp only [step]
  split
  · apply h.bystander
    · cases w.row with
      | none => rfl
      | some c => cases c <;> rfl
    · intro hs
      cases hr : w.row with
      | none => simp [hr, sinkLookup, afterLookup] at hs
      | some c => cases c <;> simp [hr, sinkLookup, afterLookup] at hs ⊢
  · exact h

theorem step_inv (h : Inv w) (l : SinkLabel) : Inv (w.step l) := by
  cases l with
  | insert d => exact insert_inv h d
  | lookup d => exact lookup_inv h d
  | write d =>
    simp only [step]
    split
    · next hd =>
      have hheld : (w.deliveries d).holds = true := by rw [hd]; rfl
      have hzero := h.unwritten d (.inl hd)
      apply h.holder _ _ _ _ _ _ _ hheld <;> simp [h.held d hheld, hzero]
    · exact h
  | writeRaises d =>
    simp only [step]
    split
    · next hd =>
      have hheld : (w.deliveries d).holds = true := by rw [hd]; rfl
      have hzero := h.unwritten d (.inl hd)
      apply h.holder _ _ _ _ _ _ _ hheld <;> simp [h.held d hheld, hzero]
    · exact h
  | complete d =>
    simp only [step]
    cases hd : w.deliveries d with
    | landed =>
      have hheld : (w.deliveries d).holds = true := by rw [hd]; rfl
      have hone := h.written d (.inl hd)
      rw [h.held d hheld]
      apply h.holder _ _ _ _ _ _ _ hheld <;> simp [hone, DeliveryState.holds]
    | _ => exact h
  | release d =>
    simp only [step]
    split
    · next hd =>
      have hheld : (w.deliveries d).holds = true := by rw [hd]; rfl
      have hzero := h.unwritten d (.inr hd)
      apply h.holder _ _ _ _ _ _ _ hheld <;> simp [h.held d hheld, hzero, effectSinkRelease,
        DeliveryState.holds]
    · exact h
  | crash d =>
    simp only [step]
    split
    · exact h
    · cases hheld : (w.deliveries d).holds with
      | false => exact h.bystander rfl (fun hs => nomatch hs)
      | true =>
        exact h.holder (fun _ => h.held d hheld) h.free h.completed (by simp) (by simp)
          (Nat.le_refl _) h.atMostOnce hheld

/-! ## After a crash with the claim -/

/-- The claim stays with the delivery `d` that died; the deliveries in `later` are barred. -/
structure Stuck (d n : Nat) (later : Nat → Prop) (w : SinkWorld) : Prop where
  inv : Inv w
  dead : w.deliveries d = .crashed true
  landings : w.landings = n
  later : ∀ e, later e → (w.deliveries e).barred = true

theorem Stuck.not_holds (h : Stuck d n later w) {e : Nat}
    (he : e ≠ d) : (w.deliveries e).holds = false := by
  cases hheld : (w.deliveries e).holds with
  | false => rfl
  | true => exact absurd (h.inv.unique e d hheld (by rw [h.dead]; rfl)) he

theorem Stuck.step_cases (h : Stuck d n later w) (l : SinkLabel) :
    w.step l = w ∨ ∃ e s, e ≠ d ∧ w.step l = w.move e s w.row w.landings ∧
      ((w.deliveries e).barred = true → s.barred = true) := by
  have hrow : w.row = some .claimed := h.inv.held d (by rw [h.dead]; rfl)
  have hne : ∀ e, w.deliveries e ≠ .crashed true → e ≠ d := by
    rintro e he rfl
    exact he h.dead
  -- whoever is about to use the claim would hold it beside the dead delivery
  have hfree : ∀ e s, w.deliveries e = s → s.holds = true → s = .crashed true := by
    intro e s hs hheld
    by_cases hed : e = d
    · rw [← hs, hed, h.dead]
    · rw [← hs, h.not_holds hed] at hheld
      cases hheld
  cases l with
  | insert e =>
    simp only [step, hrow, sinkInsert]
    cases he : w.deliveries e with
    | idle => exact .inr ⟨e, .conflicted, hne e (by simp [he]), rfl, fun _ => rfl⟩
    | _ => exact .inl rfl
  | lookup e =>
    simp only [step, hrow, sinkLookup, afterLookup]
    split
    · next he => exact .inr ⟨e, .raised .uncertain, hne e (by simp [he]), rfl, fun _ => rfl⟩
    · exact .inl rfl
  | write e | writeRaises e | release e =>
    simp only [step]
    split
    · next he => exact nomatch hfree e _ he rfl
    · exact .inl rfl
  | complete e =>
    simp only [step]
    cases he : w.deliveries e with
    | landed => exact nomatch hfree e _ he rfl
    | _ => exact .inl rfl
  | crash e =>
    simp only [step]
    split
    · exact .inl rfl
    · next he =>
      have hed : e ≠ d := by
        rintro rfl
        rw [h.dead] at he
        exact he rfl
      refine .inr ⟨e, _, hed, rfl, fun _ => ?_⟩
      rw [h.not_holds hed]
      rfl

theorem Stuck.step (h : Stuck d n later w) (l : SinkLabel) :
    Stuck d n later (w.step l) := by
  have hinv := step_inv h.inv l
  obtain heq | ⟨e, s, hed, heq, hbarred⟩ := h.step_cases l
  · rw [heq]
    exact h
  · rw [heq] at hinv ⊢
    refine ⟨hinv, ?_, h.landings, fun f hf => ?_⟩
    · rw [move_other w s _ _ (Ne.symm hed)]
      exact h.dead
    · by_cases hfe : f = e
      · subst hfe
        rw [move_same]
        exact hbarred (h.later f hf)
      · rw [move_other w s _ _ hfe]
        exact h.later f hf

theorem step_completed (h : Inv w) (hdone : w.row = some .completed) (l : SinkLabel) :
    (w.step l).row = some .completed := by
  have hfree : ∀ d s, w.deliveries d = s → s.holds = false := by
    intro d s hs
    cases hheld : s.holds with
    | false => rfl
    | true =>
      have hclaimed := h.held d (by rw [hs]; exact hheld)
      rw [hdone] at hclaimed
      cases hclaimed
  cases l with
  | insert d =>
    simp only [SinkWorld.step, hdone, sinkInsert]
    cases w.deliveries d <;> first | exact hdone | rfl
  | lookup d | crash d =>
    simp only [SinkWorld.step]
    split
    · exact hdone
    · exact hdone
  | write d | writeRaises d | release d =>
    simp only [SinkWorld.step]
    split
    · next hd => exact nomatch hfree d _ hd
    · exact hdone
  | complete d =>
    simp only [SinkWorld.step]
    cases hd : w.deliveries d with
    | landed => exact nomatch hfree d _ hd
    | _ => exact hdone

end Step

/-- Over every interleaving of the deliveries of one effect: the write lands at most once; a
completed row means that it has landed, and stays; whoever returns without an error has seen it
land; and once a delivery has died with the claim, every delivery that begins later writes nothing
and can only end in the error of an uncertain delivery. -/
theorem sink_writes_at_most_once (ls : List SinkLabel) :
    let w := run step init ls
    w.landings ≤ 1 ∧
    (w.row = some .completed → w.landings = 1 ∧ effectSinkRelease w.row = some .completed ∧
      ∀ later, (run step w later).row = some .completed) ∧
    (∀ d, w.deliveries d = .returned → w.landings = 1) ∧
    (∀ d, w.deliveries d = .crashed true → ∀ later,
      let w' := run step w later
      w'.landings = w.landings ∧ ∀ e, w.deliveries e = .idle →
        (w'.deliveries e = .idle ∨ w'.deliveries e = .conflicted ∨
          w'.deliveries e = .crashed false ∨ w'.deliveries e = .raised .uncertain) ∧
        (w'.deliveries e = .idle → (w'.step (.insert e)).deliveries e = .conflicted) ∧
        (w'.deliveries e = .conflicted →
            (w'.step (.lookup e)).deliveries e = .raised .uncertain)) := by
  intro w
  have hinv : Inv w := invariant_all Inv (fun w l h => step_inv h l) init_inv ls
  refine ⟨hinv.atMostOnce, fun hdone => ⟨hinv.completed hdone, by rw [hdone]; rfl, fun later => ?_⟩,
    fun d hd => hinv.written d (.inr hd), fun d hd later => ?_⟩
  · have hkept : Inv (run step w later) ∧ (run step w later).row = some .completed :=
      invariant_all (fun w => Inv w ∧ w.row = some .completed)
        (fun w l h => ⟨step_inv h.1 l, step_completed h.1 h.2 l⟩) ⟨hinv, hdone⟩ later
    exact hkept.2
  · have hstart : Stuck d w.landings (fun e => w.deliveries e = .idle) w :=
      ⟨hinv, hd, rfl, fun e he => by rw [he]; rfl⟩
    have hstuck := invariant_all (Stuck d w.landings fun e => w.deliveries e = .idle)
      (fun _ l h => Stuck.step h l) hstart later
    have hrow := hstuck.inv.held d (by rw [hstuck.dead]; rfl)
    refine ⟨hstuck.landings, fun e he => ⟨?_, fun hidle => ?_, fun hconflict => ?_⟩⟩
    · have hbarred := hstuck.later e he
      generalize (run step w later).deliveries e = s at hbarred
      cases s with
      | idle => exact .inl rfl
      | conflicted => exact .inr (.inl rfl)
      | crashed held => cases held <;> simp [DeliveryState.barred] at hbarred ⊢
      | raised err => cases err <;> simp [DeliveryState.barred] at hbarred ⊢
      | _ => cases hbarred
    · simp [step, hidle, hrow, sinkInsert]
    · simp [step, hconflict, hrow, sinkLookup, afterLookup]

end SinkWorld

end Feedling
