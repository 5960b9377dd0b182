import Feedling.Runs
import Feedling.Store
import Mathlib.Algebra.Group.Nat.Defs
import Mathlib.Data.List.Dedup
import Mathlib.Logic.Function.Basic

/-!
# The dirty keys of the plaintext shadow

A trigger records the key of every changed row with a fresh generation. A drain claims dirty keys,
reads the current rows, writes the target without a lock on the source, and acknowledges a key only
if its generation is still the claimed one. Drains, pages of a backfill and writers interleave step
by step.
-/

namespace Feedling

namespace Shadow

variable {κ ρ α : Type}

/-! ## Dirty rows -/

/-- A row of `plaintext_shadow_dirty_keys`. -/
structure DirtyRow where
  generation : Nat
  attempts : Nat
  nextAttemptAt : Time
  quarantined : Bool
  deriving DecidableEq, Repr

/-- A claimed row. -/
structure DirtyKey (κ : Type) where
  key : κ
  generation : Nat
  attempts : Nat
  deriving DecidableEq, Repr

def claimLease : Nat := 5 * 60

def quarantineAfter : Nat := 20

/-- `retry_delay` in seconds. -/
def retryDelay (attempts : Nat) : Nat := min 300 (30 * 2 ^ (attempts - 1))

/-- How `apply_key` replays a table. -/
inductive Lane where
  | ciphertext | mirror | snapshot | unsupported
  deriving DecidableEq, Repr

/-- Where a drain is with its first row. -/
inductive Stage (κ ρ : Type) where
  | ready
  | read (seen : List (κ × Option ρ))
  | written (pending : Bool)
  deriving DecidableEq, Repr

def Stage.isWritten : Stage κ ρ → Bool
  | .written _ => true
  | _ => false

/-- What is still to be written. -/
def Stage.seen : Stage κ ρ → List (κ × Option ρ)
  | .read seen => seen
  | _ => []

/-- A call of `drain_once`: the claimed rows that are left, and `snapshot_results`. -/
structure Drain (κ ρ : Type) where
  rows : List (DirtyKey κ)
  stage : Stage κ ρ
  snapshots : List (String × Bool)
  deriving DecidableEq, Repr

/-- Source, target and dirty keys, with the drains and the pages of backfills that are in flight. -/
structure ShadowWorld (κ ρ α : Type) where
  clock : Time
  /-- The next value of `plaintext_shadow_generation_seq`. -/
  generation : Nat
  source : κ → Option ρ
  target : κ → Option α
  dirty : κ → Option DirtyRow
  drains : List (Drain κ ρ)
  pages : List (List (κ × Option ρ))

inductive ShadowLabel (κ ρ : Type) where
  /-- A transaction that changes rows of the source. -/
  | commit (changes : List (κ × Option ρ))
  | claim (keys : List κ)
  /-- The source read of `apply_key`; a snapshot also reads the other keys of its table. -/
  | read (i : Nat) (others : List κ)
  | write (i : Nat)
  /-- A row of a table whose snapshot this drain has already taken. -/
  | reuse (i : Nat)
  /-- `_ack` or `_quarantine`. -/
  | finish (i : Nat)
  /-- An exception, and `_fail`. -/
  | fail (i : Nat)
  | crash (i : Nat)
  | readPage (keys : List κ)
  /-- A page is written, without the rows that failed. -/
  | writePage (j : Nat) (failed : κ → Bool)
  | dropPage (j : Nat)
  | tick (seconds : Nat)

section Step

variable [DecidableEq κ]

/-- An update of the dirty row of a claimed key, `WHERE … AND generation = %s`. -/
def fenced (dirty : κ → Option DirtyRow) (row : DirtyKey κ) (f : DirtyRow → Option DirtyRow) :
    κ → Option DirtyRow :=
  match dirty row.key with
  | some r => if r.generation = row.generation then Function.update dirty row.key (f r) else dirty
  | none => dirty

/-- The lease that `_claim` takes on a row. -/
def lease (now : Time) (dirty : κ → Option DirtyRow) (row : DirtyKey κ) : κ → Option DirtyRow :=
  fenced dirty row fun r => some { r with nextAttemptAt := now + claimLease }

def ack (dirty : κ → Option DirtyRow) (row : DirtyKey κ) : κ → Option DirtyRow :=
  fenced dirty row fun _ => none

def quarantine (dirty : κ → Option DirtyRow) (row : DirtyKey κ) : κ → Option DirtyRow :=
  fenced dirty row fun r => some { r with attempts := r.attempts + 1, quarantined := true }

def fail (now : Time) (dirty : κ → Option DirtyRow) (row : DirtyKey κ) : κ → Option DirtyRow :=
  fenced dirty row fun r => some
    { r with
      attempts := row.attempts + 1
      nextAttemptAt := now + retryDelay (row.attempts + 1)
      quarantined := decide (quarantineAfter ≤ row.attempts + 1) }

variable (table : κ → String) (lane : String → Lane) (view : κ → ρ → Option α)

def viewOf (key : κ) (row : Option ρ) : Option α := row.bind (view key)

/-- The target after the rows that were read have been written or deleted. -/
def applyAll (target : κ → Option α) (seen : List (κ × Option ρ)) : κ → Option α :=
  seen.foldl (fun target read => Function.update target read.1 (viewOf view read.1 read.2)) target

namespace ShadowWorld

/-- One row of a transaction, with `feedling_capture_plaintext_shadow_change`; the conflicting
insert takes two values of the sequence. -/
def change (w : ShadowWorld κ ρ α) (key : κ) (row : Option ρ) : ShadowWorld κ ρ α :=
  if row.isNone && (w.source key).isNone then w
  else
    let generation := if (w.dirty key).isSome then w.generation + 1 else w.generation
    { w with
      source := Function.update w.source key row
      dirty := Function.update w.dirty key (some ⟨generation, 0, w.clock, false⟩)
      generation := generation + 1 }

/-- A row that `_claim` may take. -/
def claimable (w : ShadowWorld κ ρ α) (key : κ) : Option (DirtyKey κ) :=
  match w.dirty key with
  | some r =>
    if !r.quarantined && r.nextAttemptAt ≤ w.clock then some ⟨key, r.generation,
      r.attempts⟩ else none
  | none => none

/-- `_claim`, over keys that it may find. -/
def claim (w : ShadowWorld κ ρ α) (keys : List κ) : ShadowWorld κ ρ α :=
  let rows := keys.dedup.filterMap w.claimable
  { w with
    dirty := rows.foldl (lease w.clock) w.dirty
    drains := w.drains ++ [⟨rows, .ready, []⟩] }

end ShadowWorld

/-- The keys that the replay of the first row reads. -/
def scope (row : DirtyKey κ) (rows : List (DirtyKey κ)) (others : List κ) : List κ :=
  if lane (table row.key) = .snapshot then
    ((row :: rows).map DirtyKey.key ++ others).filter fun key => table key == table row.key
  else [row.key]

/-- Whether the replay of the row reports `pending`. -/
def isPending (row : DirtyKey κ) (seen : List (κ × Option ρ)) : Bool :=
  lane (table row.key) = .ciphertext && seen.any fun read => read.2.isSome &&
    (viewOf view read.1 read.2).isNone

/-- The rest of the loop after a row that raised: a snapshot that failed is not taken again. -/
def Drain.skip (d : Drain κ ρ) (row : DirtyKey κ) (rows : List (DirtyKey κ)) : Drain κ ρ :=
  let snapshots :=
    if lane (table row.key) = .snapshot ∧ d.snapshots.lookup (table row.key) = none then
      (table row.key, false) :: d.snapshots
    else d.snapshots
  ⟨rows, .ready, snapshots⟩

/-- The next state of a drain and of the tables, for its first row. -/
def drainStep (w : ShadowWorld κ ρ α) (d : Drain κ ρ) (l : ShadowLabel κ ρ) :
    Option (ShadowWorld κ ρ α × Drain κ ρ) :=
  match l, d.stage, d.rows with
  | .read _ others, .ready, row :: rows =>
    if lane (table row.key) = .unsupported ∨
        lane (table row.key) = .snapshot ∧ (d.snapshots.lookup (table row.key)).isSome then none
    else some (w, { d with stage := .read ((scope table lane row rows others).map fun key =>
                               (key, w.source key)) })
  | .write _, .read seen, row :: _ =>
    some ({ w with target := applyAll view w.target seen },
      { d with
        stage := .written (isPending table lane view row seen)
        snapshots := if lane (table row.key) = .snapshot then (table row.key, true) :: d.snapshots
          else d.snapshots })
  | .reuse _, .ready, row :: _ =>
    if lane (table row.key) = .snapshot ∧ d.snapshots.lookup (table row.key) = some true then
      some (w, { d with stage := .written false })
    else none
  | .finish _, .written pending, row :: rows =>
    some ({ w with dirty := if pending then quarantine w.dirty row else ack w.dirty row },
        { d with rows := rows, stage := .ready })
  | .fail _, _, row :: rows =>
    some ({ w with dirty := fail w.clock w.dirty row }, d.skip table lane row rows)
  | _, _, _ => none

/-- A step of the `i`th drain. -/
def stepDrain (w : ShadowWorld κ ρ α) (i : Nat) (l : ShadowLabel κ ρ) : ShadowWorld κ ρ α :=
  match w.drains[i]? with
  | none => w
  | some d =>
    match drainStep table lane view w d l with
    | none => w
    | some (w', d') => { w' with drains := w.drains.set i d' }

def shadowStep (w : ShadowWorld κ ρ α) : ShadowLabel κ ρ → ShadowWorld κ ρ α
  | .commit changes => changes.foldl (fun w change => w.change change.1 change.2) w
  | .claim keys => w.claim keys
  | .read i others => stepDrain table lane view w i (.read i others)
  | .write i => stepDrain table lane view w i (.write i)
  | .reuse i => stepDrain table lane view w i (.reuse i)
  | .finish i => stepDrain table lane view w i (.finish i)
  | .fail i => stepDrain table lane view w i (.fail i)
  | .crash i => { w with drains := w.drains.eraseIdx i }
  | .readPage keys => { w with pages := w.pages ++ [keys.map fun key => (key, w.source key)] }
  | .writePage j failed =>
    match w.pages[j]? with
    | none => w
    | some page =>
      { w with
        target := applyAll view w.target (page.filter fun read => !failed read.1)
        pages := w.pages.eraseIdx j }
  | .dropPage j => { w with pages := w.pages.eraseIdx j }
  | .tick seconds => { w with clock := w.clock + seconds }

/-- Nothing dirty, the target up to date, and nothing in flight. -/
def ShadowWorld.start (source : κ → Option ρ) : ShadowWorld κ ρ α :=
  ⟨0, 1, source, fun key => viewOf view key (source key), fun _ => none, [], []⟩

/-! ## The claim of the outbox -/

/-- Every key whose target is out of date is dirty. -/
def NoSilentGap (w : ShadowWorld κ ρ α) : Prop :=
  ∀ key, w.target key ≠ viewOf view key (w.source key) → w.dirty key ≠ none

/-- No drain and no backfill is in flight. -/
def ShadowWorld.Quiet (w : ShadowWorld κ ρ α) : Prop := (∀ d ∈ w.drains, d.rows = []) ∧ w.pages = []

instance (w : ShadowWorld κ ρ α) : Decidable w.Quiet := inferInstanceAs (Decidable (_ ∧ _))

/-- The drain has written the row of this claimed key. -/
def Covered (d : Drain κ ρ) (row : DirtyKey κ) : Prop :=
  d.stage.isWritten = true ∧ d.rows.head? = some row ∨ (table row.key, true) ∈ d.snapshots

instance (d : Drain κ ρ) (row : DirtyKey κ) : Decidable (Covered table d row) :=
  inferInstanceAs (Decidable (_ ∨ _))

def generationOf (dirty : κ → Option DirtyRow) (key : κ) : Option Nat :=
  (dirty key).map DirtyRow.generation

/-- What was read is what a reader would see now. -/
def Current (w : ShadowWorld κ ρ α) (read : κ × Option ρ) : Prop :=
  viewOf view read.1 read.2 = viewOf view read.1 (w.source read.1)

instance [DecidableEq α] (w : ShadowWorld κ ρ α) (read : κ × Option ρ) :
    Decidable (Current view w read) :=
  inferInstanceAs (Decidable (_ = _))

/-- The key is dirty, and no drain is about to acknowledge its present generation. -/
def Guarded (w : ShadowWorld κ ρ α) (key : κ) : Prop :=
  w.dirty key ≠ none ∧ ∀ d ∈ w.drains, ∀ row ∈ d.rows, row.key = key → Covered table d row →
    generationOf w.dirty key ≠ some row.generation

instance (w : ShadowWorld κ ρ α) (key : κ) : Decidable (Guarded table w key) :=
  inferInstanceAs (Decidable (_ ∧ _))

/-- A row that was read before the last change of its key is written only while the key is
guarded. -/
def SafeToWrite (w : ShadowWorld κ ρ α) (seen : List (κ × Option ρ)) : Prop :=
  ∀ read ∈ seen, Current view w read ∨ Guarded table w read.1

instance [DecidableEq α] (w : ShadowWorld κ ρ α) (seen : List (κ × Option ρ)) :
    Decidable (SafeToWrite table view w seen) :=
  inferInstanceAs (Decidable (∀ read ∈ seen, _ ∨ _))

/-- The writes of the drains and of the backfills are safe. -/
def WritesGuarded (w : ShadowWorld κ ρ α) : ShadowLabel κ ρ → Prop
  | .write i => SafeToWrite table view w ((w.drains[i]?.map fun d => d.stage.seen).getD [])
  | .writePage j failed =>
    SafeToWrite table view w ((w.pages[j]?.getD []).filter fun read => !failed read.1)
  | _ => True

instance [DecidableEq α] (w : ShadowWorld κ ρ α) (l : ShadowLabel κ ρ) :
    Decidable (WritesGuarded table view w l) :=
  match l with
  | .write _ => inferInstanceAs (Decidable (SafeToWrite _ _ _ _))
  | .writePage _ _ => inferInstanceAs (Decidable (SafeToWrite _ _ _ _))
  | .commit _ => isTrue trivial
  | .claim _ => isTrue trivial
  | .read _ _ => isTrue trivial
  | .reuse _ => isTrue trivial
  | .finish _ => isTrue trivial
  | .fail _ => isTrue trivial
  | .crash _ => isTrue trivial
  | .readPage _ => isTrue trivial
  | .dropPage _ => isTrue trivial
  | .tick _ => isTrue trivial

end Step

end Shadow

end Feedling
