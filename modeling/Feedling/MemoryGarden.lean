import Feedling.KeyedTable
import Feedling.Runs
import Feedling.Store

/-!
# The memory garden

The cards of one user and the actions on them. An action that creates a card validates it on an
unlocked read, and then re-reads, changes and saves the whole garden under the mutation lock; the
two parts are separate steps here. A delivery with an idempotency key runs the whole action under
the lock.
-/

namespace Feedling

namespace Garden

open KeyedTable (Table)

variable {β : Type}

/-! ## Cards -/

/-- `MEMORY_TYPES`. -/
inductive MemoryType where
  | moment | quote | fact | event | insight | reflection
  deriving DecidableEq, Repr

inductive CardStatus where
  | active | superseded
  deriving DecidableEq, Repr

inductive Visibility where
  | shared | localOnly
  deriving DecidableEq, Repr

/-- A stored card. `body` stands for the sealed body with its nonce and keys; `serial` numbers the
cards in the order in which they were stored. -/
structure Card (β : Type) where
  id : String
  type : MemoryType
  body : β
  visibility : Visibility
  owner : String
  createdAt : Time
  updatedAt : Time
  occurredAt : Time
  status : CardStatus
  supersededBy : Option String
  supersedes : Option (List String)
  anchorMemoryIds : List String
  isArchived : Bool
  archivedAt : Option Time
  archiveReason : String
  serial : Nat
  deriving DecidableEq, Repr

/-- `_memory_is_archived`; a time is never blank. -/
def Card.archived (c : Card β) : Bool :=
  memoryIsArchived Option.isNone c.isArchived c.archivedAt c.archiveReason

/-- `_memory_supersede_target_is_active`. -/
def Card.isActive (c : Card β) : Bool := c.status == .active && !c.archived

/-- `same_memory_write`. -/
def sameMemoryWrite [DecidableEq β] (existing wanted : Card β) : Bool :=
  existing.id == wanted.id && existing.type == wanted.type &&
    decide (existing.body = wanted.body) &&
    existing.visibility == wanted.visibility && existing.owner == wanted.owner &&
      existing.supersedes == wanted.supersedes

/-- The changes that a supersede makes to the card that it replaces. -/
def Card.retire (now : Time) (successor : String) (c : Card β) : Card β :=
  { c with
    status := .superseded
    supersededBy := some successor
    updatedAt := now
    isArchived := true
    archivedAt := some now
    archiveReason := "superseded_by:" ++ successor }

def Card.retype (now : Time) (type : MemoryType) (anchors : List String) (c : Card β) : Card β :=
  { c with type := type, updatedAt := now, anchorMemoryIds := anchors }

abbrev Cards (β : Type) := Table (Card.id : Card β → String)

/-- `memory_replace_all`: the last card with an id counts. -/
def memoryReplaceAll (moments : List (Card β)) : Cards β := Table.ofRows moments

/-! ## Actions -/

inductive GardenError where
  | memoryIdRequired | supersedesRequired | tooManySupersedes
  | notFound (missing : List String)
  | notOwned
  | supersedeTargetsUnavailable (ids : List String)
  | supersedeTargetsChanged (ids : List String)
  | memoryIdConflict
  | typeInvalid
  | anchorRequired (minimum : Nat)
  | anchorSelfReference
  | anchorMemoryIdsNotFound (missing : List String)
  | reflectionLifetimeCap | reflectionTooSoon
  /-- A check of the text, of the envelope's shape, or of a decryption. -/
  | rejected (reason : String)
  | idempotencyConflict
  deriving DecidableEq, Repr

/-- The card of an add or a supersede, as text or as a prebuilt envelope. -/
structure Draft (β : Type) where
  prebuilt : Bool
  envelopeId : String
  /-- The id that the server mints. -/
  minted : String
  body : β
  visibility : Visibility
  owner : String
  /-- `none` if it is not one of `MEMORY_TYPES`. -/
  type : Option MemoryType
  occurredAt : Time
  anchors : List String
  /-- What the checks of the text say. -/
  textError : Option String
  /-- What the shape of the envelope, the decryption or the sealing says. -/
  envelopeError : Option String
  deriving DecidableEq, Repr

/-- The actions that create a card. -/
inductive Creation (β : Type) where
  | add (draft : Draft β)
  | supersede (targets : List String) (draft : Draft β)
  deriving DecidableEq, Repr

def Creation.draft : Creation β → Draft β
  | .add draft => draft
  | .supersede _ draft => draft

inductive Action (β : Type) where
  | create (creation : Creation β)
  | retype (id : String) (type : Option MemoryType) (anchors : List String)
  | delete (id : String)
  deriving DecidableEq, Repr

namespace Draft

/-- Whether the id of the card is one that the server mints. -/
def mints (d : Draft β) : Bool := !d.prebuilt || d.envelopeId == ""

def id (d : Draft β) : String := if d.mints then d.minted else d.envelopeId

/-- `_memory_record_from_envelope`. -/
def card (d : Draft β) (user : String) (now : Time) (type : MemoryType)
    (supersedes : Option (List String)) : Card β where
  id := d.id
  type := type
  body := d.body
  visibility := d.visibility
  owner := if d.prebuilt then d.owner else user
  createdAt := now
  updatedAt := now
  occurredAt := d.occurredAt
  status := .active
  supersededBy := none
  supersedes := supersedes
  anchorMemoryIds := d.anchors
  isArchived := false
  archivedAt := none
  archiveReason := ""
  serial := 0

end Draft

/-- A supersede with the id of a prebuilt envelope. -/
def Creation.takesEnvelopeId : Creation β → Bool
  | .add _ => false
  | .supersede _ d => !d.mints

def maxMemorySupersedeTargets : Nat := 20

/-- `_memory_supersedes_list` over ids that `_memory_action_text` has cleaned. -/
def supersedesList (ids : List String) : List String :=
  ((ids.filter (· ≠ "")).foldl (fun out id => if id ∈ out then out else out ++ [id]) []).take
    (maxMemorySupersedeTargets + 1)

/-- `_reflection_time_cap_ok`, for a relationship of so many days. -/
def reflectionTimeCapOk (now : Time) (days : Nat) (moments : List (Card β)) :
    Except GardenError Unit :=
  let reflections := moments.filter fun m => m.type == .reflection
  if days < 30 then
    if 2 ≤ reflections.length then .error .reflectionLifetimeCap else .ok ()
  else
    let capDays := if days < 180 then 7 else 3
    if reflections.any fun m => decide (now < m.createdAt + capDays * 86400) then
      .error .reflectionTooSoon else .ok ()

/-- `_memory_validate_write`. -/
def validateWrite (now : Time) (days : Nat) (moments : List (Card β)) (type : Option MemoryType)
    (anchors : List String) (memoryId : String) (enforceReflectionCap : Bool) :
    Except GardenError MemoryType :=
  match type with
  | none => .error .typeInvalid
  | some type =>
    if type = .insight ∨ type = .reflection then
      let minimum := if type = .insight then 1 else 2
      let missing := anchors.filter fun a => !moments.any fun m => m.id == a
      if anchors.length < minimum then .error (.anchorRequired minimum)
      else if memoryId ≠ "" ∧ memoryId ∈ anchors then .error .anchorSelfReference
      else if missing ≠ [] then .error (.anchorMemoryIdsNotFound missing)
      else if type = .reflection ∧
        enforceReflectionCap then (reflectionTimeCapOk now days moments).map fun _ => type
      else .ok type
    else .ok type

/-- A call between its validation and its locked section. -/
inductive Prepared (β : Type) where
  | add (minted : Bool) (card : Card β)
  | supersede (minted : Bool) (card : Card β) (targets : List String)
  deriving DecidableEq, Repr

def Prepared.card : Prepared β → Card β
  | .add _ card => card
  | .supersede _ card _ => card

def Prepared.minted : Prepared β → Bool
  | .add minted _ => minted
  | .supersede minted _ _ => minted

def Prepared.takesEnvelopeId : Prepared β → Bool
  | .add _ _ => false
  | .supersede minted _ _ => !minted

section Prepare

variable (user : String) (now : Time) (days : Nat) (moments : List (Card β))

/-- The checks of a draft against the garden that was read. -/
def validateDraft (d : Draft β) : Except GardenError MemoryType :=
  if d.prebuilt then
    match d.envelopeError with
    | some reason => .error (.rejected reason)
    | none =>
      if d.owner ≠ user then .error .notOwned
      else validateWrite now days moments d.type d.anchors d.envelopeId true
  else
    match validateWrite now days moments d.type d.anchors "" true with
    | .error e => .error e
    | .ok type =>
      match d.envelopeError with
      | some reason => .error (.rejected reason)
      | none => .ok type

/-- `_memory_add_action` up to its locked section. -/
def prepareAdd (d : Draft β) : Except GardenError (Prepared β) :=
  match if d.prebuilt then none else d.textError with
  | some reason => .error (.rejected reason)
  | none =>
    (validateDraft user now days moments d).map fun type => .add d.mints (d.card user now type none)

/-- `_memory_supersede_action` and `_memory_supersede_envelope_action` up to their locked
section. -/
def prepareSupersede (targets : List String) (d : Draft β) : Except GardenError (Prepared β) :=
  let oldIds := supersedesList targets
  let missing := oldIds.filter fun id => !moments.any fun m => m.id == id
  let oldCards := moments.filter fun m => m.id ∈ oldIds
  let inactive := oldCards.filter fun m => !m.isActive
  if oldIds = [] then .error .supersedesRequired
  else if maxMemorySupersedeTargets < oldIds.length then .error .tooManySupersedes
  else
    match if d.prebuilt then none else d.textError with
    | some reason => .error (.rejected reason)
    | none =>
      if missing ≠ [] then .error (.notFound missing)
      else if oldCards.any fun m => m.owner ≠ user then .error .notOwned
      else if inactive ≠ [] then .error (.supersedeTargetsUnavailable (inactive.map Card.id))
      else
        (validateDraft user now days moments d).map fun type =>
          .supersede d.mints (d.card user now type (some oldIds)) oldIds

end Prepare

/-! ## The world -/

/-- What an action answers. -/
inductive Response where
  | created (id : String) (superseded : List String)
  | retyped (id : String)
  | noop
  | deleted (id : String)
  | replayed (receipt : Response)
  | error (e : GardenError)
  deriving DecidableEq, Repr

/-- `status < 400`. -/
def Response.isOk : Response → Bool
  | .error _ => false
  | _ => true

structure Receipt where
  key : String
  digest : String
  response : Response
  deriving DecidableEq, Repr

/-- The garden of one user with the calls that have been validated. `serial` counts the cards that
were stored, and `retired` has an entry for each card that a successful supersede named, with the
card that it created. -/
structure GardenWorld (β : Type) where
  user : String
  clock : Time
  cards : Cards β
  pending : List (Prepared β)
  receipts : Table Receipt.key
  serial : Nat
  retired : List (Nat × String)

namespace GardenWorld

variable (w : GardenWorld β)

def store (moments : List (Card β)) (card : Card β) : GardenWorld β :=
  { w with cards := memoryReplaceAll (moments ++ [{ card with serial := w.serial }]),
           serial := w.serial + 1 }

/-- `insert_new_moment`. -/
def insertNewMoment [DecidableEq β] (card : Card β) : GardenWorld β × Response :=
  match w.cards.get? card.id with
  | some existing =>
    (w, if sameMemoryWrite existing card then .replayed (.created existing.id [])
        else .error .memoryIdConflict)
  | none => (w.store w.cards.rows card, .created card.id [])

/-- The locked section of a supersede. -/
def supersede (card : Card β) (targets : List String) : GardenWorld β × Response :=
  let unavailable := targets.filter fun id => !(w.cards.get? id).any Card.isActive
  if unavailable ≠ [] then (w, .error (.supersedeTargetsChanged unavailable))
  else
    let moments := w.cards.rows.map fun m => if m.id ∈ targets then m.retire card.updatedAt card.id
      else m
    ({ w.store moments card with
        retired :=
          (targets.filterMap w.cards.get?).map (fun m => (m.serial, card.id)) ++ w.retired },
      .created card.id targets)

def locked [DecidableEq β] : Prepared β → GardenWorld β × Response
  | .add _ card => w.insertNewMoment card
  | .supersede _ card targets => w.supersede card targets

/-- `_memory_retype_action`. -/
def retype (days : Nat) (id : String) (type : Option MemoryType) (anchors : List String) :
    GardenWorld β × Response :=
  if id = "" then (w, .error .memoryIdRequired)
  else
    match type with
    | none => (w, .error .typeInvalid)
    | some type =>
      match w.cards.get? id with
      | none => (w, .error (.notFound [id]))
      | some target =>
        if target.owner ≠ w.user then (w, .error .notOwned)
        else
          match validateWrite w.clock days w.cards.rows (some type) anchors id false with
          | .error e => (w, .error e)
          | .ok _ =>
            if target.type = type ∧ anchors = target.anchorMemoryIds then (w, .noop)
            else
              let moments :=
                w.cards.rows.map fun m => if m.id = id then m.retype w.clock type anchors else m
              ({ w with cards := memoryReplaceAll moments }, .retyped id)

/-- `_memory_delete_action`. -/
def delete (id : String) : GardenWorld β × Response :=
  if id = "" then (w, .error .memoryIdRequired)
  else
    match w.cards.get? id with
    | none => (w, .error (.notFound [id]))
    | some _ =>
      ({ w with cards := memoryReplaceAll (w.cards.rows.filter fun m => m.id ≠ id) }, .deleted id)

/-- The unlocked part of an add or a supersede. -/
def prepare (days : Nat) : Creation β → Except GardenError (Prepared β)
  | .add d => prepareAdd w.user w.clock days w.cards.rows d
  | .supersede targets d => prepareSupersede w.user w.clock days w.cards.rows targets d

/-- A whole action in one step. -/
def perform [DecidableEq β] (days : Nat) : Action β → GardenWorld β × Response
  | .create creation =>
    match w.prepare days creation with
    | .error e => (w, .error e)
    | .ok p => w.locked p
  | .retype id type anchors => w.retype days id type anchors
  | .delete id => w.delete id

/-- `action_receipts.execute` for a valid key. -/
def execute [DecidableEq β] (key digest : String) (days : Nat) (action : Action β) :
    GardenWorld β × Response :=
  match w.receipts.get? key with
  | some receipt =>
    (w, if receipt.digest = digest then .replayed receipt.response else .error .idempotencyConflict)
  | none =>
    let result := w.perform days action
    if result.2.isOk then ({ result.1 with receipts := w.receipts.insert ⟨key, digest, result.2⟩ },
        result.2)
    else result

end GardenWorld

inductive GardenLabel (β : Type) where
  /-- The unlocked part of an add or a supersede. -/
  | call (days : Nat) (creation : Creation β)
  /-- The locked section of the `i`th call. -/
  | lock (i : Nat)
  | abandon (i : Nat)
  | retype (days : Nat) (id : String) (type : Option MemoryType) (anchors : List String)
  | delete (id : String)
  /-- A delivery with an idempotency key. -/
  | deliver (key digest : String) (days : Nat) (action : Action β)
  | tick (seconds : Nat)
  deriving DecidableEq, Repr

section Step

variable [DecidableEq β]

/-- A step and its answer, if it has one. -/
def gardenStep (w : GardenWorld β) : GardenLabel β → GardenWorld β × Option Response
  | .call days creation =>
    match w.prepare days creation with
    | .error e => (w, some (.error e))
    | .ok p => ({ w with pending := w.pending ++ [p] }, none)
  | .lock i =>
    match w.pending[i]? with
    | none => (w, none)
    | some p => (({ w with pending := w.pending.eraseIdx i }.locked p).1, some (w.locked p).2)
  | .abandon i => ({ w with pending := w.pending.eraseIdx i }, none)
  | .retype days id type anchors =>
    ((w.retype days id type anchors).1, some (w.retype days id type anchors).2)
  | .delete id => ((w.delete id).1, some (w.delete id).2)
  | .deliver key digest days action =>
    ((w.execute key digest days action).1, some (w.execute key digest days action).2)
  | .tick seconds => ({ w with clock := w.clock + seconds }, none)

def gardenNext (w : GardenWorld β) (l : GardenLabel β) : GardenWorld β := (gardenStep w l).1

end Step

def GardenWorld.start (user : String) : GardenWorld β := ⟨user, 0, Table.empty, [], Table.empty,
    0, []⟩

end Garden

end Feedling
