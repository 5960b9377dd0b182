import Mathlib.Data.List.Dedup
import Feedling.ChatChanges
import Feedling.Runs

/-!
# The hot chat cache

The cache of the newest messages that a worker keeps for one user. It is brought up to date by
replaying change events with point reads of the rows, or by loading a snapshot; writes of this
worker are also applied to it directly. Reads of the tables happen outside the chat lock, and a
generation number tells whether the cache changed in between.
-/

namespace Feedling

namespace HotChat

open KeyedTable (Table)
open SortedWindow (sortBy newest)

variable {φ ν : Type}

/-! ## The cache -/

/-- `edge` is the `seq` from which on the cache had every row when it was last loaded or cut. -/
structure Cache (φ ν : Type) where
  rows : List (ChatRow φ ν)
  version : Nat
  generation : Nat
  edge : Nat

namespace Cache

variable (limit : Nat) (c : Cache φ ν)

/-- `_chat_messages_by_id`. -/
def index : Table (ChatRow.id : ChatRow φ ν → String) := Table.ofRows c.rows

/-- `_replace_chat_rows_locked`. -/
def replaceRows (rows : List (ChatRow φ ν)) (version edge : Nat) : Cache φ ν :=
  let ordered :=
    sortBy ChatRow.seq (Table.ofRows rows : Table (ChatRow.id : ChatRow φ ν → String)).rows
  let kept := newest (max 1 limit) ordered
  { rows := kept
    version := version
    generation := c.generation + 1
    edge := if max 1 limit < ordered.length then (kept.head?.map ChatRow.seq).getD edge else edge }

/-- A committed row is merged into the row that is cached under its id. -/
def mergeRow (t : Table (ChatRow.id : ChatRow φ ν → String)) (incoming : ChatRow φ ν) :
    Table (ChatRow.id : ChatRow φ ν → String) :=
  match t.get? incoming.id with
  | some existing => t.put { incoming with doc := existing.doc.merge incoming.doc }
  | none => t.put incoming

def mergeRows (rows : List (ChatRow φ ν)) : Table (ChatRow.id : ChatRow φ ν → String) :=
  rows.foldl mergeRow c.index

/-- `apply_committed_chat_rows` without a version. -/
def applyCommittedChatRows (rows : List (ChatRow φ ν)) : Cache φ ν :=
  c.replaceRows limit (c.mergeRows rows).rows c.version c.edge

/-- `existing.update(fields)`, for the row with the id. -/
def updateRow (id : String) (fields : Doc φ ν) (r : ChatRow φ ν) : ChatRow φ ν :=
  if r.id = id then { r with doc := r.doc.merge fields } else r

/-- `_update_cached_chat_row_locked`. -/
def updateCachedChatRow (id : String) (fields : Doc φ ν) : Cache φ ν :=
  match c.index.get? id with
  | none => c
  | some _ => { c with rows := c.rows.map (updateRow id fields), generation := c.generation + 1 }

/-- `remove_committed_chat_ids`. -/
def removeCommittedChatIds (ids : List String) : Cache φ ν :=
  if ids.any fun id => (c.index.get? id).isSome then
    c.replaceRows limit (c.rows.filter fun r => r.id ∉ ids) c.version c.edge
  else c

/-- `apply_committed_chat_clear`. -/
def applyCommittedChatClear : Cache φ ν := { c with rows := [], generation := c.generation + 1 }

/-- A snapshot that does not reach its limit has every row. -/
def snapshotEdge (rows : List (ChatRow φ ν)) : Nat :=
  if rows.length < ChatDb.chatHotSnapshotLimit limit then 0 else (rows.head?.map ChatRow.seq).getD 0

def load (version : Nat) (rows : List (ChatRow φ ν)) : Cache φ ν :=
  c.replaceRows limit rows version (snapshotEdge limit rows)

end Cache

/-! ## Replay of events -/

def chatSyncBatchMax : Nat := 256

def chatGenerationRetryMax : Nat := 2

/-- The versions go up by one from the expected one. -/
def continuous : Nat → List ChangeEvent → Bool
  | _, [] => true
  | expected, e :: events => e.version == expected && continuous (expected + 1) events

def lastVersion (events : List ChangeEvent) : Nat :=
  (events.getLast?.map ChangeEvent.version).getD 0

def upsertIds (events : List ChangeEvent) : List String :=
  ((events.filter fun e => e.operation == .upsert).flatMap ChangeEvent.messageIds).eraseDups

/-- An upserted row is taken as it was read. -/
def upsertRow (rows : List (ChatRow φ ν)) (t : Table (ChatRow.id : ChatRow φ ν → String))
    (id : String) : Table (ChatRow.id : ChatRow φ ν → String) :=
  match rows.find? fun r => r.id == id with
  | some r => t.put r
  | none => t

def replayEvent (rows : List (ChatRow φ ν)) (t : Table (ChatRow.id : ChatRow φ ν → String))
    (e : ChangeEvent) : Table (ChatRow.id : ChatRow φ ν → String) :=
  match e.operation with
  | .upsert => e.messageIds.foldl (upsertRow rows) t
  | .delete => t.erase fun r => r.id ∈ e.messageIds
  | .reset => t

def replay (rows : List (ChatRow φ ν)) (t : Table (ChatRow.id : ChatRow φ ν → String))
    (events : List ChangeEvent) : Table (ChatRow.id : ChatRow φ ν → String) :=
  events.foldl (replayEvent rows) t

/-! ## Calls in flight -/

/-- Where a call of `reload_chat_hot_strict` is. The last attempt reads and installs under the
lock. -/
inductive Reload (φ ν : Type) where
  | start (attempt : Nat)
  | read (attempt generation : Nat)
  | install (attempt generation version : Nat) (rows : List (ChatRow φ ν))
  | waiting

/-- Where a call of `ensure_chat_fresh` is. -/
inductive SyncPhase (φ ν : Type) where
  | base
  | readVersion (base generation : Nat)
  | readEvents (base generation current : Nat)
  | readRows (base generation current : Nat) (events : List ChangeEvent)
  | install (base generation current : Nat) (events : List ChangeEvent) (rows : List (ChatRow φ ν))
  | reload (current : Nat) (r : Reload φ ν)
  | locked (current : Nat)

/-- A call of `ensure_chat_fresh`; `recent` says that the version was checked less than a second
ago. -/
structure Sync (φ ν : Type) where
  force : Bool
  requested : Option Nat
  recent : Bool
  retries : Nat
  phase : SyncPhase φ ν

/-- The last attempt of a reload holds the chat lock with its snapshot. -/
structure Holder (φ ν : Type) where
  forSync : Bool
  version : Nat
  rows : List (ChatRow φ ν)

/-- A write of this worker that the cache has not seen: what the statement returned, with its
version. -/
inductive LocalApply (φ ν : Type) where
  | rows (version : Nat) (rows : List (ChatRow φ ν))
  | fields (version : Nat) (id : String) (fields : Doc φ ν)
  | removed (version : Nat) (ids : List String)
  | cleared (version : Nat)

namespace LocalApply

def version : LocalApply φ ν → Nat
  | .rows v _ => v
  | .fields v _ _ => v
  | .removed v _ => v
  | .cleared v => v

/-- The ids that the write is about. -/
def concerns : LocalApply φ ν → String → Bool
  | .rows _ rs, id => rs.any fun r => r.id == id
  | .fields _ id' _, id => id' == id
  | .removed _ ids, id => decide (id ∈ ids)
  | .cleared _, _ => true

def apply (limit : Nat) (c : Cache φ ν) : LocalApply φ ν → Cache φ ν
  | .rows _ rs => c.applyCommittedChatRows limit rs
  | .fields _ id doc => c.updateCachedChatRow id doc
  | .removed _ ids => c.removeCommittedChatIds limit ids
  | .cleared _ => c.applyCommittedChatClear

end LocalApply

/-! ## The world -/

structure CacheWorld (φ ν : Type) where
  limit : Nat
  db : ChatDb φ ν
  cache : Cache φ ν
  pending : List (LocalApply φ ν)
  sync : Option (Sync φ ν)
  reloads : List (Reload φ ν)
  holder : Option (Holder φ ν)

/-- What `ensure_chat_fresh` returns, with the version that the call read. -/
structure Return where
  ok : Bool
  read : Option Nat
  deriving DecidableEq, Repr

/-- What a step of a reload does. -/
inductive ReloadMove (φ ν : Type) where
  | blocked
  | next (r : Reload φ ν)
  | lock (version : Nat) (rows : List (ChatRow φ ν))
  | done (cache : Cache φ ν)

inductive CacheLabel (φ ν : Type) where
  | statement (s : Statement φ ν)
  | prune (version : Nat)
  | writeRows (s : Statement φ ν)
  | writeFields (s : Statement φ ν) (id : String) (keys : φ → Bool)
  | writeRemoval (ids : List String)
  | writeClear
  | apply (i : Nat)
  | beginSync (force : Bool) (requested : Option Nat) (recent : Bool)
  | sync
  | failSync
  | beginReload
  | reload (i : Nat)
  | failReload (i : Nat)
  /-- The holder of the lock installs its snapshot. -/
  | install

namespace CacheWorld

variable (w : CacheWorld φ ν)

/-- A statement of this worker; what it returned is applied later. -/
def write (s : Statement φ ν) (applies : List (LocalApply φ ν)) : CacheWorld φ ν :=
  { w with db := w.db.exec s, pending := w.pending ++ applies }

/-- The committed fields of a row that a statement changed. -/
def committedFields (s : Statement φ ν) (id : String) (keys : φ → Bool) : List (LocalApply φ ν) :=
  match if id ∈ w.db.touched s then (w.db.exec s).rows.get? id else none with
  | some r => [.fields (w.db.exec s).version id fun k => if keys k then r.doc k else none]
  | none => []

def reloadMove : Reload φ ν → ReloadMove φ ν
  | .start attempt => if w.holder.isSome then .blocked else .next (.read attempt w.cache.generation)
  | .read attempt generation =>
    let (version, rows) := w.db.chatLoadHotSnapshot w.limit
    .next (.install attempt generation version rows)
  | .install attempt generation version rows =>
    if w.holder.isSome then .blocked
    else if w.cache.generation ≠ generation then
      if attempt + 1 < 2 then .next (.start (attempt + 1)) else .next .waiting
    else .done (w.cache.load w.limit version rows)
  | .waiting =>
    if w.holder.isSome then .blocked
    else
      let (version, rows) := w.db.chatLoadHotSnapshot w.limit
      .lock version rows

def goto (s : Sync φ ν) (phase : SyncPhase φ ν) : CacheWorld φ ν × Option Return :=
  ({ w with sync := some { s with phase := phase } }, none)

def finish (s : Sync φ ν) (current : Option Nat) : CacheWorld φ ν × Option Return :=
  ({ w with sync := none }, some ⟨true, if s.requested.isNone then current else none⟩)

/-- `ensure_chat_fresh`, up to the next read or the next use of the lock. -/
def syncStep (s : Sync φ ν) : CacheWorld φ ν × Option Return :=
  match s.phase with
  | .base =>
    if w.holder.isSome then (w, none)
    else if (match s.requested with
        | some requested => decide (requested ≤ w.cache.version)
        | none => s.retries == 0 && !s.force && s.recent) then w.finish s none
    else w.goto s (.readVersion w.cache.version w.cache.generation)
  | .readVersion base generation =>
    let current := s.requested.getD w.db.version
    if current ≤ base then w.finish s (some current)
    else if chatSyncBatchMax < current - base then w.goto s (.reload current (.start 0))
    else w.goto s (.readEvents base generation current)
  | .readEvents base generation current =>
    let events := w.db.chatChangeEventsAfter base chatSyncBatchMax
    if continuous (base + 1) events = false ∨ events = [] ∨ lastVersion events < current ∨
        events.any (fun e => e.operation == .reset) = true then
      w.goto s (.reload current (.start 0))
    else if upsertIds events = [] then w.goto s (.install base generation current events [])
    else w.goto s (.readRows base generation current events)
  | .readRows base generation current events =>
    let rows := w.db.chatGetMany (upsertIds events)
    if (upsertIds events).any fun id => !rows.any fun r => r.id == id then
      w.goto s (.reload current (.start 0))
    else w.goto s (.install base generation current events rows)
  | .install _ generation current events rows =>
    if w.holder.isSome then (w, none)
    else if w.cache.generation ≠ generation then
      if s.retries < chatGenerationRetryMax then w.goto { s with retries := s.retries + 1 } .base
      else w.goto s (.reload current (.start 0))
    else
      { w with
        cache := w.cache.replaceRows w.limit (replay rows w.cache.index events).rows
          (lastVersion events) w.cache.edge }.finish
        s (some current)
  | .reload current r =>
    match w.reloadMove r with
    | .blocked => (w, none)
    | .next r => w.goto s (.reload current r)
    | .lock version rows => { w with holder := some ⟨true, version, rows⟩ }.goto s (.locked current)
    | .done cache => { w with cache := cache }.finish s (some current)
  | .locked _ => (w, none)

/-- A step of a reload that is not part of a sync. -/
def reloadStep (i : Nat) (r : Reload φ ν) : CacheWorld φ ν :=
  match w.reloadMove r with
  | .blocked => w
  | .next r => { w with reloads := w.reloads.set i r }
  | .lock version rows =>
    { w with holder := some ⟨false, version, rows⟩, reloads := w.reloads.eraseIdx i }
  | .done cache => { w with cache := cache, reloads := w.reloads.eraseIdx i }

/-- The call waits for the lock holder to install its snapshot. -/
def lockedTarget (s : Sync φ ν) : Option Nat :=
  match s.phase with
  | .locked current => some current
  | _ => none

/-- The holder of the lock installs its snapshot and releases the lock. -/
def lockedInstall (h : Holder φ ν) : CacheWorld φ ν × Option Return :=
  let w' := { w with cache := w.cache.load w.limit h.version h.rows, holder := none }
  match if h.forSync then w.sync else none with
  | some s => w'.finish s (lockedTarget s)
  | none => (w', none)

end CacheWorld

def cacheStep (w : CacheWorld φ ν) : CacheLabel φ ν → CacheWorld φ ν × Option Return
  | .statement s => (w.write s [], none)
  | .prune version => ({ w with db := w.db.prune version }, none)
  | .writeRows s =>
    (w.write s [.rows (w.db.exec s).version ((w.db.touched s).filterMap (w.db.exec s).rows.get?)],
        none)
  | .writeFields s id keys => (w.write s (w.committedFields s id keys), none)
  | .writeRemoval ids =>
    (w.write (.delete ids) [.removed (w.db.exec (.delete ids)).version
        (w.db.touched (.delete ids))], none)
  | .writeClear =>
    let s : Statement φ ν := .delete (w.db.rows.rows.map ChatRow.id)
    (w.write s [.cleared (w.db.exec s).version], none)
  | .apply i =>
    match if w.holder.isSome then none else w.pending[i]? with
    | some a => ({ w with cache := a.apply w.limit w.cache, pending := w.pending.eraseIdx i }, none)
    | none => (w, none)
  | .beginSync force requested recent =>
    match w.sync with
    | some _ => (w, none)
    | none => ({ w with sync := some ⟨force, requested, recent, 0, .base⟩ }, none)
  | .sync =>
    match w.sync with
    | some s => w.syncStep s
    | none => (w, none)
  | .failSync =>
    match w.sync with
    | some s =>
      if (CacheWorld.lockedTarget s).isSome then (w, none)
        else ({ w with sync := none }, some ⟨false, none⟩)
    | none => (w, none)
  | .beginReload => ({ w with reloads := w.reloads ++ [.start 0] }, none)
  | .reload i =>
    match w.reloads[i]? with
    | some r => (w.reloadStep i r, none)
    | none => (w, none)
  | .failReload i => ({ w with reloads := w.reloads.eraseIdx i }, none)
  | .install =>
    match w.holder with
    | some h => w.lockedInstall h
    | none => (w, none)

def cacheNext (w : CacheWorld φ ν) (l : CacheLabel φ ν) : CacheWorld φ ν := (cacheStep w l).1

/-- A store whose cache was just loaded. -/
def CacheWorld.start (limit : Nat) (db : ChatDb φ ν) : CacheWorld φ ν :=
  let (version, rows) := db.chatLoadHotSnapshot limit
  ⟨limit, db, Cache.load limit ⟨[], 0, 0, 0⟩ version rows, [], none, [], none⟩

end HotChat

end Feedling
