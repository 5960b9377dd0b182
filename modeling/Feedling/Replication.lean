import Feedling.Store
import Mathlib.Algebra.Order.Ring.Rat
import Mathlib.Logic.Function.Basic

/-!
# Replication of encrypted tables

A pass over one table first replays the rows that writers have marked for another look, and then
reads the source in the order of a cursor, page by page. A page is written together with the new
cursor in one transaction. A row that can never be decrypted leaves a marker instead; a row that
fails for another reason stops the cursor in front of it.

What decrypting and re-encrypting a row comes to is the parameter `outcome`. `rank` is the order in
which the database compares the columns of the cursor.
-/

namespace Feedling

namespace Replication

/-! ## Tables -/

/-- User id and item id; a table with one row for each user has no item id. -/
abbrev RowKey := String × String

inductive CursorKind where
  | numeric | text | single
  deriving DecidableEq, Repr

/-- A value of the sort column: `DOUBLE PRECISION`, or a text or timestamp in ISO form. -/
inductive SortVal where
  | num (q : ℚ)
  | text (s : String)
  deriving DecidableEq, Repr

def SortVal.toNum : SortVal → ℚ
  | .num q => q
  | .text _ => 0

def SortVal.toText : SortVal → String
  | .num _ => ""
  | .text s => s

/-- The parameters of `WHERE <cursor>`. -/
inductive CursorParams where
  | pair (sort : SortVal) (item : String)
  | one (id : String)
  deriving DecidableEq, Repr

/-- `_SEP`. -/
def sep : Char := '\x1f'

/-- `_Table`, as far as passes differ. -/
structure TableConfig where
  cursorKind : CursorKind
  /-- The `item_id` of `unpack`. -/
  itemId : RowKey → String
  requeueFetch : Bool
  requeueDelete : Bool
  requeueByUserOnly : Bool
  cursorZero : Option CursorParams

inductive ReplicatedTable where
  | chatMessages | memoryMoments | worldBookEntries | identity | frameEnvelopes | chatMessageArchive
  | v2TrajectoryEvents | voiceTranscripts | modelApiCredentials | v2ConversationSummary
  | v2ConversationSummarySegments | v2TrajectoryReviews | v2WorkspaceEntries
  deriving DecidableEq, Repr

/-- A lower bound of a timestamp column. -/
def cursorZero (item : String) : Option CursorParams := some (.pair (.text "-infinity") item)

def nilUuid : String := "00000000-0000-0000-0000-000000000000"

/-- `_TABLES`. -/
def ReplicatedTable.config : ReplicatedTable → TableConfig
  | .chatMessages => ⟨.numeric, (·.2), true, true, false, none⟩
  | .memoryMoments => ⟨.text, (·.2), true, true, false, none⟩
  | .worldBookEntries => ⟨.text, (·.2), true, true, false, none⟩
  | .identity => ⟨.single, fun _ => "identity", true, true, true, none⟩
  | .frameEnvelopes => ⟨.numeric, (·.2), false, true, false, none⟩
  | .chatMessageArchive => ⟨.text, (·.2), true, true, false, cursorZero "0"⟩
  | .v2TrajectoryEvents => ⟨.text, (·.2), false, false, false, cursorZero ""⟩
  | .voiceTranscripts => ⟨.text, (·.2), false, false, false, cursorZero ""⟩
  | .modelApiCredentials => ⟨.text, (·.2), true, true, false, cursorZero nilUuid⟩
  | .v2ConversationSummary => ⟨.text, (·.1), true, true, true, cursorZero ""⟩
  | .v2ConversationSummarySegments => ⟨.text, (·.2), false, false, false, cursorZero "0"⟩
  | .v2TrajectoryReviews => ⟨.text, (·.2), true, true, false, cursorZero "0"⟩
  -- the path is unique for one user only, so the cursor needs the user too
  | .v2WorkspaceEntries =>
    ⟨.text, fun k => k.1 ++ String.singleton sep ++ k.2, true, true, false, cursorZero ""⟩

/-- A source row; `doc` stands for everything that the cursor does not look at. -/
structure SourceRow (δ : Type) where
  key : RowKey
  sort : SortVal
  doc : δ
  deriving DecidableEq, Repr

namespace TableConfig

variable (cfg : TableConfig) {δ : Type}

/-- The `sort_val` of `unpack`. -/
def sortVal (r : SourceRow δ) : SortVal :=
  match cfg.cursorKind with
  | .single => .text r.key.1
  | _ => r.sort

/-- What the columns of the cursor are for a row. -/
def params (r : SourceRow δ) : CursorParams :=
  match cfg.cursorKind with
  | .single => .one r.key.1
  | _ => .pair r.sort (cfg.itemId r.key)

/-- The key in `requeue_fetch_sql` and `requeue_delete_tee_sql`. -/
def requeueKey (user item : String) : RowKey :=
  if cfg.requeueByUserOnly then (user, "") else (user, item)

/-- `_encode_cursor`. -/
def encodeCursor (sort : SortVal) (item : String) : ℚ × String :=
  match cfg.cursorKind with
  | .numeric => (sort.toNum, item)
  | .single => (0, sort.toText)
  | .text => (0, sort.toText ++ String.singleton sep ++ item)

/-- `text.partition(_SEP)` without the separator. -/
def partition (text : String) : String × String :=
  (String.ofList (text.toList.takeWhile (· ≠ sep)),
      String.ofList (text.toList.dropWhile (· ≠ sep)).tail)

/-- `_decode_cursor`. -/
def decodeCursor (watermark : ℚ × String) : CursorParams :=
  match if watermark.2 = "" then cfg.cursorZero else none with
  | some zero => zero
  | none =>
    match cfg.cursorKind with
    | .numeric => .pair (.num watermark.1) watermark.2
    | .single => .one watermark.2
    | .text => .pair (.text (partition watermark.2).1) (partition watermark.2).2

end TableConfig

/-! ## Outcomes and markers -/

/-- What `_produce_write` returns or raises. -/
inductive Outcome (α : Type) where
  | write (args : α)
  | pendingDeviceMigration (detail : String)
  | permanentDecryptFailure (detail : String)
  | error
  deriving DecidableEq, Repr

def pdmReason (detail : String) : String :=
  "pdm:" ++ if detail = "" then "local_only_or_no_k_enclave" else detail

def decryptFailedReason (detail : String) : String :=
  "decrypt_failed:" ++ if truncate 200 detail = "" then "undecryptable" else truncate 200 detail

/-- The reason that a row leaves instead of a copy. -/
def Outcome.terminal? {α : Type} : Outcome α → Option String
  | .pendingDeviceMigration detail => some (pdmReason detail)
  | .permanentDecryptFailure detail => some (decryptFailedReason detail)
  | _ => none

/-- `reason LIKE 'requeue%'`. -/
def isRequeue (reason : String) : Bool := startsWith reason "requeue"

/-! ## The target -/

/-- The target rows, the markers and the cursor of one table. `written` are the keys of the rows
that the pass has upserted. -/
structure Target (α : Type) where
  rows : RowKey → Option α
  pending : RowKey → Option String
  cursor : Option (ℚ × String)
  written : List RowKey

inductive Stmt (α : Type) where
  | upsert (key : RowKey) (args : α)
  | deleteRow (key : RowKey)
  /-- `_PENDING_UPSERT`. -/
  | mark (key : RowKey) (reason : String)
  /-- `_PENDING_DELETE`. -/
  | unmark (key : RowKey)
  /-- `_PENDING_UPDATE_REASON`. -/
  | rewrite (key : RowKey) (reason : String)
  /-- `_CURSOR_UPSERT`. -/
  | setCursor (watermark : ℚ × String)
  deriving DecidableEq, Repr

namespace Target

variable {α : Type}

def exec (t : Target α) : Stmt α → Target α
  | .upsert key args =>
    { t with rows := Function.update t.rows key (some args), written := key :: t.written }
  | .deleteRow key => { t with rows := Function.update t.rows key none }
  | .mark key reason => { t with pending := Function.update t.pending key (some reason) }
  | .unmark key => { t with pending := Function.update t.pending key none }
  | .rewrite key reason =>
    { t with pending := Function.update t.pending key ((t.pending key).map fun _ => reason) }
  | .setCursor watermark => { t with cursor := some watermark }

def execAll (t : Target α) (stmts : List (Stmt α)) : Target α := stmts.foldl exec t

/-- `_read_cursor`. -/
def readCursor (t : Target α) : ℚ × String := t.cursor.getD (0, "")

end Target

/-! ## The requeue lane -/

section Lane

variable {α δ : Type} (cfg : TableConfig) (outcome : SourceRow δ → Outcome α)

/-- The target transaction of `_consume_requeue` for the marker of an item, after the row was
fetched and `_produce_write` was called; another error leaves the marker. -/
def consumeStmts (marker : RowKey) (fetched : Option (SourceRow δ × Outcome α)) : List (Stmt α) :=
  match fetched with
  | none => [.deleteRow (cfg.requeueKey marker.1 marker.2), .unmark marker]
  | some (row, result) =>
    match result, result.terminal? with
    | .write args, _ => [.upsert row.key args, .unmark marker]
    | _, some reason =>
      (if cfg.requeueDelete then [.deleteRow (cfg.requeueKey marker.1 marker.2)] else []) ++
        [.rewrite marker reason]
    | _, none => []

/-- `requeue_fetch_sql`. -/
def fetchRow (source : List (SourceRow δ)) (marker : RowKey) : Option (SourceRow δ) :=
  source.find? fun r => r.key == cfg.requeueKey marker.1 marker.2

/-- `_consume_requeue` over the markers that it has listed. -/
def consumeRequeue (source : List (SourceRow δ)) (listed : List RowKey) (t : Target α) : Target α :=
  if cfg.requeueFetch then
    listed.foldl
      (fun t marker => t.execAll (consumeStmts cfg marker ((fetchRow cfg source marker).map fun r =>
        (r, outcome r)))) t
  else t

end Lane

/-! ## A page -/

/-- The accumulators of the loop over the rows of a page; `frozen` is also `batch_failed`. -/
structure Page (α : Type) where
  writes : List (RowKey × α)
  pendRows : List (RowKey × String)
  adv : ℚ × String
  frozen : Bool
  deriving DecidableEq, Repr

section Pages

variable {α δ : Type} (cfg : TableConfig) (outcome : SourceRow δ → Outcome α)

/-- A row that may be passed moves the cursor, unless it is frozen. -/
def Page.advance (p : Page α) (r : SourceRow δ) : ℚ × String :=
  if p.frozen then p.adv else cfg.encodeCursor (cfg.sortVal r) (cfg.itemId r.key)

/-- One row of the page. -/
def Page.add (p : Page α) (r : SourceRow δ) : Page α :=
  match outcome r, (outcome r).terminal? with
  | .write args, _ => { p with writes := p.writes ++ [(r.key, args)], adv := p.advance cfg r }
  | _, some reason =>
    { p with pendRows := p.pendRows ++ [((r.key.1, cfg.itemId r.key), reason)],
             adv := p.advance cfg r }
  | _, none => { p with frozen := true }

/-- The loop over the rows that were read behind the watermark. -/
def readPage (watermark : ℚ × String) (rows : List (SourceRow δ)) : Page α :=
  rows.foldl (Page.add cfg outcome) ⟨[], [], watermark, false⟩

/-- The statements of `_write_pending_and_cursor` for one row without a copy. -/
def pendStmts (row : RowKey × String) : List (Stmt α) :=
  (if cfg.requeueDelete then [.deleteRow (cfg.requeueKey row.1.1 row.1.2)] else []) ++
    [.mark row.1 row.2]

/-- `_write_pending_and_cursor`. -/
def writePendingAndCursor (p : Page α) : List (Stmt α) :=
  p.pendRows.flatMap (pendStmts cfg) ++ [.setCursor p.adv]

def upsertStmts (writes : List (RowKey × α)) : List (Stmt α) := writes.map fun w => .upsert w.1 w.2

end Pages

/-! ## Writing a page -/

/-- An `OperationalError` of a statement, with the connection alive or lost. -/
inductive Fault where
  | none | live | lost
  deriving DecidableEq, Repr

/-- A commit succeeds, fails, or takes effect and fails. -/
inductive CommitFault where
  | none | failed | unknown
  deriving DecidableEq, Repr

/-- The choices of the environment in one attempt of `_flush_batch`: whether there is a connection,
and which statement fails of the batch, of the rows of the fallback, and of the rest of the
fallback. -/
structure Attempt where
  connects : Bool
  batch : Nat → Fault
  batchCommit : CommitFault
  rows : Nat → Fault
  rest : Nat → Fault
  fallbackCommit : CommitFault

def calm : Attempt := ⟨true, fun _ => .none, .none, fun _ => .none, fun _ => .none, .none⟩

inductive StmtError where
  | operational | data
  deriving DecidableEq, Repr

section Flush

variable {α : Type} (poison : Stmt α → Bool)

/-- The statements of a transaction; the `poison` ones always cause a data error. -/
def runStmts (faults : Nat → Fault) : Nat → List (Stmt α) → Target α → Except StmtError (Target α)
  | _, [], t => .ok t
  | i, s :: stmts, t =>
    if faults i ≠ .none then .error .operational
    else if poison s then .error .data
    else runStmts faults (i + 1) stmts (t.exec s)

/-- The target and whether the transaction went through. -/
def commit (fault : CommitFault) (before after : Target α) : Target α × Bool :=
  match fault with
  | .none => (after, true)
  | .failed => (before, false)
  | .unknown => (after, false)

/-- The loop over the rows of the fallback: every exception skips the row; a lost connection makes
the rest of the transaction fail. -/
def fallbackRows (faults : Nat → Fault) :
    Nat → List (RowKey × α) → Target α → Nat → Option (Target α × Nat)
  | _, [], t, skipped => some (t, skipped)
  | i, w :: writes, t, skipped =>
    match faults i with
    | .lost => none
    | .live => fallbackRows faults (i + 1) writes t (skipped + 1)
    | .none =>
      if poison (.upsert w.1 w.2) then fallbackRows faults (i + 1) writes t (skipped + 1)
      else fallbackRows faults (i + 1) writes (t.exec (.upsert w.1 w.2)) skipped

variable (cfg : TableConfig)

/-- The row by row transaction on the live connection. -/
def flushRows (a : Attempt) (p : Page α) (t : Target α) : Target α × Option Nat :=
  match fallbackRows poison a.rows 0 p.writes t 0 with
  | none => (t, none)
  | some (written, skipped) =>
    match runStmts poison a.rest 0 (writePendingAndCursor cfg p) written with
    | .error _ => (t, none)
    | .ok after =>
      match commit a.fallbackCommit t after with
      | (t, true) => (t, some skipped)
      | (t, false) => (t, none)

/-- One attempt: the number of skipped rows, or `none` if it raises. -/
def flushAttempt (a : Attempt) (p : Page α) (t : Target α) : Target α × Option Nat :=
  if !a.connects then (t, none)
  else
    match runStmts poison a.batch 0 (upsertStmts p.writes ++ writePendingAndCursor cfg p) t with
    | .ok after =>
      match commit a.batchCommit t after with
      | (t, true) => (t, some 0)
      | (t, false) => (t, none)
    | .error .operational => (t, none)
    | .error .data => flushRows poison cfg a p t

/-- `_flush_batch` with so many attempts left; `_batch_conn_retries` is at least one. -/
def flushBatch : Nat → (Nat → Attempt) → Page α → Target α → Target α × Option Nat
  | 0, _, _, t => (t, some 0)
  | n + 1, attempts, p, t =>
    match flushAttempt poison cfg (attempts 0) p t with
    | (t, some skipped) => (t, some skipped)
    | (t, none) => if n = 0 then (t, none) else flushBatch n (fun i => attempts (i + 1)) p t

end Flush

/-! ## A pass -/

def batch : Nat := 500

/-- `run_table` returns, raises, or is still running. -/
inductive PassEnd where
  | returned | raised | running
  deriving DecidableEq, Repr

section Pass

variable {α δ κ : Type} [LinearOrder κ] (cfg : TableConfig) (rank : CursorParams → κ)
  (outcome : SourceRow δ → Outcome α) (poison : Stmt α → Bool)

/-- `select_sql` over the rows in the order of the cursor. -/
def selectPage (source : List (SourceRow δ)) (watermark : ℚ × String) (page : Nat) :
    List (SourceRow δ) :=
  (source.filter fun r => decide (rank (cfg.decodeCursor watermark) < rank (cfg.params r))).take
    page

/-- The loop of `run_table` for so many pages; `attempts` are the choices of the environment for
each page, `retries` is `_batch_conn_retries`. -/
def runPages (retries : Nat) (source : List (SourceRow δ)) :
    Nat → (Nat → Nat → Attempt) → ℚ × String → Option Nat → Target α → Target α × PassEnd
  | 0, _, _, _, t => (t, .running)
  | pages + 1, attempts, watermark, remaining, t =>
    let page := (remaining.map (min batch ·)).getD batch
    if page = 0 then (t, .returned)
    else
      let rows := selectPage cfg rank source watermark page
      if rows = [] then (t, .returned)
      else
        let p := readPage cfg outcome watermark rows
        match flushBatch poison cfg retries (attempts 0) p t with
        | (t, none) => (t, .raised)
        | (t, some _) =>
          if p.frozen || rows.length < page then (t, .returned)
          else runPages retries source pages (fun i => attempts (i + 1)) p.adv
            (remaining.map (· - rows.length)) t

/-- `run_table` with `dry_run` false. -/
def runTable (retries : Nat) (source : List (SourceRow δ)) (listed : List RowKey)
    (limit : Option Nat) (pages : Nat) (attempts : Nat → Nat → Attempt) (t : Target α) :
    Target α × PassEnd :=
  runPages cfg rank outcome poison retries source pages attempts t.readCursor limit
    (consumeRequeue cfg outcome source listed { t with written := [] })

end Pass

end Replication

end Feedling
