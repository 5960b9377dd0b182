import Feedling.ReplicationPage
import Feedling.Runs
import Mathlib.Data.List.Dedup
import Mathlib.Data.List.Sort

/-!
# The requeue lane under concurrent writers

The cursor never goes back, so a writer that changes a row in place marks it after its commit, and
the next pass fetches the row again. Here writers and passes interleave step by step.
-/

namespace Feedling

namespace Replication

variable {α δ κ : Type}

/-- The item under which the writers of a table mark a row. -/
def ReplicatedTable.markerItem (table : ReplicatedTable) (user item : String) : String :=
  match table with
  | .identity => "identity"
  | .v2ConversationSummary => user
  | _ => item

def ReplicatedTable.markerOf (table : ReplicatedTable) (key : RowKey) : RowKey :=
  (key.1, table.markerItem key.1 key.2)

def current (source : List (SourceRow δ)) (key : RowKey) : Option (SourceRow δ) :=
  source.find? fun r => r.key == key

/-- Where a pass of `run_table` is between two of its steps. -/
inductive Phase (δ : Type) where
  | idle
  /-- In `_consume_requeue`, with the markers to come and the row that was fetched for the last
  one. -/
  | lane (watermark : ℚ × String) (markers : List RowKey)
      (fetched : Option (RowKey × Option (SourceRow δ)))
  | pages (watermark : ℚ × String) (remaining : Option Nat)
  | flushing (watermark : ℚ × String) (remaining : Option Nat) (page : Nat)
      (rows : List (SourceRow δ))

/-- Source, target and one pass. `owing` are the markers of commits that are still to be written,
`announced` the keys whose latest change was followed by a marker. -/
structure LaneWorld (α δ : Type) where
  source : List (SourceRow δ)
  target : Target α
  owing : List RowKey
  announced : RowKey → Bool
  phase : Phase δ

inductive LaneLabel (δ : Type) where
  /-- A writer commits a version of a row, or its deletion. -/
  | commit (user item : String) (change : Option (SortVal × δ))
  /-- `mark_pending` of the `i`th writer that owes it. -/
  | mark (i : Nat) (detail : String)
  /-- `_read_cursor` and `_REQUEUE_SELECT`, over a list that has all markers of the table. -/
  | listMarkers (markers : List RowKey)
  | fetch
  | consume (failed : Bool)
  | startPages (limit : Option Nat)
  | select
  | flush (failed : RowKey → Bool) (retries : Nat) (attempts : Nat → Attempt)
  /-- The pass ends, at any point. -/
  | stop

section Step

variable [LinearOrder κ] (table : ReplicatedTable) (rank : CursorParams → κ)
  (outcome : SourceRow δ → Outcome α) (poison : Stmt α → Bool)

/-- A version of the row with this key takes the place of the earlier one. -/
def commitChange (source : List (SourceRow δ)) (key : RowKey) (change : Option (SortVal × δ)) :
    List (SourceRow δ) :=
  let rest := source.filter fun r => r.key != key
  match change with
  | none => rest
  | some (sort, doc) =>
    rest.orderedInsert (fun a b => rank (table.config.params a) ≤ rank (table.config.params b))
      ⟨key, sort, doc⟩

/-- `_produce_write`, with the rows for which it fails for another reason. -/
def produce (failed : RowKey → Bool) (r : SourceRow δ) : Outcome α :=
  if failed r.key then .error else outcome r

def consumed (failed : Bool) (marker : RowKey) (fetched : Option (SourceRow δ)) : List (Stmt α) :=
  consumeStmts table.config marker (fetched.map fun r => (r, produce outcome (fun _ => failed) r))

def isRequeued (t : Target α) (marker : RowKey) : Bool := (t.pending marker).any isRequeue

def laneStep (w : LaneWorld α δ) : LaneLabel δ → LaneWorld α δ
  | .commit user item change =>
    { w with
      source := commitChange table rank w.source (table.config.requeueKey user item) change
      announced := Function.update w.announced (table.config.requeueKey user item) false
      owing := w.owing ++ [(user, table.markerItem user item)] }
  | .mark i detail =>
    match w.owing[i]? with
    | none => w
    | some marker =>
      { w with
        target := w.target.exec (.mark marker ("requeue" ++ detail))
        announced := Function.update w.announced (table.config.requeueKey marker.1 marker.2) true
        owing := w.owing.eraseIdx i }
  | .listMarkers markers =>
    match w.phase with
    | .idle =>
      let listed :=
        if table.config.requeueFetch then (markers.filter (isRequeued w.target)).dedup else []
      { w with phase := .lane w.target.readCursor listed none }
    | _ => w
  | .fetch =>
    match w.phase with
    | .lane watermark (marker :: markers) none =>
      { w with phase := .lane watermark markers
                 (some (marker, fetchRow table.config w.source marker)) }
    | _ => w
  | .consume failed =>
    match w.phase with
    | .lane watermark markers (some (marker, fetched)) =>
      { w with
        target := w.target.execAll (consumed table outcome failed marker fetched)
        phase := .lane watermark markers none }
    | _ => w
  | .startPages limit =>
    match w.phase with
    | .lane watermark [] none => { w with phase := .pages watermark limit }
    | _ => w
  | .select =>
    match w.phase with
    | .pages watermark remaining =>
      let page := (remaining.map (min batch ·)).getD batch
      let rows := selectPage table.config rank w.source watermark page
      if page = 0 ∨ rows = [] then { w with phase := .idle }
      else { w with phase := .flushing watermark remaining page rows }
    | _ => w
  | .flush failed retries attempts =>
    match w.phase with
    | .flushing watermark remaining page rows =>
      let p := readPage table.config (produce outcome failed) watermark rows
      match flushBatch poison table.config retries attempts p w.target with
      | (t, none) => { w with target := t, phase := .idle }
      | (t, some _) =>
        { w with
          target := t
          phase := if p.frozen || rows.length < page then .idle
            else .pages p.adv (remaining.map (· - rows.length)) }
    | _ => w
  | .stop => { w with phase := .idle }

/-- The target holds for the key what `_produce_write` gave for its row, if there is one. -/
def Holds (result : Option (Outcome α)) (t : Target α) (key : RowKey) : Prop :=
  match result with
  | none => t.rows key = none
  | some (.write args) => t.rows key = some args
  | some .error => False
  | some (.pendingDeviceMigration detail) =>
    t.rows key = none ∧ t.pending (table.markerOf key) = some (pdmReason detail)
  | some (.permanentDecryptFailure detail) =>
    t.rows key = none ∧ t.pending (table.markerOf key) = some (decryptFailedReason detail)

instance [DecidableEq α] (result : Option (Outcome α)) (t : Target α) (key : RowKey) :
    Decidable (Holds table result t key) :=
  match result with
  | none => inferInstanceAs (Decidable (_ = none))
  | some (.write _) => inferInstanceAs (Decidable (_ = some _))
  | some .error => inferInstanceAs (Decidable False)
  | some (.pendingDeviceMigration _) => inferInstanceAs (Decidable (_ ∧ _))
  | some (.permanentDecryptFailure _) => inferInstanceAs (Decidable (_ ∧ _))

/-- The target holds this version of the row. -/
def Copied (row : Option (SourceRow δ)) (t : Target α) (key : RowKey) : Prop :=
  Holds table (row.map outcome) t key

instance [DecidableEq α] (row : Option (SourceRow δ)) (t : Target α) (key : RowKey) :
    Decidable (Copied table outcome row t key) :=
  inferInstanceAs (Decidable (Holds _ _ _ _))

/-- A requeue marker of the key is there, or the target holds this version of it. -/
def Served (row : Option (SourceRow δ)) (t : Target α) (key : RowKey) : Prop :=
  isRequeued t (table.markerOf key) = true ∨ Copied table outcome row t key

instance [DecidableEq α] (row : Option (SourceRow δ)) (t : Target α) (key : RowKey) :
    Decidable (Served table outcome row t key) :=
  inferInstanceAs (Decidable (_ ∨ _))

def NoChangeLost (w : LaneWorld α δ) : Prop :=
  ∀ key, w.announced key = true → Served table outcome (current w.source key) w.target key

/-- A marker is removed or replaced only for a row that is still the current one, as far as its
latest change was announced. -/
def StillCurrent (w : LaneWorld α δ) : LaneLabel δ → Prop
  | .consume failed =>
    match w.phase with
    | .lane _ _ (some (marker, fetched)) =>
      consumed table outcome failed marker fetched ≠ [] →
        w.announced (table.config.requeueKey marker.1 marker.2) = true →
          fetchRow table.config w.source marker = fetched
    | _ => True
  | .flush failed _ _ =>
    match w.phase with
    | .flushing _ _ _ rows =>
      ∀ r ∈ rows, (produce outcome failed r).terminal?.isSome = true →
        w.announced (table.config.requeueKey r.key.1 (table.config.itemId r.key)) = true →
        current w.source (table.config.requeueKey r.key.1 (table.config.itemId r.key)) = some r
    | _ => True
  | _ => True

instance [DecidableEq α] [DecidableEq δ] (w : LaneWorld α δ) (l : LaneLabel δ) :
    Decidable (StillCurrent table outcome w l) :=
  match w, l with
  | ⟨_, _, _, _, .lane _ _ (some (_, _))⟩, .consume _ => inferInstanceAs (Decidable (_ → _ → _))
  | ⟨_, _, _, _, .lane _ _ none⟩, .consume _ => isTrue trivial
  | ⟨_, _, _, _, .idle⟩, .consume _ => isTrue trivial
  | ⟨_, _, _, _, .pages _ _⟩, .consume _ => isTrue trivial
  | ⟨_, _, _, _, .flushing _ _ _ _⟩, .consume _ => isTrue trivial
  | ⟨_, _, _, _, .flushing _ _ _ rows⟩, .flush _ _ _ =>
    inferInstanceAs (Decidable (∀ r ∈ rows, _ → _ → _))
  | ⟨_, _, _, _, .lane _ _ _⟩, .flush _ _ _ => isTrue trivial
  | ⟨_, _, _, _, .idle⟩, .flush _ _ _ => isTrue trivial
  | ⟨_, _, _, _, .pages _ _⟩, .flush _ _ _ => isTrue trivial
  | _, .commit _ _ _ => isTrue trivial
  | _, .mark _ _ => isTrue trivial
  | _, .listMarkers _ => isTrue trivial
  | _, .fetch => isTrue trivial
  | _, .startPages _ => isTrue trivial
  | _, .select => isTrue trivial
  | _, .stop => isTrue trivial

def LaneWorld.start (source : List (SourceRow δ)) (target : Target α) : LaneWorld α δ :=
  ⟨source, target, [], fun _ => false, .idle⟩

end Step

/-! ## Keys and markers -/

section Keys

variable {table : ReplicatedTable}

theorem requeueKey_markerItem (user item : String) :
    table.config.requeueKey user (table.markerItem user item) =
      table.config.requeueKey user item := by
  cases table <;> rfl

theorem markerOf_requeueKey (user item : String) :
    table.markerOf (table.config.requeueKey user item) = (user, table.markerItem user item) := by
  cases table <;> rfl

theorem markerOf_itemId (table : ReplicatedTable) (key : RowKey) :
    table.markerOf (table.config.requeueKey key.1 (table.config.itemId key)) =
      (key.1, table.config.itemId key) := by
  cases table <;> rfl

theorem requeueDelete_of_requeueFetch (h : table.config.requeueFetch = true) :
    table.config.requeueDelete = true := by
  cases table <;> first | rfl | cases h

theorem isRequeue_append (detail : String) : isRequeue ("requeue" ++ detail) = true := by
  simp [isRequeue, startsWith]

end Keys

/-! ## The source -/

section Source

variable [LinearOrder κ] {table : ReplicatedTable} {rank : CursorParams → κ}
  {source : List (SourceRow δ)}

variable {key : RowKey} {r : SourceRow δ}

theorem current_some (h : current source key = some r) : r ∈ source ∧ r.key = key :=
  ⟨List.mem_of_find?_eq_some h, by simpa using List.find?_some h⟩

theorem current_of_mem (hkeys : source.Pairwise fun a b => a.key ≠ b.key) (hr : r ∈ source) :
    current source r.key = some r := by
  induction source with
  | nil => cases hr
  | cons a source ih =>
    obtain ⟨hhead, htail⟩ := List.pairwise_cons.mp hkeys
    obtain rfl | hr := List.mem_cons.mp hr
    · simp [current]
    · simpa [current, hhead r hr] using ih htail hr

theorem current_orderedInsert {R : SourceRow δ → SourceRow δ → Prop} [DecidableRel R]
    (hne : r.key ≠ key) : current (source.orderedInsert R r) key = current source key := by
  induction source with
  | nil => simp [current, hne]
  | cons a source ih =>
    rw [List.orderedInsert]
    split_ifs
    · simp [current, hne]
    · simp only [current, List.find?_cons] at ih ⊢
      rw [ih]

theorem current_commitChange (table : ReplicatedTable) (rank : CursorParams → κ)
    (source : List (SourceRow δ)) {key other : RowKey} (hne : other ≠ key)
    (change : Option (SortVal × δ)) :
    current (commitChange table rank source key change) other = current source other := by
  have hrest : current (source.filter fun r => r.key != key) other = current source other := by
    rw [current, current, List.find?_filter]
    congr 1
    funext r
    by_cases hr : r.key = other <;> simp [hr, hne]
  cases change with
  | none => exact hrest
  | some version => exact (current_orderedInsert (Ne.symm hne)).trans hrest

theorem keys_commitChange (hkeys : source.Pairwise fun a b => a.key ≠ b.key) (key : RowKey)
    (change : Option (SortVal × δ)) :
    (commitChange table rank source key change).Pairwise fun a b => a.key ≠ b.key := by
  cases change with
  | none => exact hkeys.filter _
  | some version =>
    refine (List.Perm.pairwise_iff (fun h => h.symm) (List.perm_orderedInsert _ _ _)).mpr ?_
    refine List.pairwise_cons.mpr ⟨fun r hr => ?_, hkeys.filter _⟩
    have hother := (List.mem_filter.mp hr).2
    exact fun heq => by simp [← heq] at hother

end Source

/-! ## What serves a change -/

section Served

variable {table : ReplicatedTable} {outcome : SourceRow δ → Outcome α} {row : Option (SourceRow δ)}
  {t t' : Target α} {key : RowKey}

variable {failed : Bool} {marker : RowKey} {r : SourceRow δ} {fetched : Option (SourceRow δ)}

theorem copied_of_terminal {reason : String} (h : (outcome r).terminal? = some reason) :
    Copied table outcome (some r) t key ↔ t.rows key = none ∧
      t.pending (table.markerOf key) = some reason := by
  cases hout : outcome r <;> simp [Copied, Holds, hout, Outcome.terminal?] at h ⊢ <;> simp [h]

theorem copied_of_write {args : α} (h : outcome r = .write args) :
    Copied table outcome (some r) t key ↔ t.rows key = some args := by
  simp only [Copied, Holds, Option.map_some, h]

theorem Served.congr (h : Served table outcome row t key) (hrows : t'.rows key = t.rows key)
    (hpending : t'.pending (table.markerOf key) = t.pending (table.markerOf key)) :
    Served table outcome row t' key := by
  simp only [Served, Copied, Holds, isRequeued, hrows, hpending] at h ⊢
  exact h

/-- The transaction for a marker: nothing, or a copy of the row that was fetched. -/
theorem consumed_cases (table : ReplicatedTable) (outcome : SourceRow δ → Outcome α)
    (hfetch : table.config.requeueFetch = true) (failed : Bool) (marker : RowKey)
    (fetched : Option (SourceRow δ)) :
    consumed table outcome failed marker fetched = [] ∨
    fetched = none ∧ consumed table outcome failed marker fetched =
      [.deleteRow (table.config.requeueKey marker.1 marker.2), .unmark marker] ∨
    (∃ r args, fetched = some r ∧ outcome r = .write args ∧
      consumed table outcome failed marker fetched = [.upsert r.key args, .unmark marker]) ∨
    ∃ r reason, fetched = some r ∧ (outcome r).terminal? = some reason ∧
      consumed table outcome failed marker fetched =
      [.deleteRow (table.config.requeueKey marker.1 marker.2), .rewrite marker reason] := by
  have hdelete := requeueDelete_of_requeueFetch hfetch
  cases fetched with
  | none => exact .inr (.inl ⟨rfl, rfl⟩)
  | some r =>
    cases failed with
    | true => exact .inl rfl
    | false =>
      cases hout : outcome r with
      | error => exact .inl (by simp [consumed, produce, consumeStmts, hout, Outcome.terminal?])
      | write args =>
        exact .inr (.inr (.inl ⟨r, args, rfl, hout,
            by simp [consumed, produce, consumeStmts, hout]⟩))
      | pendingDeviceMigration detail =>
        exact .inr (.inr (.inr ⟨r, pdmReason detail, rfl, by rw [hout]; rfl,
          by simp [consumed, produce, consumeStmts, hout, Outcome.terminal?, hdelete]⟩))
      | permanentDecryptFailure detail =>
        exact .inr (.inr (.inr ⟨r, decryptFailedReason detail, rfl, by rw [hout]; rfl,
          by simp [consumed, produce, consumeStmts, hout, Outcome.terminal?, hdelete]⟩))

section

variable (hfetch : table.config.requeueFetch = true)
include hfetch

theorem served_consumed (hmarker : t.pending marker ≠ none)
    (hkey : table.config.requeueKey marker.1 marker.2 = key)
    (hrow : ∀ r, row = some r → r.key = key) (h : Served table outcome row t key) :
    Served table outcome row (t.execAll (consumed table outcome failed marker row)) key := by
  subst hkey
  obtain hnone | ⟨rfl, hstmts⟩ | ⟨r, args, rfl, hwrite, hstmts⟩ |
      ⟨r, reason, rfl, hreason, hstmts⟩ :=
    consumed_cases table outcome hfetch failed marker row
  · rw [hnone]
    exact h
  · rw [hstmts]
    exact .inr (by simp [Copied, Holds, Target.exec])
  · rw [hstmts]
    exact .inr ((copied_of_write hwrite).mpr (by simp [Target.exec, hrow r rfl]))
  · rw [hstmts]
    by_cases hself : table.markerOf (table.config.requeueKey marker.1 marker.2) = marker
    · obtain ⟨old, hold⟩ := Option.ne_none_iff_exists'.mp hmarker
      exact .inr ((copied_of_terminal hreason).mpr
          ⟨by simp [Target.exec], by simp [Target.exec, hself, hold]⟩)
    · -- the marker is not the one of the writers, which stays
      obtain hrequeued | hcopied := h
      · exact .inl (by simpa [isRequeued, Target.exec, hself] using hrequeued)
      · have hpending := ((copied_of_terminal hreason).mp hcopied).2
        exact .inr ((copied_of_terminal hreason).mpr
          ⟨by simp [Target.exec], by simpa [Target.exec, hself] using hpending⟩)

theorem served_consumed_of_ne
    (hfetched : ∀ r, fetched = some r → r.key = table.config.requeueKey marker.1 marker.2)
    (hne : key ≠ table.config.requeueKey marker.1 marker.2) (hmarker : table.markerOf key ≠ marker)
    (h : Served table outcome row t key) :
    Served table outcome row (t.execAll (consumed table outcome failed marker fetched)) key := by
  obtain hnone | ⟨rfl, hstmts⟩ | ⟨r, args, rfl, hwrite, hstmts⟩ |
      ⟨r, reason, rfl, hreason, hstmts⟩ :=
    consumed_cases table outcome hfetch failed marker fetched
  · rw [hnone]
    exact h
  · rw [hstmts]
    exact h.congr (by simp [Target.exec, hne]) (by simp [Target.exec, hmarker])
  · rw [hstmts]
    exact h.congr (by simp [Target.exec, hfetched r rfl, hne]) (by simp [Target.exec, hmarker])
  · rw [hstmts]
    exact h.congr (by simp [Target.exec, hne]) (by simp [Target.exec, hmarker])

theorem pending_consumed {marker other : RowKey} (hne : other ≠ marker) :
    (t.execAll (consumed table outcome failed marker fetched)).pending other = t.pending other := by
  obtain hnone | ⟨rfl, hstmts⟩ | ⟨r, args, rfl, hwrite, hstmts⟩ |
      ⟨r, reason, rfl, hreason, hstmts⟩ :=
    consumed_cases table outcome hfetch failed marker fetched
  · rw [hnone]
    rfl
  all_goals
    rw [hstmts]
    simp [Target.exec, hne]

end

end Served

end Replication

end Feedling
