import Feedling.Replication
import Mathlib.Data.List.TakeWhile
import Mathlib.Logic.Function.Iterate

/-!
# The effect of a page

Which attempts of `_flush_batch` take effect, and which rows each of them stores, depends only on
the errors that strike its statements. A page is the effect of these attempts, one after another.
-/

namespace Feedling

namespace Replication

variable {α δ κ : Type}

/-! ## The cursor -/

/-- The cursor of a row is read back as its columns, since the separator is not in the sort
column. -/
structure RowOk (cfg : TableConfig) (r : SourceRow δ) : Prop where
  numeric : cfg.cursorKind = .numeric → r.sort = .num r.sort.toNum
  text : cfg.cursorKind = .text → r.sort = .text r.sort.toText ∧ sep ∉ r.sort.toText.toList

theorem partition_encode {sort : String} (h : sep ∉ sort.toList) (item : String) :
    TableConfig.partition (sort ++ String.singleton sep ++ item) = (sort, item) := by
  have hne : ∀ c ∈ sort.toList, decide (c ≠ sep) = true := by
    intro c hc
    exact decide_eq_true fun heq => h (heq ▸ hc)
  have htext : (sort ++ String.singleton sep ++ item).toList = sort.toList ++
    sep :: item.toList := by simp
  rw [TableConfig.partition, htext, List.takeWhile_append_of_pos hne,
    List.dropWhile_append_of_pos hne]
  simp

theorem config_zero (table : ReplicatedTable) (h : table.config.cursorKind ≠ .text) :
    table.config.cursorZero = none := by
  cases table <;> first | rfl | exact absurd rfl h

theorem decode_encode {table : ReplicatedTable} {r : SourceRow δ} (h : RowOk table.config r) :
    table.config.decodeCursor (table.config.encodeCursor (table.config.sortVal r)
      (table.config.itemId r.key)) = table.config.params r := by
  have hzero := config_zero table
  generalize table.config = cfg at h hzero ⊢
  cases hkind : cfg.cursorKind with
  | numeric =>
    have hnone := hzero (by simp [hkind])
    simp only [TableConfig.decodeCursor, TableConfig.encodeCursor, TableConfig.sortVal,
      TableConfig.params, hkind, hnone, ite_self]
    rw [← h.numeric hkind]
  | single =>
    have hnone := hzero (by simp [hkind])
    simp only [TableConfig.decodeCursor, TableConfig.encodeCursor, TableConfig.sortVal,
      TableConfig.params, hkind, hnone, ite_self]
    rfl
  | text =>
    obtain ⟨hsort, hsep⟩ := h.text hkind
    have hne : r.sort.toText ++ String.singleton sep ++ cfg.itemId r.key ≠ "" := by
      intro hempty
      have hlist := congrArg String.toList hempty
      simp at hlist
    simp only [TableConfig.decodeCursor, TableConfig.encodeCursor, TableConfig.sortVal,
      TableConfig.params, hkind, hne, if_false, partition_encode hsep]
    rw [← hsort]

/-! ## Statements -/

/-- The statement leaves every marker that is not for another look as it is, or rewrites it to
another such marker. -/
def Stmt.Settles : Stmt α → Prop
  | .mark _ reason => isRequeue reason = false
  | .unmark _ | .rewrite .. => False
  | _ => True

/-- The marker says that the row has no copy. -/
def Target.Terminal (t : Target α) (marker : RowKey) : Prop :=
  ∃ reason, t.pending marker = some reason ∧ isRequeue reason = false

theorem Target.Terminal.exec {t : Target α} {marker : RowKey} (h : t.Terminal marker) {s : Stmt α}
    (hs : s.Settles) : (t.exec s).Terminal marker := by
  cases s with
  | mark key reason =>
    by_cases hk : marker = key
    · exact ⟨reason, by simp [Target.exec, hk], hs⟩
    · obtain ⟨old, hold, hterminal⟩ := h
      exact ⟨old, by simpa [Target.exec, hk] using hold, hterminal⟩
  | upsert key args => exact h
  | deleteRow key => exact h
  | setCursor watermark => exact h
  | unmark key => exact hs.elim
  | rewrite key reason => exact hs.elim

theorem isRequeue_terminal {o : Outcome α} {reason : String} (h : o.terminal? = some reason) :
    isRequeue reason = false := by
  cases o with
  | write args => cases h
  | error => cases h
  | pendingDeviceMigration detail =>
    cases h
    simp [isRequeue, startsWith, pdmReason, List.isPrefixOf]
  | permanentDecryptFailure detail =>
    cases h
    simp [isRequeue, startsWith, decryptFailedReason, List.isPrefixOf]

namespace Target

@[simp] theorem execAll_nil (t : Target α) : t.execAll [] = t := rfl
@[simp] theorem execAll_cons (t : Target α) (s : Stmt α) (stmts : List (Stmt α)) :
    t.execAll (s :: stmts) = (t.exec s).execAll stmts := rfl

theorem execAll_append (t : Target α) (l l' : List (Stmt α)) :
    t.execAll (l ++ l') = (t.execAll l).execAll l' :=
  List.foldl_append

variable {t : Target α} {k : RowKey} {stmts : List (Stmt α)}

theorem execAll_rule (Q : Target α → Prop) (h : ∀ s ∈ stmts, ∀ t : Target α, Q t → Q (t.exec s))
    (ht : Q t) : Q (t.execAll stmts) := by
  induction stmts generalizing t with
  | nil => exact ht
  | cons s stmts ih => exact ih (fun s' hs' => h s' (by simp [hs'])) (h s (by simp) t ht)

theorem mem_written_execAll :
    k ∈ (t.execAll stmts).written ↔ k ∈ t.written ∨ ∃ args, .upsert k args ∈ stmts := by
  induction stmts generalizing t with
  | nil => simp
  | cons s stmts ih =>
    rw [execAll_cons, ih]
    cases s with
    | upsert key args => by_cases hk : k = key <;> simp [exec, hk]
    | deleteRow | mark | unmark | rewrite | setCursor => simp [exec]

theorem rows_execAll_eq_none (h : ∀ args, .upsert k args ∉ stmts) :
    (t.execAll stmts).rows k = none ↔ t.rows k = none ∨ .deleteRow k ∈ stmts := by
  induction stmts generalizing t with
  | nil => simp
  | cons s stmts ih =>
    rw [execAll_cons, ih fun args hs => h args (List.mem_cons_of_mem s hs)]
    cases s with
    | upsert key args =>
      have hne : k ≠ key := fun heq => h args (by simp [heq])
      simp [exec, hne]
    | deleteRow key => by_cases hk : k = key <;> simp [exec, hk]
    | mark | unmark | rewrite | setCursor => simp [exec]

theorem terminal_execAll (hstmts : ∀ s ∈ stmts, s.Settles)
    (h : t.Terminal k ∨ ∃ reason, .mark k reason ∈ stmts) : (t.execAll stmts).Terminal k := by
  induction stmts generalizing t with
  | nil => simpa using h
  | cons s stmts ih =>
    have hs := hstmts s List.mem_cons_self
    refine ih (fun s' hs' => hstmts s' (List.mem_cons_of_mem s hs')) ?_
    obtain h | ⟨reason, hmark⟩ := h
    · exact .inl (h.exec hs)
    · obtain rfl | hmark := List.mem_cons.mp hmark
      · exact .inl ⟨reason, by simp [exec], hs⟩
      · exact .inr ⟨reason, hmark⟩

end Target

/-! ## What an attempt stores -/

section Landing

variable (poison : Stmt α → Bool) (cfg : TableConfig)

/-- The error that ends a transaction, if one does; statements are counted from `i`. -/
def firstError (faults : Nat → Fault) (i : Nat) (stmts : List (Stmt α)) : Option StmtError :=
  (stmts.zipIdx i).findSome? fun s =>
    if faults s.2 ≠ .none then some .operational else if poison s.1 then some .data else none

/-- The rows that the fallback stores; the others meet an error of their own. -/
def storedRows (faults : Nat → Fault) (i : Nat) (writes : List (RowKey × α)) : List (RowKey × α) :=
  ((writes.zipIdx i).filter fun w => decide (faults w.2 = .none) &&
      !poison (.upsert w.1.1 w.1.2)).map (·.1)

/-- What a commit comes to: the rows, and whether it is known to have succeeded. -/
def CommitFault.landing (rows : List (RowKey × α)) : CommitFault → Option (List (RowKey × α) × Bool)
  | .none => some (rows, true)
  | .failed => Option.none
  | .unknown => some (rows, false)

/-- The rows that an attempt stores, if it takes effect. -/
def Attempt.landing (a : Attempt) (p : Page α) : Option (List (RowKey × α) × Bool) :=
  if !a.connects then none
  else
    match firstError poison a.batch 0 (upsertStmts p.writes ++ writePendingAndCursor cfg p) with
    | none => a.batchCommit.landing p.writes
    | some .operational => none
    | some .data =>
      if (∃ k < p.writes.length, a.rows k = .lost) ∨
        firstError poison a.rest 0 (writePendingAndCursor cfg p) ≠ none then
        none
      else a.fallbackCommit.landing (storedRows poison a.rows 0 p.writes)

/-- The rows that each of the attempts stores that are made and take effect. -/
def landings (p : Page α) : Nat → (Nat → Attempt) → List (List (RowKey × α))
  | 0, _ => []
  | n + 1, attempts =>
    match (attempts 0).landing poison cfg p with
    | none => landings p n fun i => attempts (i + 1)
    | some (rows, true) => [rows]
    | some (rows, false) => rows :: landings p n fun i => attempts (i + 1)

/-- The transaction of an attempt that takes effect. -/
def land (p : Page α) (t : Target α) (stored : List (RowKey × α)) : Target α :=
  t.execAll (upsertStmts stored ++ writePendingAndCursor cfg p)

variable {poison cfg}

theorem runStmts_eq (faults : Nat → Fault) (i : Nat) (stmts : List (Stmt α)) (t : Target α) :
    runStmts poison faults i stmts t =
      match firstError poison faults i stmts with
      | none => .ok (t.execAll stmts)
      | some e => .error e := by
  induction stmts generalizing i t with
  | nil => rfl
  | cons s stmts ih =>
    rw [runStmts, firstError, List.zipIdx_cons, List.findSome?_cons, ih]
    by_cases hfault : faults i ≠ .none
    · simp [hfault]
    · cases hs : poison s <;> simp [hfault, firstError]

theorem fallbackRows_cases (poison : Stmt α → Bool) (faults : Nat → Fault) (i : Nat)
    (writes : List (RowKey × α)) (t : Target α) (skipped : Nat) :
    ((∃ k < writes.length, faults (i + k) = .lost) ∧
      fallbackRows poison faults i writes t skipped = none) ∨
    ((¬ ∃ k < writes.length, faults (i + k) = .lost) ∧
      ∃ n, fallbackRows poison faults i writes t skipped =
      some (t.execAll (upsertStmts (storedRows poison faults i writes)), n)) := by
  induction writes generalizing i t skipped with
  | nil => exact .inr ⟨by simp, skipped, rfl⟩
  | cons w writes ih =>
    have hlost : (∃ k < (w :: writes).length, faults (i + k) = .lost) ↔
        faults i = .lost ∨ ∃ k < writes.length, faults (i + 1 + k) = .lost := by
      rw [List.length_cons, Nat.exists_lt_succ_left]
      simp only [Nat.add_zero, Nat.add_assoc, Nat.add_comm 1]
    have hstored : storedRows poison faults i (w :: writes) =
        if faults i = .none ∧ poison (.upsert w.1 w.2) = false then w :: storedRows poison faults
          (i + 1) writes
        else storedRows poison faults (i + 1) writes := by
      rw [storedRows, List.zipIdx_cons, List.filter_cons]
      by_cases hfault : faults i = .none <;> cases hs : poison (.upsert w.1 w.2) <;>
        simp [storedRows, hfault]
    rw [hlost, hstored, fallbackRows]
    cases hfault : faults i with
    | lost => simp
    | live => simpa using ih (i + 1) t (skipped + 1)
    | none =>
      cases hs : poison (.upsert w.1 w.2) with
      | true => simpa using ih (i + 1) t (skipped + 1)
      | false => simpa [upsertStmts] using ih (i + 1) (t.exec (.upsert w.1 w.2)) skipped

theorem commit_landing (fault : CommitFault) (p : Page α) (t : Target α) (rows : List (RowKey × α))
    (n : Nat) : (match Replication.commit fault t (land cfg p t rows) with
      | (t, true) => (t, some n)
      | (t, false) => (t, none)) =
      match fault.landing rows with
      | none => (t, none)
      | some (rows, true) => (land cfg p t rows, some n)
      | some (rows, false) => (land cfg p t rows, none) := by
  cases fault <;> rfl

theorem flushAttempt_landing (poison : Stmt α → Bool) (cfg : TableConfig) (a : Attempt) (p : Page α)
    (t : Target α) : ∃ n, flushAttempt poison cfg a p t =
      match a.landing poison cfg p with
      | none => (t, none)
      | some (rows, true) => (land cfg p t rows, some n)
      | some (rows, false) => (land cfg p t rows, none) := by
  rw [flushAttempt, Attempt.landing]
  cases a.connects with
  | false => exact ⟨0, rfl⟩
  | true =>
    rw [if_neg (by simp), if_neg (by simp), runStmts_eq]
    cases firstError poison a.batch 0 (upsertStmts p.writes ++ writePendingAndCursor cfg p) with
    | none => exact ⟨0, commit_landing a.batchCommit p t p.writes 0⟩
    | some e =>
      cases e with
      | operational => exact ⟨0, rfl⟩
      | data =>
        dsimp only
        rw [flushRows]
        obtain ⟨hlost, hnone⟩ | ⟨hlost, n, hsome⟩ := fallbackRows_cases poison a.rows 0 p.writes t 0
        · simp only [Nat.zero_add] at hlost
          rw [hnone, if_pos (.inl hlost)]
          exact ⟨0, rfl⟩
        · simp only [Nat.zero_add] at hlost
          rw [hsome]
          dsimp only
          rw [runStmts_eq]
          cases hrest : firstError poison a.rest 0 (writePendingAndCursor cfg p) with
          | some e =>
            rw [if_pos (.inr (by simp))]
            exact ⟨0, rfl⟩
          | none =>
            rw [if_neg (by simp [hlost]), ← Target.execAll_append]
            exact ⟨n, commit_landing a.fallbackCommit p t _ n⟩

/-- `_flush_batch` is the attempts that take effect, one after another; if it returns there is
one. -/
theorem flushBatch_landings (poison : Stmt α → Bool) (cfg : TableConfig) (retries : Nat)
    (attempts : Nat → Attempt) (p : Page α) (t : Target α) :
    (flushBatch poison cfg retries attempts p t).1 = (landings poison cfg p retries attempts).foldl
      (land cfg p) t ∧ (0 < retries → (flushBatch poison cfg retries attempts p t).2 ≠ none →
        landings poison cfg p retries attempts ≠ []) := by
  induction retries generalizing attempts t with
  | zero => exact ⟨rfl, fun h => absurd h (Nat.lt_irrefl 0)⟩
  | succ retries ih =>
    obtain ⟨n, hattempt⟩ := flushAttempt_landing poison cfg (attempts 0) p t
    have hretry : ∀ t : Target α, (if retries = 0 then (t, none)
        else flushBatch poison cfg retries (fun i => attempts (i + 1)) p t).1 =
          (landings poison cfg p retries fun i => attempts (i + 1)).foldl (land cfg p) t := by
      intro t
      by_cases hlast : retries = 0
      · subst hlast
        rfl
      · rw [if_neg hlast]
        exact (ih (fun i => attempts (i + 1)) t).1
    rw [flushBatch, landings, hattempt]
    cases (attempts 0).landing poison cfg p with
    | none =>
      refine ⟨hretry t, fun _ hreturns => ?_⟩
      by_cases hlast : retries = 0
      · simp [hlast] at hreturns
      · dsimp only at hreturns
        rw [if_neg hlast] at hreturns
        exact (ih _ t).2 (Nat.pos_of_ne_zero hlast) hreturns
    | some landing =>
      obtain ⟨rows, confirmed⟩ := landing
      cases confirmed with
      | true => exact ⟨rfl, fun _ _ => List.cons_ne_nil _ _⟩
      | false => exact ⟨hretry _, fun _ _ => List.cons_ne_nil _ _⟩

theorem landing_subset {a : Attempt} {p : Page α} {landed : List (RowKey × α) × Bool}
    (h : a.landing poison cfg p = some landed) : ∀ w ∈ landed.1, w ∈ p.writes := by
  have hcommit : ∀ (fault : CommitFault) (rows : List (RowKey × α)),
      fault.landing rows = some landed → landed.1 = rows := by
    intro fault rows h
    cases fault <;> cases h <;> rfl
  intro w hw
  unfold Attempt.landing at h
  split at h
  · cases h
  · split at h
    · rwa [hcommit _ _ h] at hw
    · cases h
    · split at h
      · cases h
      · rw [hcommit _ _ h] at hw
        obtain ⟨x, hx, rfl⟩ := List.mem_map.mp hw
        exact List.fst_mem_of_mem_zipIdx (List.mem_of_mem_filter hx)

theorem mem_landings {p : Page α} {n : Nat} {attempts : Nat → Attempt} {stored : List (RowKey × α)}
    (h : stored ∈ landings poison cfg p n attempts) : ∀ w ∈ stored, w ∈ p.writes := by
  induction n generalizing attempts with
  | zero => cases h
  | succ n ih =>
    rw [landings] at h
    split at h
    · exact ih h
    · next rows hrows =>
      obtain rfl := List.mem_singleton.mp h
      exact landing_subset hrows
    · next rows hrows =>
      obtain rfl | h := List.mem_cons.mp h
      · exact landing_subset hrows
      · exact ih h

/-- What a committed page keeps, with any of its rows skipped, `_flush_batch` keeps. -/
theorem flushBatch_rule {Q : Target α → Prop} {p : Page α}
    (hQ : ∀ rows t, (∀ w ∈ rows, w ∈ p.writes) → Q t →
      Q (t.execAll (upsertStmts rows ++ writePendingAndCursor cfg p)))
    {retries : Nat} {attempts : Nat → Attempt} {t : Target α} (ht : Q t) :
    Q (flushBatch poison cfg retries attempts p t).1 := by
  rw [(flushBatch_landings poison cfg retries attempts p t).1]
  exact List.foldlRecOn _ _ ht fun t ht rows hrows => hQ rows t (mem_landings hrows) ht

end Landing

/-! ## The rows of a page -/

section Rows

variable {cfg : TableConfig} {outcome : SourceRow δ → Outcome α}

/-- The row may be passed by the cursor. -/
def passes (outcome : SourceRow δ → Outcome α) (r : SourceRow δ) : Bool :=
  match outcome r with
  | .error => false
  | _ => true

def writeOf (outcome : SourceRow δ → Outcome α) (r : SourceRow δ) : Option (RowKey × α) :=
  match outcome r with
  | .write args => some (r.key, args)
  | _ => none

def pendOf (cfg : TableConfig) (outcome : SourceRow δ → Outcome α) (r : SourceRow δ) :
    Option (RowKey × String) :=
  (outcome r).terminal?.map fun reason => ((r.key.1, cfg.itemId r.key), reason)

/-- The watermark behind the rows in front of the first failure. -/
def advanceOver (cfg : TableConfig) (outcome : SourceRow δ → Outcome α) (watermark : ℚ × String)
    (rows : List (SourceRow δ)) : ℚ × String :=
  ((rows.takeWhile (passes outcome)).getLast?.map fun r => cfg.encodeCursor (cfg.sortVal r)
      (cfg.itemId r.key)).getD
    watermark

theorem advanceOver_cons (watermark : ℚ × String) (r : SourceRow δ) (rows : List (SourceRow δ)) :
    advanceOver cfg outcome watermark (r :: rows) =
      if passes outcome r then
      advanceOver cfg outcome (cfg.encodeCursor (cfg.sortVal r) (cfg.itemId r.key)) rows
      else watermark := by
  by_cases hr : passes outcome r = true
  · rw [if_pos hr, advanceOver, List.takeWhile_cons_of_pos hr, List.getLast?_cons, Option.map_some,
      Option.getD_some, advanceOver]
    cases (rows.takeWhile (passes outcome)).getLast? <;> rfl
  · rw [if_neg hr, advanceOver, List.takeWhile_cons_of_neg hr]
    rfl

theorem Page.add_eq (p : Page α) (r : SourceRow δ) :
    p.add cfg outcome r =
      { writes := p.writes ++ (writeOf outcome r).toList
        pendRows := p.pendRows ++ (pendOf cfg outcome r).toList
        adv := if passes outcome r then p.advance cfg r else p.adv
        frozen := p.frozen || !passes outcome r } := by
  cases hr : outcome r <;> simp [Page.add, writeOf, pendOf, passes, hr, Outcome.terminal?]

theorem foldl_add (rows : List (SourceRow δ)) (p : Page α) :
    rows.foldl (Page.add cfg outcome) p =
      { writes := p.writes ++ rows.filterMap (writeOf outcome)
        pendRows := p.pendRows ++ rows.filterMap (pendOf cfg outcome)
        adv := if p.frozen then p.adv else advanceOver cfg outcome p.adv rows
        frozen := p.frozen || rows.any fun r => !passes outcome r } := by
  induction rows generalizing p with
  | nil => cases p with | mk writes pendRows adv frozen => cases frozen <;> simp [advanceOver]
  | cons r rows ih =>
    rw [List.foldl_cons, ih, Page.add_eq, advanceOver_cons]
    have hwrites : (writeOf outcome r).toList ++ rows.filterMap (writeOf outcome) =
        (r :: rows).filterMap (writeOf outcome) := by
      cases h : writeOf outcome r <;> simp [h]
    have hpends : (pendOf cfg outcome r).toList ++ rows.filterMap (pendOf cfg outcome) =
        (r :: rows).filterMap (pendOf cfg outcome) := by
      cases h : pendOf cfg outcome r <;> simp [h]
    rw [List.append_assoc, List.append_assoc, hwrites, hpends]
    cases hfrozen : p.frozen <;> cases hr : passes outcome r <;> simp [Page.advance, hfrozen, hr]

theorem readPage_eq (watermark : ℚ × String) (rows : List (SourceRow δ)) :
    readPage cfg outcome watermark rows =
      { writes := rows.filterMap (writeOf outcome)
        pendRows := rows.filterMap (pendOf cfg outcome)
        adv := advanceOver cfg outcome watermark rows
        frozen := rows.any fun r => !passes outcome r } := by
  rw [readPage, foldl_add]
  simp

end Rows

/-! ## Settled rows -/

section Settled

variable [LinearOrder κ] (table : ReplicatedTable) (rank : CursorParams → κ)
  (outcome : SourceRow δ → Outcome α) (poison : Stmt α → Bool)

/-- A source table, listed in the order of the cursor: no two rows have one key or one place. -/
structure SourceOk (source : List (SourceRow δ)) : Prop where
  ordered : source.Pairwise fun a b => rank (table.config.params a) < rank (table.config.params b)
  keys : source.Pairwise fun a b => a.key ≠ b.key
  rows : ∀ r ∈ source, RowOk table.config r

def place (r : SourceRow δ) : κ := rank (table.config.params r)

def placeOf (watermark : ℚ × String) : κ := rank (table.config.decodeCursor watermark)

/-- The row was written, always causes a data error, or has a terminal marker and no copy. -/
def Settled (t : Target α) (r : SourceRow δ) : Prop :=
  match outcome r with
  | .write args => r.key ∈ t.written ∨ poison (.upsert r.key args) = true
  | .error => False
  | _ => t.Terminal (r.key.1, table.config.itemId r.key) ∧ t.rows r.key = none

/-- The row has a reason instead of a copy. -/
def IsTerminal (r : SourceRow δ) : Prop := (outcome r).terminal?.isSome = true

/-- The statement that deletes the copy of a row without one names this key. -/
def Deletes (r : SourceRow δ) (k : RowKey) : Prop :=
  table.config.requeueDelete = true ∧
    table.config.requeueKey r.key.1 (table.config.itemId r.key) = k

variable {table rank outcome poison} {source rows : List (SourceRow δ)}

theorem SourceOk.eq_of_key (h : SourceOk table rank source) {a b : SourceRow δ} (ha : a ∈ source)
    (hb : b ∈ source) (hkey : a.key = b.key) : a = b := by
  by_contra hne
  have hsymm : Std.Symm fun a b : SourceRow δ => a.key ≠ b.key := ⟨fun _ _ h => h.symm⟩
  exact h.keys.forall ha hb hne hkey

/-- A row that passes has a copy or a reason. -/
theorem passes_cases {r : SourceRow δ} (h : passes outcome r = true) :
    (∃ args, outcome r = .write args) ∨ IsTerminal outcome r := by
  cases hout : outcome r with
  | write args => exact .inl ⟨args, rfl⟩
  | pendingDeviceMigration detail => exact .inr (by rw [IsTerminal, hout]; rfl)
  | permanentDecryptFailure detail => exact .inr (by rw [IsTerminal, hout]; rfl)
  | error => simp [passes, hout] at h

variable {watermark : ℚ × String} {s : Stmt α} {k : RowKey} {t : Target α}
  {stored : List (RowKey × α)}

theorem mem_writes_readPage {w : RowKey × α} :
    w ∈ (readPage table.config outcome watermark rows).writes ↔ ∃ r ∈ rows, r.key = w.1 ∧
      outcome r = .write w.2 := by
  obtain ⟨k, args⟩ := w
  rw [readPage_eq]
  simp only [List.mem_filterMap]
  refine exists_congr fun r => and_congr_right fun _ => ?_
  cases hout : outcome r <;> simp [writeOf, hout]

/-- The statements of a page that takes effect: copies, deletions, terminal markers, and the
cursor. -/
theorem mem_landStmts :
    s ∈ upsertStmts stored ++
      writePendingAndCursor table.config (readPage table.config outcome watermark rows) ↔
      (∃ w ∈ stored, s = .upsert w.1 w.2) ∨
      (∃ r ∈ rows, ∃ reason, (outcome r).terminal? = some reason ∧
        ((table.config.requeueDelete = true ∧
            s = .deleteRow (table.config.requeueKey r.key.1 (table.config.itemId r.key))) ∨
          s = .mark (r.key.1, table.config.itemId r.key) reason)) ∨
      s = .setCursor (readPage table.config outcome watermark rows).adv := by
  have hpend : ∀ row : RowKey × String, s ∈ pendStmts table.config row ↔
      (table.config.requeueDelete = true ∧
        s = .deleteRow (table.config.requeueKey row.1.1 row.1.2)) ∨ s = .mark row.1 row.2 := by
    intro row
    by_cases hdelete : table.config.requeueDelete = true <;> simp [pendStmts, hdelete]
  rw [writePendingAndCursor, readPage_eq]
  simp only [List.mem_append, upsertStmts, List.mem_map, List.mem_flatMap, List.mem_filterMap,
    pendOf, Option.map_eq_some_iff, hpend, List.mem_singleton]
  constructor
  · rintro (⟨w, hw, rfl⟩ | ⟨-, ⟨r, hr, reason, hreason, rfl⟩, hs⟩ | hs)
    · exact .inl ⟨w, hw, rfl⟩
    · exact .inr (.inl ⟨r, hr, reason, hreason, hs⟩)
    · exact .inr (.inr hs)
  · rintro (⟨w, hw, rfl⟩ | ⟨r, hr, reason, hreason, hs⟩ | hs)
    · exact .inl ⟨w, hw, rfl⟩
    · exact .inr (.inl ⟨_, ⟨r, hr, reason, hreason, rfl⟩, hs⟩)
    · exact .inr (.inr hs)

theorem land_cursor (cfg : TableConfig) (p : Page α) (t : Target α) (stored : List (RowKey × α)) :
    (land cfg p t stored).cursor = some p.adv := by
  rw [land, writePendingAndCursor, ← List.append_assoc, Target.execAll_append]
  rfl

theorem land_written :
    k ∈ (land table.config (readPage table.config outcome watermark rows) t stored).written ↔
    k ∈ t.written ∨ ∃ args, (k, args) ∈ stored := by
  rw [land, Target.mem_written_execAll]
  refine or_congr_right (exists_congr fun args => ?_)
  rw [mem_landStmts]
  simp

theorem land_rows (h : ∀ args, (k, args) ∉ stored) :
    (land table.config (readPage table.config outcome watermark rows) t stored).rows k = none ↔
      t.rows k = none ∨ ∃ r ∈ rows, IsTerminal outcome r ∧ Deletes table r k := by
  have hupsert : ∀ args, Stmt.upsert k args ∉
      upsertStmts stored ++
        writePendingAndCursor table.config (readPage table.config outcome watermark rows) := by
    intro args hmem
    obtain ⟨w, hw, heq⟩ | ⟨r, -, reason, -, ⟨-, heq⟩ | heq⟩ | heq :=
      mem_landStmts.mp hmem <;> cases heq
    exact h w.2 hw
  rw [land, Target.rows_execAll_eq_none hupsert, mem_landStmts]
  refine or_congr_right ⟨?_, ?_⟩
  · rintro (⟨w, hw, heq⟩ | ⟨r, hr, reason, hreason, ⟨hdelete, heq⟩ | heq⟩ | heq) <;> cases heq
    exact ⟨r, hr, Option.isSome_iff_exists.mpr ⟨reason, hreason⟩, hdelete, rfl⟩
  · rintro ⟨r, hr, hterminal, hdelete, rfl⟩
    obtain ⟨reason, hreason⟩ := Option.isSome_iff_exists.mp hterminal
    exact .inr (.inl ⟨r, hr, reason, hreason, .inl ⟨hdelete, rfl⟩⟩)

theorem land_terminal (h : t.Terminal k ∨ ∃ r ∈ rows, IsTerminal outcome r ∧
      (r.key.1, table.config.itemId r.key) = k) :
    (land table.config (readPage table.config outcome watermark rows) t stored).Terminal k := by
  refine Target.terminal_execAll (fun s hs => ?_) (h.imp_right ?_)
  · obtain ⟨w, -, rfl⟩ | ⟨r, -, reason, hreason, ⟨-, rfl⟩ | rfl⟩ | rfl := mem_landStmts.mp hs
    · trivial
    · trivial
    · exact isRequeue_terminal hreason
    · trivial
  · rintro ⟨r, hr, hterminal, rfl⟩
    obtain ⟨reason, hreason⟩ := Option.isSome_iff_exists.mp hterminal
    exact ⟨reason, mem_landStmts.mpr (.inr (.inl ⟨r, hr, reason, hreason, .inr rfl⟩))⟩

end Settled

end Replication

end Feedling
