import Feedling.KeyedTable
import Feedling.SortedWindow

/-!
# Chat rows and their change events

The rows of one user and what the statement triggers record about them: each statement that changes
rows takes the next version and leaves an event with the ids, or a `reset` if there are too many.
Old events are removed after a while.
-/

namespace Feedling

namespace HotChat

open KeyedTable (Table)
open SortedWindow (sortBy newest)

variable {φ ν : Type}

/-! ## Rows and events -/

abbrev Doc (φ ν : Type) := φ → Option ν

/-- `existing | incoming`: the fields that come in win. -/
def Doc.merge (existing incoming : Doc φ ν) : Doc φ ν := fun k => (incoming k).or (existing k)

structure ChatRow (φ ν : Type) where
  id : String
  seq : Nat
  doc : Doc φ ν

inductive Operation where
  | upsert | delete | reset
  deriving DecidableEq, Repr

/-- An event, with the ids of all the rows that the statement changed. -/
structure ChangeEvent where
  version : Nat
  operation : Operation
  touched : List String
  deriving DecidableEq, Repr

/-- The ids that the event names: none for a `reset`. -/
def ChangeEvent.messageIds (e : ChangeEvent) : List String :=
  if e.operation = .reset then [] else e.touched

/-- The chat tables. `log` has every event that was recorded; the table has those after `pruned`.
`born` says which id each `seq` was given to. -/
structure ChatDb (φ ν : Type) where
  rows : Table (ChatRow.id : ChatRow φ ν → String)
  nextSeq : Nat
  version : Nat
  log : List ChangeEvent
  pruned : Nat
  born : Nat → Option String

/-- A row of an insert: its id, how many values of the sequence were skipped, and its fields. -/
structure NewRow (φ ν : Type) where
  id : String
  skip : Nat
  doc : Doc φ ν

inductive Statement (φ ν : Type) where
  | insert (rows : List (NewRow φ ν))
  | update (docs : List (String × Doc φ ν))
  | delete (ids : List String)

/-- What the triggers call the statement. -/
def Statement.operation : Statement φ ν → Operation
  | .insert _ => .upsert
  | .update _ => .upsert
  | .delete _ => .delete

def changeEventIdsMax : Nat := 64

namespace ChatDb

variable (db : ChatDb φ ν)

/-! ## Statements -/

def insertRow (row : NewRow φ ν) : ChatDb φ ν :=
  { db with
    rows := db.rows.insert ⟨row.id, db.nextSeq + row.skip, row.doc⟩
    nextSeq := db.nextSeq + row.skip + 1
    born := fun n => if n = db.nextSeq + row.skip then some row.id else db.born n }

/-- An insert fails if one of its ids is taken. -/
def Insertable (rows : List (NewRow φ ν)) : Prop :=
  (rows.map NewRow.id).Nodup ∧ ∀ row ∈ rows, (db.rows.get? row.id).isNone = true

instance (rows : List (NewRow φ ν)) : Decidable (db.Insertable rows) :=
  inferInstanceAs (Decidable (_ ∧ _))

/-- The ids of the rows that a statement changes. -/
def touched : Statement φ ν → List String
  | .insert rows => if db.Insertable rows then rows.map NewRow.id else []
  | .update docs => (db.rows.rows.filter fun r => (docs.lookup r.id).isSome).map ChatRow.id
  | .delete ids => (db.rows.rows.filter fun r => r.id ∈ ids).map ChatRow.id

/-- The rows after a statement. -/
def change : Statement φ ν → ChatDb φ ν
  | .insert rows => if db.Insertable rows then rows.foldl insertRow db else db
  | .update docs =>
    { db with rows := db.rows.modify (fun _ => true)
                (fun r => { r with doc := (docs.lookup r.id).getD r.doc }) fun _ => rfl }
  | .delete ids => { db with rows := db.rows.erase fun r => r.id ∈ ids }

/-- `feedling_record_chat_change`, called by a trigger for the rows of its statement. -/
def recordChange (operation : Operation) (ids : List String) : ChatDb φ ν :=
  if ids = [] then db
  else
    { db with
      version := db.version + 1
      log := db.log ++
        [⟨db.version + 1, if changeEventIdsMax < ids.length then .reset else operation, ids⟩] }

/-- A statement with its triggers. -/
def exec (s : Statement φ ν) : ChatDb φ ν := (db.change s).recordChange s.operation (db.touched s)

def prune (version : Nat) : ChatDb φ ν := { db with pruned := max db.pruned version }

/-! ## Reads -/

def transcript : List (ChatRow φ ν) := sortBy ChatRow.seq db.rows.rows

def chatHotSnapshotMax : Nat := 5000

/-- `_chat_hot_snapshot_limit`. -/
def chatHotSnapshotLimit (limit : Nat) : Nat := min chatHotSnapshotMax (max 1 limit)

/-- `chat_load_hot_snapshot_strict`. -/
def chatLoadHotSnapshot (limit : Nat) : Nat × List (ChatRow φ ν) :=
  (db.version, newest (chatHotSnapshotLimit limit) db.transcript)

def chatBoundedReadMax : Nat := 256

/-- `chat_change_events_after`. -/
def chatChangeEventsAfter (after limit : Nat) : List ChangeEvent :=
  (db.log.filter fun e => decide (db.pruned < e.version) && decide (after < e.version)).take
    (min chatBoundedReadMax (max 1 limit))

/-- `chat_get_many_strict`, for distinct ids. -/
def chatGetMany (ids : List String) : List (ChatRow φ ν) :=
  db.transcript.filter fun r => r.id ∈ ids.take chatBoundedReadMax

/-! ## What the log says about a row -/

/-- The row was changed after the version. -/
def Dirty (version : Nat) (id : String) : Prop := ∃ e ∈ db.log, version < e.version ∧ id ∈ e.touched

/-- Every row has the `seq` that its id was given. -/
structure Numbered : Prop where
  known : ∀ r ∈ db.rows.rows, db.born r.seq = some r.id
  fresh : ∀ n, db.nextSeq ≤ n → db.born n = none

structure Ok : Prop where
  numbered : db.Numbered
  versions : db.log.map ChangeEvent.version = List.range' 1 db.version
  /-- A row that was deleted and not changed since is not stored. -/
  deleted : ∀ e ∈ db.log, e.operation = .delete → ∀ id ∈ e.touched,
    (∀ e' ∈ db.log, e.version < e'.version → id ∉ e'.touched) → db.rows.get? id = none

end ChatDb

/-- What a later state of the tables keeps of an earlier one. -/
structure Evolves (db db' : ChatDb φ ν) : Prop where
  version : db.version ≤ db'.version
  log : ∀ e ∈ db.log, e ∈ db'.log
  later : ∀ e ∈ db'.log, e ∈ db.log ∨ db.version < e.version
  born : ∀ n id, db.born n = some id → db'.born n = some id
  rows : ∀ id, db'.rows.get? id = db.rows.get? id ∨ db'.Dirty db.version id

section Log

variable {db db' : ChatDb φ ν}

theorem ChatDb.Ok.le_version (h : db.Ok) {e : ChangeEvent} (he : e ∈ db.log) :
    1 ≤ e.version ∧ e.version ≤ db.version := by
  have hmem := List.mem_map_of_mem (f := ChangeEvent.version) he
  rw [h.versions, List.mem_range'_1] at hmem
  omega

theorem ChatDb.Ok.event_unique (h : db.Ok) {e e' : ChangeEvent} (he : e ∈ db.log)
    (he' : e' ∈ db.log) (heq : e.version = e'.version) : e = e' := by
  have hnodup : (db.log.map ChangeEvent.version).Nodup := by
    rw [h.versions]
    exact List.nodup_range'
  exact List.inj_on_of_nodup_map hnodup he he' heq

theorem ChatDb.Dirty.mono {version version' : Nat} {id : String} (h : db.Dirty version id)
    (hle : version' ≤ version) : db.Dirty version' id := by
  obtain ⟨e, he, hlt, hid⟩ := h
  exact ⟨e, he, Nat.lt_of_le_of_lt hle hlt, hid⟩

theorem ChatDb.Ok.not_dirty (h : db.Ok) (id : String) : ¬ db.Dirty db.version id := by
  rintro ⟨e, he, hlt, -⟩
  exact absurd (h.le_version he).2 (Nat.not_le.mpr hlt)

theorem Evolves.dirty (h : Evolves db db') {version : Nat} {id : String}
    (hdirty : db.Dirty version id) : db'.Dirty version id := by
  obtain ⟨e, he, hlt, hid⟩ := hdirty
  exact ⟨e, h.log e he, hlt, hid⟩

/-- A row that has changed is dirty for every version up to the earlier state's. -/
theorem Evolves.rows_of_le (h : Evolves db db') {version : Nat} (hle : version ≤ db.version)
    (id : String) : db'.rows.get? id = db.rows.get? id ∨ db'.Dirty version id :=
  (h.rows id).imp_right fun hdirty => hdirty.mono hle

end Log

/-! ## A statement -/

section Exec

variable {db : ChatDb φ ν}

theorem insertRow_numbered (h : db.Numbered) (row : NewRow φ ν) : (db.insertRow row).Numbered := by
  constructor
  · intro r hr
    obtain hr | rfl := Table.mem_insert hr
    · have hne : r.seq ≠ db.nextSeq + row.skip := by
        intro heq
        have hborn := h.known r hr
        rw [heq, h.fresh _ (Nat.le_add_right _ _)] at hborn
        cases hborn
      rw [ChatDb.insertRow]
      dsimp only
      rw [if_neg hne]
      exact h.known r hr
    · rw [ChatDb.insertRow]
      dsimp only
      rw [if_pos rfl]
  · intro n hn
    rw [ChatDb.insertRow] at hn ⊢
    dsimp only at hn ⊢
    rw [if_neg (by omega)]
    exact h.fresh n (by omega)

theorem insertRow_born (h : db.Numbered) (row : NewRow φ ν) {n : Nat} {id : String}
    (hn : db.born n = some id) : (db.insertRow row).born n = some id := by
  have hlt : n < db.nextSeq := by
    by_contra hge
    rw [h.fresh n (Nat.not_lt.mp hge)] at hn
    cases hn
  rw [ChatDb.insertRow]
  dsimp only
  rw [if_neg (by omega)]
  exact hn

/-- What the inserts of a statement keep. -/
structure Inserts (db db' : ChatDb φ ν) (ids : List String) : Prop where
  numbered : db'.Numbered
  born : ∀ n id, db.born n = some id → db'.born n = some id
  rows : ∀ id, id ∉ ids → db'.rows.get? id = db.rows.get? id
  log : db'.log = db.log
  version : db'.version = db.version

theorem foldl_insertRow (rows : List (NewRow φ ν)) (db : ChatDb φ ν) (h : db.Numbered) :
    Inserts db (rows.foldl ChatDb.insertRow db) (rows.map NewRow.id) := by
  induction rows generalizing db with
  | nil => exact ⟨h, fun _ _ h => h, fun _ _ => rfl, rfl, rfl⟩
  | cons row rows ih =>
    obtain ⟨hnumbered, hborn, hrows, hlog, hversion⟩ :=
      ih (db.insertRow row) (insertRow_numbered h row)
    refine ⟨hnumbered, fun n id hn => hborn n id (insertRow_born h row hn), fun id hid => ?_, hlog,
      hversion⟩
    rw [List.map_cons, List.mem_cons, not_or] at hid
    rw [List.foldl_cons, hrows id hid.2, ChatDb.insertRow]
    dsimp only
    rw [Table.get?_insert, if_neg fun hand => hid.1 hand.2.symm]

theorem change_inserts (h : db.Numbered) (s : Statement φ ν) :
    Inserts db (db.change s) (db.touched s) := by
  cases s with
  | insert rows =>
    rw [ChatDb.change, ChatDb.touched]
    split_ifs
    · exact foldl_insertRow rows db h
    · exact ⟨h, fun _ _ h => h, fun _ _ => rfl, rfl, rfl⟩
  | update docs =>
    refine ⟨⟨fun r hr => ?_, h.fresh⟩, fun _ _ h => h, fun id hid => ?_, rfl, rfl⟩
    · obtain ⟨r₀, hr₀, rfl⟩ := List.mem_map.mp hr
      exact h.known r₀ hr₀
    · rw [ChatDb.change]
      dsimp only
      rw [Table.get?_modify]
      cases hget : db.rows.get? id with
      | none => rfl
      | some r =>
        have hnone : docs.lookup r.id = none := by
          by_contra hsome
          refine hid (List.mem_map.mpr ⟨r, List.mem_filter.mpr ⟨(Table.get?_eq_some.mp hget).1, ?_⟩,
              Table.key_of_get? hget⟩)
          exact Option.isSome_iff_ne_none.mpr hsome
        simp [hnone]
  | delete ids =>
    refine ⟨⟨fun r hr => h.known r (List.mem_of_mem_filter hr), h.fresh⟩, fun _ _ h => h,
      fun id hid => ?_, rfl, rfl⟩
    rw [ChatDb.change]
    dsimp only
    rw [Table.get?_erase]
    cases hget : db.rows.get? id with
    | none => rfl
    | some r =>
      have hnot : r.id ∉ ids := fun hmem =>
        hid (List.mem_map.mpr ⟨r, List.mem_filter.mpr ⟨(Table.get?_eq_some.mp hget).1,
            by simpa using hmem⟩,
          Table.key_of_get? hget⟩)
      simp [Option.filter, hnot]

theorem change_delete {ids : List String} {id : String} (hid : id ∈ db.touched (.delete ids)) :
    (db.change (.delete ids)).rows.get? id = none := by
  obtain ⟨r, hr, rfl⟩ := List.mem_map.mp hid
  obtain ⟨hmem, hdelete⟩ := List.mem_filter.mp hr
  rw [ChatDb.change]
  dsimp only
  rw [Table.get?_erase, Table.mem_rows.mp hmem]
  simp only [Option.filter, hdelete]
  rfl

def ChatDb.event (db : ChatDb φ ν) (s : Statement φ ν) : ChangeEvent :=
  ⟨db.version + 1, if changeEventIdsMax < (db.touched s).length then .reset else s.operation,
    db.touched s⟩

section

variable (h : db.Numbered) (s : Statement φ ν)
include h s

theorem exec_cases :
    (db.exec s).rows = (db.change s).rows ∧ (db.exec s).born = (db.change s).born ∧
      (db.exec s).nextSeq = (db.change s).nextSeq ∧
        (db.touched s = [] ∧ (db.exec s).version = db.version ∧ (db.exec s).log = db.log ∨
        db.touched s ≠ [] ∧ (db.exec s).version = db.version + 1 ∧ (db.exec s).log = db.log ++
          [db.event s]) := by
  have hchange := change_inserts h s
  rw [ChatDb.exec, ChatDb.recordChange]
  by_cases htouched : db.touched s = []
  · rw [if_pos htouched]
    exact ⟨rfl, rfl, rfl, .inl ⟨htouched, hchange.version, hchange.log⟩⟩
  · rw [if_neg htouched]
    refine ⟨rfl, rfl, rfl, .inr ⟨htouched, ?_, ?_⟩⟩
    · dsimp only
      rw [hchange.version]
    · dsimp only
      rw [hchange.version, hchange.log]
      rfl

/-- What a statement touches has an event of the new version. -/
theorem exec_touched {id : String} (hid : id ∈ db.touched s) :
    ∃ e ∈ (db.exec s).log, e.version = (db.exec s).version ∧ db.version < e.version ∧
      id ∈ e.touched := by
  obtain ⟨-, -, -, ⟨hnil, -, -⟩ | ⟨-, hversion, hlog⟩⟩ := exec_cases h s
  · rw [hnil] at hid
    cases hid
  · exact ⟨db.event s, by rw [hlog]; simp, hversion.symm, Nat.lt_succ_self _, hid⟩

theorem exec_rows {id : String} (hid : id ∉ db.touched s) :
    (db.exec s).rows.get? id = db.rows.get? id := by
  rw [(exec_cases h s).1]
  exact (change_inserts h s).rows id hid

theorem exec_evolves : Evolves db (db.exec s) := by
  obtain ⟨-, hborn, -, hcases⟩ := exec_cases h s
  refine ⟨?_, ?_, ?_, fun n id hn => ?_, fun id => ?_⟩
  · obtain ⟨-, hversion, -⟩ | ⟨-, hversion, -⟩ := hcases <;> omega
  · obtain ⟨-, -, hlog⟩ | ⟨-, -, hlog⟩ := hcases
    · rw [hlog]
      exact fun _ he => he
    · rw [hlog]
      exact fun _ he => List.mem_append_left _ he
  · obtain ⟨-, -, hlog⟩ | ⟨-, -, hlog⟩ := hcases
    · rw [hlog]
      exact fun _ he => .inl he
    · rw [hlog]
      intro e he
      obtain he | he := List.mem_append.mp he
      · exact .inl he
      · rw [List.mem_singleton.mp he]
        exact .inr (Nat.lt_succ_self _)
  · rw [hborn]
    exact (change_inserts h s).born n id hn
  · by_cases hid : id ∈ db.touched s
    · obtain ⟨e, he, -, hlt, htouched⟩ := exec_touched h s hid
      exact .inr ⟨e, he, hlt, htouched⟩
    · exact .inl (exec_rows h s hid)

end

theorem ChatDb.Ok.exec (h : db.Ok) (s : Statement φ ν) : (db.exec s).Ok := by
  have hchange := change_inserts h.numbered s
  obtain ⟨hrows, hborn, hnext, hcases⟩ := exec_cases h.numbered s
  refine ⟨⟨?_, ?_⟩, ?_, ?_⟩
  · rw [hrows, hborn]
    exact hchange.numbered.known
  · rw [hborn, hnext]
    exact hchange.numbered.fresh
  · obtain ⟨-, hversion, hlog⟩ | ⟨-, hversion, hlog⟩ := hcases
    · rw [hversion, hlog]
      exact h.versions
    · rw [hversion, hlog, List.map_append, h.versions, List.range'_concat]
      simp [ChatDb.event, Nat.add_comm]
  · intro e he hdelete id hid hlast
    -- the statement leaves the row alone, or it is the delete
    by_cases htouched : id ∈ db.touched s
    · obtain ⟨e', he', hversion', hlt, hid'⟩ := exec_touched h.numbered s htouched
      have hge : ¬ e.version < e'.version := fun hlt' => hlast e' he' hlt' hid'
      obtain ⟨hnil, -, -⟩ | ⟨-, hversion, hlog⟩ := hcases
      · rw [hnil] at htouched
        cases htouched
      · rw [hlog] at he
        obtain he | he := List.mem_append.mp he
        · exact absurd (Nat.lt_of_le_of_lt (h.le_version he).2 hlt) hge
        · rw [List.mem_singleton.mp he, ChatDb.event] at hdelete
          rw [hrows]
          cases s with
          | insert rows | update docs =>
            split_ifs at hdelete
            cases hdelete
          | delete ids => exact change_delete htouched
    · rw [exec_rows h.numbered s htouched]
      refine h.deleted e ?_ hdelete id hid fun e' he' => hlast e'
        ((exec_evolves h.numbered s).log e' he')
      obtain ⟨-, -, hlog⟩ | ⟨-, -, hlog⟩ := hcases
      · rw [← hlog]
        exact he
      · rw [hlog] at he
        obtain he | he := List.mem_append.mp he
        · exact he
        · rw [List.mem_singleton.mp he] at hid
          exact absurd hid htouched

theorem evolves_prune (db : ChatDb φ ν) (version : Nat) : Evolves db (db.prune version) :=
  ⟨Nat.le_refl _, fun _ h => h, fun _ h => .inl h, fun _ _ h => h, fun _ => .inl rfl⟩

theorem ChatDb.Ok.prune (h : db.Ok) (version : Nat) : (db.prune version).Ok :=
  ⟨⟨h.numbered.known, h.numbered.fresh⟩, h.versions, h.deleted⟩

end Exec

end HotChat

end Feedling
