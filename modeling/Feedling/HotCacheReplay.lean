import Feedling.HotCacheWindow

/-!
# Replays and snapshots of the hot chat cache

A run of events without a gap says everything that happened to the rows between two versions. The
rows that it upserts are read later, so they may be newer than the last event; then a later event
names them.
-/

namespace Feedling

namespace HotChat

open KeyedTable (Table)
open SortedWindow

variable {φ ν : Type} {db db' : ChatDb φ ν} {base edge limit : Nat}
  {t : Table (ChatRow.id : ChatRow φ ν → String)} {events : List ChangeEvent}
  {rows : List (ChatRow φ ν)}

/-! ## Events without a gap -/

theorem continuous_sorted {expected : Nat} (h : continuous expected events = true) :
    events.Pairwise (fun e e' => e.version < e'.version) ∧ ∀ e ∈ events, expected ≤ e.version := by
  induction events generalizing expected with
  | nil => exact ⟨List.Pairwise.nil, nofun⟩
  | cons e events ih =>
    obtain ⟨hversion, hrest⟩ := (Bool.and_eq_true _ _).mp h
    have heq : e.version = expected := by simpa using hversion
    obtain ⟨hsorted, hge⟩ := ih hrest
    refine ⟨List.pairwise_cons.mpr ⟨fun e' he' => ?_, hsorted⟩, fun e' he' => ?_⟩
    · have := hge e' he'
      omega
    · obtain rfl | he' := List.mem_cons.mp he'
      · omega
      · have := hge e' he'
        omega

theorem lastVersion_cons_cons (e e' : ChangeEvent) (events : List ChangeEvent) :
    lastVersion (e :: e' :: events) = lastVersion (e' :: events) := by
  rw [lastVersion, lastVersion, List.getLast?_cons_cons]

theorem exists_mem_of_continuous {expected version : Nat} (h : continuous expected events = true)
    (hnil : events ≠ []) (hle : expected ≤ version) (hlast : version ≤ lastVersion events) :
    ∃ e ∈ events, e.version = version := by
  induction events generalizing expected with
  | nil => exact absurd rfl hnil
  | cons e events ih =>
    obtain ⟨hversion, hrest⟩ := (Bool.and_eq_true _ _).mp h
    have heq : e.version = expected := by simpa using hversion
    by_cases hfirst : version = expected
    · exact ⟨e, List.mem_cons_self, by omega⟩
    cases events with
    | nil =>
      have hone : lastVersion [e] = e.version := rfl
      omega
    | cons e' events =>
      rw [lastVersion_cons_cons] at hlast
      obtain ⟨x, hx, hxv⟩ := ih hrest (List.cons_ne_nil _ _) (by omega) hlast
      exact ⟨x, List.mem_cons_of_mem e hx, hxv⟩

theorem version_le_lastVersion (h : events.Pairwise fun e e' => e.version < e'.version) :
    ∀ e ∈ events, e.version ≤ lastVersion events := by
  induction events with
  | nil => nofun
  | cons x events ih =>
    intro e he
    obtain ⟨hx, hrest⟩ := List.pairwise_cons.mp h
    cases events with
    | nil =>
      obtain rfl := List.mem_singleton.mp he
      exact Nat.le_refl _
    | cons y events =>
      rw [lastVersion_cons_cons]
      obtain rfl | he := List.mem_cons.mp he
      · exact Nat.le_trans (Nat.le_of_lt (hx y List.mem_cons_self)) (ih hrest y List.mem_cons_self)
      · exact ih hrest e he

/-- The events are those after the base version, up to the last. -/
structure EventsOk (db : ChatDb φ ν) (base : Nat) (events : List ChangeEvent) : Prop where
  mem : ∀ e ∈ events, e ∈ db.log
  noReset : ∀ e ∈ events, e.operation ≠ .reset
  sorted : events.Pairwise fun e e' => e.version < e'.version
  covers : ∀ e ∈ db.log, base < e.version → e.version ≤ lastVersion events → e ∈ events
  after : ∀ e ∈ events, base < e.version
  base_lt : base < lastVersion events
  last_le : lastVersion events ≤ db.version

theorem EventsOk.evolve (h : EventsOk db base events) (hev : Evolves db db') :
    EventsOk db' base events := by
  refine ⟨fun e he => hev.log e (h.mem e he), h.noReset, h.sorted, fun e he hbase hlast => ?_,
    h.after, h.base_lt, Nat.le_trans h.last_le hev.version⟩
  obtain hold | hlater := hev.later e he
  · exact h.covers e hold hbase hlast
  · have := h.last_le
    omega

theorem eventsOk_of_read (h : db.Ok) {limit : Nat}
    (hevents : db.chatChangeEventsAfter base limit = events)
    (hcontinuous : continuous (base + 1) events = true) (hnil : events ≠ [])
    (hreset : events.any (fun e => e.operation == .reset) ≠ true) : EventsOk db base events := by
  have hmem : ∀ e ∈ events, e ∈ db.log := by
    intro e he
    rw [← hevents, ChatDb.chatChangeEventsAfter] at he
    exact List.mem_of_mem_filter (List.mem_of_mem_take he)
  obtain ⟨hsorted, hge⟩ := continuous_sorted hcontinuous
  obtain ⟨first, hfirst⟩ := List.exists_mem_of_ne_nil events hnil
  have hbase : base + 1 ≤ lastVersion events :=
    Nat.le_trans (hge first hfirst) (version_le_lastVersion hsorted first hfirst)
  obtain ⟨e, he, hev⟩ := exists_mem_of_continuous hcontinuous hnil hbase (Nat.le_refl _)
  refine ⟨hmem, fun e he hop => hreset (List.any_eq_true.mpr ⟨e, he, by simp [hop]⟩), hsorted,
    fun e he hbase hle => ?_, hge, hbase, ?_⟩
  · obtain ⟨e', he', heq⟩ := exists_mem_of_continuous hcontinuous hnil hbase hle
    rw [← h.event_unique (hmem e' he') he heq]
    exact he'
  · rw [← hev]
    exact (h.le_version (hmem e he)).2

/-! ## Rows that are read later -/

theorem messageIds_of_ne_reset {e : ChangeEvent} (h : e.operation ≠ .reset) :
    e.messageIds = e.touched := by
  rw [ChangeEvent.messageIds, if_neg h]

theorem mem_upsertIds {e : ChangeEvent} (he : e ∈ events) (hop : e.operation = .upsert)
    {id : String} (hid : id ∈ e.touched) : id ∈ upsertIds events := by
  rw [upsertIds, List.mem_eraseDups, List.mem_flatMap]
  refine ⟨e, List.mem_filter.mpr ⟨he, by simp [hop]⟩, ?_⟩
  rw [messageIds_of_ne_reset (by rw [hop]; decide)]
  exact hid

/-- Each row to upsert was read, and is the stored one unless it has changed since. -/
def RowsOk (db : ChatDb φ ν) (events : List ChangeEvent) (rows : List (ChatRow φ ν)) : Prop :=
  ∀ id ∈ upsertIds events, ∃ r, rows.find? (fun r => r.id == id) = some r ∧
    db.born r.seq = some r.id ∧ (db.Dirty (lastVersion events) id ∨ db.rows.get? id = some r)

theorem RowsOk.evolve (h : RowsOk db events rows) (hev : Evolves db db')
    (hlast : lastVersion events ≤ db.version) : RowsOk db' events rows := by
  intro id hid
  obtain ⟨r, hfind, hborn, hcurrent⟩ := h id hid
  exact ⟨r, hfind, hev.born _ _ hborn, hev.current hlast hcurrent⟩

theorem find?_eq_some_id {id : String} {r : ChatRow φ ν}
    (h : rows.find? (fun r => r.id == id) = some r) : r ∈ rows ∧ r.id = id :=
  ⟨List.mem_of_find?_eq_some h, by simpa using List.find?_some h⟩

theorem rowsOk_of_read (h : db.Ok) (hrows : db.chatGetMany (upsertIds events) = rows)
    (hall : ((upsertIds events).any fun id => !rows.any fun r => r.id == id) ≠ true) :
    RowsOk db events rows := by
  intro id hid
  have hany : (rows.any fun r => r.id == id) = true := by
    by_contra hnone
    exact hall (List.any_eq_true.mpr ⟨id, hid, by simp [Bool.eq_false_iff.mpr hnone]⟩)
  obtain ⟨r, hfind⟩ :=
    Option.isSome_iff_exists.mp (List.find?_isSome.mpr (List.any_eq_true.mp hany))
  obtain ⟨hmem, hrid⟩ := find?_eq_some_id hfind
  have hstored : r ∈ db.rows.rows := by
    rw [← hrows, ChatDb.chatGetMany] at hmem
    exact mem_sortBy.mp (List.mem_of_mem_filter hmem)
  refine ⟨r, hfind, h.numbered.known r hstored, .inr ?_⟩
  rw [← hrid]
  exact Table.mem_rows.mp hstored

/-! ## The replay -/

theorem get?_foldl_upsertRow {ids : List String}
    (hfind : ∀ id ∈ ids, ∃ r, rows.find? (fun r => r.id == id) = some r) (id : String) :
    (ids.foldl (upsertRow rows) t).get? id = if id ∈ ids then rows.find? (fun r => r.id == id)
    else t.get? id := by
  induction ids generalizing t with
  | nil => rfl
  | cons x ids ih =>
    obtain ⟨r, hr⟩ := hfind x List.mem_cons_self
    obtain ⟨-, hrid⟩ := find?_eq_some_id hr
    rw [List.foldl_cons, ih fun y hy => hfind y (List.mem_cons_of_mem x hy), upsertRow, hr]
    dsimp only
    rw [Table.get?_put, hrid]
    by_cases hx : x = id
    · subst hx
      rw [if_pos rfl, if_pos List.mem_cons_self, hr]
      split_ifs <;> rfl
    · rw [if_neg hx]
      have hiff : id ∈ x :: ids ↔ id ∈ ids := by simp [Ne.symm hx]
      simp only [hiff]

/-- An event decides about the ids that it names. -/
theorem get?_replayEvent {e : ChangeEvent} (hreset : e.operation ≠ .reset)
    (hfind : e.operation = .upsert → ∀ id ∈ e.touched, ∃ r,
      rows.find? (fun r => r.id == id) = some r) (id : String) :
    (replayEvent rows t e).get? id = if id ∈ e.touched then
      if e.operation = .upsert then rows.find? (fun r => r.id == id) else none else t.get? id := by
  rw [replayEvent, messageIds_of_ne_reset hreset]
  cases hop : e.operation with
  | upsert => exact get?_foldl_upsertRow (hfind hop) id
  | delete =>
    dsimp only
    rw [Table.get?_erase]
    cases hget : t.get? id with
    | none => simp
    | some r => by_cases hid : id ∈ e.touched <;> simp [Option.filter, Table.key_of_get? hget, hid]
  | reset => exact absurd hop hreset

/-- What a replay makes of an id is decided by the last event that names it. -/
theorem replay_cases (hreset : ∀ e ∈ events, e.operation ≠ .reset)
    (hsorted : events.Pairwise fun e e' => e.version < e'.version) (hfind : ∀ id ∈ upsertIds events,
      ∃ r, rows.find? (fun r => r.id == id) = some r) (id : String) :
    (∀ e ∈ events, id ∉ e.touched) ∧ (replay rows t events).get? id = t.get? id ∨
      ∃ e ∈ events, id ∈ e.touched ∧ (∀ e' ∈ events, e.version < e'.version → id ∉ e'.touched) ∧
        (e.operation = .upsert ∧ (replay rows t events).get? id = rows.find? (fun r => r.id == id) ∨
          e.operation = .delete ∧ (replay rows t events).get? id = none) := by
  induction events using List.reverseRecOn with
  | nil => exact .inl ⟨nofun, rfl⟩
  | append_singleton events e ih =>
    obtain ⟨hsorted', -, hlater⟩ := List.pairwise_append.mp hsorted
    have hsub : ∀ e' ∈ events, e' ∈ events ++ [e] := fun e' he' => List.mem_append_left _ he'
    have he : e ∈ events ++ [e] := by simp
    have hstep : replay rows t (events ++ [e]) = replayEvent rows (replay rows t events) e := by
      rw [replay, List.foldl_append]
      rfl
    have hfind' : ∀ id ∈ upsertIds events, ∃ r, rows.find? (fun r => r.id == id) = some r := by
      intro x hx
      refine hfind x ?_
      rw [upsertIds, List.mem_eraseDups, List.filter_append, List.flatMap_append, List.mem_append]
      exact .inl (List.mem_eraseDups.mp hx)
    rw [hstep, get?_replayEvent (hreset e he) fun hop x hx => hfind x (mem_upsertIds he hop hx)]
    by_cases hid : id ∈ e.touched
    · refine .inr ⟨e, he, hid, List.forall_mem_append.mpr ⟨fun e' he' hlt => ?_, by simp⟩, ?_⟩
      · exact absurd (Nat.lt_trans hlt (hlater e' he' e (by simp))) (Nat.lt_irrefl _)
      · rw [if_pos hid]
        cases hop : e.operation with
        | upsert => exact .inl ⟨rfl, rfl⟩
        | delete => exact .inr ⟨rfl, rfl⟩
        | reset => exact absurd hop (hreset e he)
    · -- the last event says nothing about the id
      rw [if_neg hid]
      obtain ⟨hnone, hget⟩ | ⟨e₀, he₀, hid₀, hlast, hcases⟩ :=
        ih (fun e' he' => hreset e' (hsub e' he')) hsorted' hfind'
      · exact .inl ⟨List.forall_mem_append.mpr ⟨hnone, by simpa using hid⟩, hget⟩
      · exact .inr ⟨e₀, hsub e₀ he₀, hid₀, List.forall_mem_append.mpr ⟨hlast,
            by simpa using fun _ => hid⟩, hcases⟩

/-- A replay of all the events since the cache's version brings it to the version of the last
one. -/
theorem Good.replay (h : Good db base edge t) (hok : db.Ok) (hevents : EventsOk db base events)
    (hrows : RowsOk db events rows) : Good db (lastVersion events) edge (replay rows t events) := by
  have hcases := fun id => replay_cases (t := t) hevents.noReset hevents.sorted
    (fun id hid => let ⟨r, hr, _⟩ := hrows id hid; ⟨r, hr⟩) id
  -- a change that no event names came after the last one
  have hlater : ∀ id, (∀ e ∈ events, id ∉ e.touched) → db.Dirty base id →
      db.Dirty (lastVersion events) id := by
    rintro id hnone ⟨e, he, hlt, hid⟩
    refine ⟨e, he, ?_, hid⟩
    by_contra hle
    exact hnone e (hevents.covers e he hlt (Nat.not_lt.mp hle)) hid
  have hfound : ∀ r ∈ (HotChat.replay rows t events).rows,
      (r ∈ t.rows ∧ ∀ e ∈ events, r.id ∉ e.touched) ∨ r.id ∈ upsertIds events ∧
        rows.find? (fun x => x.id == r.id) = some r := by
    intro r hr
    have hget := Table.mem_rows.mp hr
    obtain ⟨hnone, hsame⟩ | ⟨e, he, hid, -, ⟨hop, hsame⟩ | ⟨-, hgone⟩⟩ := hcases r.id
    · exact .inl ⟨Table.mem_rows.mpr (hsame.symm.trans hget), hnone⟩
    · exact .inr ⟨mem_upsertIds he hop hid, hsame.symm.trans hget⟩
    · rw [hgone] at hget
      cases hget
  refine ⟨fun r hr => ?_, fun r hr => ?_, fun r hr hedge => ?_⟩
  · obtain ⟨hin, -⟩ | ⟨hid, hfind⟩ := hfound r hr
    · exact h.known r hin
    · obtain ⟨r', hfind', hborn, -⟩ := hrows r.id hid
      rw [hfind] at hfind'
      rw [Option.some.inj hfind']
      exact hborn
  · obtain ⟨hin, hnone⟩ | ⟨hid, hfind⟩ := hfound r hr
    · exact (h.current r hin).imp_left (hlater r.id hnone)
    · obtain ⟨r', hfind', -, hcurrent⟩ := hrows r.id hid
      rw [hfind] at hfind'
      rw [Option.some.inj hfind'] at hcurrent ⊢
      exact hcurrent
  · obtain ⟨hnone, hsame⟩ | ⟨e, he, hid, hlast, ⟨hop, hsame⟩ | ⟨hop, -⟩⟩ := hcases r.id
    · rw [hsame]
      exact (h.complete r hr hedge).imp_left (hlater r.id hnone)
    · obtain ⟨x, hx, -⟩ := hrows r.id (mem_upsertIds he hop hid)
      rw [hsame, hx]
      exact .inr rfl
    · -- the row was deleted and is stored, so it came back after the last event
      left
      by_contra hclean
      have hgone := hok.deleted e (hevents.mem e he) hop r.id hid fun e' he' hlt hid' => ?_
      · rw [Table.mem_rows.mp hr] at hgone
        cases hgone
      by_cases hle : e'.version ≤ lastVersion events
      · exact hlast e' (hevents.covers e' he' (Nat.lt_trans (hevents.after e he) hlt) hle) hlt hid'
      · exact hclean ⟨e', he', Nat.not_le.mp hle, hid'⟩

/-! ## Snapshots -/

theorem ChatDb.Ok.transcript_sorted (h : db.Ok) : db.transcript.Pairwise fun a b => a.seq < b.seq :=
  pairwise_sortBy (nodup_seq h.numbered.known)

theorem mem_snapshot_iff (h : db.Ok) (limit : Nat) {r : ChatRow φ ν} (hr : r ∈ db.rows.rows) :
    r ∈ newest (ChatDb.chatHotSnapshotLimit limit) db.transcript ↔
      Cache.snapshotEdge limit (newest (ChatDb.chatHotSnapshotLimit limit) db.transcript) ≤
        r.seq := by
  have hin : r ∈ db.transcript := mem_sortBy.mpr hr
  rw [Cache.snapshotEdge]
  split_ifs with hlength
  · have hall : newest (ChatDb.chatHotSnapshotLimit limit) db.transcript = db.transcript := by
      refine newest_eq_self ?_
      rw [newest, List.length_drop] at hlength
      omega
    rw [hall]
    exact ⟨fun _ => Nat.zero_le _, fun _ => hin⟩
  · have hpos : 0 < ChatDb.chatHotSnapshotLimit limit :=
      Nat.lt_min.mpr ⟨by decide, Nat.lt_of_lt_of_le Nat.zero_lt_one (Nat.le_max_left 1 limit)⟩
    obtain ⟨first, hfirst⟩ := exists_head?_newest hpos (List.ne_nil_of_mem hin)
    rw [hfirst]
    exact mem_newest_iff h.transcript_sorted hfirst hin

theorem load_faithful (h : db.Ok) (limit : Nat) (c : Cache φ ν) :
    Faithful db limit (c.load limit (db.chatLoadHotSnapshot limit).1
      (db.chatLoadHotSnapshot limit).2) := by
  rw [ChatDb.chatLoadHotSnapshot]
  have hstored : ∀ r ∈ newest (ChatDb.chatHotSnapshotLimit limit) db.transcript, r ∈ db.rows.rows :=
    fun r hr => mem_sortBy.mp ((newest_suffix _ _).subset hr)
  have hids : ((newest (ChatDb.chatHotSnapshotLimit limit) db.transcript).map ChatRow.id).Nodup :=
    (((perm_sortBy db.rows.rows).map ChatRow.id).nodup_iff.mpr db.rows.nodup).sublist
      ((newest_suffix _ _).sublist.map _)
  have hrows := Table.rows_ofRows hids
  refine replaceRows_faithful c ⟨fun r hr => ?_, fun r hr => ?_,
    fun r hr hedge => ?_⟩ (windowFull_of_le fun r hr => ?_)
  · exact h.numbered.known r (hstored r (hrows ▸ hr))
  · exact .inr (Table.mem_rows.mp (hstored r (hrows ▸ hr)))
  · refine .inr (Option.isSome_iff_exists.mpr ⟨r, Table.mem_rows.mp ?_⟩)
    rw [hrows]
    exact (mem_snapshot_iff h limit hr).mpr hedge
  · rw [hrows] at hr
    exact (mem_snapshot_iff h limit (hstored r hr)).mp hr

/-- A snapshot that was read: installed over any cache it is faithful. -/
def SnapshotOk (db : ChatDb φ ν) (limit version : Nat) (rows : List (ChatRow φ ν)) : Prop :=
  version ≤ db.version ∧ ∀ c : Cache φ ν, Faithful db limit (c.load limit version rows)

theorem snapshotOk_of_read (h : db.Ok) (limit : Nat) :
    SnapshotOk db limit (db.chatLoadHotSnapshot limit).1 (db.chatLoadHotSnapshot limit).2 :=
  ⟨Nat.le_refl _, fun c => load_faithful h limit c⟩

theorem SnapshotOk.evolve {version : Nat} (h : SnapshotOk db limit version rows)
    (hev : Evolves db db') : SnapshotOk db' limit version rows :=
  ⟨Nat.le_trans h.1 hev.version, fun c => (h.2 c).evolve hev h.1⟩

/-! ## A cache at the version of the tables -/

theorem Faithful.suffix {c : Cache φ ν} (h : Faithful db limit c) (hok : db.Ok)
    (hversion : c.version = db.version) : c.rows <:+ db.transcript := by
  have hclean : ∀ id, ¬ db.Dirty c.version id := fun id => hversion ▸ hok.not_dirty id
  have hgood := h.good
  refine suffix_of_closed h.sorted hok.transcript_sorted (fun r hr => ?_) h.above
    fun r hr hedge => ?_
  · have hget := (hgood.current r (h.mem_index.mpr hr)).resolve_left (hclean r.id)
    exact mem_sortBy.mpr (Table.mem_rows.mpr hget)
  · have hstored := mem_sortBy.mp hr
    have hsome := (hgood.complete r hstored hedge).resolve_left (hclean r.id)
    exact h.mem_index.mp ((hgood.mem_of_isSome hstored hsome).resolve_left (hclean r.id))

end HotChat

end Feedling
