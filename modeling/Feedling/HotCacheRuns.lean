import Feedling.HotCacheReplay

/-!
# Runs of the hot chat cache

The invariant over every interleaving of statements, local applies, syncs and reloads. What a call
in flight has read stays true as of the version it was read at, and the generation number tells
whether the cache is still the one that the call started from.
-/

namespace Feedling

namespace HotChat

open KeyedTable (Table)
open SortedWindow

variable {φ ν : Type} {db db' : ChatDb φ ν} {limit : Nat} {c c' : Cache φ ν} {w : CacheWorld φ ν}

/-! ## Calls in flight -/

/-- A later cache: the same one, or one with a new generation. -/
def Advances (c c' : Cache φ ν) : Prop :=
  c' = c ∨ c.version ≤ c'.version ∧ c.generation < c'.generation

def Reload.Ok (db : ChatDb φ ν) (limit : Nat) (c : Cache φ ν) : Reload φ ν → Prop
  | .start _ => True
  | .read _ generation => generation ≤ c.generation
  | .install _ generation version rows =>
    generation ≤ c.generation ∧ (generation = c.generation → c.version ≤ version) ∧
      SnapshotOk db limit version rows
  | .waiting => True

/-- A snapshot that the reload has read is not older than the version. -/
def Reload.Reaches (current : Nat) : Reload φ ν → Prop
  | .install _ _ version _ => current ≤ version
  | _ => True

/-- The version and generation that a sync started from. -/
structure BaseOk (c : Cache φ ν) (base generation : Nat) : Prop where
  version_le : base ≤ c.version
  generation_le : generation ≤ c.generation
  same : generation = c.generation → base = c.version

def SyncPhase.Ok (db : ChatDb φ ν) (limit : Nat) (c : Cache φ ν) : SyncPhase φ ν → Prop
  | .base => True
  | .readVersion b g => BaseOk c b g
  | .readEvents b g _ => BaseOk c b g
  | .readRows b g current events =>
    BaseOk c b g ∧ EventsOk db b events ∧ current ≤ lastVersion events
  | .install b g current events rows =>
    BaseOk c b g ∧ EventsOk db b events ∧ current ≤ lastVersion events ∧ RowsOk db events rows
  | .reload _ r => r.Ok db limit c
  | .locked _ => True

/-- The version that a sync has read is one of the tables, and its reload reaches it. -/
def SyncPhase.Read (db : ChatDb φ ν) : SyncPhase φ ν → Prop
  | .base => True
  | .readVersion _ _ => True
  | .readEvents _ _ current => current ≤ db.version
  | .readRows _ _ current _ => current ≤ db.version
  | .install _ _ current _ _ => current ≤ db.version
  | .reload current r => current ≤ db.version ∧ r.Reaches current
  | .locked current => current ≤ db.version

def Sync.Ok (db : ChatDb φ ν) (limit : Nat) (c : Cache φ ν) (s : Sync φ ν) : Prop :=
  s.phase.Ok db limit c ∧ (s.requested = none → s.phase.Read db)

structure Holder.Ok (w : CacheWorld φ ν) (h : Holder φ ν) : Prop where
  snapshot : SnapshotOk w.db w.limit h.version h.rows
  version : w.cache.version ≤ h.version
  sync : h.forSync = true → ∃ s current, w.sync = some s ∧ s.phase = .locked current ∧
    (s.requested = none → current ≤ h.version)

structure CacheInv (w : CacheWorld φ ν) : Prop where
  db : w.db.Ok
  cache : Faithful w.db w.limit w.cache
  version_le : w.cache.version ≤ w.db.version
  pending : ∀ a ∈ w.pending, a.Ok w.db ∧ a.version ≤ w.db.version
  sync : ∀ s, w.sync = some s → s.Ok w.db w.limit w.cache
  reloads : ∀ r ∈ w.reloads, r.Ok w.db w.limit w.cache
  holder : ∀ h, w.holder = some h → h.Ok w

/-! ### The tables change -/

variable {r : Reload φ ν} {p : SyncPhase φ ν} {s : Sync φ ν} {version : Nat}

theorem Reload.Ok.evolve (h : r.Ok db limit c) (hev : Evolves db db') : r.Ok db' limit c := by
  cases r with
  | start attempt => trivial
  | read attempt generation => exact h
  | install attempt generation version rows => exact ⟨h.1, h.2.1, h.2.2.evolve hev⟩
  | waiting => trivial

theorem SyncPhase.Ok.evolve (h : p.Ok db limit c) (hev : Evolves db db') : p.Ok db' limit c := by
  cases p with
  | base => trivial
  | readVersion base generation => exact h
  | readEvents base generation current => exact h
  | readRows base generation current events => exact ⟨h.1, h.2.1.evolve hev, h.2.2⟩
  | install base generation current events rows =>
    exact ⟨h.1, h.2.1.evolve hev, h.2.2.1, h.2.2.2.evolve hev h.2.1.last_le⟩
  | reload current r => exact Reload.Ok.evolve h hev
  | locked current => trivial

theorem SyncPhase.Read.evolve (h : p.Read db) (hev : Evolves db db') : p.Read db' := by
  cases p with
  | base => trivial
  | readVersion base generation => trivial
  | readEvents base generation current => exact Nat.le_trans h hev.version
  | readRows base generation current events => exact Nat.le_trans h hev.version
  | install base generation current events rows => exact Nat.le_trans h hev.version
  | reload current r => exact ⟨Nat.le_trans h.1 hev.version, h.2⟩
  | locked current => exact Nat.le_trans h hev.version

theorem CacheInv.evolve (h : CacheInv w) (hok : db'.Ok) (hev : Evolves w.db db')
    {applies : List (LocalApply φ ν)}
    (happlies : ∀ a ∈ applies, a.Ok db' ∧ a.version ≤ db'.version) :
    CacheInv { w with db := db', pending := w.pending ++ applies } := by
  refine ⟨hok, h.cache.evolve hev h.version_le, Nat.le_trans h.version_le hev.version,
    fun a ha => ?_, fun s hs => ?_, fun r hr => (h.reloads r hr).evolve hev, fun x hx => ?_⟩
  · obtain ha | ha := List.mem_append.mp ha
    · obtain ⟨haok, hle⟩ := h.pending a ha
      exact ⟨haok.evolve hev hle, Nat.le_trans hle hev.version⟩
    · exact happlies a ha
  · obtain ⟨hphase, hread⟩ := h.sync s hs
    exact ⟨hphase.evolve hev, fun hnone => (hread hnone).evolve hev⟩
  · obtain ⟨hsnapshot, hversion, hsync⟩ := h.holder x hx
    exact ⟨hsnapshot.evolve hev, hversion, hsync⟩

/-! ### The cache changes -/

theorem Reload.Ok.advance (h : r.Ok db limit c) (hadv : Advances c c') : r.Ok db limit c' := by
  obtain rfl | ⟨-, hgen⟩ := hadv
  · exact h
  cases r with
  | start attempt => trivial
  | read attempt generation => exact Nat.le_trans h (Nat.le_of_lt hgen)
  | install attempt generation version rows =>
    exact ⟨Nat.le_trans h.1 (Nat.le_of_lt hgen),
      fun heq => absurd (heq ▸ h.1) (Nat.not_le.mpr hgen), h.2.2⟩
  | waiting => trivial

theorem BaseOk.advance {base generation : Nat} (h : BaseOk c base generation)
    (hadv : Advances c c') : BaseOk c' base generation := by
  obtain rfl | ⟨hversion, hgen⟩ := hadv
  · exact h
  · exact ⟨Nat.le_trans h.version_le hversion, Nat.le_trans h.generation_le (Nat.le_of_lt hgen),
      fun heq => absurd (heq ▸ h.generation_le) (Nat.not_le.mpr hgen)⟩

theorem SyncPhase.Ok.advance (h : p.Ok db limit c) (hadv : Advances c c') : p.Ok db limit c' := by
  cases p with
  | base => trivial
  | readVersion base generation => exact BaseOk.advance h hadv
  | readEvents base generation current => exact BaseOk.advance h hadv
  | readRows base generation current events => exact ⟨h.1.advance hadv, h.2⟩
  | install base generation current events rows => exact ⟨h.1.advance hadv, h.2⟩
  | reload current r => exact Reload.Ok.advance h hadv
  | locked current => trivial

/-- A change of the cache while nobody holds the lock. -/
theorem CacheInv.advance (h : CacheInv w) (hholder : w.holder = none)
    (hfaithful : Faithful w.db w.limit c') (hadv : Advances w.cache c')
    (hle : c'.version ≤ w.db.version) : CacheInv { w with cache := c' } := by
  refine ⟨h.db, hfaithful, hle, h.pending, fun s hs => ⟨(h.sync s hs).1.advance hadv,
      (h.sync s hs).2⟩,
    fun r hr => (h.reloads r hr).advance hadv, fun x hx => ?_⟩
  rw [show w.holder = some x from hx] at hholder
  cases hholder

/-! ## The steps of a reload -/

theorem load_advances (h : c.version ≤ version) (limit : Nat) (rows : List (ChatRow φ ν)) :
    Advances c (c.load limit version rows) := .inr ⟨h, Nat.lt_succ_self _⟩

/-- What a step of a reload leaves. -/
inductive MoveOk (w : CacheWorld φ ν) (r : Reload φ ν) : ReloadMove φ ν → Prop where
  | blocked : MoveOk w r .blocked
  | next (r' : Reload φ ν) (hok : r'.Ok w.db w.limit w.cache)
      (hreaches : ∀ current, current ≤ w.db.version → r'.Reaches current) : MoveOk w r (.next r')
  | lock (version : Nat) (rows : List (ChatRow φ ν)) (hfree : w.holder = none) (hversion : version =
        w.db.version)
      (hsnapshot : SnapshotOk w.db w.limit version rows) : MoveOk w r (.lock version rows)
  | done (version : Nat) (rows : List (ChatRow φ ν)) (hfree : w.holder = none)
      (hle : w.cache.version ≤ version)
      (hsnapshot : SnapshotOk w.db w.limit version rows) (hreaches : ∀ current, r.Reaches current →
          current ≤ version) :
      MoveOk w r (.done (w.cache.load w.limit version rows))

theorem reloadMove_ok (h : CacheInv w) (hr : r.Ok w.db w.limit w.cache) :
    MoveOk w r (w.reloadMove r) := by
  cases r with
  | start attempt =>
    rw [CacheWorld.reloadMove]
    split_ifs
    · exact .blocked
    · exact .next _ (Nat.le_refl _) fun _ _ => trivial
  | read attempt generation =>
    refine .next _ ⟨hr, fun _ => h.version_le,
      snapshotOk_of_read h.db w.limit⟩ fun current hle => hle
  | install attempt generation version rows =>
    rw [CacheWorld.reloadMove]
    split_ifs with hheld hgen hattempt
    · exact .blocked
    · exact .next _ trivial fun _ _ => trivial
    · exact .next _ trivial fun _ _ => trivial
    · exact .done version rows (Option.not_isSome_iff_eq_none.mp hheld)
        (hr.2.1 (not_not.mp hgen).symm) hr.2.2 fun _ hle => hle
  | waiting =>
    rw [CacheWorld.reloadMove]
    split_ifs with hheld
    · exact .blocked
    · exact .lock _ _ (Option.not_isSome_iff_eq_none.mp hheld) rfl (snapshotOk_of_read h.db w.limit)

theorem CacheInv.load (h : CacheInv w) (hfree : w.holder = none) {rows : List (ChatRow φ ν)}
    (hle : w.cache.version ≤ version) (hsnapshot : SnapshotOk w.db w.limit version rows) :
    CacheInv { w with cache := w.cache.load w.limit version rows } :=
  h.advance hfree (hsnapshot.2 w.cache) (load_advances hle w.limit rows) hsnapshot.1

/-! ## The steps of a sync -/

theorem CacheInv.setSync (h : CacheInv w) (hs : w.sync = some s)
    (hphase : ∀ current, s.phase ≠ .locked current) {sync : Option (Sync φ ν)}
    (hok : ∀ s', sync = some s' → s'.Ok w.db w.limit w.cache) :
    CacheInv { w with sync := sync } := by
  refine ⟨h.db, h.cache, h.version_le, h.pending, hok, h.reloads, fun x hx => ?_⟩
  obtain ⟨hsnapshot, hversion, hsync⟩ := h.holder x hx
  refine ⟨hsnapshot, hversion, fun hfor => ?_⟩
  obtain ⟨s', current, hs', hlocked, -⟩ := hsync hfor
  rw [hs] at hs'
  exact absurd (Option.some.inj hs' ▸ hlocked) (hphase current)

/-- What a step of a sync leaves: the invariant, and if it returns true, a cache at the version that
it read. -/
def StepOk (result : CacheWorld φ ν × Option Return) : Prop :=
  CacheInv result.1 ∧ ∀ version, result.2 = some ⟨true, some version⟩ →
    version ≤ result.1.cache.version

section

variable (h : CacheInv w) (hs : w.sync = some s) (hphase : ∀ current, s.phase ≠ .locked current)
include h hs hphase

theorem goto_ok {retries : Nat} {phase : SyncPhase φ ν} (hok : phase.Ok w.db w.limit w.cache)
    (hread : s.requested = none → phase.Read w.db) :
    StepOk (w.goto { s with retries := retries } phase) := by
  refine ⟨h.setSync hs hphase fun s' hs' => ?_, nofun⟩
  obtain rfl := Option.some.inj hs'
  exact ⟨hok, hread⟩

theorem finish_ok {current : Option Nat}
    (hcurrent : s.requested = none → ∀ version, current = some version →
      version ≤ w.cache.version) :
    StepOk (w.finish s current) := by
  refine ⟨h.setSync hs hphase nofun, fun version hversion => ?_⟩
  rw [CacheWorld.finish] at hversion
  injection hversion with hversion
  injection hversion with _ hread
  split_ifs at hread with hnone
  exact hcurrent (Option.isNone_iff_eq_none.mp hnone) version hread

end

/-- The rows that a sync is about to install are in the window. -/
def Sync.InWindow (limit : Nat) (c : Cache φ ν) (s : Sync φ ν) : Prop :=
  match s.phase with
  | .install _ generation _ events rows =>
    c.generation = generation → WindowFull limit c.edge (replay rows c.index events).rows
  | _ => True

section Phases

variable {s : Sync φ ν}

theorem syncStep_base (h : CacheInv w) (hs : w.sync = some s) (hp : s.phase = .base) :
    StepOk (w.syncStep s) := by
  have hne : ∀ current, s.phase ≠ .locked current := by simp [hp]
  rw [CacheWorld.syncStep, hp]
  dsimp only
  split_ifs
  · exact ⟨h, nofun⟩
  · exact finish_ok h hs hne fun _ _ => nofun
  · exact goto_ok h hs hne ⟨Nat.le_refl _, Nat.le_refl _, fun _ => rfl⟩ fun _ => trivial

variable {base generation current : Nat} {events : List ChangeEvent}

section

variable (h : CacheInv w) (hs : w.sync = some s)
include h hs

theorem syncStep_readVersion (hp : s.phase = .readVersion base generation) :
    StepOk (w.syncStep s) := by
  have hne : ∀ current, s.phase ≠ .locked current := by simp [hp]
  have hbase : BaseOk w.cache base generation := by
    have hok := (h.sync s hs).1
    rw [hp] at hok
    exact hok
  have hread : s.requested = none → s.requested.getD w.db.version ≤ w.db.version := by
    intro hnone
    rw [hnone]
    exact Nat.le_refl _
  rw [CacheWorld.syncStep, hp]
  dsimp only
  split_ifs with hfresh
  · refine finish_ok h hs hne fun _ version hversion => ?_
    rw [← Option.some.inj hversion]
    exact Nat.le_trans hfresh hbase.version_le
  · exact goto_ok h hs hne trivial fun hnone => ⟨hread hnone, trivial⟩
  · exact goto_ok h hs hne hbase hread

theorem syncStep_readEvents (hp : s.phase = .readEvents base generation current) :
    StepOk (w.syncStep s) := by
  have hne : ∀ current, s.phase ≠ .locked current := by simp [hp]
  obtain ⟨hok, hread⟩ := h.sync s hs
  rw [hp] at hok hread
  rw [CacheWorld.syncStep, hp]
  dsimp only
  generalize hevents : w.db.chatChangeEventsAfter base chatSyncBatchMax = events
  by_cases hbad : continuous (base + 1) events = false ∨ events = [] ∨
    lastVersion events < current ∨
      events.any (fun e => e.operation == .reset) = true
  · rw [if_pos hbad]
    exact goto_ok h hs hne trivial fun hnone => ⟨hread hnone, trivial⟩
  rw [if_neg hbad]
  simp only [not_or] at hbad
  obtain ⟨hcontinuous, hnil, hlast, hreset⟩ := hbad
  have hev := eventsOk_of_read h.db hevents ((Bool.not_eq_false _).mp hcontinuous) hnil hreset
  split_ifs with hupserts
  · refine goto_ok h hs hne ⟨hok, hev, Nat.not_lt.mp hlast, fun id hid => ?_⟩ hread
    rw [hupserts] at hid
    cases hid
  · exact goto_ok h hs hne ⟨hok, hev, Nat.not_lt.mp hlast⟩ hread

theorem syncStep_readRows (hp : s.phase = .readRows base generation current events) :
    StepOk (w.syncStep s) := by
  have hne : ∀ current, s.phase ≠ .locked current := by simp [hp]
  obtain ⟨hok, hread⟩ := h.sync s hs
  rw [hp] at hok hread
  rw [CacheWorld.syncStep, hp]
  dsimp only
  split_ifs with hmissing
  · exact goto_ok h hs hne trivial fun hnone => ⟨hread hnone, trivial⟩
  · exact goto_ok h hs hne ⟨hok.1, hok.2.1, hok.2.2, rowsOk_of_read h.db rfl hmissing⟩ hread

theorem syncStep_install (hwindow : s.InWindow w.limit w.cache) {rows : List (ChatRow φ ν)}
    (hp : s.phase = .install base generation current events rows) : StepOk (w.syncStep s) := by
  have hne : ∀ current, s.phase ≠ .locked current := by simp [hp]
  obtain ⟨hok, hread⟩ := h.sync s hs
  rw [Sync.InWindow, hp] at hwindow
  rw [hp] at hok hread
  obtain ⟨hbase, hevents, hcurrent, hrows⟩ := hok
  rw [CacheWorld.syncStep, hp]
  dsimp only
  split_ifs with hheld hgen hretries
  · exact ⟨h, nofun⟩
  · exact goto_ok h hs hne trivial fun _ => trivial
  · exact goto_ok h hs hne trivial fun hnone => ⟨hread hnone, trivial⟩
  · have hsame := not_not.mp hgen
    -- the cache is still at the version that the events start from
    have hgood := h.cache.good
    rw [← hbase.same hsame.symm] at hgood
    have hreplay := hgood.replay h.db hevents hrows
    have hfaithful : Faithful w.db w.limit
        (w.cache.replaceRows w.limit (replay rows w.cache.index events).rows
          (lastVersion events) w.cache.edge) := by
      refine replaceRows_faithful _ (hreplay.congr fun id => Table.get?_ofRows
          (Table.nodup _) id) ?_
      rw [Table.rows_ofRows (Table.nodup _)]
      exact hwindow hsame
    have hadv : Advances w.cache
        (w.cache.replaceRows w.limit (replay rows w.cache.index events).rows
          (lastVersion events) w.cache.edge) := by
      refine .inr ⟨?_, Nat.lt_succ_self _⟩
      rw [← hbase.same hsame.symm]
      exact Nat.le_of_lt hevents.base_lt
    have hinv := h.advance (Option.not_isSome_iff_eq_none.mp hheld) hfaithful hadv hevents.last_le
    refine finish_ok hinv hs hne fun _ version hversion => ?_
    rw [← Option.some.inj hversion]
    exact hcurrent

theorem syncStep_reload {r : Reload φ ν} (hp : s.phase = .reload current r) :
    StepOk (w.syncStep s) := by
  have hne : ∀ current, s.phase ≠ .locked current := by simp [hp]
  obtain ⟨hok, hread⟩ := h.sync s hs
  rw [hp] at hok hread
  rw [CacheWorld.syncStep, hp]
  dsimp only
  generalize hmove : w.reloadMove r = move
  have hmoveOk := reloadMove_ok h hok
  rw [hmove] at hmoveOk
  cases hmoveOk with
  | blocked => exact ⟨h, nofun⟩
  | next r' hr' hreaches =>
    exact goto_ok h hs hne hr' fun hnone => ⟨(hread hnone).1, hreaches current (hread hnone).1⟩
  | lock version rows hfree hversion hsnapshot =>
    refine ⟨⟨h.db, h.cache, h.version_le, h.pending, fun s' hs' => ?_, h.reloads, fun x hx => ?_⟩,
      nofun⟩
    · obtain rfl := Option.some.inj hs'
      exact ⟨trivial, fun hnone => (hread hnone).1⟩
    · obtain rfl := Option.some.inj hx
      subst hversion
      exact ⟨hsnapshot, h.version_le, fun _ => ⟨_, current, rfl, rfl, fun hnone => (hread hnone).1⟩⟩
  | done version rows hfree hle hsnapshot hreaches =>
    refine finish_ok (h.load hfree hle hsnapshot) hs hne fun hnone version' hversion' => ?_
    rw [← Option.some.inj hversion']
    exact hreaches current (hread hnone).2

theorem syncStep_ok (hwindow : s.InWindow w.limit w.cache) : StepOk (w.syncStep s) := by
  cases hp : s.phase with
  | base => exact syncStep_base h hs hp
  | readVersion base generation => exact syncStep_readVersion h hs hp
  | readEvents base generation current => exact syncStep_readEvents h hs hp
  | readRows base generation current events => exact syncStep_readRows h hs hp
  | install base generation current events rows => exact syncStep_install h hs hwindow hp
  | reload current r => exact syncStep_reload h hs hp
  | locked current =>
    rw [CacheWorld.syncStep, hp]
    exact ⟨h, nofun⟩

end

end Phases

/-! ## Local writes -/

theorem ofStatement (h : CacheInv w) (s : Statement φ ν) {applies : List (LocalApply φ ν)}
    (happlies : ∀ a ∈ applies, a.Ok (w.db.exec s) ∧ a.version ≤ (w.db.exec s).version) :
    CacheInv (w.write s applies) :=
  h.evolve (h.db.exec s) (exec_evolves h.db.numbered s) happlies

theorem committedRows_ok (h : db.Ok) (s : Statement φ ν) :
    (LocalApply.rows (db.exec s).version ((db.touched s).filterMap (db.exec s).rows.get?)).Ok
      (db.exec s) := by
  intro r hr
  obtain ⟨id, -, hget⟩ := List.mem_filterMap.mp hr
  obtain ⟨hmem, hid⟩ := Table.get?_eq_some.mp hget
  exact ⟨(h.exec s).numbered.known r hmem, .inr (hid ▸ hget)⟩

theorem committedFields_ok (w : CacheWorld φ ν) (s : Statement φ ν) (id : String)
    (keys : φ → Bool) :
    ∀ a ∈ w.committedFields s id keys, a.Ok (w.db.exec s) ∧ a.version ≤ (w.db.exec s).version := by
  intro a ha
  rw [CacheWorld.committedFields] at ha
  split at ha
  · rename_i r hr
    obtain rfl := List.mem_singleton.mp ha
    split_ifs at hr
    refine ⟨.inr fun r' hr' => ?_, Nat.le_refl _⟩
    obtain rfl := Option.some.inj (hr.symm.trans hr')
    exact Doc.merge_restrict r.doc keys
  · cases ha

theorem get?_exec_delete (h : db.Ok) {ids : List String} {id : String}
    (hid : id ∈ db.touched (.delete ids)) : (db.exec (.delete ids)).rows.get? id = none := by
  rw [(exec_cases h.numbered _).1]
  exact change_delete hid

theorem exec_clear (h : db.Ok) (r : ChatRow φ ν) :
    r ∉ (db.exec (.delete (db.rows.rows.map ChatRow.id))).rows.rows := by
  intro hr
  have hget := Table.mem_rows.mp hr
  by_cases htouched : r.id ∈ db.touched (.delete (db.rows.rows.map ChatRow.id))
  · rw [get?_exec_delete h htouched] at hget
    cases hget
  · rw [exec_rows h.numbered _ htouched] at hget
    have hmem := Table.mem_rows.mpr hget
    refine htouched (List.mem_map_of_mem (List.mem_filter.mpr ⟨hmem, ?_⟩))
    exact decide_eq_true (List.mem_map_of_mem hmem)

theorem LocalApply.apply_advances (limit : Nat) (c : Cache φ ν) (a : LocalApply φ ν) :
    Advances c (a.apply limit c) ∧ (a.apply limit c).version = c.version := by
  cases a with
  | rows v rs => exact ⟨.inr ⟨Nat.le_refl _, Nat.lt_succ_self _⟩, rfl⟩
  | fields v id doc =>
    rw [LocalApply.apply, Cache.updateCachedChatRow]
    split
    · exact ⟨.inl rfl, rfl⟩
    · exact ⟨.inr ⟨Nat.le_refl _, Nat.lt_succ_self _⟩, rfl⟩
  | removed v ids =>
    rw [LocalApply.apply, Cache.removeCommittedChatIds]
    split_ifs
    · exact ⟨.inr ⟨Nat.le_refl _, Nat.lt_succ_self _⟩, rfl⟩
    · exact ⟨.inl rfl, rfl⟩
  | cleared v => exact ⟨.inr ⟨Nat.le_refl _, Nat.lt_succ_self _⟩, rfl⟩

/-! ## Every step -/

/-- A local apply comes before the cache has passed a later change of a row that it is about. -/
def AppliesInTime (w : CacheWorld φ ν) : CacheLabel φ ν → Prop
  | .apply i => ∀ a ∈ w.pending[i]?, a.NotOvertaken w.db w.cache.version
  | _ => True

/-- The rows that a local apply merges are in the window. -/
def LocalApply.InWindow (limit : Nat) (c : Cache φ ν) : LocalApply φ ν → Prop
  | .rows _ rs => WindowFull limit c.edge (c.mergeRows rs).rows
  | _ => True

/-- A row older than the cached window is merged only while the window is full, so that it is cut
off. -/
def MergesInWindow (w : CacheWorld φ ν) : CacheLabel φ ν → Prop
  | .apply i => ∀ a ∈ w.pending[i]?, a.InWindow w.limit w.cache
  | .sync => ∀ s ∈ w.sync, s.InWindow w.limit w.cache
  | _ => True

theorem apply_ok (h : CacheInv w) {i : Nat} (htime : AppliesInTime w (.apply i))
    (hwindow : MergesInWindow w (.apply i)) : CacheInv (cacheNext w (.apply i)) := by
  rw [cacheNext, cacheStep]
  by_cases hheld : w.holder.isSome = true
  · rw [if_pos hheld]
    exact h
  rw [if_neg hheld]
  cases ha : w.pending[i]? with
  | none => exact h
  | some a =>
    obtain ⟨hadv, hversion⟩ := a.apply_advances w.limit w.cache
    have hfaithful : Faithful w.db w.limit (a.apply w.limit w.cache) := by
      refine LocalApply.apply_faithful h.cache (h.pending a (List.mem_of_getElem? ha)).1
        (htime a ha) fun v rs heq => ?_
      have hin := hwindow a ha
      rw [heq] at hin
      exact hin
    have hinv :=
      h.advance (Option.not_isSome_iff_eq_none.mp hheld) hfaithful hadv (hversion ▸ h.version_le)
    exact ⟨hinv.db, hinv.cache, hinv.version_le,
      fun x hx => hinv.pending x (List.mem_of_mem_eraseIdx hx), hinv.sync, hinv.reloads,
      fun x hx => ⟨(hinv.holder x hx).snapshot, (hinv.holder x hx).version,
        (hinv.holder x hx).sync⟩⟩

theorem CacheInv.setReloads (h : CacheInv w) {reloads : List (Reload φ ν)}
    (hok : ∀ r ∈ reloads, r.Ok w.db w.limit w.cache) : CacheInv { w with reloads := reloads } :=
  ⟨h.db, h.cache, h.version_le, h.pending, h.sync, hok,
    fun x hx => ⟨(h.holder x hx).snapshot, (h.holder x hx).version, (h.holder x hx).sync⟩⟩

theorem reloadStep_ok (h : CacheInv w) {i : Nat} {r : Reload φ ν} (hr : w.reloads[i]? = some r) :
    CacheInv (w.reloadStep i r) := by
  have hmem := List.mem_of_getElem? hr
  rw [CacheWorld.reloadStep]
  generalize hmove : w.reloadMove r = move
  have hmoveOk := reloadMove_ok h (h.reloads r hmem)
  rw [hmove] at hmoveOk
  cases hmoveOk with
  | blocked => exact h
  | next r' hr' hreaches =>
    refine h.setReloads fun x hx => ?_
    obtain hx | rfl := List.mem_or_eq_of_mem_set hx
    · exact h.reloads x hx
    · exact hr'
  | lock version rows hfree hversion hsnapshot =>
    refine ⟨h.db, h.cache, h.version_le, h.pending, h.sync,
      fun x hx => h.reloads x (List.mem_of_mem_eraseIdx hx), fun x hx => ?_⟩
    obtain rfl := Option.some.inj hx
    subst hversion
    exact ⟨hsnapshot, h.version_le, nofun⟩
  | done version rows hfree hle hsnapshot hreaches =>
    have hinv := h.load hfree hle hsnapshot
    exact hinv.setReloads fun x hx => hinv.reloads x (List.mem_of_mem_eraseIdx hx)

theorem lockedInstall_ok (h : CacheInv w) {x : Holder φ ν} (hx : w.holder = some x) :
    StepOk (w.lockedInstall x) := by
  obtain ⟨hsnapshot, hle, hsync⟩ := h.holder x hx
  have hreleased : CacheInv { w with holder := none } :=
    ⟨h.db, h.cache, h.version_le, h.pending, h.sync, h.reloads, nofun⟩
  have hinv := hreleased.load rfl hle hsnapshot
  rw [CacheWorld.lockedInstall]
  cases hfor : x.forSync with
  | false => exact ⟨hinv, nofun⟩
  | true =>
    obtain ⟨s, current, hs, hlocked, hcurrent⟩ := hsync hfor
    rw [if_pos rfl, hs]
    refine ⟨⟨hinv.db, hinv.cache, hinv.version_le, hinv.pending, nofun, hinv.reloads, nofun⟩,
      fun version hversion => ?_⟩
    injection hversion with hversion
    injection hversion with _ hread
    split_ifs at hread with hnone
    rw [CacheWorld.lockedTarget, hlocked] at hread
    rw [← Option.some.inj hread]
    exact hcurrent (Option.isNone_iff_eq_none.mp hnone)

theorem cacheStep_ok (h : CacheInv w) {l : CacheLabel φ ν} (htime : AppliesInTime w l)
    (hwindow : MergesInWindow w l) : StepOk (cacheStep w l) := by
  cases l with
  | statement s => exact ⟨ofStatement h s nofun, nofun⟩
  | prune version =>
    have hinv : CacheInv { w with db := w.db.prune version, pending := w.pending ++ [] } :=
      h.evolve (h.db.prune version) (evolves_prune w.db version) nofun
    rw [List.append_nil] at hinv
    exact ⟨hinv, nofun⟩
  | writeRows s =>
    refine ⟨ofStatement h s fun a ha => ?_, nofun⟩
    obtain rfl := List.mem_singleton.mp ha
    exact ⟨committedRows_ok h.db s, Nat.le_refl _⟩
  | writeFields s id keys => exact ⟨ofStatement h s (committedFields_ok w s id keys), nofun⟩
  | writeRemoval ids =>
    refine ⟨ofStatement h (.delete ids) fun a ha => ?_, nofun⟩
    obtain rfl := List.mem_singleton.mp ha
    exact ⟨fun id hid => .inr (get?_exec_delete h.db hid), Nat.le_refl _⟩
  | writeClear =>
    refine ⟨ofStatement h (.delete (w.db.rows.rows.map ChatRow.id)) fun a ha => ?_, nofun⟩
    obtain rfl := List.mem_singleton.mp ha
    exact ⟨fun r hr => absurd hr (exec_clear h.db r), Nat.le_refl _⟩
  | apply i =>
    refine ⟨apply_ok h htime hwindow, ?_⟩
    rw [cacheStep]
    split <;> nofun
  | beginSync force requested recent =>
    rw [cacheStep]
    cases hs : w.sync with
    | some s => exact ⟨h, nofun⟩
    | none =>
      refine ⟨⟨h.db, h.cache, h.version_le, h.pending, fun s' hs' => ?_, h.reloads, fun x hx => ?_⟩,
        nofun⟩
      · obtain rfl := Option.some.inj hs'
        exact ⟨trivial, fun _ => trivial⟩
      · refine ⟨(h.holder x hx).snapshot, (h.holder x hx).version, fun hfor => ?_⟩
        obtain ⟨s, -, hsome, -⟩ := (h.holder x hx).sync hfor
        rw [hs] at hsome
        cases hsome
  | sync =>
    rw [cacheStep]
    cases hs : w.sync with
    | none => exact ⟨h, nofun⟩
    | some s => exact syncStep_ok h hs (hwindow s hs)
  | failSync =>
    rw [cacheStep]
    cases hs : w.sync with
    | none => exact ⟨h, nofun⟩
    | some s =>
      dsimp only
      split_ifs with hlocked
      · exact ⟨h, nofun⟩
      · refine ⟨h.setSync hs (fun current hp => hlocked ?_) nofun, nofun⟩
        rw [CacheWorld.lockedTarget, hp]
        rfl
  | beginReload =>
    refine ⟨h.setReloads fun r hr => ?_, nofun⟩
    obtain hr | hr := List.mem_append.mp hr
    · exact h.reloads r hr
    · rw [List.mem_singleton.mp hr]
      trivial
  | reload i =>
    rw [cacheStep]
    cases hr : w.reloads[i]? with
    | none => exact ⟨h, nofun⟩
    | some r => exact ⟨reloadStep_ok h hr, nofun⟩
  | failReload i =>
    exact ⟨h.setReloads fun r hr => h.reloads r (List.mem_of_mem_eraseIdx hr), nofun⟩
  | install =>
    rw [cacheStep]
    cases hx : w.holder with
    | none => exact ⟨h, nofun⟩
    | some x => exact lockedInstall_ok h hx

theorem CacheInv.start (limit : Nat) (h : db.Ok) : CacheInv (CacheWorld.start limit db) :=
  ⟨h, load_faithful h limit _, Nat.le_refl _, nofun, nofun, nofun, nofun⟩

/-! ## Every run -/

/-- The cached rows are the last rows of the transcript, as they are stored. -/
def Fresh (w : CacheWorld φ ν) : Prop :=
  w.cache.rows <:+ w.db.transcript ∧ w.cache.rows.length ≤ max 1 w.limit

/-- A call that returns true while the tables are at the version that it read, and no local apply is
due, leaves a fresh cache. -/
def FreshOnReturn (w : CacheWorld φ ν) (l : CacheLabel φ ν) : Prop :=
  ∀ version, (cacheStep w l).2 = some ⟨true, some version⟩ → (cacheNext w l).db.version = version →
    (cacheNext w l).pending = [] → Fresh (cacheNext w l)

/-- The cache is fresh whenever a call returns true, in every run in which no local apply is
overtaken and rows older than the window are merged only while the window is full. -/
theorem hot_cache_fresh_on_return (limit : Nat) (db : ChatDb φ ν) (hdb : db.Ok)
    (labels : List (CacheLabel φ ν)) (l : CacheLabel φ ν)
    (htime : Runs.Along cacheNext AppliesInTime (CacheWorld.start limit db) (labels ++ [l]))
    (hwindow : Runs.Along cacheNext MergesInWindow (CacheWorld.start limit db) (labels ++ [l])) :
    FreshOnReturn (Runs.run cacheNext (CacheWorld.start limit db) labels) l := by
  rw [Runs.along_append] at htime hwindow
  have hinv : CacheInv (Runs.run cacheNext (CacheWorld.start limit db) labels) :=
    Runs.invariant CacheInv (fun w l h hok => (cacheStep_ok h hok.1 hok.2).1) (.start limit hdb)
      (Runs.along_and htime.1 hwindow.1)
  obtain ⟨hnext, hreturn⟩ := cacheStep_ok hinv htime.2.1 hwindow.2.1
  intro version hresult hversion _
  have hle := hreturn version hresult
  have heq : (cacheNext (Runs.run cacheNext (CacheWorld.start limit db) labels) l).cache.version =
      (cacheNext (Runs.run cacheNext (CacheWorld.start limit db) labels) l).db.version :=
    Nat.le_antisymm hnext.version_le (hversion ▸ hle)
  exact ⟨hnext.cache.suffix hnext.db heq, hnext.cache.length⟩

section Examples

instance (w : CacheWorld φ ν) : ∀ l, Decidable (AppliesInTime w l)
  | .apply i =>
    inferInstanceAs (Decidable (∀ a ∈ w.pending[i]?, a.NotOvertaken w.db w.cache.version))
  | .statement _ | .prune _ | .writeRows _ | .writeFields _ _ _ | .writeRemoval
    _ | .writeClear | .beginSync _ _ _ | .sync
  | .failSync | .beginReload | .reload _ | .failReload _ | .install => isTrue trivial

instance (limit : Nat) (c : Cache φ ν) : ∀ a : LocalApply φ ν, Decidable (a.InWindow limit c)
  | .rows _ rs => inferInstanceAs (Decidable (WindowFull limit c.edge (c.mergeRows rs).rows))
  | .fields _ _ _ | .removed _ _ | .cleared _ => isTrue trivial

instance (limit : Nat) (c : Cache φ ν) : ∀ s : Sync φ ν, Decidable (s.InWindow limit c)
  | ⟨_, _, _, _, .install _ generation _ events rows⟩ =>
    inferInstanceAs (Decidable (c.generation = generation →
        WindowFull limit c.edge (replay rows c.index events).rows))
  | ⟨_, _, _, _, .base⟩ | ⟨_, _, _, _, .readVersion _ _⟩ | ⟨_, _, _, _, .readEvents _ _ _⟩ | ⟨_, _,
    _, _, .readRows _ _ _ _⟩
  | ⟨_, _, _, _, .reload _ _⟩ | ⟨_, _, _, _, .locked _⟩ => isTrue trivial

instance (w : CacheWorld φ ν) : ∀ l, Decidable (MergesInWindow w l)
  | .apply i => inferInstanceAs (Decidable (∀ a ∈ w.pending[i]?, a.InWindow w.limit w.cache))
  | .sync => inferInstanceAs (Decidable (∀ s ∈ w.sync, s.InWindow w.limit w.cache))
  | .statement _ | .prune _ | .writeRows _ | .writeFields _ _ _ | .writeRemoval
    _ | .writeClear | .beginSync _ _ _
  | .failSync | .beginReload | .reload _ | .failReload _ | .install => isTrue trivial

def emptyDb : ChatDb Unit Nat := ⟨Table.empty, 1, 0, [], 0, fun _ => none⟩

theorem emptyDb_ok : emptyDb.Ok := ⟨⟨nofun, fun _ _ => rfl⟩, rfl, nofun⟩

def message (id : String) (value : Nat) : NewRow Unit Nat := ⟨id, 0, fun _ => some value⟩

/-- A forced call up to its last step, with a point read of rows. -/
def forcedSync : List (CacheLabel Unit Nat) := [.beginSync true none false, .sync, .sync, .sync,
    .sync]

/-- A message of this worker is applied before another worker's change of it arrives. -/
def timelyRun : List (CacheLabel Unit Nat) :=
  [.writeRows (.insert [message "a" 1]), .apply 0, .statement (.update [("a", fun _ => some 2)])] ++
    forcedSync

theorem hot_cache_fresh_on_return_timely :
    (cacheStep (Runs.run cacheNext (CacheWorld.start 2 emptyDb) timelyRun) .sync).2 = some ⟨true,
      some 2⟩ ∧ FreshOnReturn (Runs.run cacheNext (CacheWorld.start 2 emptyDb) timelyRun) .sync :=
  ⟨by
    decide, hot_cache_fresh_on_return 2 emptyDb emptyDb_ok timelyRun .sync (by decide) (by decide)⟩

/-- With room for two messages, the newest of four is deleted and then the oldest is changed. -/
def gapRun : List (CacheLabel Unit Nat) :=
  [.statement (.insert [message "a" 1, message "b" 1, message "c" 1, message "d" 1])] ++
    forcedSync ++ [.sync] ++
    [.statement (.delete ["d"]), .beginSync true none false, .sync, .sync, .sync, .sync] ++
    [.statement (.update [("a", fun _ => some 2)])] ++ forcedSync

/-- A change of this worker is applied after another worker's later change has been synced. -/
def overtakenRun : List (CacheLabel Unit Nat) :=
  [.statement (.insert [message "a" 1]), .writeRows (.update [("a", fun _ => some 2)]),
    .statement (.update [("a", fun _ => some 3)])] ++ forcedSync ++ [.sync, .apply 0,
      .beginSync true none false, .sync]

/-- The call returns true with the messages `a` and `c` of `a`, `b`, `c`; and with an old state of
the only message. -/
theorem hot_cache_not_fresh :
    (Runs.Along cacheNext AppliesInTime (CacheWorld.start 2 emptyDb) (gapRun ++ [.sync]) ∧
        ¬ FreshOnReturn (Runs.run cacheNext (CacheWorld.start 2 emptyDb) gapRun) .sync) ∧
      Runs.Along cacheNext MergesInWindow (CacheWorld.start 2 emptyDb) (overtakenRun ++ [.sync]) ∧
        ¬ FreshOnReturn (Runs.run cacheNext (CacheWorld.start 2 emptyDb) overtakenRun) .sync := by
  refine ⟨⟨by decide, fun h => ?_⟩, by decide, fun h => ?_⟩
  · have hfresh := h 3 (by decide) (by decide) rfl
    exact absurd (hfresh.1.map ChatRow.id) (by decide)
  · have hfresh := h 3 (by decide) (by decide) rfl
    exact absurd (hfresh.1.map fun r => r.doc ()) (by decide)

end Examples

end HotChat

end Feedling
