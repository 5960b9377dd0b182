import Feedling.Runs
import Feedling.Workspace

/-!
# Optimistic concurrency on the workspace

Any number of clients read, write and delete. A client passes the revision that its latest read of
the path returned, `0` if it found the path missing. The world remembers, besides the entries, what
each client saw last and how often each path was changed; the count is what the revision of a path
stands for, and it differs from it because a path that is deleted starts again at `0`.
-/

namespace Feedling

open Runs

/-- What the latest read of a path told its client. -/
structure Sight where
  client : Nat
  path : String
  revision : Nat
  /-- How many writes and deletes of the path had succeeded by then. -/
  changes : Nat
  deriving DecidableEq, Repr

structure HistoryWorld where
  entries : Entries
  changes : String → Nat
  sights : List Sight

inductive HistoryLabel where
  | read (client : Nat) (raw : String)
  | write (client : Nat) (raw content : String)
  | delete (client : Nat) (raw : String)
  deriving DecidableEq, Repr

namespace HistoryWorld

def start (ws : Entries) : HistoryWorld := ⟨ws, fun _ => 0, []⟩

def latest (w : HistoryWorld) (client : Nat) (path : String) : Option Sight :=
  w.sights.find? fun s => s.client == client && s.path == path

/-- The revision that a read of the path shows, if the path is one. -/
def shown (w : HistoryWorld) (raw : String) : Option (String × Nat) :=
  match (canonicalPath raw false).toOption, Backend.read w.entries raw with
  | some path, .ok e => some (path, e.revision)
  | some path, .error .notFound => some (path, 0)
  | _, _ => none

/-- The client replaces what it saw of the path before. -/
def look (w : HistoryWorld) (client : Nat) (raw : String) : HistoryWorld :=
  match w.shown raw with
  | some (path, revision) =>
    { w with sights := ⟨client, path, revision, w.changes path⟩ ::
        w.sights.filter fun s => !(s.client == client && s.path == path) }
  | none => w

/-- A successful write or delete: its path, its client's latest sight of it and the entries it
leaves. -/
def mutated (backend : Backend) (w : HistoryWorld) :
    HistoryLabel → Option (String × Sight × Entries)
  | .read _ _ => none
  | .write client raw content => do
    let path ← (canonicalPath raw false).toOption
    let sight ← w.latest client path
    let (ws, _) ← (Backend.write w.entries raw content sight.revision).toOption
    return (path, sight, ws)
  | .delete client raw => do
    let path ← (canonicalPath raw false).toOption
    let sight ← w.latest client path
    let ws ← (backend.delete w.entries raw sight.revision).toOption
    return (path, sight, ws)

def step (backend : Backend) (w : HistoryWorld) : HistoryLabel → HistoryWorld
  | .read client raw => w.look client raw
  | l =>
    match w.mutated backend l with
    | some (path, _, ws) =>
      { w with entries := ws, changes := Function.update w.changes path (w.changes path + 1) }
    | none => w

/-- If the call succeeds, its path was not changed since its client's latest read. -/
def NoLostUpdate (backend : Backend) (w : HistoryWorld) (l : HistoryLabel) : Prop :=
  ∀ path sight ws, w.mutated backend l = some (path, sight, ws) → sight.changes = w.changes path

/-- No call can lose an update in this state. -/
def Safe (backend : Backend) (w : HistoryWorld) : Prop := ∀ l, NoLostUpdate backend w l

/-- The revision of a path after a call on it that succeeds: a write counts up from the stored one,
and a file that is deleted has none. -/
def nextRevision (w : HistoryWorld) (path : String) : HistoryLabel → Nat
  | .write .. => revisionOf (w.entries path) + 1
  | _ => 0

/-- A successful write or delete does not bring its path to a revision (`0` if missing) that the
latest read of some client returned. -/
def RevisionUnseen (backend : Backend) (w : HistoryWorld) (l : HistoryLabel) : Prop :=
  ∀ path, (w.mutated backend l).map (·.1) = some path →
    ∀ s ∈ w.sights, s.path = path → s.revision ≠ w.nextRevision path l

/-! ## What a call does -/

variable {backend : Backend} {w : HistoryWorld}

variable {raw path : String} {ws ws' : Entries} {expected : Nat}

/-- A write that succeeds replaces one cell, whose revision it expected and counts up. -/
theorem write_spec {raw content : String} {e : Entry}
    (h : Backend.write ws raw content expected = .ok (ws', e)) :
    ∃ path, modelWritablePath raw = .ok path ∧ ws' = Function.update ws path (some e) ∧
      revisionOf (ws path) = expected ∧ e.revision = revisionOf (ws path) + 1 := by
  cases hp : modelWritablePath raw with
  | error err => simp [Backend.write, hp, bind, Except.bind] at h
  | ok path =>
    cases hk : kindForPath path with
    | error err => simp [Backend.write, hp, hk, bind, Except.bind] at h
    | ok kind =>
      simp only [Backend.write, hp, hk, bind, Except.bind, pure, Except.pure, throw, throwThe,
        MonadExceptOf.throw] at h
      cases hfits : contentFits path content with
      | false => simp [hfits] at h
      | true =>
        simp only [hfits, Bool.not_true, Bool.false_eq_true, if_false] at h
        by_cases hart : kind = .artifact
        · simp [putWorkspaceEntryCas, hart] at h
        · by_cases hrev : (revisionOf (ws path) : Int) = expected
          · simp [putWorkspaceEntryCas, putCell, hart, hrev] at h
            exact ⟨path, rfl, h.2 ▸ h.1.symm, by exact_mod_cast hrev, by rw [← h.2]⟩
          · simp [putWorkspaceEntryCas, putCell, hart, hrev] at h

theorem delete_spec
    (h : backend.delete ws raw expected = .ok ws') :
    ∃ path, modelWritablePath raw = .ok path ∧ ws' = Function.update ws path none ∧
      revisionOf (ws path) = expected := by
  cases hp : modelWritablePath raw with
  | error err => simp [Backend.delete, hp, bind, Except.bind] at h
  | ok path =>
    cases hcell : ws path with
    | none =>
      cases backend <;>
        simp [Backend.delete, hp, hcell, deleteWorkspaceEntryCas, deletes, bind, Except.bind, throw,
          throwThe, MonadExceptOf.throw] at h
    | some e =>
      cases hdel : deletes expected (some e) with
      | true =>
        have hrev : e.revision = expected := by
          simp only [deletes, Option.any_some, Bool.and_eq_true, decide_eq_true_eq] at hdel
          exact_mod_cast hdel.2
        refine ⟨path, rfl, ?_, by simpa [hcell] using hrev⟩
        cases backend <;>
          simpa [Backend.delete, hp, hcell, deleteWorkspaceEntryCas, hdel, bind, Except.bind, pure,
            Except.pure, eq_comm] using h
      | false =>
        cases backend <;>
          simp [Backend.delete, hp, hcell, deleteWorkspaceEntryCas, hdel, bind, Except.bind, throw,
            throwThe, MonadExceptOf.throw] at h

theorem latest_spec {client : Nat} {s : Sight} (h : w.latest client path = some s) :
    s ∈ w.sights ∧ s.path = path := by
  have hfound := List.find?_some h
  simp only [Bool.and_eq_true, beq_iff_eq] at hfound
  exact ⟨List.mem_of_find?_eq_some h, hfound.2⟩

/-- A call succeeds if its client saw the revision that the path has, and changes that path only. -/
theorem mutated_spec {l : HistoryLabel} {sight : Sight}
    (h : w.mutated backend l = some (path, sight, ws)) :
    sight ∈ w.sights ∧ sight.path = path ∧ sight.revision = revisionOf (w.entries path) ∧
      modelWritablePath path = .ok path ∧
      ∃ cell, ws = Function.update w.entries path cell ∧
        revisionOf cell = w.nextRevision path l := by
  cases l with
  | read client raw => cases h
  | write client raw content =>
    simp only [mutated, Option.bind_eq_bind, Option.bind_eq_some_iff, Option.pure_def,
      Option.some.injEq, Prod.mk.injEq] at h
    obtain ⟨path, hpath, sight, hsight, ⟨ws, e⟩, hwrite, rfl, rfl, rfl⟩ := h
    have hok : Backend.write w.entries raw content sight.revision = .ok (ws, e) := by
      cases hw : Backend.write w.entries raw content sight.revision with
      | error err => simp [hw, Except.toOption] at hwrite
      | ok r => simpa [hw, Except.toOption] using hwrite
    obtain ⟨p, hp, hws, hrev, hnext⟩ := write_spec hok
    rw [(modelWritablePath_inv hp).1] at hpath
    cases hpath
    exact ⟨(latest_spec hsight).1, (latest_spec hsight).2, hrev.symm, modelWritablePath_again hp, _,
      hws, hnext⟩
  | delete client raw =>
    simp only [mutated, Option.bind_eq_bind, Option.bind_eq_some_iff, Option.pure_def,
      Option.some.injEq, Prod.mk.injEq] at h
    obtain ⟨path, hpath, sight, hsight, ws, hdelete, rfl, rfl, rfl⟩ := h
    have hok : backend.delete w.entries raw sight.revision = .ok ws := by
      cases hd : backend.delete w.entries raw sight.revision with
      | error err => simp [hd, Except.toOption] at hdelete
      | ok r => simpa [hd, Except.toOption] using hdelete
    obtain ⟨p, hp, hws, hrev⟩ := delete_spec hok
    rw [(modelWritablePath_inv hp).1] at hpath
    cases hpath
    exact ⟨(latest_spec hsight).1, (latest_spec hsight).2, hrev.symm, modelWritablePath_again hp, _,
      hws, rfl⟩

theorem write_succeeds (ws : Entries) (h : modelWritablePath path = .ok path) :
    ∃ r, Backend.write ws path "" (revisionOf (ws path)) = .ok r := by
  obtain ⟨-, kind, hk, hart⟩ := modelWritablePath_inv h
  have hfits : contentFits path "" = true := by
    by_cases hp : path = workingMemoryPath <;> simp [contentFits, hp, maxWorkingMemoryBytes,
      maxContentBytes]
  simp [Backend.write, h, hk, hfits, putWorkspaceEntryCas, putCell, hart, bind, Except.bind, pure,
    Except.pure]

theorem read_of_canonical (h : canonicalPath raw false = .ok path) :
    Backend.read ws raw = match ws path with
      | some e => .ok e
      | none => .error .notFound := by
  rw [Backend.read, h]
  rfl

theorem shown_of_canonical (h : canonicalPath raw false = .ok path) :
    w.shown raw = some (path, revisionOf (w.entries path)) := by
  unfold shown
  rw [read_of_canonical h, h]
  cases w.entries path with
  | none => rfl
  | some e => rfl

theorem shown_spec {revision : Nat} (h : w.shown raw = some (path, revision)) :
    revision = revisionOf (w.entries path) := by
  cases hc : canonicalPath raw false with
  | error e =>
    have hnone : w.shown raw = none := by
      unfold shown
      rw [hc]
      rfl
    rw [hnone] at h
    cases h
  | ok p =>
    rw [shown_of_canonical hc] at h
    cases h
    rfl

/-! ## What holds whatever the clients do -/

structure Inv (w : HistoryWorld) : Prop where
  latest : ∀ s ∈ w.sights, w.latest s.client s.path = some s
  past : ∀ s ∈ w.sights, s.changes ≤ w.changes s.path
  fresh : ∀ s ∈ w.sights, s.changes = w.changes s.path → s.revision = revisionOf (w.entries s.path)
  writable : ∀ path, 0 < w.changes path → modelWritablePath path = .ok path

/-- A sight that is out of date shows another revision than the path has. -/
def Apart (w : HistoryWorld) : Prop :=
  ∀ s ∈ w.sights, s.changes = w.changes s.path ∨ s.revision ≠ revisionOf (w.entries s.path)

theorem start_inv (ws : Entries) : Inv (start ws) := by
  constructor <;> simp [start]

theorem mem_look {client : Nat} {s : Sight} (h : s ∈ (w.look client raw).sights) :
    s ∈ w.sights ∨ (s.revision = revisionOf (w.entries s.path) ∧ s.changes = w.changes s.path) := by
  unfold look at h
  cases hs : w.shown raw with
  | none => exact .inl (by simpa [hs] using h)
  | some r =>
    simp only [hs, List.mem_cons] at h
    obtain rfl | h := h
    · exact .inr ⟨shown_spec hs, rfl⟩
    · exact .inl (List.mem_filter.mp h).1

theorem look_rest (client : Nat) (raw : String) :
    (w.look client raw).entries = w.entries ∧ (w.look client raw).changes = w.changes := by
  unfold look
  cases w.shown raw with
  | none => exact ⟨rfl, rfl⟩
  | some r => exact ⟨rfl, rfl⟩

theorem look_latest (hi : Inv w) (client : Nat) (raw : String) :
    ∀ s ∈ (w.look client raw).sights, (w.look client raw).latest s.client s.path = some s := by
  intro s h
  unfold look at h ⊢
  cases hs : w.shown raw with
  | none =>
    simp only [hs] at h ⊢
    exact hi.latest s h
  | some r =>
    simp only [hs, List.mem_cons] at h
    obtain rfl | h := h
    · simp [latest]
    · obtain ⟨hmem, hother⟩ := List.mem_filter.mp h
      have hfind := hi.latest s hmem
      rw [latest] at hfind ⊢
      have hne : (client == s.client && r.1 == s.path) = false := by
        cases hkey : client == s.client && r.1 == s.path with
        | false => rfl
        | true =>
          obtain ⟨rfl, hpath⟩ : client = s.client ∧ r.1 = s.path := by simpa using hkey
          simp [hpath] at hother
      rw [List.find?_cons_of_neg (by simpa using hne), List.find?_filter, ← hfind]
      congr 1
      funext s'
      cases hkey : s'.client == s.client && s'.path == s.path with
      | false => simp
      | true =>
        obtain ⟨h1, h2⟩ : s'.client = s.client ∧ s'.path = s.path := by simpa using hkey
        simpa [h1, h2] using hother

theorem look_inv (hi : Inv w) (client : Nat) (raw : String) : Inv (w.look client raw) := by
  obtain ⟨hentries, hchanges⟩ := look_rest (w := w) client raw
  constructor
  · exact look_latest hi client raw
  · intro s hs
    rw [hchanges]
    obtain hs | ⟨-, hnow⟩ := mem_look hs
    · exact hi.past s hs
    · omega
  · intro s hs
    rw [hentries, hchanges]
    obtain hs | ⟨hrev, -⟩ := mem_look hs
    · exact hi.fresh s hs
    · exact fun _ => hrev
  · rw [hchanges]
    exact hi.writable

theorem look_apart (ha : Apart w) (client : Nat) (raw : String) : Apart (w.look client raw) := by
  obtain ⟨hentries, hchanges⟩ := look_rest (w := w) client raw
  intro s hs
  rw [hentries, hchanges]
  obtain hs | ⟨-, hnow⟩ := mem_look hs
  · exact ha s hs
  · exact .inl hnow

def change (w : HistoryWorld) (path : String) (ws : Entries) : HistoryWorld :=
  { w with entries := ws, changes := Function.update w.changes path (w.changes path + 1) }

theorem step_cases (backend : Backend) (w : HistoryWorld) (l : HistoryLabel) :
    (∃ client raw, l = .read client raw ∧ w.step backend l = w.look client raw) ∨
    (∃ path sight ws, w.mutated backend l = some (path, sight, ws) ∧
      w.step backend l = w.change path ws) ∨
    (w.mutated backend l = none ∧ w.step backend l = w) := by
  cases l with
  | read client raw => exact .inl ⟨client, raw, rfl, rfl⟩
  | write | delete =>
    right
    cases hm : w.mutated backend _ with
    | none => exact .inr ⟨rfl, by simp [step, hm]⟩
    | some r => exact .inl ⟨r.1, r.2.1, r.2.2, rfl, by simp [step, hm, change]⟩

section Change

variable {path : String} {cell : Option Entry}

theorem change_inv (hi : Inv w) (hw : modelWritablePath path = .ok path) :
    Inv (w.change path (Function.update w.entries path cell)) := by
  constructor
  · exact hi.latest
  · intro s hs
    have hle := hi.past s hs
    by_cases hp : s.path = path
    · subst hp
      simp only [change, Function.update_self]
      omega
    · simpa [change, hp] using hle
  · intro s hs hnow
    by_cases hp : s.path = path
    · subst hp
      have hle := hi.past s hs
      simp only [change, Function.update_self] at hnow
      omega
    · simp only [change, Function.update_of_ne hp] at hnow ⊢
      exact hi.fresh s hs hnow
  · intro p hpos
    by_cases hp : p = path
    · exact hp ▸ hw
    · exact hi.writable p (by simpa [change, hp] using hpos)

theorem change_apart (hi : Inv w) (ha : Apart w) :
    Apart (w.change path (Function.update w.entries path cell)) ↔
      ∀ s ∈ w.sights, s.path = path → s.revision ≠ revisionOf cell := by
  constructor
  · intro h s hs hp
    subst hp
    have hle := hi.past s hs
    have hs' := h s hs
    simp only [change, Function.update_self] at hs'
    obtain hnow | hne := hs'
    · omega
    · exact hne
  · intro h s hs
    by_cases hp : s.path = path
    · right
      subst hp
      simpa [change] using h s hs rfl
    · simpa [change, hp] using ha s hs

end Change

theorem step_inv (hi : Inv w) (l : HistoryLabel) : Inv (w.step backend l) := by
  obtain ⟨client, raw, -, hstep⟩ | ⟨path, sight, ws, hm, hstep⟩ | ⟨-, hstep⟩ :=
    step_cases backend w l
  · rw [hstep]
    exact look_inv hi client raw
  · obtain ⟨-, -, -, hw, cell, rfl, -⟩ := mutated_spec hm
    rw [hstep]
    exact change_inv hi hw
  · rw [hstep]
    exact hi

theorem step_apart (hi : Inv w) (ha : Apart w) (l : HistoryLabel) :
    Apart (w.step backend l) ↔ RevisionUnseen backend w l := by
  obtain ⟨client, raw, rfl, hstep⟩ | ⟨path, sight, ws, hm, hstep⟩ | ⟨hm, hstep⟩ :=
    step_cases backend w l
  · rw [hstep]
    exact ⟨fun _ _ hm => (by cases hm), fun _ => look_apart ha client raw⟩
  · obtain ⟨-, -, -, -, cell, rfl, hnext⟩ := mutated_spec hm
    rw [hstep, change_apart hi ha, hnext, RevisionUnseen, hm]
    exact ⟨fun h p hp => by cases hp; exact h, fun h => h path rfl⟩
  · rw [hstep, RevisionUnseen, hm]
    exact ⟨fun _ _ hp => (by cases hp), fun _ => ha⟩

/-- A state is safe just when every sight that is out of date shows another revision. -/
theorem safe_iff_apart (hi : Inv w) : Safe backend w ↔ Apart w := by
  constructor
  · intro h s hs
    by_contra hcontra
    simp only [not_or, not_not] at hcontra
    obtain ⟨hstale, hrev⟩ := hcontra
    have hle := hi.past s hs
    -- the client of the sight could write an empty file now
    have hw := hi.writable s.path (by omega)
    obtain ⟨r, hr⟩ := write_succeeds w.entries hw
    have hm : w.mutated backend (.write s.client s.path "") = some (s.path, s, r.1) := by
      rw [← hrev] at hr
      simp [mutated, (modelWritablePath_inv hw).1, hi.latest s hs, hr, Except.toOption]
    exact hstale (h _ _ _ _ hm)
  · intro ha l path sight ws hm
    obtain ⟨hs, rfl, hrev, -⟩ := mutated_spec hm
    obtain hnow | hne := ha sight hs
    · exact hnow
    · exact absurd hrev hne

theorem run_apart_iff (hi : Inv w) (ha : Apart w) (ls : List HistoryLabel) :
    (∀ n, Apart (run (step backend) w (ls.take n))) ↔
      Along (step backend) (RevisionUnseen backend) w ls := by
  induction ls generalizing w with
  | nil => simpa using ha
  | cons l ls ih =>
    rw [along_cons, ← step_apart hi ha]
    constructor
    · intro h
      have hfirst : Apart (w.step backend l) := by simpa using h 1
      refine ⟨hfirst, (ih (step_inv hi l) hfirst).mp ?_⟩
      intro n
      simpa using h (n + 1)
    · rintro ⟨hfirst, hrest⟩ n
      cases n with
      | zero => exact ha
      | succ n => simpa using (ih (step_inv hi l) hfirst).mpr hrest n

/-- In no state of a run can a call lose an update, just when no step of the run brings a path back
to a revision that the latest read of some client returned. -/
theorem no_lost_update_iff (backend : Backend) (ws : Entries) (ls : List HistoryLabel) :
    (∀ n, Safe backend (run (step backend) (start ws) (ls.take n))) ↔
      Along (step backend) (RevisionUnseen backend) (start ws) ls := by
  rw [← run_apart_iff (start_inv ws) (by simp [Apart, start])]
  have hinv : ∀ n, Inv (run (step backend) (start ws) (ls.take n)) :=
    fun n => invariant_all Inv (fun _ l hi => step_inv hi l) (start_inv ws) _
  exact forall_congr' fun n => safe_iff_apart (hinv n)

/-- Client 0 writes a draft, deletes it and writes the final text; client 1 has read the draft. -/
def rewritten : List HistoryLabel :=
  [.read 0 "/workspace/p", .write 0 "/workspace/p" "draft", .read 1 "/workspace/p",
    .read 0 "/workspace/p", .delete 0 "/workspace/p", .read 0 "/workspace/p",
    .write 0 "/workspace/p" "final"]

theorem rewritten_counts (backend : Backend) :
    ((run (step backend) (start fun _ => none) rewritten).mutated backend
      (.write 1 "/workspace/p" "edit")).any (fun r => r.2.1.changes == 1 &&
        r.1 == "/workspace/p") = true ∧
    (run (step backend) (start fun _ => none) rewritten).changes "/workspace/p" = 3 := by
  cases backend <;> decide +kernel

/-- Both texts have revision 1, so client 1 overwrites the final text that it never saw. -/
theorem overwritten_text_was_never_read :
    ¬ NoLostUpdate .postgres (run (step .postgres) (start fun _ => none) rewritten)
      (.write 1 "/workspace/p" "edit") ∧
    ¬ NoLostUpdate .inMemory (run (step .inMemory) (start fun _ => none) rewritten)
      (.write 1 "/workspace/p" "edit") := by
  have hlost : ∀ backend,
      ¬ NoLostUpdate backend (run (step backend) (start fun _ => none) rewritten)
        (.write 1 "/workspace/p" "edit") := by
    intro backend h
    obtain ⟨hcall, hcount⟩ := rewritten_counts backend
    obtain ⟨⟨path, sight, ws⟩, hm, hsight⟩ := (Option.any_eq_true _ _).mp hcall
    obtain ⟨hone, rfl⟩ : sight.changes = 1 ∧ path = "/workspace/p" := by simpa using hsight
    have heq := h _ sight ws hm
    rw [hone, hcount] at heq
    cases heq
  exact ⟨hlost .postgres, hlost .inMemory⟩

end HistoryWorld

end Feedling
