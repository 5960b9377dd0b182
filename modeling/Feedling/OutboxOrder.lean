import Feedling.EffectRounds

/-!
# The outbox is a fenced queue per user

Any number of `apply_pending_effects` loops run at the same time. Each works from the list it
read at its start, so its list is stale in general: other loops close, delay or fail the same
rows. What stays true of a list (`Listed`) is that every open effect of the user that is older
than a listed one is listed too. A round that lets its loop go on has closed its row, so the
head of a list is always the oldest open effect of the user when its sink is called.
-/

namespace Feedling

open KeyedTable Runs

/-- A running loop: its user and the ids it has still to visit. -/
structure Drainer where
  user : UserId
  rest : List String
  deriving DecidableEq, Repr

/-- The database, the loops by process, and the ids whose sink was called, newest first. -/
structure DrainWorld where
  db : Db
  drainers : Nat → Option Drainer
  dispatches : List String

inductive DrainLabel where
  | enqueue (r : EffectRequest) (claimedBy : Option WorkerId)
  | txn (t : Txn)
  | claim (p : Pick)
  | drain (pid : Nat) (u : UserId)
  | round (pid : Nat) (d : Delivery)
  | stop (pid : Nat)

namespace DrainWorld

def setDrainer (w : DrainWorld) (pid : Nat) (o : Option Drainer) : Nat → Option Drainer :=
  fun q => if q = pid then o else w.drainers q

def step (cfg : Config) (w : DrainWorld) : DrainLabel → DrainWorld
  | .enqueue r claimedBy => { w with db := (w.db.effectEnqueue r claimedBy).1 }
  | .txn t => { w with db := Db.exec cfg w.db t }
  | .claim p => { w with db := Db.claimStep cfg w.db p }
  | .drain pid u => { w with drainers := w.setDrainer pid (some ⟨u, w.db.effectPending u⟩) }
  | .round pid d =>
    match w.drainers pid with
    | some ⟨u, eid :: rest⟩ =>
      let r := Db.applyEffect cfg w.db u eid d
      { db := r.db
        drainers := w.setDrainer pid (if r.continues then some ⟨u, rest⟩ else none)
        dispatches := if r.dispatched then eid :: w.dispatches else w.dispatches }
    | _ => w
  | .stop pid => { w with drainers := w.setDrainer pid none }

def start (db : Db) : DrainWorld := ⟨db, fun _ => none, []⟩

end DrainWorld

/-! ## How the outbox changes -/

/-- Effects are never removed, keep what identifies them, and stay closed once closed. New ones
are the youngest. -/
structure OutboxGrows (db db' : Db) : Prop where
  keeps : ∀ i e, db.effects.find? i = some e → ∃ e', db'.effects.find? i = some e' ∧
    e'.enqueueSeq = e.enqueueSeq ∧ e'.userId = e.userId ∧
      e'.expectedGeneration = e.expectedGeneration ∧
    (e.status.isOpen = false → e' = e)
  young : ∀ i e', db'.effects.find? i = some e' → db.effects.find? i = none →
    db.effects.next ≤ e'.enqueueSeq
  next : db.effects.next ≤ db'.effects.next

namespace OutboxGrows

theorem of_eq {db db' : Db} (h : db'.effects = db.effects) : OutboxGrows db db' where
  keeps i e he := ⟨e, by rw [h]; exact he, rfl, rfl, rfl, fun _ => rfl⟩
  young i e he hn := by rw [h, hn] at he; cases he
  next := by rw [h]

theorem of_write {db db' : Db} {e e' : Effect} (h : EffectWrite db db' e e')
    (hopen : e.status.isOpen = true) : OutboxGrows db db' where
  keeps i x hx := by
    rw [h.find]
    split
    · next hi =>
      rw [hi, h.before] at hx
      cases hx
      refine ⟨e', rfl, h.enqueueSeq, h.userId, h.expectedGeneration, fun hc => ?_⟩
      rw [hopen] at hc
      cases hc
    · exact ⟨x, hx, rfl, rfl, rfl, fun _ => rfl⟩
  young i x hx hn := by
    rw [h.find] at hx
    split at hx
    · next hi => rw [hi, h.before] at hn; cases hn
    · rw [hn] at hx; cases hx
  next := by rw [h.next]

end OutboxGrows

namespace Db

theorem insertEffect_grows (db : Db) (r : EffectRequest) : OutboxGrows db (db.insertEffect r) where
  keeps i e he := by
    refine ⟨e, ?_, rfl, rfl, rfl, fun _ => rfl⟩
    simp only [insertEffect, Indexed.find?_insert, he]
    simp
  young i e he hn := by
    simp only [insertEffect, Indexed.find?_insert, hn] at he
    split at he
    · cases he; exact Nat.le_refl _
    · cases he
  next := by
    simp only [insertEffect, Indexed.insert]
    split
    · exact Nat.le_refl _
    · exact Nat.le_succ _

theorem effectEnqueue_grows (db : Db) (r : EffectRequest) (claimedBy : Option WorkerId) :
    OutboxGrows db (db.effectEnqueue r claimedBy).1 := by
  unfold effectEnqueue
  split
  · exact insertEffect_grows db r
  · split
    · exact insertEffect_grows db r
    · exact .of_eq rfl

/-- The row that the insert writes for the request. -/
structure InsertedFor (db : Db) (r : EffectRequest) (e : Effect) : Prop where
  effectId : e.effectId = r.effectId
  userId : e.userId = r.userId
  jobId : e.jobId = r.jobId
  effectType : e.effectType = r.effectType
  payload : e.payload = r.payload
  frontier : e.inputFrontierSeq = db.filledFrontier r
  attempts : e.attemptCount = 0
  isOpen : e.status.isOpen = true

theorem insertEffect_find? {db : Db} {r : EffectRequest} {i : String} {e : Effect}
    (h : (db.insertEffect r).effects.find? i = some e) :
    db.effects.find? i = some e ∨ db.effects.find? i = none ∧ InsertedFor db r e := by
  simp only [insertEffect, Indexed.find?_insert] at h
  split at h
  · next hn =>
    cases h
    refine .inr ⟨hn.1, rfl, rfl, rfl, rfl, rfl, rfl, rfl, ?_⟩
    dsimp only
    split <;> rfl
  · exact .inl h

theorem effectEnqueue_find? {db : Db} {r : EffectRequest} {claimedBy : Option WorkerId} {i : String}
    {e : Effect} (h : (db.effectEnqueue r claimedBy).1.effects.find? i = some e) :
    db.effects.find? i = some e ∨ db.effects.find? i = none ∧ InsertedFor db r e := by
  unfold effectEnqueue at h
  split at h
  · exact insertEffect_find? h
  · split at h
    · exact insertEffect_find? h
    · exact .inl h

/-- A round changes the outbox only at its own row; if the loop goes on, that row is closed. -/
theorem applyEffect_outbox (cfg : Config) (db : Db) (u : UserId) (eid : String) (d : Delivery) :
    OutboxGrows db (applyEffect cfg db u eid d).db ∧
      ((applyEffect cfg db u eid d).continues = true →
        ∀ e, (applyEffect cfg db u eid d).db.effects.find? eid = some e →
          e.status.isOpen = false) := by
  have hmat := (materializeRuntime_step db u).effects
  obtain ⟨hdb, -, hclosed⟩ | ⟨e, he, hopen, -, hround⟩ := applyEffect_round cfg db u eid d
  · rw [hdb]
    exact ⟨.of_eq hmat, hclosed⟩
  · obtain rfl := (Indexed.find?_eq_some.mp he).2
    obtain ⟨hdb, -, hstop⟩ | ⟨e', hw, hs⟩ := hround.effect he hopen
    · rw [hdb, hstop]
      exact ⟨.of_eq hmat, fun h => nomatch h⟩
    · refine ⟨?_, fun hc x hx => ?_⟩
      · have hgrows := OutboxGrows.of_write hw hopen
        exact ⟨by rw [← hmat]; exact hgrows.keeps, by rw [← hmat]; exact hgrows.young,
          by rw [← hmat]; exact hgrows.next⟩
      · rw [hw.find, if_pos rfl] at hx
        cases hx
        exact hs.closed hc

end Db

/-! ## Lists that stale loops work from -/

/-- The ids of a loop name effects of its user in their order, and with an id every older open
effect of the user is listed. -/
structure Listed (db : Db) (u : UserId) (rest : List String) : Prop where
  rows : ∀ i ∈ rest, ∃ e, db.effects.find? i = some e ∧ e.userId = u
  sorted : rest.Pairwise fun a b => ∀ e e', db.effects.find? a = some e →
    db.effects.find? b = some e' → e.enqueueSeq < e'.enqueueSeq
  covers : ∀ i ∈ rest, ∀ e, db.effects.find? i = some e → ∀ x ∈ db.effects.rows, x.userId = u →
    x.status.isOpen = true → x.enqueueSeq < e.enqueueSeq → x.effectId ∈ rest

namespace Listed

variable {db db' : Db} {u : UserId} {rest : List String}

/-- A list stays good while the outbox grows under it: nothing older can appear or reopen. -/
theorem grows (h : Listed db u rest) (hg : OutboxGrows db db') : Listed db' u rest where
  rows i hi := by
    obtain ⟨e, he, hu⟩ := h.rows i hi
    obtain ⟨e', he', -, hu', -⟩ := hg.keeps i e he
    exact ⟨e', he', hu'.trans hu⟩
  sorted := by
    refine h.sorted.imp_of_mem fun {a b} ha hb hab e e' he he' => ?_
    obtain ⟨x, hx, -⟩ := h.rows a ha
    obtain ⟨y, hy, -⟩ := h.rows b hb
    obtain ⟨x', hx', hxs, -⟩ := hg.keeps a x hx
    obtain ⟨y', hy', hys, -⟩ := hg.keeps b y hy
    rw [he] at hx'
    rw [he'] at hy'
    cases hx'
    cases hy'
    rw [hxs, hys]
    exact hab x y hx hy
  covers i hi e he x hx hu hopen hlt := by
    obtain ⟨e₀, he₀, -⟩ := h.rows i hi
    obtain ⟨e₁, he₁, hseq, -⟩ := hg.keeps i e₀ he₀
    rw [he] at he₁
    cases he₁
    have hxfind := Indexed.mem_rows.mp hx
    cases hold : db.effects.find? x.effectId with
    | none =>
      have hyoung := hg.young _ x hxfind hold
      have hbound := db.effects.bound e₀ (Indexed.find?_eq_some.mp he₀).1
      omega
    | some x₀ =>
      obtain ⟨x₁, hx₁, hxseq, hxu, -, hclosed⟩ := hg.keeps _ x₀ hold
      rw [hxfind] at hx₁
      cases hx₁
      have hid := (Indexed.find?_eq_some.mp hold).2
      have hopen₀ : x₀.status.isOpen = true := by
        by_contra hc
        rw [Bool.not_eq_true] at hc
        rw [hclosed hc, hc] at hopen
        cases hopen
      rw [← hid]
      exact h.covers i hi e₀ he₀ x₀ (Indexed.find?_eq_some.mp hold).1 (hxu ▸ hu) hopen₀ (by omega)

theorem head_oldest {eid : String} (h : Listed db u (eid :: rest)) {e : Effect}
    (he : db.effects.find? eid = some e) {x : Effect} (hx : x ∈ db.effects.rows) (hu : x.userId = u)
    (hlt : x.enqueueSeq < e.enqueueSeq) : x.status.isOpen = false := by
  by_contra hc
  rw [Bool.not_eq_false] at hc
  obtain hmem | hmem := List.mem_cons.mp (h.covers eid (by simp) e he x hx hu hc hlt)
  · have hxfind := Indexed.mem_rows.mp hx
    rw [hmem, he] at hxfind
    cases hxfind
    omega
  · have := (List.pairwise_cons.mp h.sorted).1 x.effectId hmem e x he (Indexed.mem_rows.mp hx)
    omega

theorem tail {eid : String} (h : Listed db u (eid :: rest))
    (hclosed : ∀ e, db.effects.find? eid = some e → e.status.isOpen = false) :
    Listed db u rest where
  rows i hi := h.rows i (by simp [hi])
  sorted := (List.pairwise_cons.mp h.sorted).2
  covers i hi e he x hx hu hopen hlt := by
    obtain hmem | hmem := List.mem_cons.mp (h.covers i (by simp [hi]) e he x hx hu hopen hlt)
    · rw [hclosed x (by rw [← hmem]; exact Indexed.mem_rows.mp hx)] at hopen
      cases hopen
    · exact hmem

end Listed

theorem mem_takeWhile_of_lt {α : Type} {key : α → Nat} {p : α → Bool} {l : List α}
    (hs : l.Pairwise fun a b => key a < key b) {x e : α} (hx : x ∈ l) (he : e ∈ l.takeWhile p)
    (hlt : key x < key e) : x ∈ l.takeWhile p := by
  rw [← List.takeWhile_append_dropWhile (p := p) (l := l), List.pairwise_append] at hs
  rw [← List.takeWhile_append_dropWhile (p := p) (l := l), List.mem_append] at hx
  refine hx.resolve_right fun hd => ?_
  have := hs.2.2 e he x hd
  omega

theorem listed_effectPending (db : Db) (u : UserId) : Listed db u (db.effectPending u) := by
  set open_ := db.effects.rows.filter fun e => e.userId == u && e.status.isOpen with hopen_
  have hsub : (open_.takeWhile db.due).Sublist db.effects.rows :=
    (List.takeWhile_sublist _).trans List.filter_sublist
  have hsorted : open_.Pairwise fun a b => a.enqueueSeq < b.enqueueSeq :=
    db.effects.sorted.sublist List.filter_sublist
  have hmem : ∀ i ∈ db.effectPending u, ∃ e ∈ open_.takeWhile db.due, e.effectId = i ∧
      db.effects.find? i = some e := by
    intro i hi
    obtain ⟨e, he, rfl⟩ := List.mem_map.mp hi
    exact ⟨e, he, rfl, Indexed.mem_rows.mp (hsub.subset he)⟩
  refine ⟨fun i hi => ?_, ?_, fun i hi e he x hx hu hopen hlt => ?_⟩
  · obtain ⟨e, he, -, hfind⟩ := hmem i hi
    have hfilter := List.mem_filter.mp ((List.takeWhile_sublist _).subset he)
    exact ⟨e, hfind, beq_iff_eq.mp (Bool.and_eq_true _ _ ▸ hfilter.2).1⟩
  · rw [Db.effectPending, List.pairwise_map]
    refine ((hsorted.sublist (List.takeWhile_sublist _)).imp_of_mem ?_)
    intro a b ha hb hab e e' he he'
    rw [Indexed.mem_rows.mp (hsub.subset ha)] at he
    rw [Indexed.mem_rows.mp (hsub.subset hb)] at he'
    cases he
    cases he'
    exact hab
  · obtain ⟨e₀, he₀, -, hfind⟩ := hmem i hi
    rw [he] at hfind
    cases hfind
    refine List.mem_map.mpr ⟨x, mem_takeWhile_of_lt hsorted ?_ he₀ hlt, rfl⟩
    exact List.mem_filter.mpr ⟨hx, by simp [hu, hopen]⟩

/-! ## What a call of the sink presupposes -/

namespace Db

@[simp] theorem v2Generation_materializeRuntime (db : Db) (u v : UserId) :
    (db.materializeRuntime u).v2Generation v = db.v2Generation v := by
  unfold materializeRuntime
  split
  · next h =>
    simp only [Bool.and_eq_true, Option.isNone_iff_eq_none] at h
    by_cases hv : v = u
    · subst hv
      simp [v2Generation, h.2, RuntimeState.default]
    · simp [v2Generation, put_other _ _ hv]
  · rfl

theorem runtime_of_v2Generation {db : Db} {u : UserId} {g : Nat} (h : db.v2Generation u = some g) :
    db.runtime u = some ⟨.v2, g⟩ := by
  obtain ⟨s, hs, hg⟩ := Option.bind_eq_some_iff.mp h
  split at hg
  · next hv2 =>
    cases hg
    rw [hs, ← beq_iff_eq.mp hv2]
  · cases hg

/-- The sink is called for an effect that is open, due and of the current generation under `v2`;
unless the round closes it, the failed attempt goes on record. -/
theorem applyEffect_dispatched {cfg : Config} {db : Db} {u : UserId} {eid : String} {d : Delivery}
    (h : (applyEffect cfg db u eid d).dispatched = true) :
    ∃ e, db.effects.find? eid = some e ∧ e.status.isOpen = true ∧ e.nextAttemptAt ≤ db.clock ∧
      db.runtime u = some ⟨.v2, e.expectedGeneration⟩ := by
  have heffects := (materializeRuntime_step db u).effects
  have hclock : (db.materializeRuntime u).clock = db.clock := by
    unfold materializeRuntime; split <;> rfl
  obtain ⟨-, hd, -⟩ | ⟨e, he, hopen, hdue, hround⟩ := applyEffect_round cfg db u eid d
  · rw [hd] at h; cases h
  · have hgen := hround.current_of_dispatched h
    rw [v2Generation_materializeRuntime] at hgen
    rw [due, decide_eq_true_eq, hclock] at hdue
    exact ⟨e, heffects ▸ he, hopen, hdue, runtime_of_v2Generation hgen⟩

/-- How a round moves the attempt count of its row. -/
theorem applyEffect_attempts (cfg : Config) (db : Db) (u : UserId) (eid : String) (d : Delivery)
    {i : String} {e' : Effect} (he' : (applyEffect cfg db u eid d).db.effects.find? i = some e')
    (hopen : e'.status.isOpen = true) :
    ∃ e, db.effects.find? i = some e ∧ e.status.isOpen = true ∧
      (e' = e ∧ (i = eid → (applyEffect cfg db u eid d).dispatched = false) ∨
        e'.attemptCount = e.attemptCount + 1 ∧ e'.attemptCount < effectMaxAttempts) := by
  have heffects := (materializeRuntime_step db u).effects
  obtain ⟨hdb, hd, -⟩ | ⟨e, he, heopen, -, hround⟩ := applyEffect_round cfg db u eid d
  · rw [hdb, heffects] at he'
    exact ⟨e', he', hopen, .inl ⟨rfl, fun _ => hd⟩⟩
  · obtain rfl := (Indexed.find?_eq_some.mp he).2
    obtain ⟨hdb, hd, -⟩ | ⟨x, hw, hs⟩ := hround.effect he heopen
    · rw [hdb, heffects] at he'
      exact ⟨e', he', hopen, .inl ⟨rfl, fun _ => hd⟩⟩
    · rw [heffects] at he
      rw [hw.find, heffects] at he'
      split at he'
      · next hi =>
        cases he'
        exact ⟨e, by rw [hi]; exact he, heopen, .inr (hs.retried hopen)⟩
      · next hi => exact ⟨e', he', hopen, .inl ⟨rfl, fun h => absurd h hi⟩⟩

end Db

/-- Calls on record never exceed the attempts of an open effect, nor the limit. -/
structure Counted (w : DrainWorld) : Prop where
  attempts : ∀ i e, w.db.effects.find? i = some e → e.status.isOpen = true →
    w.dispatches.count i ≤ e.attemptCount ∧ e.attemptCount < Db.effectMaxAttempts
  limit : ∀ i, w.dispatches.count i ≤ Db.effectMaxAttempts
  absent : ∀ i, w.db.effects.find? i = none → w.dispatches.count i = 0

/-- The invariant of the outbox: every loop has a good list, and the calls are counted. -/
structure OutboxInv (w : DrainWorld) : Prop where
  listed : ∀ pid dr, w.drainers pid = some dr → Listed w.db dr.user dr.rest
  counted : Counted w

namespace DrainWorld

variable {cfg : Config} {w : DrainWorld}

theorem listed_setDrainer {db' : Db}
    (h : ∀ pid dr, w.drainers pid = some dr → Listed w.db dr.user dr.rest)
    (hg : OutboxGrows w.db db') {pid : Nat} {o : Option Drainer}
    (ho : ∀ dr, o = some dr → Listed db' dr.user dr.rest) :
    ∀ q dr, w.setDrainer pid o q = some dr → Listed db' dr.user dr.rest := by
  intro q dr hdr
  unfold setDrainer at hdr
  split at hdr
  · exact ho dr hdr
  · exact (h q dr hdr).grows hg

theorem counted_round (h : Counted w) (u : UserId) (eid : String) (d : Delivery)
    (drainers : Nat → Option Drainer) : Counted ⟨(Db.applyEffect cfg w.db u eid d).db, drainers,
      if (Db.applyEffect cfg w.db u eid d).dispatched then eid :: w.dispatches
      else w.dispatches⟩ := by
  have hgrows := (Db.applyEffect_outbox cfg w.db u eid d).1
  have hcount : ∀ i, (if (Db.applyEffect cfg w.db u eid d).dispatched then eid :: w.dispatches
      else w.dispatches).count i ≤ w.dispatches.count i + 1 := by
    intro i
    split
    · rw [List.count_cons]; split <;> omega
    · omega
  refine ⟨fun i e' he' hopen => ?_, fun i => ?_, fun i hi => ?_⟩
  · obtain ⟨e, he, heopen, ⟨rfl, hnot⟩ | ⟨hattempt, hlt⟩⟩ :=
      Db.applyEffect_attempts cfg w.db u eid d he' hopen
    · obtain ⟨hle, hlt⟩ := h.attempts i e' he heopen
      refine ⟨?_, hlt⟩
      by_cases hi : i = eid
      · simp only [hnot hi]; exact hle
      · have hne : ¬ eid = i := fun he => hi he.symm
        dsimp only
        split <;> simpa [List.count_cons, hne] using hle
    · obtain ⟨hle, -⟩ := h.attempts i e he heopen
      have := hcount i
      dsimp only at this ⊢
      omega
  · dsimp only
    split
    · next hd =>
      obtain ⟨e, he, heopen, -⟩ := Db.applyEffect_dispatched hd
      obtain ⟨hle, hlt⟩ := h.attempts eid e he heopen
      rw [List.count_cons]
      split
      · next heq =>
        rw [beq_iff_eq] at heq
        subst heq
        omega
      · exact h.limit i
    · exact h.limit i
  · have hnone : w.db.effects.find? i = none := by
      cases hf : w.db.effects.find? i with
      | none => rfl
      | some e =>
        obtain ⟨e', he', -⟩ := hgrows.keeps i e hf
        dsimp only at hi
        rw [hi] at he'
        cases he'
    dsimp only
    split
    · next hd =>
      obtain ⟨e, he, -⟩ := Db.applyEffect_dispatched hd
      have hne : ¬ eid = i := by rintro rfl; rw [hnone] at he; cases he
      simpa [List.count_cons, hne] using h.absent i hnone
    · exact h.absent i hnone

theorem inv_of_effects_eq (h : OutboxInv w) {db' : Db} (heffects : db'.effects = w.db.effects) :
    OutboxInv { w with db := db' } where
  listed pid dr hdr := (h.listed pid dr hdr).grows (.of_eq heffects)
  counted := ⟨by simpa [heffects] using h.counted.attempts, h.counted.limit,
    by simpa [heffects] using h.counted.absent⟩

theorem step_inv (h : OutboxInv w) (l : DrainLabel) : OutboxInv (w.step cfg l) := by
  cases l with
  | enqueue r claimedBy =>
    have hgrows := w.db.effectEnqueue_grows r claimedBy
    refine ⟨fun pid dr hdr => (h.listed pid dr hdr).grows hgrows, fun i e he hopen => ?_,
      h.counted.limit, fun i hi => ?_⟩
    · obtain hold | ⟨hnone, hnew⟩ := Db.effectEnqueue_find? he
      · exact h.counted.attempts i e hold hopen
      · have hcount : w.dispatches.count i = 0 := h.counted.absent i hnone
        have hzero := hnew.attempts
        exact ⟨by simp only [step]; omega, by rw [hzero]; decide⟩
    · refine h.counted.absent i ?_
      cases hf : w.db.effects.find? i with
      | none => rfl
      | some e =>
        obtain ⟨e', he', -⟩ := hgrows.keeps i e hf
        simp only [step] at hi
        rw [hi] at he'
        cases he'
  | txn t => exact inv_of_effects_eq h (Db.exec_step cfg w.db t).effects
  | claim p =>
    exact inv_of_effects_eq h (Db.claimStep_proj cfg w.db p Db.effects fun _ => rfl)
  | drain pid u =>
    refine ⟨listed_setDrainer h.listed (.of_eq rfl) fun dr hdr => ?_,
      ⟨h.counted.attempts, h.counted.limit, h.counted.absent⟩⟩
    cases hdr
    exact listed_effectPending w.db u
  | stop pid =>
    exact ⟨listed_setDrainer h.listed (.of_eq rfl) (by simp),
      ⟨h.counted.attempts, h.counted.limit, h.counted.absent⟩⟩
  | round pid d =>
    simp only [step]
    split
    · next u eid rest hdr =>
      obtain ⟨hgrows, hclosed⟩ := Db.applyEffect_outbox cfg w.db u eid d
      refine ⟨listed_setDrainer h.listed hgrows fun dr hdr' => ?_,
        counted_round h.counted u eid d _⟩
      split at hdr'
      · next hc =>
        cases hdr'
        exact ((h.listed pid _ hdr).grows hgrows).tail (hclosed hc)
      · cases hdr'
    · exact h

/-- From `w` on, closed effects keep their status, and neither they nor the effects of an older
generation see their sink again. -/
structure Retires (w w' : DrainWorld) : Prop where
  runtime : RuntimeMono w.db w'.db
  effects : ∀ i e, w.db.effects.find? i = some e →
    ∃ e', w'.db.effects.find? i = some e' ∧ e'.userId = e.userId ∧
      e'.expectedGeneration = e.expectedGeneration ∧
      (e.status.isOpen = false → e'.status = e.status ∧
          w'.dispatches.count i = w.dispatches.count i) ∧
      (∀ s, w.db.runtime e.userId = some s → e.expectedGeneration < s.generation →
        w'.dispatches.count i = w.dispatches.count i)

theorem Retires.refl (w : DrainWorld) : Retires w w :=
  ⟨.of_eq rfl, fun _ e he => ⟨e, he, rfl, rfl, fun _ => ⟨rfl, rfl⟩, fun _ _ _ => rfl⟩⟩

theorem Retires.trans {w w' w'' : DrainWorld} (h : Retires w w') (h' : Retires w' w'') :
    Retires w w'' := by
  refine ⟨h.runtime.trans h'.runtime, fun i e he => ?_⟩
  obtain ⟨e', he', hu, hg, hclosed, hold⟩ := h.effects i e he
  obtain ⟨e'', he'', hu', hg', hclosed', hold'⟩ := h'.effects i e' he'
  refine ⟨e'', he'', hu'.trans hu, hg'.trans hg, fun hc => ?_, fun s hs hlt => ?_⟩
  · obtain ⟨hstatus, hcount⟩ := hclosed hc
    obtain ⟨hstatus', hcount'⟩ := hclosed' (by rw [hstatus]; exact hc)
    exact ⟨hstatus'.trans hstatus, hcount'.trans hcount⟩
  · obtain ⟨s', hs', hle⟩ := h.runtime e.userId s hs
    exact (hold' s' (by rw [hu]; exact hs') (by omega)).trans (hold s hs hlt)

theorem retires_of_grows {w w' : DrainWorld} (hgrows : OutboxGrows w.db w'.db)
    (hruntime : RuntimeMono w.db w'.db) (hcount : w'.dispatches = w.dispatches) : Retires w w' := by
  refine ⟨hruntime, fun i e he => ?_⟩
  obtain ⟨e', he', -, hu, hg, hclosed⟩ := hgrows.keeps i e he
  exact ⟨e', he', hu, hg, fun hc => ⟨by rw [hclosed hc], by rw [hcount]⟩,
    fun _ _ _ => by rw [hcount]⟩

theorem step_retires (h : OutboxInv w) (l : DrainLabel) : Retires w (w.step cfg l) := by
  cases l with
  | enqueue r claimedBy =>
    refine retires_of_grows (w.db.effectEnqueue_grows r claimedBy) (.of_eq ?_) rfl
    simp only [step, Db.effectEnqueue]
    split
    · rfl
    · split <;> rfl
  | txn t =>
    have hstep := Db.exec_step cfg w.db t
    exact retires_of_grows (.of_eq hstep.effects) hstep.runtime rfl
  | claim p =>
    have heffects := congrArg Db.effects (Db.claimStep_rest cfg w.db p)
    have hruntime := congrArg Db.runtime (Db.claimStep_rest cfg w.db p)
    exact retires_of_grows (.of_eq heffects) (.of_eq hruntime) rfl
  | drain | stop => exact retires_of_grows (.of_eq rfl) (.of_eq rfl) rfl
  | round pid d =>
    simp only [step]
    split
    · next u eid rest hdr =>
      have hgrows := (Db.applyEffect_outbox cfg w.db u eid d).1
      have hruntime : RuntimeMono w.db (Db.applyEffect cfg w.db u eid d).db := by
        refine (Db.materializeRuntime_step w.db u).runtime.trans (.of_eq ?_)
        obtain ⟨hdb, -⟩ | ⟨e, -, -, -, hround⟩ := Db.applyEffect_round cfg w.db u eid d
        · rw [hdb]
        · exact hround.runtime
      refine ⟨hruntime, fun i e he => ?_⟩
      obtain ⟨e', he', -, hu, hg, hclosed⟩ := hgrows.keeps i e he
      -- a counted call would need the effect open and its generation current
      have hcount : (e.status.isOpen = false ∨ ∃ s, w.db.runtime e.userId = some s ∧
          e.expectedGeneration < s.generation) →
          (if (Db.applyEffect cfg w.db u eid d).dispatched then eid :: w.dispatches
            else w.dispatches).count i = w.dispatches.count i := by
        intro hor
        split
        · next hd =>
          obtain ⟨x, hx, hxopen, -, hxrt⟩ := Db.applyEffect_dispatched hd
          have hne : ¬ eid = i := by
            rintro rfl
            rw [he] at hx
            cases hx
            obtain hc | ⟨s, hs, hlt⟩ := hor
            · rw [hxopen] at hc; cases hc
            · obtain ⟨y, hy, hyu⟩ := (h.listed pid _ hdr).rows eid (by simp)
              rw [he] at hy
              cases hy
              dsimp only at hyu
              rw [hyu, hxrt] at hs
              cases hs
              dsimp only at hlt
              omega
          simp [hne]
        · rfl
      exact ⟨e', he', hu, hg, fun hc => ⟨by rw [hclosed hc], hcount (.inl hc)⟩,
        fun s hs hlt => hcount (.inr ⟨s, hs, hlt⟩)⟩
    · exact .refl w

theorem inv_start {db : Db} (h : db.effects.rows = []) : OutboxInv (start db) where
  listed pid dr hdr := nomatch hdr
  counted :=
    { attempts := fun i e he => by
        have := (Indexed.find?_eq_some.mp he).1
        simp only [start, h] at this
        cases this
      limit := fun _ => Nat.zero_le _
      absent := fun _ _ => rfl }

/-- The outbox is a fenced queue per user. After any run from an empty outbox: a loop that calls
the sink of an effect finds it open, due and of the current generation under `v2`, with no older
open effect of its user; no effect saw its sink more than eight times; and from there on closed
effects keep their status and get no further call, nor do effects of an older generation. -/
theorem outbox_fifo (cfg : Config) (db : Db) (hdb : db.effects.rows = [])
    (ls later : List DrainLabel) :
    let w := run (step cfg) (start db) ls
    (∀ pid u eid rest d, w.drainers pid = some ⟨u, eid :: rest⟩ →
      (Db.applyEffect cfg w.db u eid d).dispatched = true →
      ∃ e, w.db.effects.find? eid = some e ∧ e.userId = u ∧ e.status.isOpen = true ∧
        (∀ x ∈ w.db.effects.rows, x.userId = u → x.enqueueSeq < e.enqueueSeq →
          x.status.isOpen = false) ∧
        w.db.runtime u = some ⟨.v2, e.expectedGeneration⟩ ∧ e.nextAttemptAt ≤ w.db.clock) ∧
    (∀ i, w.dispatches.count i ≤ 8) ∧
    Retires w (run (step cfg) (start db) (ls ++ later)) := by
  intro w
  have hinv : OutboxInv w := invariant_all OutboxInv (fun w l h => step_inv h l) (inv_start hdb) ls
  refine ⟨fun pid u eid rest d hdr hd => ?_, hinv.counted.limit, ?_⟩
  · obtain ⟨e, he, hopen, hdue, hruntime⟩ := Db.applyEffect_dispatched hd
    have hlisted := hinv.listed pid _ hdr
    obtain ⟨y, hy, hyu⟩ := hlisted.rows eid (by simp)
    rw [he] at hy
    cases hy
    exact ⟨e, he, hyu, hopen, fun x hx hxu hlt => hlisted.head_oldest he hx hxu hlt, hruntime, hdue⟩
  · rw [run_append]
    exact related_all OutboxInv (R := Retires) .refl (fun _ _ _ => .trans)
      (fun w l h => step_inv h l) (fun w l h => step_retires h l) hinv later

/-- Two memory writes of a user on `v2`, and a loop that has listed both. -/
def twoListed : List DrainLabel :=
  [.txn (.advanceRuntimeState "u" .resident .draining),
    .txn (.advanceRuntimeState "u" .draining .v2), .enqueue ⟨"a", "u", none, .memoryEncryptedV1, 3,
      some ⟨[], .absent⟩, none⟩ none,
    .enqueue ⟨"b", "u", none, .memoryEncryptedV1, 3, some ⟨[], .absent⟩, none⟩ none, .drain 0 "u"]

/-- The loop calls the sink of the older one first; whatever the loop does next, the counts and
the settled rows are safe. -/
theorem outbox_fifo_two_listed :
    let w := run (step .default) (start (.init ["u"] ⟨false, none⟩)) twoListed
    let d : Delivery := ⟨.ok, none, true, fun _ => ""⟩
    w.drainers 0 = some ⟨"u", ["a", "b"]⟩ ∧
      (Db.applyEffect .default w.db "u" "a" d).dispatched = true ∧ (∀ i, w.dispatches.count i ≤ 8) ∧
      Retires w (run (step .default) (start (.init ["u"] ⟨false, none⟩)) (twoListed ++ [.round 0 d,
          .round 0 d])) :=
  ⟨by decide, by decide, (outbox_fifo .default (.init ["u"] ⟨false, none⟩) rfl twoListed []).2.1,
    (outbox_fifo .default (.init ["u"] ⟨false, none⟩) rfl twoListed _).2.2⟩

end DrainWorld

end Feedling
