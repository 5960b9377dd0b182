import Feedling.ReviewRunners

/-!
# Streams without gaps, and reviews that cover them

The events of a job are numbered from zero up to the frontier of its stream, each idempotency key
has one row, and no row changes. A review is completed against the frontier that its runner has
read. Every append that moves the frontier takes the completion back, whether reviews are switched
on, off or at their ceiling, so a completed review always covers the whole stream.
-/

namespace Feedling

open KeyedTable Runs

namespace Db

/-- `next_event_index`, zero for a job without a stream. -/
def frontier (db : Db) (job : JobId) : Nat := ((db.streams.get? job).map (·.nextEventIndex)).getD 0

/-- Indices without gaps, and one row per key. -/
structure StreamsOk (db : Db) : Prop where
  indices : ∀ k n, (∃ e ∈ db.events.rows, e.jobId = k ∧ e.eventIndex = n) ↔ n < db.frontier k
  keys : ∀ e ∈ db.events.rows, ∀ e' ∈ db.events.rows, e.jobId = e'.jobId →
    e.idempotencyKey = e'.idempotencyKey → e = e'

theorem StreamsOk.congr {db db' : Db} (h : StreamsOk db) (hevents : db'.events = db.events)
    (hfrontier : db'.frontier = db.frontier) : StreamsOk db' := by
  constructor
  · rw [hevents, hfrontier]
    exact h.indices
  · rw [hevents]
    exact h.keys

/-- The answer gives every event the index of the row that is stored under its key. -/
def AnswersStored (db : Db) (job : JobId) (events : List TrajectoryInput) (answer : List Nat) :
    Prop :=
  answer.length = events.length ∧ ∀ (i : Nat) (e : TrajectoryInput), events[i]? = some e →
    ∃ row ∈ db.events.rows, row.jobId = job ∧ row.idempotencyKey = e.idempotencyKey ∧
      answer[i]? = some row.eventIndex

/-! ## The plan of a batch -/

theorem eventAt_eq_none {db : Db} {job : JobId} {key : String} :
    db.eventAt job key = none ↔ ∀ e ∈ db.events.rows, e.jobId = job → e.idempotencyKey ≠ key := by
  simp [eventAt]

theorem eventAt_eq_some {db : Db} {job : JobId} {key : String} {e : TrajectoryEvent}
    (h : db.eventAt job key = some e) :
    e ∈ db.events.rows ∧ e.jobId = job ∧ e.idempotencyKey = key := by
  have hfound := List.find?_some h
  simp only [Bool.and_eq_true, beq_iff_eq] at hfound
  exact ⟨List.mem_of_find?_eq_some h, hfound⟩

/-- The accumulators after the events `seen`, from the frontier `first`. -/
structure PlanOk (db : Db) (job : JobId) (first : Nat) (seen : List TrajectoryInput)
    (p : AppendPlan) : Prop where
  next : p.nextEventIndex = first + p.rowsToInsert.length
  rows : ∀ (i : Nat) (row : TrajectoryEvent), p.rowsToInsert[i]? = some row →
    row.jobId = job ∧ row.eventIndex = first + i ∧ db.eventAt job row.idempotencyKey = none
  named : ∀ row ∈ p.rowsToInsert, row.idempotencyKey ∈ seen.map (·.idempotencyKey)
  distinct : (p.rowsToInsert.map (·.idempotencyKey)).Nodup
  count : p.eventIndices.length = seen.length
  answers : ∀ (i : Nat) (e : TrajectoryInput), seen[i]? = some e →
    ∃ row, (row ∈ db.events.rows ∨ row ∈ p.rowsToInsert) ∧ row.jobId = job ∧
      row.idempotencyKey = e.idempotencyKey ∧ p.eventIndices[i]? = some row.eventIndex

section Plan

variable {db : Db} {job : JobId} {u : UserId} {first : Nat}

variable {seen : List TrajectoryInput} {e : TrajectoryInput} {p : AppendPlan}

theorem answers_snoc {indices : List Nat}
    {P : TrajectoryEvent → Prop} {Q : TrajectoryEvent → Prop} (hPQ : ∀ row, P row → Q row)
    (hcount : indices.length = seen.length)
    (h : ∀ (i : Nat) (e : TrajectoryInput), seen[i]? = some e →
      ∃ row, P row ∧ row.jobId = job ∧ row.idempotencyKey = e.idempotencyKey ∧
        indices[i]? = some row.eventIndex)
    (last : TrajectoryEvent) (hlast : Q last) (hjob : last.jobId = job)
    (hkey : last.idempotencyKey = e.idempotencyKey) :
    ∀ (i : Nat) (e' : TrajectoryInput), (seen ++ [e])[i]? = some e' →
      ∃ row, Q row ∧ row.jobId = job ∧ row.idempotencyKey = e'.idempotencyKey ∧
        (indices ++ [last.eventIndex])[i]? = some row.eventIndex := by
  intro i e' hi
  obtain hlt | heq | hgt := Nat.lt_trichotomy i seen.length
  · rw [List.getElem?_append_left hlt] at hi
    obtain ⟨row, hrow, h1, h2, h3⟩ := h i e' hi
    exact ⟨row, hPQ row hrow, h1, h2, by rw [List.getElem?_append_left (by omega)]; exact h3⟩
  · subst heq
    rw [List.getElem?_concat_length] at hi
    cases hi
    exact ⟨last, hlast, hjob, hkey, by rw [← hcount, List.getElem?_concat_length]⟩
  · rw [List.getElem?_eq_none (by simp; omega)] at hi
    cases hi

theorem planEvent_ok (h : PlanOk db job first seen p)
    (hnew : e.idempotencyKey ∉ seen.map (·.idempotencyKey)) :
    PlanOk db job first (seen ++ [e]) (db.planEvent job u p e) := by
  rw [planEvent]
  cases hprior : db.eventAt job e.idempotencyKey with
  | some prior =>
    obtain ⟨hmem, hjob, hkey⟩ := eventAt_eq_some hprior
    refine ⟨h.next, h.rows, fun row hrow => ?_, h.distinct, ?_, ?_⟩
    · rw [List.map_append]
      exact List.mem_append_left _ (h.named row hrow)
    · simp [h.count]
    · exact answers_snoc (fun _ h => h) h.count h.answers prior (.inl hmem) hjob hkey
  | none =>
    constructor
    · simp [h.next, Nat.add_assoc]
    · intro i row hrow
      obtain hlt | heq | hgt := Nat.lt_trichotomy i p.rowsToInsert.length
      · rw [List.getElem?_append_left hlt] at hrow
        exact h.rows i row hrow
      · subst heq
        rw [List.getElem?_concat_length] at hrow
        cases hrow
        exact ⟨rfl, h.next, hprior⟩
      · rw [List.getElem?_eq_none (by simp; omega)] at hrow
        cases hrow
    · intro row hrow
      rw [List.map_append]
      obtain hrow | hrow := List.mem_append.mp hrow
      · exact List.mem_append_left _ (h.named row hrow)
      · rw [List.mem_singleton.mp hrow]
        exact List.mem_append_right _ (by simp)
    · rw [List.map_append, List.nodup_append]
      refine ⟨h.distinct, by simp, ?_⟩
      intro key hkey key' hkey' heq
      obtain ⟨row, hrow, rfl⟩ := List.mem_map.mp hkey
      have hkey'' : key' = e.idempotencyKey := List.mem_singleton.mp hkey'
      rw [hkey''] at heq
      exact hnew (heq ▸ h.named row hrow)
    · simp [h.count]
    · refine answers_snoc (fun row hrow => ?_) h.count h.answers
        ⟨job, u, p.nextEventIndex, e.eventKind, e.idempotencyKey, e.payloadEnvelope,
          e.payloadBytes.toNat, e.truncated⟩ (.inr (by simp)) rfl rfl
      exact hrow.imp id fun h => List.mem_append_left _ h

theorem planEvents_ok (events : List TrajectoryInput)
    (h : PlanOk db job first seen p) (hnodup : ((seen ++ events).map (·.idempotencyKey)).Nodup) :
    PlanOk db job first (seen ++ events) (events.foldl (db.planEvent job u) p) := by
  induction events generalizing seen p with
  | nil => simpa using h
  | cons e events ih =>
    have hnew : e.idempotencyKey ∉ seen.map (·.idempotencyKey) := by
      simp only [List.map_append, List.map_cons, List.nodup_append, List.mem_cons] at hnodup
      exact fun hmem => hnodup.2.2 _ hmem _ (.inl rfl) rfl
    have hnodup' : (((seen ++ [e]) ++ events).map (·.idempotencyKey)).Nodup := by simpa using hnodup
    simpa using ih (planEvent_ok h hnew) hnodup'

end Plan

/-! ## The insert -/

/-- Rows that conflict neither with the table nor with each other are all stored. -/
theorem insertEvents_eq {db : Db} {rows : List TrajectoryEvent}
    (hindex : ∀ r ∈ rows, db.events.get? r.key = none)
    (hkey : ∀ r ∈ rows, db.eventAt r.jobId r.idempotencyKey = none)
    (hindices : (rows.map (·.key)).Nodup)
    (hkeys : (rows.map fun r => (r.jobId, r.idempotencyKey)).Nodup) :
    ∃ events, db.insertEvents rows = some { db with events := events } ∧
      events.rows = db.events.rows ++ rows := by
  induction rows generalizing db with
  | nil => exact ⟨db.events, rfl, by simp⟩
  | cons r rows ih =>
    have hfree : db.conflicts r = false := by simp [conflicts, hindex r (by simp), hkey r (by simp)]
    have hstored : (db.events.insert r).rows = db.events.rows ++ [r] := by
      rw [Table.insert, dif_neg]
      intro hmem
      obtain ⟨x, hx, heq⟩ := List.mem_map.mp hmem
      exact Table.get?_eq_none.mp (hindex r (by simp)) x hx heq
    rw [List.map_cons, List.nodup_cons] at hindices hkeys
    have hindex' : ∀ x ∈ rows, (db.events.insert r).get? x.key = none := by
      intro x hx
      have hne : ¬ (db.events.get? x.key = none ∧ r.key = x.key) :=
        fun hc => hindices.1 (List.mem_map.mpr ⟨x, hx, hc.2.symm⟩)
      rw [Table.get?_insert, if_neg hne]
      exact hindex x (by simp [hx])
    have hkey' : ∀ x ∈ rows,
        eventAt { db with events := db.events.insert r } x.jobId x.idempotencyKey = none := by
      intro x hx
      rw [eventAt_eq_none]
      intro y hy hjob
      have hy' : y ∈ db.events.rows ++ [r] := hstored ▸ hy
      obtain hy | hy := List.mem_append.mp hy'
      · exact eventAt_eq_none.mp (hkey x (by simp [hx])) y hy hjob
      · rw [List.mem_singleton.mp hy] at hjob ⊢
        exact fun heq => hkeys.1 (List.mem_map.mpr ⟨x, hx, by rw [heq, hjob]⟩)
    obtain ⟨events, hinsert, hrows⟩ := ih hindex' hkey' hindices.2 hkeys.2
    refine ⟨events, ?_, ?_⟩
    · rw [insertEvents, hfree]
      exact hinsert
    · rw [hrows]
      show (db.events.insert r).rows ++ rows = _
      rw [hstored, List.append_assoc]
      rfl

/-! ## What a step does to streams and reviews -/

/-- Rows are kept; a completed review was completed before and its frontier did not move, or the
step completed it at the frontier. -/
structure TrajectoryStep (completes : Option (JobId × Nat)) (db db' : Db) : Prop where
  ok : StreamsOk db → StreamsOk db'
  events : ∀ e ∈ db.events.rows, e ∈ db'.events.rows
  users : ∀ k u, db.jobUser k = some u → db'.jobUser k = some u
  reviewUsers : ∀ k r, db'.reviews.get? k = some r →
    (db.reviews.get? k).map (·.userId) = some r.userId ∨ db'.jobUser k = some r.userId
  streamUsers : ∀ k s, db'.streams.get? k = some s →
    (db.streams.get? k).map (·.userId) = some s.userId ∨ db'.jobUser k = some s.userId
  completed : ∀ k r, db'.reviews.get? k = some r → r.status = .completed →
    completes = some (k, db'.frontier k) ∨
    db.reviews.get? k = some r ∧ (db.jobUser k = some r.userId → db'.frontier k = db.frontier k)

namespace TrajectoryStep

variable {db db' : Db}

theorem completed_of_stmts {v2 : UserId → Bool} {o o' : Option Review}
    (h : Relation.ReflTransGen (ReviewStmt v2) o o') {r : Review} (hr : o' = some r)
    (hdone : r.status = .completed) :
    o = some r := by
  induction h using Relation.ReflTransGen.head_induction_on with
  | refl => exact hr
  | head hstep _ ih =>
    cases hstep with
    | insert r' hpending =>
      cases ih
      rw [hdone] at hpending
      cases hpending
    | release r' hrunning =>
      have heq := Option.some.inj ih
      rw [← heq, releaseReview] at hdone
      split at hdone <;> cases hdone

theorem frontier_eq (h : ReviewsStep db db') : db'.frontier = db.frontier := by
  funext k
  obtain heq | ⟨hnone, u, -, hnew⟩ := h.streams k
  · rw [frontier, heq]
    rfl
  · simp [frontier, hnone, hnew]

theorem of_reviewsStep (hevents : db'.events = db.events)
    (husers : ∀ k u, db.jobUser k = some u → db'.jobUser k = some u) (h : ReviewsStep db db') :
    TrajectoryStep none db db' where
  ok hok := hok.congr hevents (frontier_eq h)
  events := by rw [hevents]; exact fun _ h => h
  users := husers
  reviewUsers := h.owners
  streamUsers k s hs := by
    obtain heq | ⟨-, u, hu, hnew⟩ := h.streams k
    · exact .inl (by rw [← heq, hs]; rfl)
    · rw [hnew] at hs
      cases hs
      exact .inr hu
  completed k r hr hdone :=
    .inr ⟨completed_of_stmts (h.rows k) hr hdone, fun _ => by rw [frontier_eq h]⟩

theorem of_queueStep (h : QueueStep db db') : TrajectoryStep none db db' :=
  of_reviewsStep h.events (fun _ _ => h.jobUser) h.reviews

theorem of_rowsStep (h : RowsStep db db') (hr : ReviewsStep db db') :
    TrajectoryStep none db db' := by
  refine of_reviewsStep h.events (fun k u hu => ?_) hr
  obtain ⟨j, hj, rfl⟩ := Option.map_eq_some_iff.mp hu
  obtain ⟨j', hj', hsame⟩ := h.rows.sameJob hj
  rw [jobUser, hj', Option.map_some, hsame.userId]

theorem of_reviews (hevents : db'.events = db.events) (hstreams : db'.streams = db.streams)
    (husers : ∀ k u, db.jobUser k = some u → db'.jobUser k = some u) {p : Review → Bool}
    {f : Review → Review}
    (hget : ∀ k, db'.reviews.get? k = (db.reviews.get? k).map fun r => if p r then f r else r)
    (hf : ∀ r, (f r).userId = r.userId) (hopen : ∀ r, (f r).status ≠ .completed) :
    TrajectoryStep none db db' where
  ok hok := hok.congr hevents (by funext k; rw [frontier, hstreams]; rfl)
  events := by rw [hevents]; exact fun _ h => h
  users := husers
  reviewUsers k r hr := by
    rw [hget] at hr
    obtain ⟨r', hr', rfl⟩ := Option.map_eq_some_iff.mp hr
    rw [hr', Option.map_some, apply_ite Review.userId, hf, ite_self]
    exact .inl rfl
  streamUsers k s hs := .inl (by rw [← hstreams, hs]; rfl)
  completed k r hr hdone := by
    refine .inr ⟨?_, fun _ => by rw [frontier, hstreams]; rfl⟩
    rw [hget] at hr
    obtain ⟨r', hr', rfl⟩ := Option.map_eq_some_iff.mp hr
    cases hp : p r' with
    | true => exact absurd hdone (by simpa [hp] using hopen r')
    | false => simpa [hp] using hr'

theorem of_claim (cfg : Config) (db : Db) (p : Pick) :
    TrajectoryStep none db (claimStep cfg db p) :=
  of_reviewsStep (claimStep_proj cfg db p Db.events fun _ => rfl)
    (fun _ _ => claimStep_jobUser cfg db p)
    (.of_eq (claimStep_proj cfg db p Db.reviews fun _ => rfl)
        (claimStep_proj cfg db p Db.streams fun _ => rfl))

theorem of_chatClear (db : Db) (u : UserId) : TrajectoryStep none db (db.chatClear u) := by
  refine of_reviews rfl rfl (fun k v hv => ?_) get?_reviews_chatClear (fun _ => rfl)
    (fun _ h => nomatch h)
  rw [jobUser_chatClear]
  exact hv

theorem of_claimFailureReview (db : Db) (u : UserId) (runner : JobId) (w : WorkerId)
    (source : JobId) : TrajectoryStep none db (db.claimFailureReview u runner w source).1 := by
  rw [claimFailureReview]
  split
  · refine of_reviews (p := fun r => r.sourceJobId == source)
      (f := fun r => { r with status := .running, attemptCount := r.attemptCount + 1
                              claimedByJobId := some runner, lastError := none })
      rfl rfl (fun _ _ h => h) (fun k => ?_) (fun _ => rfl) (by rintro _ ⟨⟩)
    rw [updateReviews, Table.get?_modify]
  · exact of_queueStep (.refl db)

theorem trans_queueStep {completes : Option (JobId × Nat)} {db'' : Db}
    (h : TrajectoryStep completes db db') (hq : QueueStep db' db'') :
    TrajectoryStep completes db db'' := by
  have hfrontier := frontier_eq hq.reviews
  have hq' := of_queueStep hq
  refine ⟨fun hok => hq'.ok (h.ok hok), fun e he => hq'.events e (h.events e he),
    fun k u hu => hq'.users k u (h.users k u hu), fun k r hr => ?_, fun k s hs =>
      ?_, fun k r hr hdone => ?_⟩
  · obtain hold | hnew := hq'.reviewUsers k r hr
    · obtain ⟨r', hr', hu⟩ := Option.map_eq_some_iff.mp hold
      obtain hold | hnew := h.reviewUsers k r' hr'
      · exact .inl (hu ▸ hold)
      · exact .inr (hq'.users k _ (hu ▸ hnew))
    · exact .inr hnew
  · obtain hold | hnew := hq'.streamUsers k s hs
    · obtain ⟨s', hs', hu⟩ := Option.map_eq_some_iff.mp hold
      obtain hold | hnew := h.streamUsers k s' hs'
      · exact .inl (hu ▸ hold)
      · exact .inr (hq'.users k _ (hu ▸ hnew))
    · exact .inr hnew
  · have hmid := completed_of_stmts (hq.reviews.rows k) hr hdone
    rw [hfrontier]
    exact h.completed k r hmid hdone

/-- What settling a review at the frontier completes. -/
def completion (source : JobId) (nextEventIndex : Nat) : ReviewOutcome → Option (JobId × Nat)
  | .analysis _ captured => if nextEventIndex = captured then some (source, captured) else none
  | .error _ => none

theorem refl (completes : Option (JobId × Nat)) (db : Db) : TrajectoryStep completes db db :=
  ⟨id, fun _ h => h, fun _ _ h => h, fun k r hr => .inl (by rw [hr]; rfl),
    fun k s hs => .inl (by rw [hs]; rfl), fun _ _ hr _ => .inr ⟨hr, fun _ => rfl⟩⟩

/-- A review is completed only at the frontier of its stream. -/
theorem of_settledReview {db : Db} {source : JobId} {s : Stream}
    (hs : db.streams.get? source = some s) (outcome : ReviewOutcome) :
    TrajectoryStep (completion source s.nextEventIndex outcome) db
      (db.updateReviews (fun r => r.sourceJobId == source) (settledReview outcome s.nextEventIndex)
        (settledReview_sourceJobId outcome s.nextEventIndex)) := by
  refine ⟨fun hok => hok.congr rfl rfl, fun _ h => h, fun _ _ h => h, fun k r hr => .inl ?_,
    fun k s hs => .inl (by rw [show db.streams.get? k = some s from hs]; rfl), fun k r hr hdone =>
      ?_⟩
  · rw [updateReviews, Table.get?_modify] at hr
    obtain ⟨r', hr', rfl⟩ := Option.map_eq_some_iff.mp hr
    rw [hr', Option.map_some, apply_ite Review.userId, settledReview_userId, ite_self]
  · rw [updateReviews, Table.get?_modify] at hr
    obtain ⟨r', hr', rfl⟩ := Option.map_eq_some_iff.mp hr
    have hfrontier : ∀ k, frontier (db.updateReviews (fun r => r.sourceJobId == source)
        (settledReview outcome s.nextEventIndex)
          (settledReview_sourceJobId outcome s.nextEventIndex)) k =
        db.frontier k := fun _ => rfl
    rw [hfrontier]
    by_cases hk : r'.sourceJobId = source
    · have hkey : k = source := (Table.key_of_get? hr').symm.trans hk
      subst hkey
      simp only [hk, beq_self_eq_true, if_true] at hdone
      cases outcome with
      | error code =>
        simp only [settledReview] at hdone
        split at hdone <;> cases hdone
      | analysis envelope captured =>
        by_cases hcaptured : s.nextEventIndex = captured
        · left
          rw [completion, if_pos hcaptured, frontier, hs, Option.map_some, Option.getD_some,
            hcaptured]
        · simp [settledReview, hcaptured] at hdone
    · have hsame : (if r'.sourceJobId == source then settledReview outcome s.nextEventIndex r'
          else r') = r' := by
        simp [hk]
      rw [hsame]
      exact .inr ⟨hr', fun _ => rfl⟩

/-- The completion that the call makes, if it settles. -/
def finished (db : Db) (runner source : JobId) (u : UserId) (w : WorkerId)
    (outcome : ReviewOutcome) : Option (JobId × Nat) :=
  if (db.finishFailureReview runner source u w outcome).2 then
    completion source (db.frontier source) outcome
  else none

theorem of_finishFailureReview (db : Db) (runner source : JobId) (u : UserId) (w : WorkerId)
    (outcome : ReviewOutcome) : TrajectoryStep (finished db runner source u w outcome) db
      (db.finishFailureReview runner source u w outcome).1 := by
  obtain heq | ⟨s, hs, -, heq, hstep⟩ := finishFailureReview_cases db runner source u w outcome
  · rw [heq]
    exact refl _ db
  · have hfrontier : db.frontier source = s.nextEventIndex := by simp [frontier, hs]
    rw [finished, heq, hfrontier]
    exact (of_settledReview hs outcome).trans_queueStep hstep

/-! ## The append -/

section Append

variable {db : Db} {job : JobId} {u : UserId} {s : Stream}

theorem reopenReview_spec (db : Db) (job : JobId) (u : UserId) :
    ∃ mid : Db, QueueStep mid (db.reopenReview job u) ∧ { mid with reviews := db.reviews } = db ∧
      ∀ k r, mid.reviews.get? k = some r → (db.reviews.get? k).map (·.userId) = some r.userId ∧
        (r.status = .completed → db.reviews.get? k = some r ∧ (k = job → r.userId ≠ u)) := by
  have hget : ∀ (admitted : Bool) k r,
      (db.updateReviews (completedReview job u) (reopened admitted)
        (reopened_sourceJobId admitted)).reviews.get? k = some r →
      (db.reviews.get? k).map (·.userId) = some r.userId ∧
        (r.status = .completed → db.reviews.get? k = some r ∧ (k = job → r.userId ≠ u)) := by
    intro admitted k r hr
    rw [updateReviews, Table.get?_modify] at hr
    obtain ⟨r', hr', rfl⟩ := Option.map_eq_some_iff.mp hr
    rw [hr', Option.map_some]
    cases hp : completedReview job u r' with
    | true => exact ⟨rfl, fun hdone => by cases admitted <;> cases hdone⟩
    | false =>
      refine ⟨rfl, fun hdone => ⟨rfl, fun hk hu => ?_⟩⟩
      subst hk
      simp only [Bool.false_eq_true, if_false] at hdone hu
      simp [completedReview, Table.key_of_get? hr', hu, hdone] at hp
  rw [reopenReview]
  cases hany : db.reviews.rows.any (completedReview job u) with
  | false =>
    refine ⟨db, .refl db, rfl, fun k r hr => ⟨by rw [hr]; rfl, fun hdone => ⟨hr, fun hk hu => ?_⟩⟩⟩
    subst hk
    have hmem := (Table.get?_eq_some.mp hr).1
    have hnot := List.any_eq_false.mp hany r hmem
    simp [completedReview, Table.key_of_get? hr, hu, hdone] at hnot
  | true =>
    simp only [if_true]
    cases db.reviewAdmissionAvailable with
    | false => exact ⟨_, .refl _, rfl, hget false⟩
    | true => exact ⟨_, ensureReviewRunner_step _ u, rfl, hget true⟩

theorem get?_advanceStream (db : Db) (job : JobId) (u : UserId) (n : Nat) (k : JobId) :
    (db.advanceStream job u n).streams.get? k = (db.streams.get? k).map fun s =>
      if s.jobId == job && s.userId == u then { s with nextEventIndex := n } else s := by
  rw [advanceStream, Table.get?_modify]

theorem frontier_advanceStream (hs : db.streams.get? job = some s) (hu : s.userId = u) (n : Nat)
    (k : JobId) : (db.advanceStream job u n).frontier k = if k = job then n else db.frontier k := by
  rw [frontier, get?_advanceStream]
  by_cases hk : k = job
  · subst hk
    simp [hs, Table.key_of_get? hs, hu]
  · rw [if_neg hk]
    cases hget : db.streams.get? k with
    | none => simp [frontier, hget]
    | some s' =>
      have hother : s'.jobId ≠ job := fun h => hk ((Table.key_of_get? hget).symm.trans h)
      simp [frontier, hget, hother]

variable {db' : Db} {seen : List TrajectoryInput} {p : AppendPlan} {events : List TrajectoryInput}

section

variable (hok : StreamsOk db) (hplan : PlanOk db job (db.frontier job) seen p)
include hok hplan

/-- The rows of the plan, stored at the end of the table, extend the stream. -/
theorem streamsOk_append (hrows : db'.events.rows = db.events.rows ++ p.rowsToInsert)
    (hfrontier : ∀ k, db'.frontier k = if k = job then p.nextEventIndex else db.frontier k) :
    StreamsOk db' := by
  have hnew : ∀ row ∈ p.rowsToInsert, ∃ i, i < p.rowsToInsert.length ∧ row.jobId = job ∧
      row.eventIndex = db.frontier job + i ∧ db.eventAt job row.idempotencyKey = none := by
    intro row hrow
    obtain ⟨i, hi, rfl⟩ := List.getElem_of_mem hrow
    obtain ⟨h1, h2, h3⟩ := hplan.rows i _ (List.getElem?_eq_getElem hi)
    exact ⟨i, hi, h1, h2, h3⟩
  constructor
  · intro k n
    rw [hrows, hfrontier]
    constructor
    · rintro ⟨e, he, rfl, rfl⟩
      obtain he | he := List.mem_append.mp he
      · have hlt := (hok.indices e.jobId e.eventIndex).mp ⟨e, he, rfl, rfl⟩
        split
        · next hk =>
          rw [hk] at hlt
          rw [hplan.next]
          omega
        · exact hlt
      · obtain ⟨i, hi, hjob, hindex, -⟩ := hnew e he
        rw [if_pos hjob, hplan.next, hindex]
        omega
    · intro hn
      by_cases hk : k = job
      · rw [if_pos hk, hplan.next] at hn
        by_cases hold : n < db.frontier job
        · obtain ⟨e, he, h⟩ := (hok.indices job n).mpr hold
          exact ⟨e, List.mem_append_left _ he, by rw [hk]; exact h⟩
        · have hi : n - db.frontier job < p.rowsToInsert.length := by omega
          obtain ⟨h1, h2, -⟩ := hplan.rows _ _ (List.getElem?_eq_getElem hi)
          exact ⟨_, List.mem_append_right _ (List.getElem_mem hi), h1.trans hk.symm, by omega⟩
      · rw [if_neg hk] at hn
        obtain ⟨e, he, h⟩ := (hok.indices k n).mpr hn
        exact ⟨e, List.mem_append_left _ he, h⟩
  · rw [hrows]
    have hmeet : ∀ e ∈ db.events.rows, ∀ row ∈ p.rowsToInsert, e.jobId = row.jobId →
        e.idempotencyKey ≠ row.idempotencyKey := by
      intro e he row hrow hjob
      obtain ⟨-, -, hrowJob, -, hfree⟩ := hnew row hrow
      exact eventAt_eq_none.mp hfree e he (hjob.trans hrowJob)
    intro e he e' he' hjob hkey
    obtain he | he := List.mem_append.mp he
    · obtain he' | he' := List.mem_append.mp he'
      · exact hok.keys e he e' he' hjob hkey
      · exact absurd hkey (hmeet e he e' he' hjob)
    · obtain he' | he' := List.mem_append.mp he'
      · exact absurd hkey.symm (hmeet e' he' e he hjob.symm)
      · exact List.inj_on_of_nodup_map hplan.distinct he he' hkey

theorem insertEvents_plan :
    ∃ events, db.insertEvents p.rowsToInsert = some { db with events := events } ∧
      events.rows = db.events.rows ++ p.rowsToInsert := by
  have hat : ∀ row ∈ p.rowsToInsert, ∃ i, p.rowsToInsert[i]? = some row ∧ row.jobId = job ∧
      row.eventIndex = db.frontier job + i ∧ db.eventAt job row.idempotencyKey = none := by
    intro row hrow
    obtain ⟨i, hi, rfl⟩ := List.getElem_of_mem hrow
    exact ⟨i, List.getElem?_eq_getElem hi, hplan.rows i _ (List.getElem?_eq_getElem hi)⟩
  apply insertEvents_eq
  · intro row hrow
    obtain ⟨i, -, hjob, hindex, -⟩ := hat row hrow
    rw [Table.get?_eq_none]
    intro e he hkey
    simp only [TrajectoryEvent.key, Prod.mk.injEq] at hkey
    have hlt := (hok.indices e.jobId e.eventIndex).mp ⟨e, he, rfl, rfl⟩
    rw [hkey.1, hjob] at hlt
    omega
  · intro row hrow
    obtain ⟨i, -, hjob, -, hfree⟩ := hat row hrow
    rw [hjob]
    exact hfree
  · rw [List.nodup_iff_getElem?_ne_getElem?]
    intro i i' hlt hlen heq
    have hlen' : i' < p.rowsToInsert.length := by simpa using hlen
    have hi := List.getElem?_eq_getElem (Nat.lt_trans hlt hlen')
    have hi' := List.getElem?_eq_getElem hlen'
    rw [List.getElem?_map, List.getElem?_map, hi, hi'] at heq
    have hkey : p.rowsToInsert[i].key = p.rowsToInsert[i'].key := by simpa using heq
    have h1 := (hplan.rows i _ hi).2.1
    have h2 := (hplan.rows i' _ hi').2.1
    have h3 := congrArg Prod.snd hkey
    simp only [TrajectoryEvent.key] at h3
    omega
  · have hpairs : (p.rowsToInsert.map fun r => (r.jobId, r.idempotencyKey)) =
        (p.rowsToInsert.map (·.idempotencyKey)).map fun key => (job, key) := by
      rw [List.map_map]
      apply List.map_congr_left
      intro row hrow
      obtain ⟨-, -, hjob, -⟩ := hat row hrow
      simp [hjob]
    rw [hpairs]
    exact hplan.distinct.map fun a b h => (Prod.mk.inj h).2

end

theorem appendToStream_spec (hok : StreamsOk db) (hs : db.streams.get? job = some s)
    (hu : s.userId = u) (huser : db.jobUser job = some u)
    (hnodup : (events.map (·.idempotencyKey)).Nodup) :
    ∃ db' answer, db.appendToStream job u s events = some (db', answer) ∧
      TrajectoryStep none db db' ∧ AnswersStored db' job events answer := by
  have hfrontier : db.frontier job = s.nextEventIndex := by simp [frontier, hs]
  have hstart : PlanOk db job (db.frontier job) [] ⟨db.frontier job, [], []⟩ :=
    ⟨rfl, fun _ _ h => by simp at h, by simp, by simp, rfl, fun _ _ h => by simp at h⟩
  have hplan := planEvents_ok (u := u) events hstart (by simpa using hnodup)
  rw [List.nil_append] at hplan
  rw [appendToStream, ← hfrontier]
  generalize events.foldl (db.planEvent job u) ⟨db.frontier job, [], []⟩ = p at hplan
  cases hempty : p.rowsToInsert.isEmpty with
  | true =>
    have hnil : p.rowsToInsert = [] := List.isEmpty_iff.mp hempty
    simp only [if_true]
    refine ⟨db, p.eventIndices, rfl, refl none db, hplan.count, fun i e he => ?_⟩
    obtain ⟨row, hrow, h⟩ := hplan.answers i e he
    rw [hnil] at hrow
    exact ⟨row, hrow.resolve_right (by simp), h⟩
  | false =>
    obtain ⟨rows, hinsert, hrows⟩ := insertEvents_plan hok hplan
    simp only [Bool.false_eq_true, if_false, hinsert, Option.map_some]
    have hstored : ({ db with events := rows } : Db).streams.get? job = some s := hs
    have hmoved := frontier_advanceStream hstored hu p.nextEventIndex
    obtain ⟨mid, hqueue, hmid, hreviews⟩ :=
      reopenReview_spec (advanceStream { db with events := rows } job u p.nextEventIndex) job u
    have hmidEvents : mid.events = rows := by
      have h := congrArg Db.events hmid
      exact h
    have hmidStreams : mid.streams =
        (advanceStream { db with events := rows } job u p.nextEventIndex).streams := by
      have h := congrArg Db.streams hmid
      exact h
    have hmidJobs : mid.jobs = db.jobs := by
      have h := congrArg Db.jobs hmid
      exact h
    have hmidFrontier : ∀ k, mid.frontier k = if k = job then p.nextEventIndex
        else db.frontier k := by
      intro k
      rw [frontier, hmidStreams]
      exact hmoved k
    have hmidRows : mid.events.rows = db.events.rows ++ p.rowsToInsert := by rw [hmidEvents, hrows]
    have hstep : TrajectoryStep none db mid := by
      refine ⟨fun hok => streamsOk_append hok hplan hmidRows hmidFrontier,
        fun e he => by rw [hmidRows]; exact List.mem_append_left _ he,
        fun k v hv => by rw [jobUser, hmidJobs]; exact hv, fun k r hr => .inl (hreviews k r hr).1,
        fun k s' hs' => .inl ?_, fun k r hr hdone => .inr ?_⟩
      · rw [hmidStreams, get?_advanceStream] at hs'
        obtain ⟨s'', hs'', rfl⟩ := Option.map_eq_some_iff.mp hs'
        rw [show db.streams.get? k = some s'' from hs'', Option.map_some, apply_ite Stream.userId,
          ite_self]
      · obtain ⟨hold, hother⟩ := (hreviews k r hr).2 hdone
        refine ⟨hold, fun hk => ?_⟩
        have hne : k ≠ job := by
          rintro rfl
          exact hother rfl (Option.some.inj (hk.symm.trans huser))
        rw [hmidFrontier, if_neg hne]
    refine ⟨_, _, rfl, hstep.trans_queueStep hqueue, hplan.count, fun i e he => ?_⟩
    obtain ⟨row, hrow, h⟩ := hplan.answers i e he
    refine ⟨row, ?_, h⟩
    rw [hqueue.events, hmidRows]
    exact List.mem_append.mpr hrow

theorem streamsOk_materializeStream (hok : StreamsOk db) (job : JobId) :
    StreamsOk (db.materializeStream job) :=
  (of_queueStep (materializeStream_step db job)).ok hok

theorem of_queueStep_trans {mid db' : Db} (hq : QueueStep db mid)
    (h : TrajectoryStep none mid db') : TrajectoryStep none db db' := by
  have hq' := of_queueStep hq
  refine ⟨fun hok => h.ok (hq'.ok hok), fun e he => h.events e (hq'.events e he),
    fun k u hu => h.users k u (hq'.users k u hu), fun k r hr => ?_, fun k s hs =>
      ?_, fun k r hr hdone => ?_⟩
  · obtain hold | hnew := h.reviewUsers k r hr
    · obtain ⟨r', hr', hu⟩ := Option.map_eq_some_iff.mp hold
      exact (hq'.reviewUsers k r' hr').imp (hu ▸ ·) fun hnew => h.users k _ (hu ▸ hnew)
    · exact .inr hnew
  · obtain hold | hnew := h.streamUsers k s hs
    · obtain ⟨s', hs', hu⟩ := Option.map_eq_some_iff.mp hold
      exact (hq'.streamUsers k s' hs').imp (hu ▸ ·) fun hnew => h.users k _ (hu ▸ hnew)
    · exact .inr hnew
  · obtain hnew | ⟨hmid, hfrontier⟩ := h.completed k r hr hdone
    · cases hnew
    · refine .inr ⟨completed_of_stmts (hq.reviews.rows k) hmid hdone, fun hu => ?_⟩
      rw [hfrontier (hq.jobUser hu), frontier_eq hq.reviews]

theorem of_appendTrajectoryEventsBatch (hok : StreamsOk db)
    {answer : List Nat} (h : db.appendTrajectoryEventsBatch job u events = some (db', answer)) :
    TrajectoryStep none db db' ∧ AnswersStored db' job events answer := by
  unfold appendTrajectoryEventsBatch at h
  split at h
  · next hvalid =>
    have hnodup : (events.map (·.idempotencyKey)).Nodup := by
      simp only [validTrajectoryBatch, Bool.and_eq_true, decide_eq_true_eq] at hvalid
      exact hvalid.2
    split at h
    · next j hj =>
      split at h
      · next hpins =>
        simp only [Bool.and_eq_true, beq_iff_eq] at hpins
        have hmat := materializeStream_step db job
        dsimp only at h
        split at h
        · next s hs =>
          split at h
          · next hu =>
            have huser : (db.materializeStream job).jobUser job = some u :=
              hmat.jobUser (by rw [jobUser, hj, Option.map_some, hpins.1])
            obtain ⟨db'', answer', heq, hstep, hstored⟩ := appendToStream_spec
              (streamsOk_materializeStream hok job) hs (beq_iff_eq.mp hu) huser hnodup
            rw [heq] at h
            cases h
            exact ⟨of_queueStep_trans hmat hstep, hstored⟩
          · cases h
        · cases h
      · cases h
    · cases h
  · cases h

end Append

end TrajectoryStep

end Db

/-! ## The system -/

/-- The database, and the frontier that each job's review was last completed with. -/
structure TrajectoryWorld where
  db : Db
  captured : JobId → Option Nat

inductive TrajectoryLabel where
  | txn (t : Txn)
  | claim (p : Pick)
  | chatClear (u : UserId)
  | setReviewEnv (env : ReviewEnv)
  | appendTrajectoryEventsBatch (job : JobId) (u : UserId) (events : List TrajectoryInput)
  | claimFailureReview (u : UserId) (runner : JobId) (w : WorkerId) (source : JobId)
  | finishFailureReview (runner source : JobId) (u : UserId) (w : WorkerId)
      (outcome : Db.ReviewOutcome)
  | finishEmptyFailureReviewRunner (runner : JobId) (u : UserId) (w : WorkerId)
  | reconcileFailureReviewRunners (limit : Nat)

namespace TrajectoryWorld

open Db (TrajectoryStep StreamsOk AnswersStored)

/-- `reviewEnv` is read from the environment by every transaction, so it may change at any time. -/
def stepDb (cfg : Config) (db : Db) : TrajectoryLabel → Db
  | .txn t => Db.exec cfg db t
  | .claim p => Db.claimStep cfg db p
  | .chatClear u => db.chatClear u
  | .setReviewEnv env => { db with reviewEnv := env }
  | .appendTrajectoryEventsBatch job u events =>
    ((db.appendTrajectoryEventsBatch job u events).map (·.1)).getD db
  | .claimFailureReview u runner w source => (db.claimFailureReview u runner w source).1
  | .finishFailureReview runner source u w outcome =>
    (db.finishFailureReview runner source u w outcome).1
  | .finishEmptyFailureReviewRunner runner u w => (db.finishEmptyFailureReviewRunner runner u w).1
  | .reconcileFailureReviewRunners limit => (db.reconcileFailureReviewRunners limit).getD db

/-- The review that the step completes, and the frontier it hands in. -/
def completes (db : Db) : TrajectoryLabel → Option (JobId × Nat)
  | .finishFailureReview runner source u w outcome =>
    TrajectoryStep.finished db runner source u w outcome
  | _ => none

def step (cfg : Config) (w : TrajectoryWorld) (l : TrajectoryLabel) : TrajectoryWorld where
  db := stepDb cfg w.db l
  captured k := match completes w.db l with
    | some (source, captured) => if k = source then some captured else w.captured k
    | none => w.captured k

def start (db : Db) : TrajectoryWorld := ⟨db, fun _ => none⟩

theorem of_finishEmpty (db : Db) (runner : JobId) (u : UserId) (w : WorkerId) :
    TrajectoryStep none db (db.finishEmptyFailureReviewRunner runner u w).1 :=
  TrajectoryStep.of_queueStep (Db.finishEmptyFailureReviewRunner_step db runner u w)

theorem of_reconcile (db : Db) (limit : Nat) :
    TrajectoryStep none db ((db.reconcileFailureReviewRunners limit).getD db) := by
  cases h : db.reconcileFailureReviewRunners limit with
  | none => exact .refl none db
  | some db' => exact .of_queueStep (Db.reconcileFailureReviewRunners_step h)

variable {db : Db} {w : TrajectoryWorld} (cfg : Config)

theorem stepDb_step (hok : StreamsOk db) (l : TrajectoryLabel) :
    TrajectoryStep (completes db l) db (stepDb cfg db l) := by
  cases l with
  | txn t => exact .of_rowsStep (Db.exec_step cfg db t) (Db.exec_reviews cfg db t)
  | claim p => exact .of_claim cfg db p
  | chatClear u => exact .of_chatClear db u
  | setReviewEnv env => exact .of_reviewsStep rfl (fun _ _ h => h) (.of_eq rfl rfl)
  | appendTrajectoryEventsBatch job u events =>
    rw [stepDb]
    cases happend : db.appendTrajectoryEventsBatch job u events with
    | none => exact .refl none db
    | some r => exact (TrajectoryStep.of_appendTrajectoryEventsBatch hok happend).1
  | claimFailureReview u runner w source => exact .of_claimFailureReview db u runner w source
  | finishFailureReview runner source u w outcome =>
    exact .of_finishFailureReview db runner source u w outcome
  | finishEmptyFailureReviewRunner runner u w => exact of_finishEmpty db runner u w
  | reconcileFailureReviewRunners limit => exact of_reconcile db limit

/-- A review is completed with the frontier as it is. -/
theorem completes_frontier {l : TrajectoryLabel} {k : JobId} {captured : Nat}
    (h : completes db l = some (k, captured)) : captured = db.frontier k := by
  cases l with
  | finishFailureReview runner source u w outcome =>
    simp only [completes, TrajectoryStep.finished] at h
    split at h
    · cases outcome with
      | error code => cases h
      | analysis envelope captured' =>
        simp only [TrajectoryStep.completion] at h
        split at h
        · next heq =>
          cases h
          exact heq.symm
        · cases h
    · cases h
  | _ => cases h

/-- Reviews and streams belong to the user of their job, and a completed review covers its
stream. -/
structure Inv (w : TrajectoryWorld) : Prop where
  ok : StreamsOk w.db
  reviewUsers : ∀ k r, w.db.reviews.get? k = some r → w.db.jobUser k = some r.userId
  streamUsers : ∀ k s, w.db.streams.get? k = some s → w.db.jobUser k = some s.userId
  captured : ∀ k r, w.db.reviews.get? k = some r → r.status = .completed →
    w.captured k = some (w.db.frontier k)

/-- A database in which nothing was captured yet. -/
structure Fresh (db : Db) : Prop where
  events : db.events.rows = []
  streams : db.streams.rows = []
  reviews : db.reviews.rows = []

theorem start_inv (h : Fresh db) : Inv (start db) := by
  have hreviews : ∀ k r, db.reviews.get? k ≠ some r := by
    intro k r hr
    have hmem := (Table.get?_eq_some.mp hr).1
    rw [h.reviews] at hmem
    cases hmem
  have hstreams : ∀ k, db.streams.get? k = none := by
    intro k
    rw [Table.get?_eq_none, h.streams]
    simp
  refine ⟨⟨fun k n => ?_, ?_⟩, fun k r hr => absurd hr (hreviews k r), fun k s hs => ?_,
    fun k r hr => absurd hr (hreviews k r)⟩
  · have hevents : (start db).db.events.rows = [] := h.events
    have hfrontier : (start db).db.frontier k = 0 := by simp [Db.frontier, start, hstreams]
    simp [hevents, hfrontier]
  · have hevents : (start db).db.events.rows = [] := h.events
    rw [hevents]
    simp
  · rw [show (start db).db.streams.get? k = none from hstreams k] at hs
    cases hs

theorem step_inv (hi : Inv w) (l : TrajectoryLabel) : Inv (step cfg w l) := by
  have hstep := stepDb_step cfg hi.ok l
  have hreviewUsers : ∀ k r, (stepDb cfg w.db l).reviews.get? k = some r →
      (stepDb cfg w.db l).jobUser k = some r.userId := by
    intro k r hr
    obtain hold | hnew := hstep.reviewUsers k r hr
    · obtain ⟨r', hr', hu⟩ := Option.map_eq_some_iff.mp hold
      exact hstep.users k _ (hu ▸ hi.reviewUsers k r' hr')
    · exact hnew
  refine ⟨hstep.ok hi.ok, hreviewUsers, fun k s hs => ?_, fun k r hr hdone => ?_⟩
  · obtain hold | hnew := hstep.streamUsers k s hs
    · obtain ⟨s', hs', hu⟩ := Option.map_eq_some_iff.mp hold
      exact hstep.users k _ (hu ▸ hi.streamUsers k s' hs')
    · exact hnew
  · show (step cfg w l).captured k = some ((stepDb cfg w.db l).frontier k)
    obtain hnew | ⟨hold, hfrontier⟩ := hstep.completed k r hr hdone
    · simp [step, hnew]
    · have hcaptured := hi.captured k r hold hdone
      have hsame := hfrontier (hi.reviewUsers k r hold)
      rw [hsame]
      simp only [step]
      split
      · next source captured hc =>
        split
        · next hk =>
          subst hk
          rw [completes_frontier hc]
        · exact hcaptured
      · exact hcaptured

theorem run_inv (h : Fresh db) (ls : List TrajectoryLabel) :
    Inv (run (step cfg) (start db) ls) :=
  invariant_all Inv (fun _ l hi => step_inv cfg hi l) (start_inv h) ls

theorem run_events (hi : Inv w) (ls : List TrajectoryLabel) :
    ∀ e ∈ w.db.events.rows, e ∈ (run (step cfg) w ls).db.events.rows :=
  related_all Inv (R := fun w w' => ∀ e ∈ w.db.events.rows, e ∈ w'.db.events.rows) (fun _ _ h => h)
    (fun _ _ _ h h' e he => h' e (h e he)) (fun _ l hi => step_inv cfg hi l)
    (fun _ l hi => (stepDb_step cfg hi.ok l).events) hi ls

/-- Two answers about one key are the same index, whatever happens between the calls. -/
theorem answers_agree {db db' : Db} (hok : StreamsOk db')
    (hkept : ∀ e ∈ db.events.rows, e ∈ db'.events.rows) {job : JobId}
    {events events' : List TrajectoryInput} {answer answer' : List Nat}
    (h : AnswersStored db job events answer) (h' : AnswersStored db' job events' answer')
    {i i' : Nat}
    {e e' : TrajectoryInput} (he : events[i]? = some e) (he' : events'[i']? = some e')
    (hkey : e.idempotencyKey = e'.idempotencyKey) : answer[i]? = answer'[i']? := by
  obtain ⟨row, hrow, hjob, hrowKey, hanswer⟩ := h.2 i e he
  obtain ⟨row', hrow', hjob', hrowKey', hanswer'⟩ := h'.2 i' e' he'
  have hsame : row = row' := hok.keys row (hkept row hrow) row' hrow' (hjob.trans hjob'.symm)
    (hrowKey.trans (hkey.trans hrowKey'.symm))
  rw [hanswer, hanswer', hsame]

/-- From a database in which nothing was captured, in every state of every run: the indices of a
job's events are those below its frontier; each key of a job has one row; no later step changes a
row; an append that returns names for each key the row stored under it, and a later call that
repeats the key gets the same index; and a completed review was completed with the frontier as it
is. -/
theorem completed_reviews_cover_the_stream (cfg : Config) (db : Db) (hfresh : Fresh db)
    (ls : List TrajectoryLabel) :
    let w := run (step cfg) (start db) ls
    (∀ k n, (∃ e ∈ w.db.events.rows, e.jobId = k ∧ e.eventIndex = n) ↔ n < w.db.frontier k) ∧
    (∀ e ∈ w.db.events.rows, ∀ e' ∈ w.db.events.rows, e.jobId = e'.jobId →
      (e.idempotencyKey = e'.idempotencyKey ∨ e.eventIndex = e'.eventIndex) → e = e') ∧
    (∀ ms, ∀ e ∈ w.db.events.rows, e ∈ (run (step cfg) w ms).db.events.rows) ∧
    (∀ job u events db' answer, w.db.appendTrajectoryEventsBatch job u events = some (db', answer) →
      AnswersStored db' job events answer ∧
      ∀ ms u' events' db'' answer',
        (run (step cfg) (step cfg w (.appendTrajectoryEventsBatch job u events))
          ms).db.appendTrajectoryEventsBatch job u' events' = some (db'', answer') →
        ∀ (i i' : Nat) (e e' : TrajectoryInput), events[i]? = some e → events'[i']? = some e' →
          e.idempotencyKey = e'.idempotencyKey → answer[i]? = answer'[i']?) ∧
    ∀ k r, w.db.reviews.get? k = some r → r.status = .completed →
      w.captured k = some (w.db.frontier k) := by
  intro w
  have hi : Inv w := run_inv cfg hfresh ls
  refine ⟨hi.ok.indices, ?_, run_events cfg hi, ?_, hi.captured⟩
  · rintro e he e' he' hjob (hkey | hindex)
    · exact hi.ok.keys e he e' he' hjob hkey
    · exact List.inj_on_of_nodup_map w.db.events.nodup he he' (Prod.ext hjob hindex)
  · intro job u events db' answer happend
    obtain ⟨-, hstored⟩ := TrajectoryStep.of_appendTrajectoryEventsBatch hi.ok happend
    refine ⟨hstored, fun ms u' events' db'' answer' happend' i i' e e' he he' hkey => ?_⟩
    have hi' : Inv (step cfg w (.appendTrajectoryEventsBatch job u events)) := step_inv cfg hi _
    have hdb : (step cfg w (.appendTrajectoryEventsBatch job u events)).db = db' := by
      simp [step, stepDb, happend]
    have hlater :
        Inv (run (step cfg) (step cfg w (.appendTrajectoryEventsBatch job u events)) ms) :=
      invariant_all Inv (fun _ l hi => step_inv cfg hi l) hi' ms
    have hkept := run_events cfg hi' ms
    rw [hdb] at hkept
    obtain ⟨hstep, hstored'⟩ := TrajectoryStep.of_appendTrajectoryEventsBatch hlater.ok happend'
    exact answers_agree (hstep.ok hlater.ok) (fun row hrow => hstep.events row (hkept row hrow))
      hstored hstored' he he' hkey

/-- A turn records two events and fails; its trajectory is reviewed; then a late callback of the
turn repeats one event and adds another. -/
def reviewedThenAppended : List TrajectoryLabel :=
  [.txn (.advanceRuntimeState "u" .resident .draining),
    .txn (.advanceRuntimeState "u" .draining .v2), .txn (.enqueueJob ⟨"u", .heartbeat, none, none,
      "t", none, none, none⟩), .claim ⟨"a", 1, false⟩,
    .txn (.markRunning 1 "a"),
    .appendTrajectoryEventsBatch 1 "u" [⟨"turn", "k0", "c0", 2, false, true⟩,
      ⟨"turn", "k1", "c1", 2, false, true⟩],
    .txn (.markFailed 1 "a" "boom"), .claim ⟨"b", 2, false⟩, .txn (.markRunning 2 "b"),
    .claimFailureReview "u" 2 "b" 1, .finishFailureReview 2 1 "u" "b" (.analysis "text" 2)]

/-- The review is complete over both events. The late callback gets the index of the repeated event
and the next free one, and the review is open again. -/
theorem completed_reviews_cover_the_stream_reopened :
    let w := run (step .default) (start (.init ["u"] ⟨true, some 5⟩)) reviewedThenAppended
    let late : List TrajectoryInput :=
      [⟨"turn", "k1", "c1", 2, false, true⟩, ⟨"turn", "k2", "c2", 2, false, true⟩]
    (w.db.reviews.get? 1).map (·.status) = some .completed ∧ w.db.frontier 1 = 2 ∧
      w.captured 1 = some 2 ∧
      (w.db.appendTrajectoryEventsBatch 1 "u" late).map (·.2) = some [1, 2] ∧
      ((step .default w (.appendTrajectoryEventsBatch 1 "u" late)).db.reviews.get? 1).map
        (·.status) = some .pending := by
  intro w late
  have hstatus : (w.db.reviews.get? 1).map (·.status) = some .completed := by decide +kernel
  have hfrontier : w.db.frontier 1 = 2 := by decide +kernel
  obtain ⟨r, hr, hdone⟩ := Option.map_eq_some_iff.mp hstatus
  obtain ⟨-, -, -, -, hcaptured⟩ :=
    completed_reviews_cover_the_stream .default (.init ["u"] ⟨true, some 5⟩)
    ⟨rfl, rfl, rfl⟩ reviewedThenAppended
  refine ⟨hstatus, hfrontier, ?_, by decide +kernel, by decide +kernel⟩
  exact (hcaptured 1 r hr hdone).trans (congrArg some hfrontier)

end TrajectoryWorld

end Feedling
