import Feedling.EffectApply

/-!
# What an accepted fence says

The shape of a reply decides its mode. A fence that lets a reply end its turn has found the source
job running under a live lease, its owner, and no input beyond the frontier.
-/

namespace Feedling

open KeyedTable

/-- The mode of a reply depends on its type and the shape of its payload. -/
def replyModeOf (type : EffectType) (p : Payload) : ReplyMode :=
  match type with
  | .replyIntermediateFencedV1 => .transactional
  | .replyTerminalFencedV1 => .terminal
  | .replyFinalFencedV1 => .final
  | .reply =>
    if (p.get? "reply_through_seq").isSome then
      match p.fence? "_final_reply_fence" with
      | some (.object _) => .final
      | some (.scalar _) => .ordinary
      | none => if (p.object? "envelope").isSome then .legacyFinal else .ordinary
    else if (p.fence? "_final_reply_fence").isSome || (p.fence? "_reply_source_fence").isSome then
      .ordinary
    else if (p.object? "envelope").isSome then .transactional else .ordinary
  | _ => .ordinary

/-- The effect is a reply in mode final, legacy final or terminal. -/
def Effect.endsTurn (e : Effect) : Bool :=
  e.payload.any fun p => (replyModeOf e.effectType p).consumesJob

/-- The fence of a final or terminal reply, if the payload carries one. -/
def Payload.finalFenceEntries? (p : Payload) : Option (List (String × Scalar)) :=
  match p.fence? "_final_reply_fence" with
  | some (.object entries) => some entries
  | _ => none

/-- The fence asks to leave queued input alone. -/
def Payload.preservesQueuedInput (p : Payload) : Bool :=
  p.finalFenceEntries?.any fun entries => valueAt? entries "preserve_queued_input" ==
    some (.bool true)

/-- What holds of the source job `j` and of the chat log when a fence lets a reply end its turn. -/
structure FenceAccepts (db : Db) (u : UserId) (job : Option JobId) (p : Payload) (j : Job) :
    Prop where
  job : job = some j.id
  row : db.jobs.get? j.id = some j
  user : j.userId = u
  running : j.status = .running
  lease : j.leaseLive db.clock = true
  owner : ∀ entries, p.finalFenceEntries? = some entries →
    nonemptyText? entries "claimed_by" = j.claimedBy
  frontier : ∀ t, p.exactNat? "reply_through_seq" = some t → t ≤ db.newestInputSeq u ∧
    (p.preservesQueuedInput = false → (∀ m ∈ db.chat.rows, m.inputOf u = true → m.seq ≤ t) ∧
      ∀ entries, p.finalFenceEntries? = some entries →
        fenceNat? entries "input_generation" = some j.inputGeneration)

namespace Db

variable {cfg : Config} {db : Db} {u : UserId} {job : Option JobId} {p : Payload}
  {check : FenceCheck}

variable {expected : Option WorkerId}

theorem activeReplySource_spec {j : Job}
    (h : db.activeReplySource u job expected = some j) :
    job = some j.id ∧ db.jobs.get? j.id = some j ∧ j.userId = u ∧ j.status = .running ∧
      j.leaseLive db.clock = true ∧ ∀ w, expected = some w → j.claimedBy = some w := by
  obtain ⟨hj, hp⟩ := Option.filter_eq_some_iff.mp h
  obtain ⟨k, rfl, hk⟩ := Option.bind_eq_some_iff.mp hj
  obtain rfl : j.id = k := Serial.key_of_get? hk
  simp only [Bool.and_eq_true, beq_iff_eq] at hp
  obtain ⟨⟨⟨⟨⟨hu, hrun⟩, -⟩, -⟩, hexp⟩, hlease⟩ := hp
  refine ⟨rfl, hk, hu, hrun, hlease, ?_⟩
  rintro w rfl
  simpa using hexp

theorem le_of_not_inputBeyond {seq : Nat} (h : db.inputBeyond u seq = false) {m : ChatRow}
    (hm : m ∈ db.chat.rows) (hu : m.inputOf u = true) : m.seq ≤ seq := by
  have := List.any_eq_false.mp h m hm
  simpa [hu] using this

variable {mode : ReplyMode}

theorem finalFence_accepts {f : FinalFence}
    (h : finalFence cfg db u job p f mode = some check) (hnone : check.reason = none) :
    ∃ j, db.activeReplySource u job f.claimedBy = some j ∧ f.throughSeq ≤ db.newestInputSeq u ∧
      (f.preserveQueuedInput = false → db.inputBeyond u f.throughSeq = false ∧
        ∀ g, f.inputGeneration = some g → j.inputGeneration = g) := by
  unfold finalFence at h
  split at h
  · cases h; cases hnone
  · next j hj =>
    obtain ⟨collision, -, rfl⟩ := Option.map_eq_some_iff.mp h
    split at hnone
    · cases hnone
    split at hnone
    · cases hnone
    next hgen =>
    split at hnone
    · cases hnone
    next hnewest =>
    split at hnone
    · cases hnone
    next hbeyond =>
    refine ⟨j, hj, Nat.le_of_not_lt hnewest, fun hpres => ⟨?_, ?_⟩⟩
    · simpa [hpres] using hbeyond
    · rintro g hg
      simpa [hpres, hg] using hgen

variable {entries : List (String × Scalar)}

theorem parse_spec {f : FinalFence} (h : FinalFence.parse p entries = some f) :
    ∃ w g, nonemptyText? entries "claimed_by" = some w ∧
      fenceNat? entries "input_generation" = some g ∧
      f.claimedBy = some w ∧ f.inputGeneration = some g ∧
      p.exactNat? "reply_through_seq" = some f.throughSeq ∧
      f.preserveQueuedInput = (valueAt? entries "preserve_queued_input" == some (.bool true)) := by
  unfold FinalFence.parse at h
  dsimp only at h
  split at h
  · split at h
    · next w g t hw hg ht =>
      split at h
      · next hthrough =>
        cases h
        exact ⟨w, g, hw, hg, rfl, rfl, by simpa using hthrough, rfl⟩
      · cases h
    · cases h
  · cases h

/-- A fenced final reply. -/
theorem fenced_accepts
    (hf : p.fence? "_final_reply_fence" = some (.object entries))
    (h : finalFenceOr cfg db u job p (FinalFence.parse p entries) mode = some check)
    (hnone : check.reason = none) : ∃ j, FenceAccepts db u job p j := by
  unfold finalFenceOr at h
  split at h
  · next f hparse =>
    obtain ⟨w, g, hw, hg, hfw, hfg, hthrough, hpres⟩ := parse_spec hparse
    obtain ⟨j, hj, hnewest, hfrontier⟩ := finalFence_accepts h hnone
    obtain ⟨hjob, hrow, hu, hrun, hlease, howner⟩ := activeReplySource_spec hj
    have hentries : p.finalFenceEntries? = some entries := by rw [Payload.finalFenceEntries?, hf]
    refine ⟨j, hjob, hrow, hu, hrun, hlease, fun es hes => ?_, fun t ht => ?_⟩
    · rw [hentries] at hes
      cases hes
      rw [hw, howner w hfw]
    · rw [hthrough] at ht
      cases ht
      refine ⟨hnewest, fun hp => ?_⟩
      have hpf : f.preserveQueuedInput = false := by
        rw [hpres]
        simpa [Payload.preservesQueuedInput, hentries] using hp
      obtain ⟨hbeyond, hgeneration⟩ := hfrontier hpf
      refine ⟨fun m hm hi => le_of_not_inputBeyond hbeyond hm hi, fun es hes => ?_⟩
      rw [hentries] at hes
      cases hes
      rw [hg, hgeneration g hfg]
  · cases h; cases hnone

theorem legacy_accepts (hf : p.fence? "_final_reply_fence" = none)
    (h : finalFenceOr cfg db u job p (FinalFence.legacy p) mode = some check)
    (hnone : check.reason = none) : ∃ j, FenceAccepts db u job p j := by
  have hentries : p.finalFenceEntries? = none := by rw [Payload.finalFenceEntries?, hf]
  unfold finalFenceOr at h
  split at h
  · next f hlegacy =>
    obtain ⟨t', ht', rfl⟩ := Option.map_eq_some_iff.mp hlegacy
    obtain ⟨j, hj, hnewest, hfrontier⟩ := finalFence_accepts h hnone
    obtain ⟨hjob, hrow, hu, hrun, hlease, -⟩ := activeReplySource_spec hj
    refine ⟨j, hjob, hrow, hu, hrun, hlease, fun es hes => ?_, fun t ht => ?_⟩
    · rw [hentries] at hes; cases hes
    · rw [ht'] at ht
      cases ht
      refine ⟨hnewest, fun _ => ⟨fun m hm hi => le_of_not_inputBeyond (hfrontier rfl).1 hm hi,
          fun es hes => ?_⟩⟩
      rw [hentries] at hes; cases hes
  · cases h; cases hnone

/-- A terminal reply: it has no frontier, and its fence names the owner. -/
theorem terminal_accepts
    (hf : p.fence? "_final_reply_fence" = some (.object entries))
    (hno : (p.get? "reply_through_seq").isSome = false)
    (h : terminalFence cfg db u job p entries = some check) (hnone : check.reason = none) :
    ∃ j, FenceAccepts db u job p j := by
  unfold terminalFence at h
  split at h
  · next w g observed _ hw hg ho =>
    split at h
    · cases h; cases hnone
    · next j hj =>
      obtain ⟨hjob, hrow, hu, hrun, hlease, howner⟩ := activeReplySource_spec hj
      refine ⟨j, hjob, hrow, hu, hrun, hlease, fun es hes => ?_, fun t ht => ?_⟩
      · rw [Payload.finalFenceEntries?, hf] at hes
        cases hes
        rw [hw, howner w rfl]
      · cases hget : p.get? "reply_through_seq" with
        | none => rw [Payload.exactNat?, hget] at ht; cases ht
        | some v => rw [hget] at hno; cases hno
  · cases h; cases hnone

theorem finalFenceOr_spec {f : Option FinalFence}
    (h : finalFenceOr cfg db u job p f mode = some check) :
    check.mode = mode ∧ check.reason ≠ some .voiceCallEnded := by
  unfold finalFenceOr at h
  split at h
  · unfold finalFence at h
    split at h
    · cases h; simp [FenceCheck.refuse]
    · obtain ⟨collision, -, rfl⟩ := Option.map_eq_some_iff.mp h
      split
      · simp [FenceCheck.refuseFor]
      split
      · simp [FenceCheck.refuseFor]
      split
      · simp [FenceCheck.refuse]
      split
      · simp [FenceCheck.refuseFor]
      · simp [FenceCheck.acceptFor]
  · cases h; simp [FenceCheck.refuse]

theorem transactionalFence_spec (h : transactionalFence cfg db u job expected p = some check) :
    check.mode = .transactional ∧ check.reason ≠ some .voiceCallEnded := by
  unfold transactionalFence at h
  split at h
  · cases h; simp [FenceCheck.refuse]
  · obtain ⟨collision, -, rfl⟩ := Option.map_eq_some_iff.mp h
    split <;> simp [FenceCheck.refuseFor, FenceCheck.accept]

theorem terminalFence_spec (h : terminalFence cfg db u job p entries = some check) :
    check.mode = .terminal ∧ check.reason ≠ some .voiceCallEnded := by
  unfold terminalFence at h
  split at h
  · split at h
    · cases h; simp [FenceCheck.refuse]
    · obtain ⟨collision, -, rfl⟩ := Option.map_eq_some_iff.mp h
      split
      · simp [FenceCheck.refuseFor]
      split
      · simp [FenceCheck.refuseFor]
      · simp [FenceCheck.acceptFor]
  · cases h; simp [FenceCheck.refuse]

/-- The mode of the check is the mode of the shape; and a fence that accepts a reply which ends its
turn has checked all of `FenceAccepts`. -/
structure FenceSpec (db : Db) (u : UserId) (job : Option JobId) (p : Payload) (mode : ReplyMode)
    (check : FenceCheck) : Prop where
  mode : check.mode = mode
  reason : check.reason ≠ some .voiceCallEnded
  accepts : check.reason = none → check.mode.consumesJob = true → ∃ j, FenceAccepts db u job p j

theorem FenceSpec.refused {reason : DiscardReason}
    (h : some (FenceCheck.refuse reason mode) = some check) (hreason : reason ≠ .voiceCallEnded) :
    FenceSpec db u job p mode check := by
  cases h
  exact ⟨rfl, by simpa [FenceCheck.refuse] using hreason, fun hn => nomatch hn⟩

theorem FenceSpec.ordinary (h : some (FenceCheck.accept .ordinary) = some check) :
    FenceSpec db u job p .ordinary check := by
  cases h
  exact ⟨rfl, by simp [FenceCheck.accept], fun _ hc => nomatch hc⟩

theorem FenceSpec.transactional
    (h : transactionalFence cfg db u job expected p = some check) :
    FenceSpec db u job p .transactional check := by
  obtain ⟨hmode, hreason⟩ := transactionalFence_spec h
  refine ⟨hmode, hreason, fun _ hc => ?_⟩
  rw [hmode] at hc
  cases hc

/-- The unfenced type: its shape decides between final, legacy, intermediate and plain. -/
theorem replyFenceMatches_reply (h : replyFenceMatches cfg db u job .reply p = some check) :
    FenceSpec db u job p (replyModeOf .reply p) check := by
  simp only [replyFenceMatches] at h
  simp only [replyModeOf]
  by_cases hfrontier : (p.get? "reply_through_seq").isSome = true
  · rw [if_pos hfrontier] at h ⊢
    cases hfinal : p.fence? "_final_reply_fence" with
    | none =>
      simp only [hfinal] at h ⊢
      by_cases henv : (p.object? "envelope").isSome = true
      · rw [if_pos henv] at h ⊢
        by_cases hsource : (p.fence? "_reply_source_fence").isSome = true
        · rw [if_pos hsource] at h
          exact .refused h (by decide)
        · rw [if_neg hsource] at h
          exact ⟨(finalFenceOr_spec h).1, (finalFenceOr_spec h).2,
            fun hn _ => legacy_accepts hfinal h hn⟩
      · rw [if_neg henv] at h ⊢
        exact .refused h (by decide)
    | some field =>
      cases field with
      | scalar v =>
        simp only [hfinal] at h ⊢
        exact .refused h (by decide)
      | object entries =>
        simp only [hfinal] at h ⊢
        by_cases hsource : (p.fence? "_reply_source_fence").isSome = true
        · rw [if_pos hsource] at h
          exact .refused h (by decide)
        · rw [if_neg hsource] at h
          exact ⟨(finalFenceOr_spec h).1, (finalFenceOr_spec h).2,
            fun hn _ => fenced_accepts hfinal h hn⟩
  · rw [if_neg hfrontier] at h ⊢
    by_cases hfence : ((p.fence? "_final_reply_fence").isSome ||
        (p.fence? "_reply_source_fence").isSome) = true
    · rw [if_pos hfence] at h ⊢
      exact .refused h (by decide)
    · rw [if_neg hfence] at h ⊢
      by_cases henv : (p.object? "envelope").isSome = true
      · rw [if_pos henv] at h ⊢
        exact .transactional h
      · rw [if_neg henv] at h ⊢
        exact .ordinary h

theorem replyFenceMatches_spec {type : EffectType}
    (h : replyFenceMatches cfg db u job type p = some check) :
    FenceSpec db u job p (replyModeOf type p) check := by
  cases type with
  | reply => exact replyFenceMatches_reply h
  | replyIntermediateFencedV1 =>
    simp only [replyFenceMatches] at h
    split at h
    · split at h
      · exact .transactional h
      · exact .refused h (by decide)
    · exact .refused h (by decide)
  | replyTerminalFencedV1 =>
    simp only [replyFenceMatches] at h
    split at h
    · next hfrontier hfinal hsource =>
      exact ⟨(terminalFence_spec h).1, (terminalFence_spec h).2,
        fun hn _ => terminal_accepts hfinal hfrontier h hn⟩
    · exact .refused h (by decide)
  | replyFinalFencedV1 =>
    simp only [replyFenceMatches] at h
    split at h
    · next hfinal hsource =>
        exact ⟨(finalFenceOr_spec h).1, (finalFenceOr_spec h).2,
          fun hn _ => fenced_accepts hfinal h hn⟩
    · exact .refused h (by decide)
  | _ =>
    simp only [replyFenceMatches] at h
    split at h
    · exact .refused h (by decide)
    · exact .ordinary h

end Db

end Feedling
