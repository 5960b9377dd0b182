import Feedling.MemoryChains

/-!
# Deliveries and runs of the garden

A delivery with a key that has a receipt changes nothing, and receipts stay. The last section puts
the parts together for every step of a run: no stored card is replaced, a retired card keeps its one
successor, no chain of successors comes back, and the deliveries of one key change the garden once.
-/

namespace Feedling

namespace Garden

open KeyedTable (Table)

variable {β : Type} [DecidableEq β] {w w' : GardenWorld β}

/-! ## Receipts -/

variable {key : String} {receipt : Receipt}

section

variable (h : w.receipts.get? key = some receipt)
include h

theorem deliver_of_receipt (digest : String) (days : Nat) (action : Action β) :
    gardenStep w (.deliver key digest days action) =
      (w, some (if receipt.digest = digest then .replayed receipt.response
        else .error .idempotencyConflict)) := by
  rw [gardenStep, GardenWorld.execute, h]

theorem gardenNext_receipts (l : GardenLabel β) :
    (gardenNext w l).receipts.get? key = some receipt := by
  rw [gardenNext]
  cases l with
  | call days creation =>
    rw [gardenStep]
    cases w.prepare days creation <;> exact h
  | lock i =>
    rw [gardenStep]
    cases w.pending[i]? with
    | none => exact h
    | some p =>
      dsimp only
      rw [(locked_frame _ p).2.1]
      exact h
  | abandon i => exact h
  | retype days id type anchors =>
    rw [gardenStep, (retype_frame ..).2.1]
    exact h
  | delete id =>
    rw [gardenStep, (delete_frame ..).2.1]
    exact h
  | deliver key' digest days action =>
    cases hreceipt : w.receipts.get? key' with
    | some receipt' =>
      rw [deliver_of_receipt hreceipt]
      exact h
    | none =>
      rw [gardenStep, GardenWorld.execute, hreceipt]
      dsimp only
      split_ifs
      · dsimp only
        rw [Table.get?_insert, h, if_neg (by simp)]
      · rw [(perform_frame w days action).2]
        exact h
  | tick seconds => exact h

theorem run_receipts (labels : List (GardenLabel β)) :
    (Runs.run gardenNext w labels).receipts.get? key = some receipt :=
  Runs.invariant_all (fun w : GardenWorld β => w.receipts.get? key = some receipt)
    (fun _ l h => gardenNext_receipts h l) h labels

end

variable {key digest : String} {days : Nat} {action : Action β}

theorem deliver_stores (h : w.receipts.get? key = none)
    {response : Response}
    (hresponse : (gardenStep w (.deliver key digest days action)).2 = some response)
    (hok : response.isOk = true) :
    (gardenNext w (.deliver key digest days action)).receipts.get? key =
      some ⟨key, digest, response⟩ := by
  rw [gardenNext]
  rw [gardenStep, GardenWorld.execute, h] at hresponse ⊢
  dsimp only at hresponse ⊢
  split_ifs at hresponse ⊢ with hcase
  · obtain rfl := Option.some.inj hresponse
    exact Table.get?_insert_of_none (r := Receipt.mk key digest (w.perform days action).2) h
  · obtain rfl := Option.some.inj hresponse
    exact absurd hok hcase

omit [DecidableEq β] in
theorem Change.cards_of_error {e : GardenError} (h : Change w w' (some (.error e))) :
    w'.cards = w.cards := by
  cases h with
  | none _ _ hcards => exact hcards

theorem deliver_cards (h : w.receipts.get? key = none)
    (hnone : (gardenNext w (.deliver key digest days action)).receipts.get? key = none) :
    (gardenNext w (.deliver key digest days action)).cards = w.cards := by
  cases hresponse : (w.execute key digest days action).2 with
  | error e =>
    have hchange := execute_change w key digest days action
    rw [hresponse] at hchange
    exact hchange.cards_of_error
  | created id ids =>
    rw [deliver_stores h (congrArg some hresponse) rfl] at hnone
    cases hnone
  | retyped id =>
    rw [deliver_stores h (congrArg some hresponse) rfl] at hnone
    cases hnone
  | noop =>
    rw [deliver_stores h (congrArg some hresponse) rfl] at hnone
    cases hnone
  | deleted id =>
    rw [deliver_stores h (congrArg some hresponse) rfl] at hnone
    cases hnone
  | replayed receipt =>
    rw [deliver_stores h (congrArg some hresponse) rfl] at hnone
    cases hnone

/-! ## The deliveries of one key -/

/-- A delivery with the key. -/
def GardenLabel.delivers (key : String) : GardenLabel β → Bool
  | .deliver key' _ _ _ => key' == key
  | _ => false

/-- How many of the deliveries of a key change the cards. -/
def deliveriesThatChange (key : String) : GardenWorld β → List (GardenLabel β) → Nat
  | _, [] => 0
  | w, l :: labels =>
    (if l.delivers key = true ∧ (gardenNext w l).cards.rows ≠ w.cards.rows then 1 else 0) +
      deliveriesThatChange key (gardenNext w l) labels

variable {l : GardenLabel β}

omit [DecidableEq β] in
theorem GardenLabel.eq_deliver (h : l.delivers key = true) :
    ∃ digest days action, l = .deliver key digest days action := by
  cases l with
  | deliver key' digest days action =>
    obtain rfl : key' = key := by simpa [GardenLabel.delivers] using h
    exact ⟨digest, days, action, rfl⟩
  | call | lock | abandon | retype | delete | tick => cases h

theorem deliveriesThatChange_of_receipt (labels : List (GardenLabel β)) (w : GardenWorld β)
    (h : w.receipts.get? key = some receipt) : deliveriesThatChange key w labels = 0 := by
  induction labels generalizing w with
  | nil => rfl
  | cons l labels ih =>
    rw [deliveriesThatChange, ih _ (gardenNext_receipts h l), if_neg]
    rintro ⟨hdelivers, hchanged⟩
    obtain ⟨digest, days, action, rfl⟩ := GardenLabel.eq_deliver hdelivers
    rw [gardenNext, deliver_of_receipt h] at hchanged
    exact hchanged rfl

/-- The deliveries of one key change the cards at most once. -/
theorem deliveriesThatChange_le (key : String) (labels : List (GardenLabel β)) (w : GardenWorld β) :
    deliveriesThatChange key w labels ≤ 1 := by
  induction labels generalizing w with
  | nil => exact Nat.zero_le 1
  | cons l labels ih =>
    rw [deliveriesThatChange]
    cases hreceipt : (gardenNext w l).receipts.get? key with
    | some receipt =>
      rw [deliveriesThatChange_of_receipt labels _ hreceipt]
      split_ifs <;> decide
    | none =>
      rw [if_neg, Nat.zero_add]
      · exact ih _
      rintro ⟨hdelivers, hchanged⟩
      obtain ⟨digest, days, action, rfl⟩ := GardenLabel.eq_deliver hdelivers
      cases hbefore : w.receipts.get? key with
      | some receipt =>
        rw [gardenNext_receipts hbefore] at hreceipt
        cases hreceipt
      | none => exact hchanged (by rw [deliver_cards hbefore hreceipt])

/-! ## Deletes -/

/-- An action that deletes the card. -/
def GardenLabel.deletes (id : String) : GardenLabel β → Bool
  | .delete id' => id' == id
  | .deliver _ _ _ (.delete id') => id' == id
  | _ => false

theorem execute_deleted {id : String}
    (h : (w.execute key digest days action).2 = .deleted id) : action = .delete id := by
  rw [GardenWorld.execute] at h
  cases hreceipt : w.receipts.get? key with
  | some receipt =>
    rw [hreceipt] at h
    dsimp only at h
    split_ifs at h
  | none =>
    rw [hreceipt] at h
    have hperform : (w.perform days action).2 = .deleted id := by
      dsimp only at h
      split_ifs at h <;> exact h
    cases action with
    | create creation =>
      rw [GardenWorld.perform] at hperform
      split at hperform
      · cases hperform
      · exact absurd hperform ((locked_frame w _).2.2 id)
    | retype target type anchors =>
      exact absurd hperform ((retype_frame w days target type anchors).2.2.2 id)
    | delete target => rw [(delete_frame w target).2.2.2 id hperform]

theorem deletes_of_deleted {id : String} (h : (gardenStep w l).2 = some (.deleted id)) :
    l.deletes id = true := by
  cases l with
  | call days creation =>
    rw [gardenStep] at h
    split at h <;> cases h
  | lock i =>
    rw [gardenStep] at h
    split at h
    · cases h
    · exact absurd (Option.some.inj h) ((locked_frame w _).2.2 id)
  | retype days target type anchors => exact absurd (Option.some.inj h) ((retype_frame ..).2.2.2 id)
  | delete target =>
    obtain rfl := (delete_frame w target).2.2.2 id (Option.some.inj h)
    exact beq_self_eq_true target
  | deliver key digest days action =>
    obtain rfl := execute_deleted (Option.some.inj h)
    exact beq_self_eq_true id
  | abandon | tick => cases h

/-! ## Every step of a run -/

/-- What holds of a garden and of the next step. -/
structure OneHistory (w : GardenWorld β) (l : GardenLabel β) : Prop where
  created : ∀ id ids, (gardenStep w l).2 = some (.created id ids) →
    w.cards.get? id = none ∧ ∃ c, (gardenNext w l).cards.get? id = some c
  continues : ∀ id c, w.cards.get? id = some c →
    (∃ c', (gardenNext w l).cards.get? id = some c' ∧ c.Continues c') ∨
      l.deletes id = true ∧ (gardenStep w l).2 = some (.deleted id) ∧
        (gardenNext w l).cards.get? id = none
  retired : ∀ id c, w.cards.get? id = some c → c.status = .superseded →
    ∃ successor, c.supersededBy = some successor ∧ (c.serial, successor) ∈ w.retired ∧
      (w.retired.map Prod.fst).count c.serial = 1
  chains : ∀ id c n, w.cards.get? id = some c → follow w.cards (n + 1) id ≠ some id
  replays : ∀ key digest days action response, l = .deliver key digest days action →
    w.receipts.get? key = none →
    (gardenStep w l).2 = some response → response.isOk = true → ∀ later days' action',
      gardenStep (Runs.run gardenNext (gardenNext w l) later) (.deliver key digest days' action') =
        (Runs.run gardenNext (gardenNext w l) later, some (.replayed response))

theorem GardenInv.oneHistory (h : GardenInv w) (hmint : MintedFresh w l)
    (hunstored : EnvelopeUnstored w l) : OneHistory w l := by
  have hchange := gardenStep_change w h.pending.ok l
  have hfresh : ∀ id ids, (gardenStep w l).2 = some (.created id ids) → w.cards.get? id = none :=
    fun id ids hcreated => (h.created hmint hunstored hcreated).1
  constructor
  · intro id ids hcreated
    refine ⟨hfresh id ids hcreated, ?_⟩
    rw [hcreated] at hchange
    exact hchange.created_stored
  · intro id c hc
    exact (hchange.continues hfresh hc).imp_right fun hgone => ⟨deletes_of_deleted hgone.1, hgone⟩
  · intro id c hc hstatus
    obtain ⟨successor, hby, hentry⟩ := h.cards.superseded id c hc hstatus
    exact ⟨successor, hby, hentry,
      List.count_eq_one_of_mem h.cards.nodup (List.mem_map_of_mem hentry)⟩
  · intro id c n hc
    exact h.cards.follow_ne hc n
  · rintro key digest days action response rfl hnone hresponse hok later days' action'
    have hreceipt := run_receipts (deliver_stores hnone hresponse hok) later
    rw [deliver_of_receipt hreceipt, if_pos rfl]

/-- The garden keeps one history per card, in every run in which minted ids are fresh and no
prebuilt supersede reaches its locked section with an id that is stored. -/
theorem one_history_per_card (user : String) (labels : List (GardenLabel β)) (l : GardenLabel β)
    (hmint : Runs.Along gardenNext MintedFresh (GardenWorld.start user) (labels ++ [l]))
    (hunstored : Runs.Along gardenNext EnvelopeUnstored (GardenWorld.start user) (labels ++ [l])) :
    OneHistory (Runs.run gardenNext (GardenWorld.start user) labels) l ∧
      ∀ key, deliveriesThatChange key (GardenWorld.start user) (labels ++ [l]) ≤ 1 := by
  rw [Runs.along_append] at hmint hunstored
  have hinv : GardenInv (Runs.run gardenNext (GardenWorld.start user) labels) :=
    Runs.invariant GardenInv (fun w l h hok => h.step hok.1 hok.2) (.start user)
      (Runs.along_and hmint.1 hunstored.1)
  exact ⟨hinv.oneHistory hmint.2.1 hunstored.2.1, fun key => deliveriesThatChange_le key _ _⟩

/-- A prebuilt envelope of user `u`. -/
def envelope (id : String) (body : Nat) : Draft Nat where
  prebuilt := true
  envelopeId := id
  minted := ""
  body := body
  visibility := .shared
  owner := "u"
  type := some .fact
  occurredAt := 0
  anchors := []
  textError := none
  envelopeError := none

/-- A card is added and superseded by a delivery, the delivery is repeated, and another supersede is
validated. -/
def supersedingRun : List (GardenLabel Nat) :=
  [.call 0 (.add (envelope "a" 1)), .lock 0, .tick 5,
    .deliver "k" "digest" 0 (.create (.supersede ["a"] (envelope "b" 2))),
    .deliver "k" "digest" 0 (.create (.supersede ["a"] (envelope "b" 2))),
    .call 0 (.supersede ["b"] (envelope "c" 3))]

theorem one_history_per_card_superseding :
    (gardenStep (Runs.run gardenNext (GardenWorld.start "u") supersedingRun) (.lock 0)).2 =
      some (.created "c" ["b"]) ∧
      OneHistory (Runs.run gardenNext (GardenWorld.start "u") supersedingRun) (.lock 0) ∧
      ∀ key, deliveriesThatChange key (GardenWorld.start "u") (supersedingRun ++ [.lock 0]) ≤ 1 :=
  ⟨by decide, one_history_per_card "u" supersedingRun (.lock 0) (by decide) (by decide)⟩

/-- A supersede of `a` with a prebuilt envelope whose id is that of the stored card `b`. -/
def overwritingRun : List (GardenLabel Nat) :=
  [.call 0 (.add (envelope "b" 1)), .lock 0, .call 0 (.add (envelope "a" 2)), .lock 0,
    .call 0 (.supersede ["a"] (envelope "b" 3))]

/-- The supersede succeeds and replaces the card `b`, body and all. -/
theorem stored_card_overwritten :
    Runs.Along gardenNext MintedFresh (GardenWorld.start "u") (overwritingRun ++ [.lock 0]) ∧
      ¬ OneHistory (Runs.run gardenNext (GardenWorld.start "u") overwritingRun) (.lock 0) := by
  refine ⟨by decide, fun h => ?_⟩
  have hcreated := h.created "b" ["a"] (by decide)
  exact absurd hcreated.1 (by decide)

end Garden

end Feedling
