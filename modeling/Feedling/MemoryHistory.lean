import Feedling.MemoryGarden

/-!
# One history per card

What a step does to the garden is one of five changes. The invariant numbers the cards in the order
in which they were stored: a card that was superseded points to one that was stored later, and the
list of retired cards has one entry for it.
-/

namespace Feedling

namespace Garden

open KeyedTable (Table)

variable {β : Type}

/-! ## Saving the garden -/

section Save

variable {cards : Cards β} {g : Card β → Card β}

theorem nodup_map_id (hg : ∀ m, (g m).id = m.id) (cards : Cards β) :
    ((cards.rows.map g).map Card.id).Nodup := by
  rw [List.map_map]
  have hid : (Card.id ∘ g : Card β → String) = Card.id := funext hg
  rw [hid]
  exact cards.nodup

theorem find?_map_id (hg : ∀ m, (g m).id = m.id) (cards : Cards β) (id : String) :
    ((cards.rows.map g).find? fun m => decide (m.id = id)) = (cards.get? id).map g := by
  rw [List.find?_map, Table.get?]
  congr 2
  funext m
  simp [hg]

theorem get?_replaceAll_map (hg : ∀ m, (g m).id = m.id) (cards : Cards β) (id : String) :
    (memoryReplaceAll (cards.rows.map g)).get? id = (cards.get? id).map g := by
  rw [memoryReplaceAll, Table.get?_ofRows (nodup_map_id hg cards), find?_map_id hg]

theorem get?_replaceAll_map_concat (hg : ∀ m, (g m).id = m.id) (cards : Cards β) (card : Card β)
    (id : String) :
    (memoryReplaceAll (cards.rows.map g ++ [card])).get? id = if card.id = id then some card
    else (cards.get? id).map g := by
  rw [memoryReplaceAll, Table.get?_ofRows_concat, Table.get?_ofRows (nodup_map_id hg cards),
    find?_map_id hg]

theorem get?_replaceAll_concat (cards : Cards β) (card : Card β) (id : String) :
    (memoryReplaceAll (cards.rows ++ [card])).get? id = if card.id = id then some card
    else cards.get? id := by
  rw [memoryReplaceAll, Table.get?_ofRows_concat, Table.get?_ofRows cards.nodup]
  rfl

theorem get?_replaceAll_filter (cards : Cards β) (deleted id : String) :
    (memoryReplaceAll (cards.rows.filter fun m => m.id ≠ deleted)).get? id = if id = deleted then
    none else cards.get? id := by
  have hnodup : ((cards.rows.filter fun m => m.id ≠ deleted).map Card.id).Nodup :=
    cards.nodup.sublist (List.filter_sublist.map _)
  rw [memoryReplaceAll, Table.get?_ofRows hnodup, List.find?_filter]
  by_cases hid : id = deleted
  · rw [if_pos hid, List.find?_eq_none]
    intro m _
    simp only [ne_eq, decide_not, Bool.not_eq_true', decide_eq_false_iff_not, decide_eq_true_eq,
      not_and]
    exact fun hne heq => hne (heq.trans hid)
  · rw [if_neg hid, Table.get?]
    congr 1
    funext m
    by_cases hm : m.id = id
    · simp [hm, hid]
    · simp [hm]

end Save

/-! ## What a step does -/

/-- A card that was just made. -/
structure Card.New (c : Card β) : Prop where
  status : c.status = .active
  supersededBy : c.supersededBy = none

/-- The change from one garden to the next, with the answer. -/
inductive Change (w w' : GardenWorld β) : Option Response → Prop where
  | none (response : Option Response) (hresponse : ∀ id ids, response ≠ some (.created id ids))
      (hcards : w'.cards = w.cards)
      (hserial : w'.serial = w.serial) (hretired : w'.retired = w.retired) : Change w w' response
  | add (card : Card β) (hnew : card.New) (hfresh : w.cards.get? card.id = .none)
      (hcard : card.serial = w.serial)
      (hcards : ∀ id, w'.cards.get? id = if card.id = id then some card else w.cards.get? id)
      (hserial : w'.serial = w.serial + 1) (hretired : w'.retired = w.retired) :
      Change w w' (some (.created card.id []))
  | supersede (card : Card β) (targets : List String) (hnew : card.New) (hcard : card.serial =
        w.serial)
      (htargets : targets.Nodup) (hactive : ∀ id ∈ targets, ∃ c, w.cards.get? id = some c ∧
          c.isActive = true)
      (hcards : ∀ id, w'.cards.get? id = if card.id = id then some card
        else (w.cards.get? id).map fun m => if m.id ∈ targets then m.retire card.updatedAt card.id
        else m)
      (hserial : w'.serial = w.serial + 1)
      (hretired : w'.retired = (targets.filterMap w.cards.get?).map
          (fun m => (m.serial, card.id)) ++ w.retired) :
      Change w w' (some (.created card.id targets))
  | retype (target : String) (now : Time) (type : MemoryType) (anchors : List String)
      (hcards : ∀ id, w'.cards.get? id = (w.cards.get? id).map fun m => if m.id = target then
        m.retype now type anchors else m)
      (hserial : w'.serial = w.serial) (hretired : w'.retired = w.retired) : Change w w'
        (some (.retyped target))
  | delete (target : String) (hcards : ∀ id, w'.cards.get? id = if id = target then .none
        else w.cards.get? id)
      (hserial : w'.serial = w.serial) (hretired : w'.retired = w.retired) : Change w w'
        (some (.deleted target))

/-- What a validated call carries. -/
structure Prepared.Ok (p : Prepared β) : Prop where
  card : p.card.New
  targets : ∀ minted card targets, p = .supersede minted card targets → targets.Nodup

theorem nodup_supersedesList (ids : List String) : (supersedesList ids).Nodup := by
  have hfold : ∀ (l out : List String), out.Nodup →
      (l.foldl (fun out id => if id ∈ out then out else out ++ [id]) out).Nodup := by
    intro l
    induction l with
    | nil => exact fun out h => h
    | cons id l ih =>
      intro out h
      refine ih _ ?_
      dsimp only
      split_ifs with hmem
      · exact h
      · rw [List.nodup_append]
        exact ⟨h,
          by simp, fun a ha b hb heq => hmem (by rw [← List.mem_singleton.mp hb, ← heq]; exact ha)⟩
  exact (hfold _ [] List.nodup_nil).sublist (List.take_sublist _ _)

section Cases

variable {w w' : GardenWorld β}

theorem supersede_change (w : GardenWorld β) {card : Card β} (hnew : card.New)
    {targets : List String} (htargets : targets.Nodup) :
    Change w (w.supersede card targets).1 (some (w.supersede card targets).2) := by
  rw [GardenWorld.supersede]
  dsimp only
  split_ifs with hunavailable
  · exact .none _ (by simp) rfl rfl rfl
  · have hactive : ∀ id ∈ targets, ∃ c, w.cards.get? id = some c ∧ c.isActive = true := by
      intro id hid
      have hsome : (w.cards.get? id).any Card.isActive = true := by
        have hmem := fun h => hunavailable (List.ne_nil_of_mem (List.mem_filter.mpr ⟨hid, h⟩))
        simpa using hmem
      simpa [Option.any_eq_true] using hsome
    refine Change.supersede (w := w) { card with serial := w.serial } targets ⟨hnew.status,
      hnew.supersededBy⟩ rfl htargets
      hactive (fun id => ?_) rfl rfl
    refine get?_replaceAll_map_concat (g := fun m => if m.id ∈ targets then
        m.retire card.updatedAt card.id else m) ?_ w.cards _ id
    intro m
    split_ifs <;> rfl

theorem retype_change (w : GardenWorld β) (days : Nat) (id : String) (type : Option MemoryType)
    (anchors : List String) :
    Change w (w.retype days id type anchors).1 (some (w.retype days id type anchors).2) := by
  have hnone : ∀ response : Response, (∀ id ids, response ≠ .created id ids) →
      Change w w (some response) :=
    fun response h => .none _ (fun id ids heq => h id ids (Option.some.inj heq)) rfl rfl rfl
  unfold GardenWorld.retype
  by_cases hid : id = ""
  · rw [if_pos hid]
    exact hnone _ (by simp)
  rw [if_neg hid]
  cases type with
  | none => exact hnone _ (by simp)
  | some type =>
    dsimp only
    cases w.cards.get? id with
    | none => exact hnone _ (by simp)
    | some target =>
      dsimp only
      by_cases howner : target.owner ≠ w.user
      · rw [if_pos howner]
        exact hnone _ (by simp)
      rw [if_neg howner]
      cases validateWrite w.clock days w.cards.rows (some type) anchors id false with
      | error e => exact hnone _ (by simp)
      | ok _ =>
        dsimp only
        split_ifs
        · exact hnone _ (by simp)
        · refine .retype id w.clock type anchors (fun other => ?_) rfl rfl
          refine get?_replaceAll_map (g := fun m => if m.id = id then m.retype w.clock type anchors
              else m) ?_ w.cards other
          intro m
          split_ifs <;> rfl

theorem delete_change (w : GardenWorld β) (id : String) :
    Change w (w.delete id).1 (some (w.delete id).2) := by
  rw [GardenWorld.delete]
  split_ifs
  · exact .none _ (by simp) rfl rfl rfl
  · cases w.cards.get? id with
    | none => exact .none _ (by simp) rfl rfl rfl
    | some target => exact .delete id (fun other => get?_replaceAll_filter w.cards id other) rfl rfl

theorem prepare_ok {days : Nat} {creation : Creation β} {p : Prepared β}
    (h : w.prepare days creation = .ok p) :
    p.Ok ∧ p.minted = creation.draft.mints ∧ p.card.id = creation.draft.id ∧
      p.takesEnvelopeId = creation.takesEnvelopeId := by
  cases creation with
  | add d =>
    rw [GardenWorld.prepare, prepareAdd] at h
    split at h
    · cases h
    · cases hdraft : validateDraft w.user w.clock days w.cards.rows d with
      | error e =>
        rw [hdraft] at h
        cases h
      | ok type =>
        rw [hdraft] at h
        cases h
        refine ⟨⟨⟨rfl, rfl⟩, fun minted card ids heq => ?_⟩, rfl, rfl, rfl⟩
        injection heq
  | supersede targets d =>
    rw [GardenWorld.prepare, prepareSupersede] at h
    split at h
    · cases h
    split at h
    · cases h
    split at h
    · cases h
    split at h
    · cases h
    split at h
    · cases h
    split at h
    · cases h
    cases hdraft : validateDraft w.user w.clock days w.cards.rows d with
    | error e =>
      rw [hdraft] at h
      cases h
    | ok type =>
      rw [hdraft] at h
      cases h
      refine ⟨⟨⟨rfl, rfl⟩, fun minted card ids heq => ?_⟩, rfl, rfl, rfl⟩
      injection heq with _ _ hids
      rw [← hids]
      exact nodup_supersedesList targets

theorem Change.congr {w₁ w₁' : GardenWorld β} {response : Option Response}
    (h : Change w w' response) (hcards : w₁.cards = w.cards) (hserial : w₁.serial = w.serial)
    (hretired : w₁.retired = w.retired)
    (hcards' : w₁'.cards = w'.cards) (hserial' : w₁'.serial = w'.serial)
    (hretired' : w₁'.retired = w'.retired) :
    Change w₁ w₁' response := by
  cases h with
  | none _ hresponse hc hs hr => exact .none _ hresponse (by simp [*]) (by simp [*]) (by simp [*])
  | add card hnew hfresh hcard hc hs hr =>
    exact .add card hnew (by simp [*]) (by simp [*]) (by simp [*]) (by simp [*]) (by simp [*])
  | supersede card targets hnew hcard htargets hactive hc hs hr =>
    exact .supersede card targets hnew (by simp [*]) htargets (by simpa [*] using hactive)
      (by simp [*]) (by simp [*]) (by simp [*])
  | retype target now type anchors hc hs hr =>
    exact .retype target now type anchors (by simp [*]) (by simp [*]) (by simp [*])
  | delete target hc hs hr => exact .delete target (by simp [*]) (by simp [*]) (by simp [*])

variable [DecidableEq β]

theorem insertNewMoment_change (w : GardenWorld β) {card : Card β} (hnew : card.New) :
    Change w (w.insertNewMoment card).1 (some (w.insertNewMoment card).2) := by
  rw [GardenWorld.insertNewMoment]
  cases hcard : w.cards.get? card.id with
  | some existing =>
    dsimp only
    refine .none _ (fun id ids => ?_) rfl rfl rfl
    split_ifs <;> simp
  | none =>
    refine Change.add (w := w) { card with serial := w.serial } ⟨hnew.status,
      hnew.supersededBy⟩ hcard rfl (fun id => ?_) rfl rfl
    exact get?_replaceAll_concat w.cards _ id

theorem locked_change (w : GardenWorld β) {p : Prepared β} (hp : p.Ok) :
    Change w (w.locked p).1 (some (w.locked p).2) := by
  cases p with
  | add minted card => exact insertNewMoment_change w hp.card
  | supersede minted card targets =>
    exact supersede_change w hp.card (hp.targets minted card targets rfl)

theorem perform_change (w : GardenWorld β) (days : Nat) (action : Action β) :
    Change w (w.perform days action).1 (some (w.perform days action).2) := by
  cases action with
  | create creation =>
    rw [GardenWorld.perform]
    cases hp : w.prepare days creation with
    | error e => exact .none _ (by simp) rfl rfl rfl
    | ok p => exact locked_change w (prepare_ok hp).1
  | retype id type anchors => exact retype_change w days id type anchors
  | delete id => exact delete_change w id

theorem execute_change (w : GardenWorld β) (key digest : String) (days : Nat) (action : Action β) :
    Change w (w.execute key digest days action).1 (some (w.execute key digest days action).2) := by
  rw [GardenWorld.execute]
  cases w.receipts.get? key with
  | some receipt =>
    dsimp only
    refine .none _ (fun id ids => ?_) rfl rfl rfl
    split_ifs <;> simp
  | none =>
    dsimp only
    split_ifs
    · exact (perform_change w days action).congr rfl rfl rfl rfl rfl rfl
    · exact perform_change w days action

/-- The answer of a locked section does not depend on the other calls. -/
theorem locked_pending (w : GardenWorld β) (pending : List (Prepared β)) (p : Prepared β) :
    ({ w with pending := pending }.locked p).2 = (w.locked p).2 := by
  cases p with
  | add minted card =>
    simp only [GardenWorld.locked, GardenWorld.insertNewMoment]
    cases w.cards.get? card.id <;> rfl
  | supersede minted card targets =>
    simp only [GardenWorld.locked, GardenWorld.supersede]
    split_ifs <;> rfl

theorem gardenStep_change (w : GardenWorld β) (hpending : ∀ p ∈ w.pending, p.Ok)
    (l : GardenLabel β) : Change w (gardenNext w l) (gardenStep w l).2 := by
  rw [gardenNext]
  cases l with
  | call days creation =>
    rw [gardenStep]
    cases w.prepare days creation with
    | error e => exact .none _ (by simp) rfl rfl rfl
    | ok p => exact .none _ (by simp) rfl rfl rfl
  | lock i =>
    rw [gardenStep]
    cases hp : w.pending[i]? with
    | none => exact .none _ (by simp) rfl rfl rfl
    | some p =>
      have hchange := locked_change { w with pending := w.pending.eraseIdx i }
        (hpending p (List.mem_of_getElem? hp))
      rw [locked_pending] at hchange
      exact hchange.congr rfl rfl rfl rfl rfl rfl
  | abandon i => exact .none _ (by simp [gardenStep]) rfl rfl rfl
  | retype days id type anchors => exact retype_change w days id type anchors
  | delete id => exact delete_change w id
  | deliver key digest days action => exact execute_change w key digest days action
  | tick seconds => exact .none _ (by simp [gardenStep]) rfl rfl rfl

end Cases

end Garden

end Feedling
