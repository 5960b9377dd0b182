import Mathlib.Data.List.Perm.Basic
import Feedling.MemoryHistory

/-!
# Chains of superseded cards

The invariant of the garden and of the calls in flight. The cards are numbered in the order in which
they were stored, and a retired card points to one with a larger number. It is kept by every step if
a creation never takes an id that is stored; ids that the server mints are fresh, an add checks its
id, and what is left is the supersede with a prebuilt envelope.
-/

namespace Feedling

namespace Garden

open KeyedTable (Table)

variable {β : Type} {w w' : GardenWorld β}

/-! ## The cards -/

/-- The numbers of the cards, and the entries of the retired ones. -/
structure CardsInv (w : GardenWorld β) : Prop where
  serial : ∀ id c, w.cards.get? id = some c → c.serial < w.serial
  distinct : ∀ id c id' c', w.cards.get? id = some c → w.cards.get? id' = some c' →
    c.serial = c'.serial → id = id'
  entries : ∀ e ∈ w.retired, e.1 < w.serial
  nodup : (w.retired.map Prod.fst).Nodup
  active : ∀ id c, w.cards.get? id = some c → c.status = .active →
    c.supersededBy = none ∧ c.serial ∉ w.retired.map Prod.fst
  superseded : ∀ id c, w.cards.get? id = some c → c.status = .superseded →
    ∃ successor, c.supersededBy = some successor ∧ (c.serial, successor) ∈ w.retired
  forward : ∀ id c successor c', w.cards.get? id = some c → c.supersededBy = some successor →
    w.cards.get? successor = some c' → c.serial < c'.serial

theorem CardsInv.start (user : String) : CardsInv (GardenWorld.start user : GardenWorld β) := by
  constructor <;> simp [GardenWorld.start]

theorem CardsInv.add (h : CardsInv w) {card : Card β} (hnew : card.New)
    (hcard : card.serial = w.serial)
    (hcards : ∀ id, w'.cards.get? id = if card.id = id then some card else w.cards.get? id)
    (hserial : w'.serial = w.serial + 1) (hretired : w'.retired = w.retired) : CardsInv w' := by
  -- a card of the new garden is the new one or an old one
  have hcase : ∀ id c, w'.cards.get? id = some c → c = card ∧ card.id = id ∨ card.id ≠ id ∧
      w.cards.get? id = some c := by
    intro id c hc
    rw [hcards] at hc
    split_ifs at hc with hid
    · exact .inl ⟨(Option.some.inj hc).symm, hid⟩
    · exact .inr ⟨hid, hc⟩
  constructor
  · intro id c hc
    rw [hserial]
    obtain ⟨rfl, -⟩ | ⟨-, hold⟩ := hcase id c hc
    · omega
    · exact Nat.lt_succ_of_lt (h.serial id c hold)
  · intro id c id' c' hc hc' heq
    obtain ⟨rfl, hid⟩ | ⟨hne, hold⟩ := hcase id c hc <;> obtain ⟨rfl, hid'⟩ | ⟨hne', hold'⟩ :=
      hcase id' c' hc'
    · exact hid.symm.trans hid'
    · exact absurd (h.serial id' c' hold') (by omega)
    · exact absurd (h.serial id c hold) (by omega)
    · exact h.distinct id c id' c' hold hold' heq
  · intro e he
    rw [hretired] at he
    rw [hserial]
    exact Nat.lt_succ_of_lt (h.entries e he)
  · rw [hretired]
    exact h.nodup
  · intro id c hc hactive
    rw [hretired]
    obtain ⟨rfl, -⟩ | ⟨-, hold⟩ := hcase id c hc
    · refine ⟨hnew.supersededBy, fun hmem => ?_⟩
      obtain ⟨e, he, hserial⟩ := List.mem_map.mp hmem
      exact absurd (h.entries e he) (by omega)
    · exact h.active id c hold hactive
  · intro id c hc hsuperseded
    rw [hretired]
    obtain ⟨rfl, -⟩ | ⟨-, hold⟩ := hcase id c hc
    · rw [hnew.status] at hsuperseded
      cases hsuperseded
    · exact h.superseded id c hold hsuperseded
  · intro id c successor c' hc hby hc'
    obtain ⟨rfl, -⟩ | ⟨-, hold⟩ := hcase id c hc
    · rw [hnew.supersededBy] at hby
      cases hby
    · obtain ⟨rfl, -⟩ | ⟨-, hold'⟩ := hcase successor c' hc'
      · rw [hcard]
        exact h.serial id c hold
      · exact h.forward id c successor c' hold hby hold'

/-- Changes that keep the numbers, the status and the successors of the cards that remain. -/
theorem CardsInv.of_kept (h : CardsInv w)
    (hcards : ∀ id c, w'.cards.get? id = some c → ∃ c₀, w.cards.get? id = some c₀ ∧
      c.serial = c₀.serial ∧ c.status = c₀.status ∧ c.supersededBy = c₀.supersededBy)
    (hserial : w'.serial = w.serial) (hretired : w'.retired = w.retired) : CardsInv w' := by
  constructor
  · intro id c hc
    obtain ⟨c₀, hold, hs, -, -⟩ := hcards id c hc
    rw [hserial, hs]
    exact h.serial id c₀ hold
  · intro id c id' c' hc hc' heq
    obtain ⟨c₀, hold, hs, -, -⟩ := hcards id c hc
    obtain ⟨c₀', hold', hs', -, -⟩ := hcards id' c' hc'
    exact h.distinct id c₀ id' c₀' hold hold' (by rw [← hs, ← hs', heq])
  · rw [hretired, hserial]
    exact h.entries
  · rw [hretired]
    exact h.nodup
  · intro id c hc hactive
    obtain ⟨c₀, hold, hs, hst, hby⟩ := hcards id c hc
    rw [hretired, hs, hby]
    exact h.active id c₀ hold (by rw [← hst, hactive])
  · intro id c hc hsuperseded
    obtain ⟨c₀, hold, hs, hst, hby⟩ := hcards id c hc
    rw [hretired, hs, hby]
    exact h.superseded id c₀ hold (by rw [← hst, hsuperseded])
  · intro id c successor c' hc hsucc hc'
    obtain ⟨c₀, hold, hs, -, hby⟩ := hcards id c hc
    obtain ⟨c₀', hold', hs', -, -⟩ := hcards successor c' hc'
    rw [hs, hs']
    exact h.forward id c₀ successor c₀' hold (by rw [← hby, hsucc]) hold'

variable {c : Card β}

theorem Card.status_of_isActive (h : c.isActive = true) : c.status = .active := by
  simp only [Card.isActive, Bool.and_eq_true, beq_iff_eq] at h
  exact h.1

/-- The cards that a supersede names have distinct numbers, and none of them was retired before. -/
theorem CardsInv.nodup_targets (h : CardsInv w) {targets : List String} (htargets : targets.Nodup)
    (hactive : ∀ id ∈ targets, ∃ c, w.cards.get? id = some c ∧ c.isActive = true) :
    ((targets.filterMap w.cards.get?).map Card.serial ++ w.retired.map Prod.fst).Nodup := by
  refine List.nodup_append.mpr ⟨?_, h.nodup, ?_⟩
  · have hids : (targets.filterMap w.cards.get?).Nodup := by
      refine htargets.filterMap fun id id' c hc hc' => ?_
      rw [← Table.key_of_get? (Option.mem_def.mp hc), ← Table.key_of_get? (Option.mem_def.mp hc')]
    refine hids.map_on fun c hc c' hc' heq => ?_
    obtain ⟨id, -, hid⟩ := List.mem_filterMap.mp hc
    obtain ⟨id', -, hid'⟩ := List.mem_filterMap.mp hc'
    have hsame := h.distinct id c id' c' hid hid' heq
    subst hsame
    exact Option.some.inj (hid.symm.trans hid')
  · intro n hn n' hn' heq
    obtain ⟨c, hc, rfl⟩ := List.mem_map.mp hn
    obtain ⟨id, hid, hget⟩ := List.mem_filterMap.mp hc
    obtain ⟨c', hget', hc'⟩ := hactive id hid
    obtain rfl : c = c' := Option.some.inj (hget.symm.trans hget')
    exact (h.active id c hget (Card.status_of_isActive hc')).2 (heq ▸ hn')

/-- Retiring active cards for a successor that is not stored yet. -/
theorem CardsInv.retire (h : CardsInv w) {targets : List String} (htargets : targets.Nodup)
    (hactive : ∀ id ∈ targets, ∃ c, w.cards.get? id = some c ∧ c.isActive = true) {now : Time}
    {successor : String}
    (hfresh : w.cards.get? successor = none)
    (hcards : ∀ id, w'.cards.get? id = (w.cards.get? id).map fun m => if m.id ∈ targets then
      m.retire now successor else m)
    (hserial : w'.serial = w.serial)
    (hretired : w'.retired = (targets.filterMap w.cards.get?).map
      (fun m => (m.serial, successor)) ++ w.retired) :
    CardsInv w' := by
  -- a card of the new garden is a retired target or an old card
  have hcase : ∀ id c, w'.cards.get? id = some c → ∃ c₀, w.cards.get? id = some c₀ ∧
      c.serial = c₀.serial ∧
        (id ∈ targets ∧ c.status = .superseded ∧ c.supersededBy = some successor ∨ id ∉ targets ∧
          c = c₀) := by
    intro id c hc
    rw [hcards] at hc
    obtain ⟨c₀, hold, rfl⟩ := Option.map_eq_some_iff.mp hc
    have hid : c₀.id = id := Table.key_of_get? hold
    refine ⟨c₀, hold, ?_⟩
    rw [hid]
    split_ifs with hmem
    · exact ⟨rfl, .inl ⟨hmem, rfl, rfl⟩⟩
    · exact ⟨rfl, .inr ⟨hmem, rfl⟩⟩
  have hfst : w'.retired.map Prod.fst = (targets.filterMap w.cards.get?).map Card.serial ++
      w.retired.map Prod.fst := by
    rw [hretired, List.map_append, List.map_map]
    rfl
  have hnone : w'.cards.get? successor = none := by
    rw [hcards, hfresh]
    rfl
  constructor
  · intro id c hc
    obtain ⟨c₀, hold, hs, -⟩ := hcase id c hc
    rw [hserial, hs]
    exact h.serial id c₀ hold
  · intro id c id' c' hc hc' heq
    obtain ⟨c₀, hold, hs, -⟩ := hcase id c hc
    obtain ⟨c₀', hold', hs', -⟩ := hcase id' c' hc'
    exact h.distinct id c₀ id' c₀' hold hold' (by rw [← hs, ← hs', heq])
  · intro e he
    rw [hserial]
    rw [hretired] at he
    obtain he | he := List.mem_append.mp he
    · obtain ⟨c, hc, rfl⟩ := List.mem_map.mp he
      obtain ⟨id, -, hget⟩ := List.mem_filterMap.mp hc
      exact h.serial id c hget
    · exact h.entries e he
  · rw [hfst]
    exact h.nodup_targets htargets hactive
  · intro id c hc hstatus
    obtain ⟨c₀, hold, hs, ⟨-, hsuperseded, -⟩ | ⟨hmem, rfl⟩⟩ := hcase id c hc
    · rw [hsuperseded] at hstatus
      cases hstatus
    · obtain ⟨hby, hentry⟩ := h.active id c hold hstatus
      refine ⟨hby, fun hin => ?_⟩
      rw [hfst] at hin
      obtain hin | hin := List.mem_append.mp hin
      · obtain ⟨c₁, hc₁, hserial₁⟩ := List.mem_map.mp hin
        obtain ⟨id₁, hid₁, hget₁⟩ := List.mem_filterMap.mp hc₁
        exact hmem (h.distinct id₁ c₁ id c hget₁ hold hserial₁ ▸ hid₁)
      · exact hentry hin
  · intro id c hc hstatus
    rw [hretired]
    obtain ⟨c₀, hold, hs, ⟨hmem, -, hby⟩ | ⟨-, rfl⟩⟩ := hcase id c hc
    · refine ⟨successor, hby, List.mem_append_left _ (List.mem_map.mpr ⟨c₀, ?_, by rw [hs]⟩)⟩
      exact List.mem_filterMap.mpr ⟨id, hmem, hold⟩
    · obtain ⟨successor', hby, hentry⟩ := h.superseded id c hold hstatus
      exact ⟨successor', hby, List.mem_append_right _ hentry⟩
  · intro id c successor' c' hc hby hc'
    obtain ⟨c₀, hold, hs, ⟨-, -, hsuccessor⟩ | ⟨-, rfl⟩⟩ := hcase id c hc
    · rw [hsuccessor] at hby
      cases hby
      rw [hnone] at hc'
      cases hc'
    · obtain ⟨c₀', hold', hs', -⟩ := hcase successor' c' hc'
      rw [hs']
      exact h.forward id c successor' c₀' hold hby hold'

variable {response : Option Response}

/-- Every change keeps the invariant, if the card that it creates has an id that is not stored. -/
theorem CardsInv.change (h : CardsInv w) (hchange : Change w w' response)
    (hfresh : ∀ id ids, response = some (.created id ids) → w.cards.get? id = none) :
    CardsInv w' := by
  cases hchange with
  | none _ _ hcards hserial hretired =>
    refine h.of_kept (fun id c hc => ?_) hserial hretired
    rw [hcards] at hc
    exact ⟨c, hc, rfl, rfl, rfl⟩
  | add card hnew _ hcard hcards hserial hretired => exact h.add hnew hcard hcards hserial hretired
  | supersede card targets hnew hcard htargets hactive hcards hserial hretired =>
    have hg : ∀ m : Card β, (if m.id ∈ targets then m.retire card.updatedAt card.id else m).id =
        m.id := by
      intro m
      split_ifs <;> rfl
    let w₁ : GardenWorld β :=
      { w with
        cards := memoryReplaceAll (w.cards.rows.map fun m => if m.id ∈ targets then
            m.retire card.updatedAt card.id else m)
        retired :=
          (targets.filterMap w.cards.get?).map (fun m => (m.serial, card.id)) ++ w.retired }
    have hcards₁ := get?_replaceAll_map hg w.cards
    have hretire : CardsInv w₁ :=
      h.retire htargets hactive (hfresh card.id targets rfl) hcards₁ rfl rfl
    refine hretire.add hnew hcard (fun id => ?_) hserial hretired
    rw [hcards, hcards₁]
  | retype target now type anchors hcards hserial hretired =>
    refine h.of_kept (fun id c hc => ?_) hserial hretired
    rw [hcards] at hc
    obtain ⟨c₀, hold, rfl⟩ := Option.map_eq_some_iff.mp hc
    refine ⟨c₀, hold, ?_⟩
    split_ifs <;> exact ⟨rfl, rfl, rfl⟩
  | delete target hcards hserial hretired =>
    refine h.of_kept (fun id c hc => ?_) hserial hretired
    rw [hcards] at hc
    split_ifs at hc
    exact ⟨c, hc, rfl, rfl, rfl⟩

/-! ## Chains of successors -/

/-- The card that is reached after so many steps along `superseded_by`. -/
def follow (cards : Cards β) : Nat → String → Option String
  | 0, id => some id
  | n + 1, id => ((cards.get? id).bind Card.supersededBy).bind (follow cards n)

theorem follow_succ_eq_some {cards : Cards β} {n : Nat} {id id' : String}
    (h : follow cards (n + 1) id = some id') :
    ∃ c successor, cards.get? id = some c ∧ c.supersededBy = some successor ∧
      follow cards n successor = some id' := by
  obtain ⟨successor, hby, hrest⟩ := Option.bind_eq_some_iff.mp h
  obtain ⟨c, hc, hsuccessor⟩ := Option.bind_eq_some_iff.mp hby
  exact ⟨c, successor, hc, hsuccessor, hrest⟩

/-- A chain leads to cards that were stored later. -/
theorem CardsInv.follow_lt (h : CardsInv w) {c' : Card β} {id' : String}
    (hc' : w.cards.get? id' = some c') :
    ∀ (n : Nat) (id : String) (c : Card β), w.cards.get? id = some c →
      follow w.cards (n + 1) id = some id' → c.serial < c'.serial := by
  intro n
  induction n with
  | zero =>
    intro id c hc hfollow
    obtain ⟨_, successor, hget, hby, hrest⟩ := follow_succ_eq_some hfollow
    obtain rfl := Option.some.inj (hc.symm.trans hget)
    obtain rfl := Option.some.inj hrest
    exact h.forward id c successor c' hc hby hc'
  | succ n ih =>
    intro id c hc hfollow
    obtain ⟨_, successor, hget, hby, hrest⟩ := follow_succ_eq_some hfollow
    obtain rfl := Option.some.inj (hc.symm.trans hget)
    obtain ⟨cs, _, hcs, -, -⟩ := follow_succ_eq_some hrest
    exact Nat.lt_trans (h.forward id c successor cs hc hby hcs) (ih successor cs hcs hrest)

variable {id : String}

theorem CardsInv.follow_ne (h : CardsInv w) (hc : w.cards.get? id = some c) (n : Nat) :
    follow w.cards (n + 1) id ≠ some id :=
  fun hfollow => absurd (h.follow_lt hc n id c hc hfollow) (Nat.lt_irrefl _)

/-! ## What a change keeps -/

/-- The same card a step later. -/
structure Card.Continues (c c' : Card β) : Prop where
  serial : c'.serial = c.serial
  body : c'.body = c.body
  owner : c'.owner = c.owner
  visibility : c'.visibility = c.visibility
  createdAt : c'.createdAt = c.createdAt
  superseded : c.status = .superseded → c'.status = .superseded ∧ c'.supersededBy = c.supersededBy

theorem Card.Continues.refl (c : Card β) : c.Continues c :=
  ⟨rfl, rfl, rfl, rfl, rfl, fun h => ⟨h, rfl⟩⟩

variable {ids : List String}

theorem Change.created_stored (h : Change w w' (some (.created id ids))) :
    ∃ c, w'.cards.get? id = some c := by
  cases h with
  | none _ hresponse => exact absurd rfl (hresponse id ids)
  | add card _ _ _ hcards => exact ⟨card, by rw [hcards, if_pos rfl]⟩
  | supersede card _ _ _ _ _ hcards => exact ⟨card, by rw [hcards, if_pos rfl]⟩

theorem Change.get?_eq_none (h : Change w w' response)
    (hid : ∀ ids, response ≠ some (.created id ids)) (hnone : w.cards.get? id = .none) :
    w'.cards.get? id = .none := by
  cases h with
  | none _ _ hcards => rw [hcards, hnone]
  | add card _ _ _ hcards =>
    rw [hcards, if_neg fun heq => hid [] (by rw [heq]), hnone]
  | supersede card targets _ _ _ _ hcards =>
    rw [hcards, if_neg fun heq => hid targets (by rw [heq]), hnone]
    rfl
  | retype target now type anchors hcards =>
    rw [hcards, hnone]
    rfl
  | delete target hcards =>
    rw [hcards, hnone]
    split_ifs <;> rfl

/-- A stored card goes on as it is unless it is deleted, if a creation takes an id that is not
stored. -/
theorem Change.continues (h : Change w w' response)
    (hfresh : ∀ id ids, response = some (.created id ids) → w.cards.get? id = .none)
    (hc : w.cards.get? id = some c) :
    (∃ c', w'.cards.get? id = some c' ∧ c.Continues c') ∨
      response = some (.deleted id) ∧ w'.cards.get? id = .none := by
  have hid : c.id = id := Table.key_of_get? hc
  cases h with
  | none _ _ hcards => exact .inl ⟨c, by rw [hcards, hc], .refl c⟩
  | add card _ hnone _ hcards =>
    have hne : card.id ≠ id := by
      rintro rfl
      rw [hnone] at hc
      cases hc
    exact .inl ⟨c, by rw [hcards, if_neg hne, hc], .refl c⟩
  | supersede card targets _ _ _ hactive hcards =>
    have hne : card.id ≠ id := by
      rintro rfl
      rw [hfresh card.id targets rfl] at hc
      cases hc
    refine .inl ⟨_, by rw [hcards, if_neg hne, hc, Option.map_some], ?_⟩
    split_ifs with hmem
    · -- a target is active, so nothing is said about its fields
      obtain ⟨c₀, hget, hactive⟩ := hactive id (hid ▸ hmem)
      obtain rfl := Option.some.inj (hc.symm.trans hget)
      refine ⟨rfl, rfl, rfl, rfl, rfl, fun hstatus => ?_⟩
      rw [Card.status_of_isActive hactive] at hstatus
      cases hstatus
    · exact .refl c
  | retype target now type anchors hcards =>
    refine .inl ⟨_, by rw [hcards, hc, Option.map_some], ?_⟩
    split_ifs
    · exact ⟨rfl, rfl, rfl, rfl, rfl, fun h => ⟨h, rfl⟩⟩
    · exact .refl c
  | delete target hcards =>
    by_cases heq : id = target
    · exact .inr ⟨by rw [heq], by rw [hcards, if_pos heq]⟩
    · exact .inl ⟨c, by rw [hcards, if_neg heq, hc], .refl c⟩

/-! ## The calls in flight -/

/-- The assumption on the ids that the server mints, for a draft: such an id is not stored, and no
other call in flight has it. -/
def DraftFresh (w : GardenWorld β) (d : Draft β) : Prop :=
  (d.mints = true → w.cards.get? d.id = none) ∧ ∀ p ∈ w.pending, d.mints = true ∨ p.minted = true →
    p.card.id ≠ d.id

instance [DecidableEq β] (w : GardenWorld β) (d : Draft β) : Decidable (DraftFresh w d) :=
  inferInstanceAs (Decidable (_ ∧ _))

/-- Ids that the server mints are fresh. -/
def MintedFresh (w : GardenWorld β) : GardenLabel β → Prop
  | .call _ creation => DraftFresh w creation.draft
  | .deliver _ _ _ (.create creation) => DraftFresh w creation.draft
  | _ => True

instance [DecidableEq β] (w : GardenWorld β) : ∀ l, Decidable (MintedFresh w l)
  | .call _ creation => inferInstanceAs (Decidable (DraftFresh w creation.draft))
  | .deliver _ _ _ (.create creation) => inferInstanceAs (Decidable (DraftFresh w creation.draft))
  | .deliver _ _ _ (.retype _ _ _) => isTrue trivial
  | .deliver _ _ _ (.delete _) => isTrue trivial
  | .lock _ => isTrue trivial
  | .abandon _ => isTrue trivial
  | .retype _ _ _ _ => isTrue trivial
  | .delete _ => isTrue trivial
  | .tick _ => isTrue trivial

/-- A supersede with a prebuilt envelope reaches its locked section while the id of the envelope is
not stored. -/
def EnvelopeUnstored (w : GardenWorld β) : GardenLabel β → Prop
  | .lock i => ∀ p ∈ w.pending[i]?, p.takesEnvelopeId = true → w.cards.get? p.card.id = none
  | .deliver key _ _ (.create creation) =>
    w.receipts.get? key = none → creation.takesEnvelopeId = true →
      w.cards.get? creation.draft.id = none
  | _ => True

instance [DecidableEq β] (w : GardenWorld β) : ∀ l, Decidable (EnvelopeUnstored w l)
  | .lock i => inferInstanceAs (Decidable (∀ p ∈ w.pending[i]?, _ → _))
  | .deliver key _ _ (.create _) => inferInstanceAs (Decidable (w.receipts.get? key = none → _ → _))
  | .deliver _ _ _ (.retype _ _ _) => isTrue trivial
  | .deliver _ _ _ (.delete _) => isTrue trivial
  | .call _ _ => isTrue trivial
  | .abandon _ => isTrue trivial
  | .retype _ _ _ _ => isTrue trivial
  | .delete _ => isTrue trivial
  | .tick _ => isTrue trivial

structure PendingInv (w : GardenWorld β) : Prop where
  ok : ∀ p ∈ w.pending, p.Ok
  unstored : ∀ p ∈ w.pending, p.minted = true → w.cards.get? p.card.id = none
  apart : w.pending.Pairwise fun p q => p.minted = true ∨ q.minted = true → p.card.id ≠ q.card.id

structure GardenInv (w : GardenWorld β) : Prop where
  cards : CardsInv w
  pending : PendingInv w

theorem GardenInv.start (user : String) : GardenInv (GardenWorld.start user : GardenWorld β) :=
  ⟨.start user,
    ⟨by simp [GardenWorld.start], by simp [GardenWorld.start], by simp [GardenWorld.start]⟩⟩

theorem retype_frame (w : GardenWorld β) (days : Nat) (id : String) (type : Option MemoryType)
    (anchors : List String) :
    (w.retype days id type anchors).1.pending = w.pending ∧
      (w.retype days id type anchors).1.receipts = w.receipts ∧
        (∀ id' ids, (w.retype days id type anchors).2 ≠ .created id' ids) ∧
      ∀ id', (w.retype days id type anchors).2 ≠ .deleted id' := by
  unfold GardenWorld.retype
  split
  · exact ⟨rfl, rfl, by simp, by simp⟩
  split
  · exact ⟨rfl, rfl, by simp, by simp⟩
  split
  · exact ⟨rfl, rfl, by simp, by simp⟩
  split
  · exact ⟨rfl, rfl, by simp, by simp⟩
  split
  · exact ⟨rfl, rfl, by simp, by simp⟩
  split <;> exact ⟨rfl, rfl, by simp, by simp⟩

theorem delete_frame (w : GardenWorld β) (id : String) :
    (w.delete id).1.pending = w.pending ∧ (w.delete id).1.receipts = w.receipts ∧
      (∀ id' ids, (w.delete id).2 ≠ .created id' ids) ∧ ∀ id', (w.delete id).2 = .deleted id' →
        id = id' := by
  rw [GardenWorld.delete]
  split
  · exact ⟨rfl, rfl, by simp, by simp⟩
  · split
    · exact ⟨rfl, rfl, by simp, by simp⟩
    · refine ⟨rfl, rfl, by simp, fun id' h => ?_⟩
      injection h

variable [DecidableEq β]

theorem locked_frame (w : GardenWorld β) (p : Prepared β) :
    (w.locked p).1.pending = w.pending ∧ (w.locked p).1.receipts = w.receipts ∧
      ∀ id, (w.locked p).2 ≠ .deleted id := by
  cases p with
  | add minted card =>
    simp only [GardenWorld.locked, GardenWorld.insertNewMoment]
    cases w.cards.get? card.id with
    | none => exact ⟨rfl, rfl, by simp⟩
    | some existing =>
      refine ⟨rfl, rfl, fun id => ?_⟩
      dsimp only
      split_ifs <;> simp
  | supersede minted card targets =>
    simp only [GardenWorld.locked, GardenWorld.supersede]
    split_ifs <;> exact ⟨rfl, rfl, by simp⟩

theorem perform_frame (w : GardenWorld β) (days : Nat) (action : Action β) :
    (w.perform days action).1.pending = w.pending ∧
      (w.perform days action).1.receipts = w.receipts := by
  cases action with
  | create creation =>
    rw [GardenWorld.perform]
    split
    · exact ⟨rfl, rfl⟩
    · exact ⟨(locked_frame w _).1, (locked_frame w _).2.1⟩
  | retype id type anchors => exact ⟨(retype_frame ..).1, (retype_frame ..).2.1⟩
  | delete id => exact ⟨(delete_frame ..).1, (delete_frame ..).2.1⟩

theorem execute_pending (w : GardenWorld β) (key digest : String) (days : Nat) (action : Action β) :
    (w.execute key digest days action).1.pending = w.pending := by
  rw [GardenWorld.execute]
  split
  · rfl
  · dsimp only
    split_ifs <;> exact (perform_frame w days action).1

theorem gardenStep_pending (w : GardenWorld β) (l : GardenLabel β) :
    (gardenNext w l).pending.Sublist w.pending ∨ ∃ days creation p, l = .call days creation ∧
      w.prepare days creation = .ok p ∧ (gardenNext w l).pending = w.pending ++ [p] := by
  rw [gardenNext]
  cases l with
  | call days creation =>
    rw [gardenStep]
    cases hp : w.prepare days creation with
    | error e => exact .inl (List.Sublist.refl _)
    | ok p => exact .inr ⟨days, creation, p, rfl, hp, rfl⟩
  | lock i =>
    rw [gardenStep]
    cases w.pending[i]? with
    | none => exact .inl (List.Sublist.refl _)
    | some p =>
      left
      dsimp only
      rw [(locked_frame _ p).1]
      exact List.eraseIdx_sublist ..
  | abandon i => exact .inl (List.eraseIdx_sublist ..)
  | retype days id type anchors =>
    left
    rw [gardenStep, (retype_frame ..).1]
  | delete id =>
    left
    rw [gardenStep, (delete_frame ..).1]
  | deliver key digest days action =>
    left
    rw [gardenStep, execute_pending]
  | tick seconds => exact .inl (List.Sublist.refl _)

theorem locked_created {p : Prepared β} (h : (w.locked p).2 = .created id ids) :
    p.card.id = id ∧ (w.cards.get? id = none ∨ p.minted = true ∨ p.takesEnvelopeId = true) := by
  cases p with
  | add minted card =>
    rw [GardenWorld.locked, GardenWorld.insertNewMoment] at h
    cases hcard : w.cards.get? card.id with
    | some existing =>
      rw [hcard] at h
      dsimp only at h
      split_ifs at h
    | none =>
      rw [hcard] at h
      injection h with hid
      exact ⟨hid, .inl (hid ▸ hcard)⟩
  | supersede minted card targets =>
    rw [GardenWorld.locked, GardenWorld.supersede] at h
    dsimp only at h
    split_ifs at h
    injection h with hid
    refine ⟨hid, .inr ?_⟩
    cases minted
    · exact .inr rfl
    · exact .inl rfl

theorem execute_created {key digest : String} {days : Nat} {action : Action β}
    (h : (w.execute key digest days action).2 = .created id ids) :
    w.receipts.get? key = none ∧ ∃ creation p, action = .create creation ∧
      w.prepare days creation = .ok p ∧ (w.locked p).2 = .created id ids := by
  rw [GardenWorld.execute] at h
  cases hreceipt : w.receipts.get? key with
  | some receipt =>
    rw [hreceipt] at h
    dsimp only at h
    split_ifs at h
  | none =>
    rw [hreceipt] at h
    have hperform : (w.perform days action).2 = .created id ids := by
      dsimp only at h
      split_ifs at h <;> exact h
    refine ⟨rfl, ?_⟩
    cases action with
    | create creation =>
      rw [GardenWorld.perform] at hperform
      cases hp : w.prepare days creation with
      | error e =>
        rw [hp] at hperform
        cases hperform
      | ok p =>
        rw [hp] at hperform
        exact ⟨creation, p, rfl, hp, hperform⟩
    | retype target type anchors =>
      exact absurd hperform ((retype_frame w days target type anchors).2.2.1 id ids)
    | delete target => exact absurd hperform ((delete_frame w target).2.2.1 id ids)

variable {l : GardenLabel β}

section

variable (h : GardenInv w) (hmint : MintedFresh w l) (hunstored : EnvelopeUnstored w l)
include h hmint hunstored

/-- A created card has an id that was not stored, and no call in flight has a minted id that equals
it. -/
theorem GardenInv.created (hcreated : (gardenStep w l).2 = some (.created id ids)) :
    w.cards.get? id = none ∧ ∀ q ∈ (gardenNext w l).pending, q.minted = true → q.card.id ≠ id := by
  cases l with
  | call days creation =>
    rw [gardenStep] at hcreated
    cases hp : w.prepare days creation with
    | error e =>
      rw [hp] at hcreated
      cases hcreated
    | ok p =>
      rw [hp] at hcreated
      cases hcreated
  | lock i =>
    rw [gardenNext]
    rw [gardenStep] at hcreated ⊢
    cases hp : w.pending[i]? with
    | none =>
      rw [hp] at hcreated
      cases hcreated
    | some p =>
      rw [hp] at hcreated
      dsimp only at hcreated ⊢
      obtain ⟨rfl, hid⟩ := locked_created (Option.some.inj hcreated)
      obtain ⟨hi, rfl⟩ := List.getElem?_eq_some_iff.mp hp
      constructor
      · obtain hnone | hminted | htakes := hid
        · exact hnone
        · exact h.pending.unstored _ (List.getElem_mem hi) hminted
        · exact hunstored _ hp htakes
      · rw [(locked_frame _ _).1]
        intro q hq hminted
        -- the calls that stay are apart from the one that is taken out
        have hapart := ((List.getElem_cons_eraseIdx_perm hi).pairwise_iff
          (fun {p q} hpq hor => (hpq hor.symm).symm)).mpr h.pending.apart
        exact ((List.pairwise_cons.mp hapart).1 q hq (.inr hminted)).symm
  | abandon i => cases hcreated
  | retype days target type anchors =>
    exact absurd (Option.some.inj hcreated) ((retype_frame ..).2.2.1 id ids)
  | delete target => exact absurd (Option.some.inj hcreated) ((delete_frame ..).2.2.1 id ids)
  | deliver key digest days action =>
    obtain ⟨hreceipt, creation, p, rfl, hp, hlocked⟩ := execute_created (Option.some.inj hcreated)
    obtain ⟨-, hminted, hcard, htakes⟩ := prepare_ok hp
    obtain ⟨rfl, hid⟩ := locked_created hlocked
    rw [gardenNext, gardenStep, execute_pending]
    constructor
    · obtain hnone | hm | ht := hid
      · exact hnone
      · rw [hcard]
        exact hmint.1 (by rw [← hminted, hm])
      · rw [hcard]
        exact hunstored hreceipt (by rw [← htakes, ht])
    · intro q hq hq'
      rw [hcard]
      exact hmint.2 q hq (.inr hq')
  | tick seconds => cases hcreated

theorem PendingInv.step : PendingInv (gardenNext w l) := by
  have hchange := gardenStep_change w h.pending.ok l
  -- what is not stored stays so for the calls in flight
  have hkeep : ∀ q ∈ (gardenNext w l).pending, q.minted = true → w.cards.get? q.card.id = none →
      (gardenNext w l).cards.get? q.card.id = none :=
    fun q hq hminted hnone => hchange.get?_eq_none
      (fun ids hcreated => (h.created hmint hunstored hcreated).2 q hq hminted rfl) hnone
  obtain hsub | ⟨days, creation, p, rfl, hp, hpending⟩ := gardenStep_pending w l
  · exact ⟨fun q hq => h.pending.ok q (hsub.subset hq),
      fun q hq hminted => hkeep q hq hminted (h.pending.unstored q (hsub.subset hq) hminted),
        h.pending.apart.sublist hsub⟩
  · obtain ⟨hok, hminted, hcard, -⟩ := prepare_ok hp
    have hmem : ∀ q ∈ (gardenNext w (.call days creation)).pending, q ∈ w.pending ∨ q = p := by
      intro q hq
      rw [hpending] at hq
      simpa using hq
    refine ⟨fun q hq => ?_, fun q hq hq' => ?_, ?_⟩
    · obtain hold | rfl := hmem q hq
      · exact h.pending.ok q hold
      · exact hok
    · refine hkeep q hq hq' ?_
      obtain hold | rfl := hmem q hq
      · exact h.pending.unstored q hold hq'
      · rw [hcard]
        exact hmint.1 (by rw [← hminted, hq'])
    · rw [hpending]
      refine List.pairwise_append.mpr ⟨h.pending.apart, List.pairwise_singleton _ _,
        fun q hq p' hp' hor => ?_⟩
      rw [List.mem_singleton.mp hp'] at hor ⊢
      rw [hcard]
      exact hmint.2 q hq (by rw [← hminted]; exact hor.symm)

theorem GardenInv.step : GardenInv (gardenNext w l) :=
  ⟨h.cards.change (gardenStep_change w h.pending.ok l) fun _ _ hcreated =>
    (h.created hmint hunstored hcreated).1, .step h hmint hunstored⟩

end

end Garden

end Feedling
