import Feedling.GardenList

/-!
# Paging through the memory garden

A client asks for pages with the cursor of the page before, while cards come and go. The order of
the list is a linear order on the places of cards, so the pages are pages by key. Nothing is
repeated, and a card that stays in its place is returned once. The one thing that can stop a
traversal is a cursor that is too long for the decoder.
-/

namespace Feedling

namespace GardenList

open KeysetPages

variable {τ β : Type} [LinearOrder τ] {ts : Timestamps τ}

/-! ## The order of the list -/

/-- Times fall and ids rise. -/
abbrev Place (τ : Type) [LinearOrder τ] := (Bool ×ₗ τ)ᵒᵈ ×ₗ String

def ListKey.place (key : ListKey τ) : Place τ :=
  toLex (OrderDual.toDual (toLex (key.hasTs, key.effectiveAt)), key.id)

def placeOf (ts : Timestamps τ) (m : Moment β) : Place τ := (memoryListKey ts m).place

theorem ListKey.place_injective : Function.Injective (ListKey.place : ListKey τ → Place τ) := by
  rintro ⟨h, d, i⟩ ⟨h', d', i'⟩ heq
  simp only [ListKey.place, EmbeddingLike.apply_eq_iff_eq, Prod.mk.injEq] at heq
  obtain ⟨⟨rfl, rfl⟩, rfl⟩ := heq
  rfl

theorem ListKey.place_lt {a b : ListKey τ} : a.place < b.place ↔
    (b.hasTs < a.hasTs ∨ (b.hasTs = a.hasTs ∧ b.effectiveAt < a.effectiveAt)) ∨
      ((a.hasTs, a.effectiveAt) = (b.hasTs, b.effectiveAt) ∧ a.id < b.id) := by
  rw [ListKey.place, ListKey.place, Prod.Lex.toLex_lt_toLex, OrderDual.toDual_lt_toDual,
    Prod.Lex.toLex_lt_toLex]
  simp only [EmbeddingLike.apply_eq_iff_eq]

theorem memoryListIsAfterCursor_iff (m : Moment β) (key : ListKey τ) :
    memoryListIsAfterCursor ts m key = true ↔ key.place < placeOf ts m := by
  rw [placeOf, ListKey.place_lt, memoryListIsAfterCursor]
  split_ifs with hne
  · have hne' : ¬(key.hasTs, key.effectiveAt) = ((memoryListKey ts m).hasTs,
        (memoryListKey ts m).effectiveAt) := fun h => hne h.symm
    simp [hne']
  · rw [not_not] at hne
    obtain ⟨hts, hat⟩ := Prod.mk.inj hne
    simp [hts, hat]

theorem timeLe_iff (a b : Bool × τ) : timeLe a b ↔ toLex a ≤ toLex b := by
  rw [timeLe, Prod.Lex.toLex_le_toLex]

theorem sortMemoryList_ordered {moments : List (Moment β)} (h : (moments.map (·.id)).Nodup) :
    Ordered (placeOf ts) (sortMemoryList ts moments) := by
  have hids : (moments.insertionSort fun a b => a.id ≤ b.id).Pairwise fun a b => a.id < b.id := by
    have hle : (moments.insertionSort fun a b => a.id ≤ b.id).Pairwise fun a b => a.id ≤ b.id ∧
        (b.id ≤ a.id → True) :=
      pairwise_insertionSort (fun _ _ => True) (fun a b : Moment β => a.id ≤ b.id)
        (fun _ _ _ => le_trans) (fun _ _ => le_total _ _)
        (List.pairwise_of_forall fun _ _ => trivial)
    have hne : (moments.insertionSort fun a b => a.id ≤ b.id).Pairwise fun a b => a.id ≠ b.id := by
      have hnodup := ((List.perm_insertionSort (fun a b : Moment β => a.id ≤ b.id) moments).map
          (·.id)).nodup_iff.mpr h
      exact List.pairwise_map.mp hnodup
    exact (hle.and hne).imp fun hab => lt_of_le_of_ne hab.1.1 hab.2
  have hstable := pairwise_insertionSort (fun a b : Moment β => a.id < b.id)
    (fun a b => timeLe (memoryListTimeKey ts b) (memoryListTimeKey ts a)) (fun a b c hab hbc => ?_)
      (fun a b => ?_) hids
  · refine hstable.imp fun {a b} hab => ?_
    rw [timeLe_iff, timeLe_iff] at hab
    rw [placeOf, placeOf, ListKey.place, ListKey.place, Prod.Lex.toLex_lt_toLex,
      OrderDual.toDual_lt_toDual]
    obtain hlt | heq := lt_or_eq_of_le hab.1
    · exact Or.inl hlt
    · exact Or.inr ⟨congrArg OrderDual.toDual heq.symm, hab.2 heq.symm.le⟩
  · rw [timeLe_iff] at *
    exact le_trans hbc hab
  · rw [timeLe_iff, timeLe_iff]
    exact le_total _ _

/-! ## Traversals -/

/-- The cards of a user: their ids are different and not empty. -/
structure Garden (β : Type) where
  moments : List (Moment β)
  ids : (moments.map (·.id)).Nodup
  nonempty : ∀ m ∈ moments, m.id ≠ ""

/-- A request for a page, with the garden it meets. -/
structure ListRequest (β : Type) where
  garden : Garden β
  limit : Int
  valid : 1 ≤ limit ∧ limit ≤ memoryListMaxLimit

inductive Outcome where
  | finished | refused | unfinished
  deriving DecidableEq, Repr

/-- The cards that were returned and how it ended. -/
structure Traversal (β : Type) where
  cards : List (Moment β)
  outcome : Outcome

/-- Each request passes the cursor of the one before, until there is none. -/
def traverse (ts : Timestamps τ) (f : ListFilter) : String → List (ListRequest β) → Traversal β
  | _, [] => ⟨[], .unfinished⟩
  | cursor, q :: rest =>
    match listMoments ts f q.garden.moments q.limit cursor with
    | .error _ => ⟨[], .refused⟩
    | .ok page =>
      match page.nextCursor with
      | none => ⟨page.moments, .finished⟩
      | some next =>
        let t := traverse ts f next rest
        ⟨page.moments ++ t.cards, t.outcome⟩

def ListRequest.listed (ts : Timestamps τ) (f : ListFilter) (q : ListRequest β) : List (Moment β) :=
  sortMemoryList ts (q.garden.moments.filter (f.shows ts))

def ListRequest.view (ts : Timestamps τ) (f : ListFilter) (q : ListRequest β) :
    Nat × List (Moment β) :=
  (q.limit.toNat, q.listed ts f)

/-- The last card of the page behind a place, if more cards are listed. -/
def ListRequest.anchor (ts : Timestamps τ) (f : ListFilter) (q : ListRequest β)
    (place : Option (Place τ)) : Option (Moment β) :=
  if q.limit.toNat < (behind (placeOf ts) place (q.listed ts f)).length then
    (page (placeOf ts) q.limit.toNat place (q.listed ts f)).getLast?
  else none

/-- The listed cards behind which the pages of later requests begin. -/
def anchors (ts : Timestamps τ) (f : ListFilter) :
    Option (Place τ) → List (ListRequest β) → List (Moment β)
  | place, q :: q' :: rest =>
    match q.anchor ts f place with
    | some m => m :: anchors ts f (some (placeOf ts m)) (q' :: rest)
    | none => []
  | _, _ => []

/-- The cursor says to go on behind a place, or is empty. -/
def Reads (ts : Timestamps τ) (cursor : String) (place : Option (Place τ)) : Prop :=
  (cursor = "" ∧ place = none) ∨ (cursor ≠ "" ∧ ∃ key, decodeMemoryListCursor ts cursor = some key ∧
      place = some key.place)

section Steps

variable {f : ListFilter} {q : ListRequest β} {place : Option (Place τ)}

theorem mem_listed {m : Moment β} :
    m ∈ q.listed ts f ↔ m ∈ q.garden.moments ∧ f.shows ts m = true := by
  rw [ListRequest.listed, sortMemoryList, List.mem_insertionSort, List.mem_insertionSort,
    List.mem_filter]

theorem listed_ordered : Ordered (placeOf ts) (q.listed ts f) :=
  sortMemoryList_ordered (q.garden.ids.sublist (List.filter_sublist.map _))

theorem view_ordered (q : ListRequest β) :
    0 < (q.view ts f).1 ∧ Ordered (placeOf ts) (q.view ts f).2 := by
  have hvalid := q.valid
  refine ⟨?_, listed_ordered⟩
  rw [ListRequest.view]
  omega

theorem behind_none (l : List (Moment β)) : behind (placeOf ts) none l = l := by
  rw [behind, List.filter_eq_self]
  intro m _
  exact decide_eq_true fun c hc => by cases hc

theorem listMoments_reads {cursor : String} (h : Reads ts cursor place) :
    listMoments ts f q.garden.moments q.limit cursor =
      .ok ⟨page (placeOf ts) q.limit.toNat place (q.listed ts f), (q.listed ts f).length,
        (q.anchor ts f place).map (encodeMemoryListCursor ts)⟩ := by
  have hlimit : ¬(q.limit < 1 ∨ memoryListMaxLimit < q.limit) := by
    have hvalid := q.valid
    omega
  unfold listMoments
  rw [if_neg hlimit, ← ListRequest.listed, ListRequest.anchor,
    apply_ite (Option.map (encodeMemoryListCursor ts)), Option.map_none]
  dsimp only
  obtain ⟨hempty, rfl⟩ | ⟨hne, key, hdecode, rfl⟩ := h
  · rw [if_pos hempty, page, behind_none]
  · have hfilter : ((q.listed ts f).filter fun m => memoryListIsAfterCursor ts m key) =
        behind (placeOf ts) (some key.place) (q.listed ts f) := by
      refine List.filter_congr fun m _ => ?_
      rw [Bool.eq_iff_iff, memoryListIsAfterCursor_iff, decide_eq_true_iff]
      exact ⟨fun hlt c hc => by cases hc; exact hlt, fun hbehind => hbehind _ rfl⟩
    rw [if_neg hne, hdecode, Option.map_some, hfilter]
    rfl

theorem listMoments_refused {cursor : String} (hne : cursor ≠ "")
    (h : decodeMemoryListCursor ts cursor = none) :
    listMoments ts f q.garden.moments q.limit cursor = .error .invalidCursor := by
  have hlimit : ¬(q.limit < 1 ∨ memoryListMaxLimit < q.limit) := by
    have hvalid := q.valid
    omega
  unfold listMoments
  rw [if_neg hlimit]
  dsimp only
  rw [if_neg hne, h]
  rfl

theorem next_eq_anchor : next (placeOf ts) q.limit.toNat place (q.listed ts f) =
    (q.anchor ts f place).map (placeOf ts) := by
  rw [next, ListRequest.anchor, apply_ite (Option.map (placeOf ts)), Option.map_none]

theorem anchor_mem {m : Moment β} (h : q.anchor ts f place = some m) : m ∈ q.listed ts f := by
  rw [ListRequest.anchor] at h
  split_ifs at h
  exact (List.mem_filter.mp (page_sublist.subset (List.mem_of_getLast? h))).1

/-- The cursor behind a card is read back if its payload is not too long, and else refused. -/
theorem decode_anchor {m : Moment β} (h : q.anchor ts f place = some m) :
    decodeMemoryListCursor ts (encodeMemoryListCursor ts m) =
      if payloadBytes ts m ≤ 768 then some (memoryListKey ts m) else none := by
  have hproper : (memoryListKey ts m).Proper ts :=
    memoryListKey_proper (q.garden.nonempty m (mem_listed.mp (anchor_mem h)).1)
  have hlength := length_cursor_le_iff ts m
  rw [encodeMemoryListCursor] at hlength ⊢
  rw [decode_encodeKey hproper]
  simp only [hlength]

end Steps

variable {f : ListFilter} {cursor : String} {place : Option (Place τ)}
  (requests : List (ListRequest β))

theorem traverse_unread (hne : cursor ≠ "") (h : decodeMemoryListCursor ts cursor = none) :
    (traverse ts f cursor requests).cards = [] ∧
      (traverse ts f cursor requests).outcome ≠ .finished := by
  cases requests with
  | nil => exact ⟨rfl, by simp [traverse]⟩
  | cons q rest =>
    rw [traverse, listMoments_refused hne h]
    exact ⟨rfl, by simp⟩

/-- As far as its cursors are read, a traversal returns the pages by key of the requests it
makes. -/
theorem traverse_walk (h : Reads ts cursor place) :
    ∃ used, used <+: requests ∧
      (traverse ts f cursor requests).cards = (walk (placeOf ts) place
        (used.map (ListRequest.view ts f))).1 ∧
      ((traverse ts f cursor requests).outcome = .finished →
        (walk (placeOf ts) place (used.map (ListRequest.view ts f))).2 = true) := by
  induction requests generalizing cursor place with
  | nil => exact ⟨[], List.prefix_rfl, rfl, fun hend => by cases hend⟩
  | cons q rest ih =>
    have hnext : next (placeOf ts) q.limit.toNat place (q.listed ts f) = (q.anchor ts f place).map
        (placeOf ts) :=
      next_eq_anchor
    rw [traverse, listMoments_reads h]
    dsimp only
    cases hanchor : q.anchor ts f place with
    | none =>
      rw [hanchor, Option.map_none] at hnext
      refine ⟨[q], by simp, ?_, fun _ => ?_⟩ <;> rw [List.map_singleton, ListRequest.view, walk,
        hnext]
      rfl
    | some m =>
      rw [hanchor, Option.map_some] at hnext
      have hdecode := decode_anchor hanchor
      have hne : encodeMemoryListCursor ts m ≠ "" := encodeKey_ne ts _
      dsimp only [Option.map_some]
      by_cases hbytes : payloadBytes ts m ≤ 768
      · rw [if_pos hbytes] at hdecode
        obtain ⟨used, hused, hcards, hend⟩ := ih (Or.inr ⟨hne, _, hdecode, rfl⟩)
        refine ⟨q :: used, List.cons_prefix_cons.mpr ⟨rfl, hused⟩, ?_, fun hfinished => ?_⟩
        · rw [hcards, List.map_cons, ListRequest.view, walk, hnext]
          rfl
        · rw [List.map_cons, ListRequest.view, walk, hnext]
          exact hend hfinished
      · rw [if_neg hbytes] at hdecode
        obtain ⟨hcards, hend⟩ := traverse_unread (f := f) rest hne hdecode
        refine ⟨[q], by simp, ?_, fun hfinished => absurd hfinished hend⟩
        rw [hcards, List.map_singleton, ListRequest.view, walk, hnext]
        rfl

/-- A traversal is refused because of a card whose place is too long to write down, and only
then. -/
theorem traverse_refused (h : Reads ts cursor place) :
    (traverse ts f cursor requests).outcome ≠ .refused ↔
      ∀ m ∈ anchors ts f place requests, payloadBytes ts m ≤ 768 := by
  induction requests generalizing cursor place with
  | nil => simp [traverse, anchors]
  | cons q rest ih =>
    rw [traverse, listMoments_reads h]
    dsimp only
    cases hanchor : q.anchor ts f place with
    | none => cases rest <;> simp [anchors, hanchor]
    | some m =>
      cases rest with
      | nil => simp [traverse, anchors]
      | cons q' rest =>
        have hdecode := decode_anchor hanchor
        have hne : encodeMemoryListCursor ts m ≠ "" := encodeKey_ne ts _
        rw [anchors, hanchor, Option.map_some]
        dsimp only
        rw [List.forall_mem_cons]
        by_cases hbytes : payloadBytes ts m ≤ 768
        · rw [if_pos hbytes] at hdecode
          rw [ih (Or.inr ⟨hne, _, hdecode, rfl⟩), placeOf]
          exact ⟨fun hrest => ⟨hbytes, hrest⟩, fun hall => hall.2⟩
        · rw [if_neg hbytes] at hdecode
          rw [traverse, listMoments_refused hne hdecode]
          simp [hbytes]

/-- The order of the list: falling `(has time, time)`, then rising id. -/
def ListKey.Before (a b : ListKey τ) : Prop :=
  (b.hasTs < a.hasTs ∨ (b.hasTs = a.hasTs ∧ b.effectiveAt < a.effectiveAt)) ∨
    ((a.hasTs, a.effectiveAt) = (b.hasTs, b.effectiveAt) ∧ a.id < b.id)

/-- What a client gets from a traversal. -/
structure Paged (ts : Timestamps τ) (f : ListFilter) (requests : List (ListRequest β))
    (t : Traversal β) : Prop where
  accepted : t.outcome ≠ .refused ↔ ∀ m ∈ anchors ts f none requests, payloadBytes ts m ≤ 768
  ordered : t.cards.Pairwise fun a b => (memoryListKey ts a).Before (memoryListKey ts b)
  listed : ∀ m ∈ t.cards, ∃ q ∈ requests, m ∈ q.garden.moments ∧ f.shows ts m = true
  distinct : (∀ q ∈ requests, ∀ q' ∈ requests, ∀ m ∈ q.garden.moments, ∀ m' ∈ q'.garden.moments,
    m.id = m'.id → memoryListKey ts m = memoryListKey ts m') → (t.cards.map (·.id)).Nodup
  once : t.outcome = .finished → ∀ key,
    (∀ q ∈ requests, ∃ m ∈ q.garden.moments, f.shows ts m = true ∧ memoryListKey ts m = key) →
    (t.cards.map (memoryListKey ts)).count key = 1

/-- Whatever changes between the requests, the pages are in order and repeat nothing, a card that
stays in its place is returned once, and no cursor is refused just when the place of every card at
which a page breaks off takes at most 768 bytes. -/
theorem garden_pages_once (ts : Timestamps τ) (f : ListFilter) (requests : List (ListRequest β)) :
    Paged ts f requests (traverse ts f "" requests) := by
  have hstart : Reads ts "" none := Or.inl ⟨rfl, rfl⟩
  obtain ⟨used, hused, hcards, hend⟩ := traverse_walk requests hstart
  have hviews : ∀ r ∈ used.map (ListRequest.view ts f), 0 < r.1 ∧ Ordered (placeOf ts) r.2 := by
    intro r hr
    obtain ⟨q, -, rfl⟩ := List.mem_map.mp hr
    exact view_ordered q
  have hordered : Ordered (placeOf ts) (traverse ts f "" requests).cards := by
    rw [hcards]
    exact (walk_ordered (fun r hr => (hviews r hr).2) none).1
  have hkeys : ((traverse ts f "" requests).cards.map (memoryListKey ts)).Nodup := by
    refine List.pairwise_map.mpr (hordered.imp fun {a b} hlt heq => ?_)
    rw [placeOf, placeOf, heq] at hlt
    exact lt_irrefl _ hlt
  have hlisted : ∀ m ∈ (traverse ts f "" requests).cards, ∃ q ∈ requests, m ∈ q.garden.moments ∧
      f.shows ts m = true := by
    intro m hm
    rw [hcards] at hm
    obtain ⟨r, hr, hmr⟩ := mem_of_mem_walk hm
    obtain ⟨q, hq, rfl⟩ := List.mem_map.mp hr
    exact ⟨q, hused.subset hq, mem_listed.mp hmr⟩
  refine ⟨traverse_refused requests hstart, ?_, hlisted, ?_, ?_⟩
  · exact hordered.imp fun {a b} hlt => ListKey.place_lt.mp hlt
  · intro hsame
    refine List.pairwise_map.mpr ?_
    refine (List.pairwise_map.mp hkeys).imp_of_mem fun {a b} ha hb hne hid => ?_
    obtain ⟨q, hq, haq, -⟩ := hlisted a ha
    obtain ⟨q', hq', hbq, -⟩ := hlisted b hb
    exact hne (hsame q hq q' hq' a haq b hbq hid)
  · intro hfinished key hkey
    rw [List.count_eq_one_of_mem hkeys]
    have hplaces : ∀ r ∈ used.map (ListRequest.view ts f), key.place ∈ r.2.map (placeOf ts) := by
      intro r hr
      obtain ⟨q, hq, rfl⟩ := List.mem_map.mp hr
      obtain ⟨m, hm, hshown, rfl⟩ := hkey q (hused.subset hq)
      exact List.mem_map_of_mem (mem_listed.mpr ⟨hm, hshown⟩)
    have hmem := mem_walk hviews (hend hfinished) hplaces fun c hc => by cases hc
    rw [← hcards] at hmem
    obtain ⟨m, hm, hplace⟩ := List.mem_map.mp hmem
    rw [← ListKey.place_injective hplace]
    exact List.mem_map_of_mem hm

/-- Two instants. -/
def dayTimes : Timestamps Bool where
  parseTs text := if text = "day 1" then some true else if text = "day 0" then some false else none
  sortKey text := if text = "day 1" then (true, true) else (decide (text = "day 0"), false)
  isoformat d := if d then "day 1" else "day 0"
  parse_isoformat := by decide
  sortKey_isoformat := by decide
  sortKey_missing := by decide
  sortKey_fixed text h := by
    by_cases hday : text = "day 1"
    · simp [hday] at h
    · rw [if_neg hday] at h ⊢
      exact Prod.ext h rfl

@[irreducible] def longId : String := String.ofList (List.replicate 1025 'a')

theorem length_longId : longId.length = 1025 := by
  have hlength : ∀ n, (String.ofList (List.replicate n 'a')).length = n := by
    intro n
    rw [String.length_ofList, List.length_replicate]
  unfold longId
  exact hlength 1025

theorem longId_ne {text : String} (h : text.length < 1025) : longId ≠ text := by
  intro heq
  rw [← heq, length_longId] at h
  exact Nat.lt_irrefl _ h

def longIdMoment : Moment Unit := ⟨longId, "day 1", "", false, "", "", ()⟩

def nextMoment : Moment Unit := ⟨"b", "day 0", "", false, "", "", ()⟩

def longIdGarden : Garden Unit where
  moments := [longIdMoment, nextMoment]
  ids := List.nodup_cons.mpr ⟨fun hmem => longId_ne (by decide) (List.mem_singleton.mp hmem),
    List.nodup_singleton _⟩
  nonempty := by
    intro m hm
    obtain rfl | hm := List.mem_cons.mp hm
    · exact longId_ne (by decide)
    · rw [List.mem_singleton.mp hm]
      decide

def firstOfLong : ListRequest Unit := ⟨longIdGarden, 1, by decide⟩

theorem listed_longId : firstOfLong.listed dayTimes ⟨"", ""⟩ = [longIdMoment, nextMoment] := by
  have hlong : ListFilter.shows dayTimes ⟨"", ""⟩ longIdMoment = true := by decide +kernel
  have hnext : ListFilter.shows dayTimes ⟨"", ""⟩ nextMoment = true := by decide +kernel
  have hgarden : firstOfLong.garden.moments = [longIdMoment, nextMoment] := rfl
  have hfirst : ¬timeLe (memoryListTimeKey dayTimes longIdMoment)
    (memoryListTimeKey dayTimes nextMoment) := by decide +kernel
  have hsecond : timeLe (memoryListTimeKey dayTimes nextMoment)
    (memoryListTimeKey dayTimes longIdMoment) := by decide +kernel
  rw [ListRequest.listed, hgarden, List.filter_cons_of_pos hlong, List.filter_cons_of_pos hnext,
    List.filter_nil, sortMemoryList]
  by_cases hid : longIdMoment.id ≤ nextMoment.id
  · simp only [List.insertionSort_cons, List.insertionSort_nil, List.orderedInsert_cons,
      List.orderedInsert_nil, hid, if_true, hsecond]
  · simp only [List.insertionSort_cons, List.insertionSort_nil, List.orderedInsert_cons,
      List.orderedInsert_nil, hid, if_false, hfirst]

/-- The cursor behind the card with the long id is returned and then refused. -/
theorem long_cursor_refused :
    (traverse dayTimes ⟨"", ""⟩ "" [firstOfLong, firstOfLong]).outcome = .refused := by
  have hanchor : firstOfLong.anchor dayTimes ⟨"", ""⟩ none = some longIdMoment := by
    rw [ListRequest.anchor, page, behind_none, listed_longId]
    rfl
  have hbytes : 1025 ≤ payloadBytes dayTimes longIdMoment := by
    rw [← length_longId]
    exact length_id_le_payloadBytes dayTimes longIdMoment
  by_contra hend
  have hmem : longIdMoment ∈ anchors dayTimes ⟨"", ""⟩ none [firstOfLong, firstOfLong] := by
    rw [anchors, hanchor]
    exact List.mem_cons_self
  have hle := (traverse_refused _ (Or.inl ⟨rfl, rfl⟩)).mp hend longIdMoment hmem
  exact Nat.not_lt.mpr (hbytes.trans hle) (by decide)

end GardenList

end Feedling
