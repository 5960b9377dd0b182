import Feedling.Regroup
import Feedling.Store

/-!
# The causal order of a reply tail

A prompt for one queued user message shows the chat rows up to it, with each reply behind the
message it answers. Stored rows are in the order of insertion, so a reply may stand behind later
messages. Rows of one answer that came before the linked last row inherit its parent.
-/

namespace Feedling

namespace ReplyTail

open Regroup

variable {β : Type}

/-! ## The function -/

/-- A chat row; an absent id or link is the empty text. -/
structure TailRow (β : Type) where
  role : String
  seq : Option Int
  id : String
  replyToMessageId : String
  body : β
  deriving DecidableEq, Repr

def TailRow.isUser (row : TailRow β) : Bool := normRole row.role == .user

/-- A user row behind the target. -/
def TailRow.later (userThroughSeq : Int) (row : TailRow β) : Bool :=
  row.isUser && row.seq.any fun seq => decide (userThroughSeq < seq)

def admitted (tail : List (TailRow β)) (userThroughSeq : Int) : List (TailRow β) :=
  tail.filter fun row => !row.later userThroughSeq

def excludedUserIds (tail : List (TailRow β)) (userThroughSeq : Int) : List String :=
  ((tail.filter fun row => row.later userThroughSeq).map TailRow.id).filter fun id => id ≠ ""

def presentUserIds (rows : List (TailRow β)) : List String :=
  (rows.filter TailRow.isUser).map TailRow.id

abbrev Entry (β : Type) := TailRow β × Option String

/-- The message that a row names as its parent. -/
def linkOf (row : TailRow β) : Option String :=
  if row.isUser then none
  else
    let parent := strip row.replyToMessageId
    if parent = "" then none else some parent

/-- The loop from the last row to the first: an unlinked assistant row takes the parent of the
assistant row behind it. -/
def inheritParents : List (Entry β) → List (Entry β)
  | [] => []
  | (row, parent) :: rest =>
    match inheritParents rest with
    | [] => [(row, parent)]
    | (next, inherited) :: rest' =>
      if !row.isUser && parent.isNone && !next.isUser then (row, inherited) ::
        (next, inherited) :: rest'
      else (row, parent) :: (next, inherited) :: rest'

def withParents (rows : List (TailRow β)) : List (Entry β) :=
  inheritParents (rows.map fun row => (row, linkOf row))

/-- The last loop: rows that are linked or dropped are skipped, and a user row takes its replies out
of the dictionary. -/
def emit (skipped : Option String → Bool) (linkedByParent : String → List (TailRow β)) :
    List String → List (Entry β) → List (TailRow β)
  | _, [] => []
  | popped, (row, parent) :: rest =>
    if skipped parent then emit skipped linkedByParent popped rest
    else if row.isUser then
      row :: (if row.id ∈ popped then [] else linkedByParent row.id) ++
        emit skipped linkedByParent (row.id :: popped) rest
    else row :: emit skipped linkedByParent popped rest

/-- `ordered_reply_tail`. -/
def orderedReplyTail (tail : List (TailRow β)) (userThroughSeq : Int) : List (TailRow β) :=
  let rows := admitted tail userThroughSeq
  let entries := withParents rows
  let dropped (parent : Option String) :=
    parent.any fun id => decide (id ∈ excludedUserIds tail userThroughSeq)
  let linked (parent : Option String) :=
    !dropped parent && parent.any fun id => decide (id ∈ presentUserIds rows)
  emit (fun parent => dropped parent || linked parent)
    (fun id => (entries.filter fun e => linked e.2 && decide (e.2 = some id)).map Prod.fst)
      [] entries

/-! ## Effective parents -/

section Parents

/-- The parent of a row in front of a row with the given parent. -/
def localParent (row : TailRow β) (next : Option (Entry β)) : Option String :=
  if row.isUser then none else (linkOf row).or (next.bind Prod.snd)

/-- Every entry has the parent that its row and the next entry give. -/
def Consistent : List (Entry β) → Prop
  | [] => True
  | e :: rest => e.2 = localParent e.1 rest.head? ∧ Consistent rest

variable {es : List (Entry β)} (rows : List (TailRow β))

theorem Consistent.parent_of_isUser (h : Consistent es) {e : Entry β} (he : e ∈ es)
    (huser : e.1.isUser = true) : e.2 = none := by
  induction es with
  | nil => cases he
  | cons x es ih =>
    obtain rfl | he := List.mem_cons.mp he
    · rw [h.1, localParent, if_pos huser]
    · exact ih h.2 he

theorem map_fst_inheritParents (es : List (Entry β)) :
    (inheritParents es).map Prod.fst = es.map Prod.fst := by
  induction es with
  | nil => rfl
  | cons e es ih =>
    rw [inheritParents, List.map_cons, ← ih]
    cases inheritParents es with
    | nil => rfl
    | cons x rest =>
      dsimp only
      split_ifs <;> rfl

@[simp] theorem map_fst_withParents : (withParents rows).map Prod.fst = rows := by
  rw [withParents, map_fst_inheritParents, List.map_map]
  exact List.map_id rows

theorem linkOf_of_isUser {row : TailRow β} (h : row.isUser = true) :
    linkOf row = none := by rw [linkOf, if_pos h]

theorem withParents_consistent : Consistent (withParents rows) := by
  induction rows with
  | nil => trivial
  | cons row rows ih =>
    have hcons : withParents (row :: rows) =
        (row, localParent row (withParents rows).head?) :: withParents rows := by
      have hrest : inheritParents (rows.map fun row => (row, linkOf row)) = withParents rows := rfl
      rw [withParents, List.map_cons, inheritParents, hrest]
      cases hes : withParents rows with
      | nil =>
        dsimp only [List.head?_nil]
        rw [localParent]
        split_ifs with huser
        · rw [linkOf_of_isUser huser]
        · rw [Option.bind_none, Option.or_none]
      | cons x rest =>
        dsimp only [List.head?_cons]
        cases huser : row.isUser with
        | true => simp [localParent, huser, linkOf_of_isUser huser]
        | false =>
          cases hlink : linkOf row with
          | some parent => simp [localParent, huser, hlink]
          | none =>
            have hlocal : localParent row (some x) = x.2 := by
              rw [localParent, huser, hlink]
              rfl
            rw [hlocal]
            split_ifs with hinherit
            · rfl
            · -- the next row is a user row, which has no parent to inherit
              have hnext : x.1.isUser = true := by simpa [huser] using hinherit
              have hnone : x.2 = none :=
                ih.parent_of_isUser (by rw [hes]; exact List.mem_cons_self) hnext
              rw [hnone]
              exact congrArg _ (congrArg (· :: rest) (Prod.ext rfl hnone.symm))
    rw [hcons]
    exact ⟨rfl, ih⟩

theorem Consistent.eq_withParents (h : Consistent es) : withParents (es.map Prod.fst) = es := by
  have hgo : ∀ es es' : List (Entry β), es.map Prod.fst = es'.map Prod.fst → Consistent es →
      Consistent es' → es = es' := by
    intro es
    induction es with
    | nil =>
      intro es' hmap _ _
      rw [List.map_nil, eq_comm, List.map_eq_nil_iff] at hmap
      rw [hmap]
    | cons e es ih =>
      intro es' hmap hes hes'
      cases es' with
      | nil => cases hmap
      | cons e' es' =>
        rw [List.map_cons, List.map_cons] at hmap
        injection hmap with hrow hrest
        have heq := ih es' hrest hes.2 hes'.2
        subst heq
        have hparent : e.2 = e'.2 := by rw [hes.1, hes'.1, hrow]
        rw [Prod.ext hrow hparent]
  exact hgo _ _ (map_fst_withParents _) (withParents_consistent _) h

/-- Entries are kept or left out by their parents, and an inherited parent is that of the next
entry. -/
theorem Consistent.filter (h : Consistent es) (g : Option String → Bool) :
    Consistent (es.filter fun e => g e.2) := by
  induction es with
  | nil => trivial
  | cons e es ih =>
    rw [List.filter_cons]
    split_ifs with hg
    · refine ⟨?_, ih h.2⟩
      rw [h.1, localParent, localParent]
      split_ifs with huser
      · rfl
      cases hlink : linkOf e.1 with
      | some parent => rfl
      | none =>
        -- the parent comes from the next entry, which is therefore kept
        rw [Option.none_or, Option.none_or]
        cases es with
        | nil => rfl
        | cons x es =>
          have hsame : e.2 = x.2 := by
            rw [h.1, localParent, if_neg huser, hlink]
            rfl
          rw [List.filter_cons, if_pos (hsame ▸ hg)]
          rfl
    · exact ih h.2

theorem Consistent.append {es rest : List (Entry β)} (h : Consistent es)
    (hsome : ∀ e ∈ es, e.2 ≠ none) (hrest : Consistent rest) : Consistent (es ++ rest) := by
  induction es with
  | nil => exact hrest
  | cons e es ih =>
    refine ⟨?_, ih h.2 fun x hx => hsome x (List.mem_cons_of_mem e hx)⟩
    cases es with
    | cons x es => exact h.1
    | nil =>
      have hown := h.1
      have hne := hsome e List.mem_cons_self
      rw [localParent] at hown ⊢
      split_ifs at hown ⊢ with huser
      · exact hown
      cases hlink : linkOf e.1 with
      | some parent => rw [hown, hlink]; rfl
      | none =>
        rw [hlink] at hown
        exact absurd hown hne

end Parents

/-! ## The reordering -/

section Order

/-- A user row owns its id. -/
def ownId (e : Entry β) : Option String := if e.1.isUser then some e.1.id else none

/-- The row answers a user row behind the target. -/
def answersLater (tail : List (TailRow β)) (userThroughSeq : Int) (parent : Option String) : Bool :=
  parent.any fun id => tail.any fun user => user.later userThroughSeq && decide (user.id = id)

def shown (tail : List (TailRow β)) (userThroughSeq : Int) : List (Entry β) :=
  (withParents (admitted tail userThroughSeq)).filter fun e => !answersLater tail userThroughSeq e.2

/-- The rows that are shown, each reply behind its parent. -/
def regrouped (tail : List (TailRow β)) (userThroughSeq : Int) : List (Entry β) :=
  regroup ownId Prod.snd (shown tail userThroughSeq)

variable {e : Entry β} {es : List (Entry β)} (tail : List (TailRow β)) (userThroughSeq : Int)

theorem ownId_of_isUser (h : e.1.isUser = true) : ownId e = some e.1.id := by rw [ownId, if_pos h]

theorem ownId_of_not (h : e.1.isUser = false) : ownId e = none := by
  rw [ownId, h]
  rfl

theorem isUser_of_ownId {id : String} (h : ownId e = some id) :
    e.1.isUser = true ∧ e.1.id = id := by
  rw [ownId] at h
  split_ifs at h with huser
  exact ⟨huser, Option.some.inj h⟩

theorem shown_consistent : Consistent (shown tail userThroughSeq) :=
  (withParents_consistent _).filter fun parent => !answersLater tail userThroughSeq parent

theorem present_ownId (es : List (Entry β)) :
    present ownId es = presentUserIds (es.map Prod.fst) := by
  rw [present, presentUserIds]
  induction es with
  | nil => rfl
  | cons e es ih =>
    cases huser : e.1.isUser with
    | true =>
      rw [List.filterMap_cons_some (ownId_of_isUser huser), ih, List.map_cons,
        List.filter_cons_of_pos huser, List.map_cons]
    | false =>
      have hother : ¬e.1.isUser = true := by
        rw [huser]
        exact Bool.false_ne_true
      rw [List.filterMap_cons_none (ownId_of_not huser), ih, List.map_cons,
        List.filter_cons_of_neg hother]

/-- User rows have no parent, so they are all shown. -/
theorem present_shown :
    present ownId (shown tail userThroughSeq) = presentUserIds (admitted tail userThroughSeq) := by
  have hall : present ownId (shown tail userThroughSeq) =
      present ownId (withParents (admitted tail userThroughSeq)) := by
    rw [present, present, shown, List.filterMap_filter]
    refine List.filterMap_congr fun e he => ?_
    cases huser : e.1.isUser with
    | true =>
      rw [(withParents_consistent _).parent_of_isUser he huser]
      rfl
    | false => rw [ownId_of_not huser, ite_self]
  rw [hall, present_ownId, map_fst_withParents]

theorem shown_owned {tail : List (TailRow β)}
    (hnodup : ((tail.filter TailRow.isUser).map TailRow.id).Nodup) (userThroughSeq : Int) :
    Owned ownId Prod.snd (shown tail userThroughSeq) where
  parentless e he hown := by
    cases huser : e.1.isUser with
    | true => exact (shown_consistent tail userThroughSeq).parent_of_isUser he huser
    | false => exact absurd (ownId_of_not huser) hown
  nodup := by
    rw [present_shown]
    exact hnodup.sublist ((List.filter_sublist.filter _).map _)

/-- A row in front of a group of replies is the user row itself, so no row loses the row behind
it. -/
theorem Consistent.flatMap_block {stay : List (Entry β)} (hstay : Consistent stay)
    (hes : Consistent es) : Consistent (stay.flatMap fun e => e :: block ownId Prod.snd es e) := by
  induction stay with
  | nil => trivial
  | cons e stay ih =>
    have hrest := ih hstay.2
    rw [List.flatMap_cons, List.cons_append]
    cases huser : e.1.isUser with
    | true =>
      rw [block_of_own (ownId_of_isUser huser)]
      refine ⟨?_,
        Consistent.append (hes.filter fun parent => decide (parent = some e.1.id)) ?_ hrest⟩
      · rw [hstay.1, localParent, localParent, if_pos huser, if_pos huser]
      · intro x hx hnone
        rw [(mem_linked.mp hx).2] at hnone
        cases hnone
    | false =>
      rw [block_of_none (ownId_of_not huser), List.nil_append]
      refine ⟨?_, hrest⟩
      rw [hstay.1]
      cases stay with
      | nil => rfl
      | cons x stay => rfl

theorem regrouped_consistent :
    Consistent (regrouped tail userThroughSeq) := by
  have hshown : Consistent (shown tail userThroughSeq) := shown_consistent tail userThroughSeq
  have hfixed := hshown.filter fun parent => !parent.any fun k => decide
    (k ∈ present ownId (shown tail userThroughSeq))
  exact hfixed.flatMap_block hshown

/-- The last loop places every group once, because no two user rows have the same id. -/
theorem emit_eq (skipped : Option String → Bool) (linkedByParent : String → List (TailRow β))
    (block : Entry β → List (Entry β))
    (huser : ∀ e ∈ es, e.1.isUser = true → linkedByParent e.1.id = (block e).map Prod.fst)
    (hother : ∀ e ∈ es, e.1.isUser = false → block e = [])
    (hnodup : (presentUserIds (es.map Prod.fst)).Nodup) (popped : List String)
    (hpopped : ∀ id ∈ presentUserIds (es.map Prod.fst), id ∉ popped) :
    emit skipped linkedByParent popped es = ((es.filter fun e => !skipped e.2).flatMap fun e => e ::
      block e).map Prod.fst := by
  induction es generalizing popped with
  | nil => rfl
  | cons e es ih =>
    have hrest := ih (fun x hx => huser x (List.mem_cons_of_mem e hx)) fun x hx => hother x
      (List.mem_cons_of_mem e hx)
    rw [presentUserIds, List.map_cons] at hnodup hpopped
    rw [emit, List.filter_cons]
    cases hrole : e.1.isUser with
    | true =>
      rw [List.filter_cons_of_pos hrole, List.map_cons] at hnodup hpopped
      obtain ⟨hfresh, hnodup⟩ := List.nodup_cons.mp hnodup
      have hout : ∀ id ∈ presentUserIds (es.map Prod.fst), id ∉ popped :=
        fun id hid => hpopped id (List.mem_cons_of_mem _ hid)
      have hpush : ∀ id ∈ presentUserIds (es.map Prod.fst), id ∉ e.1.id :: popped := by
        intro id hid hmem
        obtain rfl | hmem := List.mem_cons.mp hmem
        · exact hfresh hid
        · exact hout id hid hmem
      cases hskip : skipped e.2 with
      | true => exact hrest hnodup popped hout
      | false =>
        have hfirst : e.1.id ∉ popped := hpopped _ List.mem_cons_self
        have hgroup := huser e List.mem_cons_self hrole
        simp [hfirst, hgroup, hrest hnodup _ hpush]
    | false =>
      rw [List.filter_cons_of_neg (by rw [hrole]; exact Bool.false_ne_true)] at hnodup hpopped
      have hnil := hother e List.mem_cons_self hrole
      cases hskip : skipped e.2 with
      | true => exact hrest hnodup popped hpopped
      | false => simp [hnil, hrest hnodup popped hpopped]

section Ids

variable {tail : List (TailRow β)} (hid : ∀ row ∈ tail, row.isUser = true → row.id ≠ "")
  (hnodup : ((tail.filter TailRow.isUser).map TailRow.id).Nodup) (userThroughSeq : Int)

include hid in
theorem mem_excludedUserIds (id : String) :
    id ∈ excludedUserIds tail userThroughSeq ↔ ∃ user ∈ tail, user.later userThroughSeq = true ∧
      user.id = id := by
  have hlater : ∀ user ∈ tail, user.later userThroughSeq = true → user.id ≠ "" := by
    intro user huser hseq
    rw [TailRow.later, Bool.and_eq_true] at hseq
    exact hid user huser hseq.1
  rw [excludedUserIds, List.mem_filter, List.mem_map]
  constructor
  · rintro ⟨⟨user, huser, rfl⟩, -⟩
    obtain ⟨hmem, hseq⟩ := List.mem_filter.mp huser
    exact ⟨user, hmem, hseq, rfl⟩
  · rintro ⟨user, hmem, hseq, rfl⟩
    exact ⟨⟨user, List.mem_filter.mpr ⟨hmem, hseq⟩, rfl⟩, by simpa using hlater user hmem hseq⟩

include hid in
theorem dropped_eq (parent : Option String) :
    (parent.any fun id => decide (id ∈ excludedUserIds tail userThroughSeq)) =
      answersLater tail userThroughSeq parent := by
  cases parent with
  | none => rfl
  | some id =>
    rw [answersLater, Option.any_some, Option.any_some, Bool.eq_iff_iff, decide_eq_true_iff,
      mem_excludedUserIds hid, List.any_eq_true]
    simp only [Bool.and_eq_true, decide_eq_true_eq]

include hid hnodup in
/-- The three passes are one regrouping of the rows that are shown. -/
theorem orderedReplyTail_eq :
    orderedReplyTail tail userThroughSeq = (regrouped tail userThroughSeq).map Prod.fst := by
  have hids : ∀ e ∈ withParents (admitted tail userThroughSeq), e.1.isUser = true →
      e.1.id ∈ presentUserIds (admitted tail userThroughSeq) := by
    intro e he huser
    have hmem : e.1 ∈ admitted tail userThroughSeq := by
      rw [← map_fst_withParents (admitted tail userThroughSeq)]
      exact List.mem_map_of_mem he
    exact List.mem_map_of_mem (List.mem_filter.mpr ⟨hmem, huser⟩)
  unfold orderedReplyTail
  dsimp only
  simp only [dropped_eq hid]
  rw [emit_eq _ _ (block ownId Prod.snd (shown tail userThroughSeq))]
  · -- what is not skipped stays
    congr 1
    rw [regrouped, regroup]
    congr 1
    rw [shown, List.filter_filter]
    refine List.filter_congr fun e _ => ?_
    rw [fixed, ← shown, present_shown]
    cases answersLater tail userThroughSeq e.2 <;> simp
  · -- the replies of a user row that is admitted
    intro e he huser
    rw [block_of_own (ownId_of_isUser huser), linked, shown, List.filter_filter]
    congr 1
    refine List.filter_congr fun x _ => ?_
    by_cases hx : x.2 = some e.1.id
    · simp [hx, hids e he huser]
    · simp [hx]
  · intro e _ huser
    exact block_of_none (ownId_of_not huser)
  · rw [map_fst_withParents]
    exact hnodup.sublist ((List.filter_sublist.filter _).map _)
  · intro id _
    exact List.not_mem_nil

include hid hnodup in
theorem withParents_orderedReplyTail :
    withParents (orderedReplyTail tail userThroughSeq) = regrouped tail userThroughSeq := by
  rw [orderedReplyTail_eq hid hnodup]
  exact (regrouped_consistent tail userThroughSeq).eq_withParents

end Ids

/-- The parent is no user row of the entries. -/
def parentAbsent (es : List (Entry β)) (e : Entry β) : Bool :=
  !e.2.any fun id => es.any fun user => user.1.isUser && decide (user.1.id = id)

theorem parentAbsent_eq (es : List (Entry β)) : parentAbsent es = fixed ownId Prod.snd es := by
  funext e
  rw [parentAbsent, fixed]
  cases e.2 with
  | none => rfl
  | some id =>
    congr 1
    rw [Option.any_some, Option.any_some, Bool.eq_iff_iff, decide_eq_true_iff, List.any_eq_true,
      present, List.mem_filterMap]
    refine exists_congr fun user => and_congr_right fun _ => ?_
    rw [Bool.and_eq_true, decide_eq_true_iff]
    constructor
    · rintro ⟨huser, rfl⟩
      exact ownId_of_isUser huser
    · exact isUser_of_ownId

/-- A causal reordering of the rows of a tail, given with their effective parents among the admitted
rows. -/
structure CausalOrder (tail : List (TailRow β)) (userThroughSeq : Int) (es : List (Entry β)) :
    Prop where
  upTo : ∀ e ∈ es, e.1.later userThroughSeq = false
  answersShown : ∀ e ∈ es, ∀ user ∈ tail, user.later userThroughSeq = true → e.2 ≠ some user.id
  perm : es.Perm (shown tail userThroughSeq)
  users : (es.filter fun e => e.1.isUser) = (shown tail userThroughSeq).filter fun e => e.1.isUser
  sameParent : ∀ id : String, (es.filter fun e => decide (e.2 = some id)) =
    (shown tail userThroughSeq).filter fun e => decide (e.2 = some id)
  absent : es.filter (parentAbsent es) = (shown tail userThroughSeq).filter (parentAbsent es)
  placed : ∀ pre e post, es = pre ++ e :: post → parentAbsent es e = false →
    ∃ pre' user mid, pre = pre' ++ user :: mid ∧ user.1.isUser = true ∧ e.2 = some user.1.id ∧
      ∀ x ∈ mid, x.2 = some user.1.id

variable {tail : List (TailRow β)} {userThroughSeq : Int}

theorem mem_shown {e : Entry β} (he : e ∈ shown tail userThroughSeq) :
    e.1 ∈ tail ∧ e.1.later userThroughSeq = false ∧
      answersLater tail userThroughSeq e.2 = false := by
  obtain ⟨hmem, hshown⟩ := List.mem_filter.mp he
  have hrow : e.1 ∈ admitted tail userThroughSeq := by
    rw [← map_fst_withParents (admitted tail userThroughSeq)]
    exact List.mem_map_of_mem hmem
  obtain ⟨htail, hseq⟩ := List.mem_filter.mp hrow
  exact ⟨htail, by simpa using hseq, by simpa using hshown⟩

theorem regrouped_causal (hnodup : ((tail.filter TailRow.isUser).map TailRow.id).Nodup)
    (userThroughSeq : Int) : CausalOrder tail userThroughSeq (regrouped tail userThroughSeq) := by
  have howned : Owned ownId Prod.snd (shown tail userThroughSeq) :=
    shown_owned hnodup userThroughSeq
  have hperm := regroup_perm howned
  have hfixed : parentAbsent (regrouped tail userThroughSeq) = fixed ownId Prod.snd
      (shown tail userThroughSeq) :=
    (parentAbsent_eq _).trans (fixed_regroup howned)
  refine ⟨?_, ?_, hperm, ?_, linked_regroup howned, ?_, ?_⟩
  · intro e he
    exact (mem_shown (hperm.mem_iff.mp he)).2.1
  · intro e he user huser hseq heq
    have hnot := (mem_shown (hperm.mem_iff.mp he)).2.2
    rw [heq, answersLater, Option.any_some, List.any_eq_false] at hnot
    exact hnot user huser (by simp [hseq])
  · -- user rows are among the rows that stay
    have hstay : ∀ es : List (Entry β), (∀ e ∈ es, e ∈ shown tail userThroughSeq) →
        (es.filter fun e => e.1.isUser) =
          (es.filter (fixed ownId Prod.snd (shown tail userThroughSeq))).filter fun e =>
            e.1.isUser := by
      intro es hes
      rw [List.filter_filter]
      refine List.filter_congr fun e he => ?_
      cases huser : e.1.isUser with
      | false => rfl
      | true =>
        rw [fixed_of_parent_none ((shown_consistent tail userThroughSeq).parent_of_isUser
            (hes e he) huser)]
        rfl
    rw [regrouped, hstay _ fun e he => hperm.mem_iff.mp he,
      hstay (shown tail userThroughSeq) fun _ he => he, filter_fixed_regroup]
  · rw [hfixed]
    exact filter_fixed_regroup
  · intro pre e post hsplit habsent
    rw [hfixed] at habsent
    obtain ⟨pre', user, mid, hpre, ⟨id, hown, hparent⟩, hmid⟩ := exists_owner hsplit habsent
    obtain ⟨huser, rfl⟩ := isUser_of_ownId hown
    exact ⟨pre', user, mid, hpre, huser, hparent, fun x hx => (hmid x hx).trans hparent⟩

theorem shown_of_causal {es : List (Entry β)} (hes : Consistent es)
    (h : CausalOrder tail userThroughSeq es) : shown (es.map Prod.fst) userThroughSeq = es := by
  have hupTo : ∀ row ∈ es.map Prod.fst, row.later userThroughSeq = false := by
    intro row hrow
    obtain ⟨e, he, rfl⟩ := List.mem_map.mp hrow
    exact h.upTo e he
  have hadmitted : admitted (es.map Prod.fst) userThroughSeq = es.map Prod.fst := by
    rw [admitted, List.filter_eq_self]
    intro row hrow
    rw [hupTo row hrow]
    rfl
  rw [shown, hadmitted, hes.eq_withParents, List.filter_eq_self]
  intro e _
  have hnone : answersLater (es.map Prod.fst) userThroughSeq e.2 = false := by
    cases e.2 with
    | none => rfl
    | some id =>
      rw [answersLater, Option.any_some, List.any_eq_false]
      intro user huser
      rw [hupTo user huser]
      exact Bool.false_ne_true
  rw [hnone]
  rfl

/-- User rows with different ids: the tail is reordered causally, and a second pass changes
nothing. -/
theorem reply_tail_causal (tail : List (TailRow β)) (userThroughSeq : Int)
    (hid : ∀ row ∈ tail, row.isUser = true → row.id ≠ "")
    (hnodup : ((tail.filter TailRow.isUser).map TailRow.id).Nodup) :
    CausalOrder tail userThroughSeq (withParents (orderedReplyTail tail userThroughSeq)) ∧
      orderedReplyTail (orderedReplyTail tail userThroughSeq) userThroughSeq =
        orderedReplyTail tail userThroughSeq := by
  rw [withParents_orderedReplyTail hid hnodup]
  have hcausal : CausalOrder tail userThroughSeq (regrouped tail userThroughSeq) :=
    regrouped_causal hnodup userThroughSeq
  refine ⟨hcausal, ?_⟩
  have hconsistent : Consistent (regrouped tail userThroughSeq) :=
    regrouped_consistent tail userThroughSeq
  have hperm := hcausal.perm
  -- the rows of the result are rows of the tail, so their ids are as the tail's
  have hid' : ∀ row ∈ (regrouped tail userThroughSeq).map Prod.fst, row.isUser = true →
      row.id ≠ "" := by
    intro row hrow
    obtain ⟨e, he, rfl⟩ := List.mem_map.mp hrow
    exact hid e.1 (mem_shown (hperm.mem_iff.mp he)).1
  have hnodup' : ((((regrouped tail userThroughSeq).map Prod.fst).filter TailRow.isUser).map
      TailRow.id).Nodup := by
    have hpresent := (hperm.filterMap ownId).nodup_iff.mpr (shown_owned hnodup userThroughSeq).nodup
    have hids := present_ownId (regrouped tail userThroughSeq)
    rw [present, presentUserIds] at hids
    rw [← hids]
    exact hpresent
  rw [orderedReplyTail_eq hid hnodup, orderedReplyTail_eq hid' hnodup', regrouped,
    shown_of_causal hconsistent hcausal, regrouped,
      regroup_regroup (shown_owned hnodup userThroughSeq)]

theorem reply_tail_causal_reply :
    CausalOrder [⟨"user", some 1, "A", "", 0⟩, ⟨"user", some 2, "B", "", 1⟩,
      ⟨"openclaw", some 3, "c", "", 2⟩,
        ⟨"openclaw", some 4, "d", "A", 3⟩] 2
      (withParents (orderedReplyTail [⟨"user", some 1, "A", "", 0⟩, ⟨"user", some 2, "B", "", 1⟩,
        ⟨"openclaw", some 3, "c", "", 2⟩, ⟨"openclaw", some 4, "d", "A", 3⟩] 2)) :=
  (reply_tail_causal _ 2 (by decide) (by decide)).1

example : (orderedReplyTail [⟨"user", some 1, "A", "", 0⟩, ⟨"user", some 2, "B", "", 1⟩,
      ⟨"openclaw", some 3, "c", "", 2⟩,
    ⟨"openclaw", some 4, "d", "A", 3⟩] 2).map TailRow.body = [0, 2, 3, 1] := by decide

end Order

end ReplyTail

end Feedling
