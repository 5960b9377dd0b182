import Mathlib.Data.Prod.Lex
import Mathlib.Data.String.Basic
import Feedling.Base64
import Feedling.JsonText
import Feedling.KeysetPages
import Feedling.Store

/-!
# Listing the memory garden

Cards are listed newest first and by id within one instant. A page ends with a cursor, a text that
holds the place of its last card, and the next page goes on behind that place whether or not the
card still exists.
-/

namespace Feedling

namespace GardenList

/-! ## Times -/

/-- How times are read and written; a missing time is the empty text. `sort_key` tells whether a
text has a time, with the time or else a fixed instant. -/
structure Timestamps (τ : Type) where
  parseTs : String → Option τ
  sortKey : String → Bool × τ
  isoformat : τ → String
  parse_isoformat : ∀ d, parseTs (isoformat d) = some d
  sortKey_isoformat : ∀ d, sortKey (isoformat d) = (true, d)
  sortKey_missing : (sortKey "").1 = false
  sortKey_fixed : ∀ value, (sortKey value).1 = false → sortKey value = sortKey ""

/-- A card as far as the list reads it. -/
structure Moment (β : Type) where
  id : String
  occurredAt : String
  createdAt : String
  isArchived : Bool
  archivedAt : String
  archiveReason : String
  body : β
  deriving DecidableEq, Repr

/-- `_memory_is_archived`. -/
def Moment.archived {β : Type} (m : Moment β) : Bool :=
  memoryIsArchived (fun text => strip text == "") m.isArchived m.archivedAt m.archiveReason

/-- The place of a card: whether it has a time, the time, and the id. -/
structure ListKey (τ : Type) where
  hasTs : Bool
  effectiveAt : τ
  id : String
  deriving DecidableEq, Repr

variable {τ β : Type} (ts : Timestamps τ)

/-- `_memory_list_time_key`. -/
def memoryListTimeKey (m : Moment β) : Bool × τ :=
  let occurredKey := ts.sortKey m.occurredAt
  if occurredKey.1 then occurredKey else ts.sortKey m.createdAt

/-- `_memory_list_key`. -/
def memoryListKey (m : Moment β) : ListKey τ :=
  ⟨(memoryListTimeKey ts m).1, (memoryListTimeKey ts m).2, m.id⟩

/-! ## Cursors -/

def memoryListCursorVersion : Int := 1

def memoryListCursorMaxChars : Nat := 1024

/-- `json.dumps` of the payload, compact and with sorted keys. -/
def cursorText (key : ListKey τ) : List Char :=
  let time :=
    if key.hasTs then JsonText.quote (ts.isoformat key.effectiveAt).toList else JsonText.nullText
  '\x7b' :: (JsonText.quote ['h'] ++
      ':' :: (JsonText.boolText key.hasTs ++ ',' :: (JsonText.quote ['i'] ++ ':' ::
    (JsonText.quote key.id.toList ++ ',' :: (JsonText.quote ['t'] ++ ':' :: (time ++ ',' ::
      (JsonText.quote ['v'] ++ ':' :: (['1'] ++ ['\x7d']))))))))

def encodeKey (key : ListKey τ) : String :=
  String.ofList (Base64.encode ((cursorText ts key).map Char.toNat))

/-- `_encode_memory_list_cursor`. -/
def encodeMemoryListCursor (m : Moment β) : String := encodeKey ts (memoryListKey ts m)

/-- `json.loads` of the bytes. Bytes that are not ASCII, nested values and white space are never
written by the encoder; the last check of the decoder refuses them. -/
def loads (bytes : List Nat) : Option (List (List Char × JsonText.Scalar)) :=
  if bytes.all fun b => decide (b < 128) then JsonText.readObject (bytes.map Char.ofNat) else none

def field (payload : List (List Char × JsonText.Scalar)) (name : Char) : Option JsonText.Scalar :=
  payload.reverse.lookup [name]

/-- The fields are those of a cursor, and no others. -/
def hasCursorFields (payload : List (List Char × JsonText.Scalar)) : Bool :=
  (payload.all fun f => decide (f.1 ∈ [['v'], ['h'], ['t'], ['i']])) && ['v', 'h', 't',
    'i'].all fun name => (field payload name).isSome

/-- The time of a payload. -/
def cursorTime (hasTs : Bool) : Option JsonText.Scalar → Option τ
  | some (.str text) => if hasTs then ts.parseTs (String.ofList text) else none
  | some .null => if hasTs then none else some (ts.sortKey "").2
  | _ => none

/-- The place that a payload names. -/
def payloadKey (payload : List (List Char × JsonText.Scalar)) : Option (ListKey τ) :=
  if hasCursorFields payload then
    match field payload 'v', field payload 'h', field payload 'i' with
    | some (.int version), some (.bool hasTs), some (.str id) =>
      if version ≠ memoryListCursorVersion ∨ id.isEmpty then none
        else (cursorTime ts hasTs (field payload 't')).map fun d => ⟨hasTs, d, String.ofList id⟩
    | _, _, _ => none
  else none

def canonicalMoment (key : ListKey τ) : Moment Unit :=
  ⟨key.id, if key.hasTs then ts.isoformat key.effectiveAt else "", "", false, "", "", ()⟩

/-- `_decode_memory_list_cursor`; `none` is an invalid cursor. -/
def decodeMemoryListCursor (text : String) : Option (ListKey τ) :=
  if text = "" ∨ memoryListCursorMaxChars < text.length then none
  else
    (Base64.decode text.toList).bind fun raw => (loads raw).bind fun payload =>
      (payloadKey ts payload).bind fun key =>
      if encodeMemoryListCursor ts (canonicalMoment ts key) = text then some key else none

/-! ## Pages -/

section Order

variable [LinearOrder τ]

/-- `_memory_list_is_after_cursor`. -/
def memoryListIsAfterCursor (m : Moment β) (cursor : ListKey τ) : Bool :=
  let key := memoryListKey ts m
  if (key.hasTs, key.effectiveAt) ≠ (cursor.hasTs, cursor.effectiveAt) then
    decide (key.hasTs < cursor.hasTs ∨
        (key.hasTs = cursor.hasTs ∧ key.effectiveAt < cursor.effectiveAt))
  else decide (cursor.id < key.id)

/-- The order of `(bool, datetime)`. -/
def timeLe (a b : Bool × τ) : Prop := a.1 < b.1 ∨ (a.1 = b.1 ∧ a.2 ≤ b.2)

instance (a b : Bool × τ) : Decidable (timeLe a b) := inferInstanceAs (Decidable (_ ∨ _))

/-- `_sort_memory_list`: by id, then by time with the last first; both sorts are stable. -/
def sortMemoryList (moments : List (Moment β)) : List (Moment β) :=
  (moments.insertionSort fun a b => a.id ≤ b.id).insertionSort fun a b => timeLe
    (memoryListTimeKey ts b) (memoryListTimeKey ts a)

inductive ListError where
  | invalidLimit | invalidCursor
  deriving DecidableEq, Repr

structure ListPage (β : Type) where
  moments : List (Moment β)
  total : Nat
  nextCursor : Option String

def memoryListMaxLimit : Int := 500

/-- The filters of a request. -/
structure ListFilter where
  since : String
  includeArchivedRaw : String
  deriving DecidableEq, Repr

def ListFilter.includeArchived (f : ListFilter) : Bool :=
  decide (lower f.includeArchivedRaw ∈ ["1", "true", "yes"])

def ListFilter.shows (f : ListFilter) (m : Moment β) : Bool :=
  (f.includeArchived || !m.archived) &&
    (ts.parseTs f.since).all fun since => (ts.parseTs m.occurredAt).any fun occurred => decide
      (since ≤ occurred)

/-- `list_moments`. -/
def listMoments (f : ListFilter) (moments : List (Moment β)) (limit : Int) (cursor : String) :
    Except ListError (ListPage β) :=
  if limit < 1 ∨ memoryListMaxLimit < limit then .error .invalidLimit
  else
    let sorted := sortMemoryList ts (moments.filter (f.shows ts))
    let rest :=
      if cursor = "" then some sorted
      else (decodeMemoryListCursor ts cursor).map fun key => sorted.filter fun m =>
        memoryListIsAfterCursor ts m key
    match rest with
    | none => .error .invalidCursor
    | some rest =>
      let page := rest.take limit.toNat
      .ok ⟨page, sorted.length,
        if limit.toNat < rest.length then page.getLast?.map (encodeMemoryListCursor ts) else none⟩

end Order

/-! ## Cursors are read back -/

section Codec

variable {ts} {key : ListKey τ}

/-- The fields of a cursor. -/
def cursorFields (ts : Timestamps τ) (key : ListKey τ) : List (List Char × JsonText.Scalar) :=
  [(['h'], .bool key.hasTs), (['i'], .str key.id.toList),
    (['t'], if key.hasTs then .str (ts.isoformat key.effectiveAt).toList else .null),
      (['v'], .int 1)]

theorem cursorText_ascii (ts : Timestamps τ) (key : ListKey τ) :
    ∀ c ∈ cursorText ts key, c.toNat < 128 := by
  have hquote : ∀ text, (JsonText.quote text).all (fun c => decide (c.toNat < 128)) = true := by
    intro text
    rw [List.all_eq_true]
    exact fun c hc => decide_eq_true (JsonText.quote_ascii text c hc)
  have hbool : ∀ b, (JsonText.boolText b).all (fun c => decide (c.toNat < 128)) = true := by decide
  have hnull : JsonText.nullText.all (fun c => decide (c.toNat < 128)) = true := by decide
  have hall : (cursorText ts key).all (fun c => decide (c.toNat < 128)) = true := by
    unfold cursorText
    split_ifs
    · simp only [List.all_cons, List.all_append, hquote, hbool, List.all_nil]
      decide
    · simp only [List.all_cons, List.all_append, hquote, hbool, hnull, List.all_nil]
      decide
  intro c hc
  exact of_decide_eq_true (List.all_eq_true.mp hall c hc)

theorem readScalar_time (ts : Timestamps τ) (key : ListKey τ) (rest : List Char) :
    JsonText.readScalar ((if key.hasTs then JsonText.quote (ts.isoformat key.effectiveAt).toList
      else JsonText.nullText) ++ rest) =
      some (if key.hasTs then .str (ts.isoformat key.effectiveAt).toList else .null, rest) := by
  split_ifs
  · exact JsonText.readScalar_quote _ _
  · exact JsonText.readScalar_null _

theorem readObject_cursorText (ts : Timestamps τ) (key : ListKey τ) :
    JsonText.readObject (cursorText ts key) = some (cursorFields ts key) := by
  have hversion : JsonText.readScalar (['1'] ++ ['\x7d']) = some (.int 1, ['\x7d']) := by
    decide +kernel
  have hfields : ∀ n, JsonText.readFields (n + 4) ((cursorText ts key).drop 1) =
      some (cursorFields ts key, []) := by
    intro n
    rw [cursorText, List.drop_succ_cons, List.drop_zero,
      JsonText.readFields_more (JsonText.readScalar_bool _ _), JsonText.readFields_more
        (JsonText.readScalar_quote _ _), JsonText.readFields_more (readScalar_time ts key _),
      JsonText.readFields_last hversion]
    rfl
  have hlength : ∃ n, ((cursorText ts key).drop 1).length = n + 4 := by
    refine ⟨((cursorText ts key).drop 1).length - 4, ?_⟩
    rw [cursorText, List.drop_succ_cons, List.drop_zero]
    simp only [List.length_append, List.length_cons]
    omega
  obtain ⟨n, hn⟩ := hlength
  have hopen : (cursorText ts key).dropPrefix? ['\x7b'] = some ((cursorText ts key).drop 1) :=
    JsonText.dropPrefix?_append _ ['\x7b']
  rw [JsonText.readObject, hopen, Option.bind_some, hn, hfields]

theorem loads_cursorText (ts : Timestamps τ) (key : ListKey τ) :
    loads ((cursorText ts key).map Char.toNat) = some (cursorFields ts key) := by
  have hascii : (((cursorText ts key).map Char.toNat).all fun b => decide (b < 128)) = true := by
    rw [List.all_map, List.all_eq_true]
    exact fun c hc => decide_eq_true (cursorText_ascii ts key c hc)
  have hchars : ((cursorText ts key).map Char.toNat).map Char.ofNat = cursorText ts key := by
    rw [List.map_map]
    exact (List.map_congr_left fun c _ => Char.ofNat_toNat c).trans (List.map_id _)
  rw [loads, if_pos hascii, hchars, readObject_cursorText]

/-- A place without a time has the fixed instant. -/
def ListKey.Proper (ts : Timestamps τ) (key : ListKey τ) : Prop :=
  key.id ≠ "" ∧ (key.hasTs = false → key.effectiveAt = (ts.sortKey "").2)

theorem payloadKey_cursorFields (h : key.Proper ts) :
    payloadKey ts (cursorFields ts key) = some key := by
  have hid : ¬((1 : Int) ≠ memoryListCursorVersion ∨ key.id.toList.isEmpty = true) := by
    rw [List.isEmpty_iff]
    rintro (hversion | hnil)
    · exact hversion rfl
    · exact h.1 (String.toList_eq_nil_iff.mp hnil)
  have hfields : hasCursorFields (cursorFields ts key) = true := rfl
  have hversion : field (cursorFields ts key) 'v' = some (.int 1) := rfl
  have hhas : field (cursorFields ts key) 'h' = some (.bool key.hasTs) := rfl
  have hidField : field (cursorFields ts key) 'i' = some (.str key.id.toList) := rfl
  have htime : cursorTime ts key.hasTs (field (cursorFields ts key) 't') =
      some key.effectiveAt := by
    have hfield : field (cursorFields ts key) 't' =
        some (if key.hasTs then .str (ts.isoformat key.effectiveAt).toList else .null) := rfl
    rw [hfield]
    cases hts : key.hasTs with
    | true =>
      simp only [if_true, cursorTime, String.ofList_toList]
      exact ts.parse_isoformat _
    | false => rw [h.2 hts]; rfl
  rw [payloadKey, if_pos hfields, hversion, hhas, hidField]
  dsimp only
  rw [if_neg hid, htime, Option.map_some, String.ofList_toList]

theorem memoryListKey_canonicalMoment (h : key.Proper ts) :
    memoryListKey ts (canonicalMoment ts key) = key := by
  obtain ⟨hasTs, effectiveAt, id⟩ := key
  cases hasTs with
  | true => simp [memoryListKey, memoryListTimeKey, canonicalMoment, ts.sortKey_isoformat]
  | false =>
    have hfixed : effectiveAt = (ts.sortKey "").2 := h.2 rfl
    simp [memoryListKey, memoryListTimeKey, canonicalMoment, ts.sortKey_missing, hfixed]

theorem memoryListKey_proper {m : Moment β} (h : m.id ≠ "") : (memoryListKey ts m).Proper ts := by
  refine ⟨h, fun hts => ?_⟩
  simp only [memoryListKey, memoryListTimeKey] at hts ⊢
  split_ifs at hts ⊢ with hoccurred
  · rw [ts.sortKey_fixed _ hts]
  · rw [ts.sortKey_fixed _ hts]

theorem decode_bytes (ts : Timestamps τ) (key : ListKey τ) :
    Base64.decode (encodeKey ts key).toList = some ((cursorText ts key).map Char.toNat) := by
  have hbytes : ∀ b ∈ (cursorText ts key).map Char.toNat, b < 256 := by
    intro b hb
    obtain ⟨c, hc, rfl⟩ := List.mem_map.mp hb
    have hascii := cursorText_ascii ts key c hc
    omega
  rw [encodeKey, String.toList_ofList, Base64.decode_encode hbytes]

theorem encodeKey_ne (ts : Timestamps τ) (key : ListKey τ) : encodeKey ts key ≠ "" := by
  intro hempty
  have hdecode := decode_bytes ts key
  rw [hempty] at hdecode
  cases hdecode

theorem decode_encodeKey (h : key.Proper ts) :
    decodeMemoryListCursor ts (encodeKey ts key) =
      if (encodeKey ts key).length ≤ memoryListCursorMaxChars then some key else none := by
  unfold decodeMemoryListCursor
  by_cases hlength : (encodeKey ts key).length ≤ memoryListCursorMaxChars
  · have hshort : ¬(encodeKey ts key = "" ∨
        memoryListCursorMaxChars < (encodeKey ts key).length) := by
      rintro (hempty | hlong)
      · exact encodeKey_ne ts key hempty
      · omega
    rw [if_neg hshort, if_pos hlength, decode_bytes, Option.bind_some, loads_cursorText,
      Option.bind_some, payloadKey_cursorFields h, Option.bind_some, encodeMemoryListCursor,
        memoryListKey_canonicalMoment h, if_pos rfl]
  · rw [if_neg hlength, if_pos (Or.inr (Nat.not_le.mp hlength))]

/-- The bytes of the payload that names the place of a card: the JSON texts of its id and of its
time, if it has one, and what stands around them. -/
def payloadBytes (ts : Timestamps τ) (m : Moment β) : Nat :=
  let time := memoryListTimeKey ts m
  (JsonText.quote m.id.toList).length +
    if time.1 then 26 + (JsonText.quote (ts.isoformat time.2).toList).length else 31

theorem length_id_le_payloadBytes (ts : Timestamps τ) (m : Moment β) :
    m.id.length ≤ payloadBytes ts m := by
  have hquote := JsonText.length_le_quote m.id.toList
  rw [String.length_toList] at hquote
  exact hquote.trans (Nat.le_add_right _ _)

theorem length_cursorText (ts : Timestamps τ) (m : Moment β) :
    (cursorText ts (memoryListKey ts m)).length = payloadBytes ts m := by
  have hname : ∀ c ∈ ['h', 'i', 't', 'v'], (JsonText.quote [c]).length = 3 := by
    simp only [List.forall_mem_cons, List.not_mem_nil, false_imp_iff, implies_true, and_true]
    decide
  simp only [cursorText, payloadBytes, memoryListKey, List.length_cons, List.length_append,
    List.length_nil, hname 'h' (by simp), hname 'i' (by simp), hname 't' (by simp),
      hname 'v' (by simp)]
  by_cases htime : (memoryListTimeKey ts m).1 = true
  · simp only [htime, if_true, JsonText.boolText, List.length_cons, List.length_nil]
    omega
  · simp only [eq_false_of_ne_true htime, Bool.false_eq_true, if_false, JsonText.boolText,
      JsonText.nullText, List.length_cons, List.length_nil]
    omega

theorem length_cursor_le_iff (ts : Timestamps τ) (m : Moment β) :
    (encodeMemoryListCursor ts m).length ≤ memoryListCursorMaxChars ↔ payloadBytes ts m ≤ 768 := by
  rw [encodeMemoryListCursor, encodeKey, String.length_ofList, Base64.length_encode,
    List.length_map, length_cursorText, memoryListCursorMaxChars]
  omega

end Codec

end GardenList

end Feedling
