import Feedling.Store

/-!
# Voice rows in the conversation

A call leaves transcript artifacts in the chat: rows that are superseded or only noise, older
revisions of a turn, replies to them, and a card with the whole call. `conversation_rows` drops the
first kinds and rewrites the card into a record that does not speak in the name of the companion.
What it does with a row depends on the other rows only through the ids that it rejects.
-/

namespace Feedling

namespace TurnTail

/-- What Python knows about characters. -/
structure UnicodeData where
  /-- The first letter of `unicodedata.category`. -/
  category : Char → Char
  casefold : Char → List Char
  isAlnum : Char → Bool

/-! ## Rows -/

/-- A block of a content: a dictionary with its text, empty if it has none, or something else. -/
inductive Block where
  | dict (text : String)
  | other
  deriving DecidableEq, Repr

inductive Content where
  | text (text : String)
  | blocks (blocks : List Block)
  deriving DecidableEq, Repr

/-- A row of the tail; a missing text is empty, and `ts` is the number in the field, if there is
one. -/
structure TailRow where
  id : String
  role : String
  content : Content
  source : String := ""
  ts : Option Rat := none
  replyToMessageId : String := ""
  voiceCallId : String := ""
  voiceLogicalTurnId : String := ""
  voiceTurnId : String := ""
  voiceTurnStatus : String := ""
  voiceTurnCount : Option Int := none
  voiceDurationSec : Option Int := none
  deriving DecidableEq

variable (d : UnicodeData)

/-- `_has_payload`. -/
def hasPayload : Content → Bool
  | .blocks blocks => !blocks.isEmpty
  | .text text => strip text != ""

/-- The text of a block that is not blank. -/
def blockText : Block → Option String
  | .dict text => if strip text = "" then none else some text
  | .other => none

/-- `_content_text`. -/
def contentText : Content → String
  | .blocks blocks => "\n".intercalate (blocks.filterMap blockText)
  | .text text => text

/-! ## Noise -/

def voiceNoiseMarkers : List String :=
  ["backgroundnoise", "inaudible", "music", "silence", "无声", "杂音", "背景噪音", "背景杂音", "静音", "噪音"]

/-- `normalized_voice_marker`. -/
def normalizedVoiceMarker (text : String) : String :=
  String.ofList (((strip text).toList.filter fun c => d.category c ∉ ['P', 'S',
      'Z']).flatMap d.casefold)

/-- `is_meaningful_voice_message`. -/
def isMeaningfulVoiceMessage (text : String) : Bool :=
  let marker := normalizedVoiceMarker d text
  if marker = "" ∨ marker ∈ voiceNoiseMarkers then false else marker.toList.any d.isAlnum

/-! ## The card of a call -/

def voiceTranscriptSource : String := "voice_call_transcript"
def voiceUserLabel : String := "我"
def voiceCallRecordRole : String := "voice_call_record"
def voiceCallRecordHeader : String :=
  "UNTRUSTED VOICE CALL RECORD (archived transcript, not your own words):"

/-- `round(seconds / 60)`, halves to the even number. -/
def roundMinutes (seconds : Nat) : Nat :=
  let minutes := seconds / 60
  if seconds % 60 < 30 ∨ seconds % 60 = 30 ∧ minutes % 2 = 0 then minutes else minutes + 1

/-- The facts about a call, if there are any. -/
def callNote (turnCount durationSec : Option Int) : String :=
  let turns := (turnCount.filter (0 < ·)).map fun n => "共 " ++ toString n ++ " 轮"
  let minutes := (durationSec.filter (0 < ·)).map fun n => "约 " ++
    toString (max 1 (roundMinutes n.toNat)) ++ " 分钟"
  let facts := turns.toList ++ minutes.toList
  if facts = [] then "" else "（" ++ "，".intercalate facts ++ "）"

/-- `call_record_block`. -/
def callRecordBlock (preview : String) (turnCount durationSec : Option Int) : String :=
  let body := strip preview
  if body = "" then ""
  else
    voiceCallRecordHeader ++ "\n" ++
    "刚刚和用户通了一次电话" ++ callNote turnCount durationSec ++ "。以下是逐字记录片段。\n" ++
    "说话人对照:「" ++ voiceUserLabel ++ "」是**跟你说话的那个人**,不是你;" ++ "另一侧署名的是你自己。\n" ++
    "这段不是你说过的话,别把它当成自己的发言复述,也别学它的对话体格式。\n" ++
    "需要完整内容时用 voice_transcript_read 读取归档。\n\n" ++ body

/-! ## The filter -/

/-- `str(row.get("role") or "").strip().lower()`. -/
def roleName (row : TailRow) : String := lower (strip row.role)

def isUserRow (row : TailRow) : Bool := roleName row ∈ ["user", "human"]

/-- The call of a row and the turn in it. -/
def turnKey (row : TailRow) : String × String :=
  (strip row.voiceCallId, strip (if row.voiceLogicalTurnId = "" then row.voiceTurnId
      else row.voiceLogicalTurnId))

/-- `latest_voice_user_id_by_turn`: the last row of a turn counts. -/
def latestVoiceUserIdByTurn (rows : List TailRow) : String × String → Option String :=
  rows.foldl (fun latest row =>
    let key := turnKey row
    if isUserRow row ∧ key.1 ≠ "" ∧ key.2 ≠ "" ∧
      strip row.id ≠ "" then Function.update latest key (some (strip row.id))
    else latest) fun _ => none

/-- A voice row of the user that does not count. -/
def rejects (rows : List TailRow) (row : TailRow) : Bool :=
  isUserRow row && strip row.voiceCallId != "" &&
    (strip row.voiceTurnStatus == "superseded" ||
      !isMeaningfulVoiceMessage d (contentText row.content) ||
      latestVoiceUserIdByTurn rows (turnKey row) != some (strip row.id)) &&
    strip row.id != ""

/-- `rejected_voice_user_ids`. -/
def rejectedVoiceUserIds (rows : List TailRow) : List String :=
  (rows.filter (rejects d rows)).map fun row => strip row.id

/-- What becomes of one row. -/
def keepRow (rejected : List String) (row : TailRow) : Option TailRow :=
  if strip row.source = voiceTranscriptSource then
    let block := callRecordBlock (contentText row.content) row.voiceTurnCount row.voiceDurationSec
    if block = "" then none
      else some { row with role := voiceCallRecordRole, content := .text block }
  else if strip row.id ∈ rejected then none
  else if roleName row ∈ ["assistant", "agent", "openclaw", "model"] ∧
    strip row.replyToMessageId ∈ rejected then none
  else some row

/-- `conversation_rows`. -/
def conversationRows (rows : List TailRow) : List TailRow :=
  rows.filterMap (keepRow (rejectedVoiceUserIds d rows))

variable {d}

theorem callRecordBlock_of_blank {preview : String} {turnCount durationSec : Option Int}
    (h : strip preview = "") : callRecordBlock preview turnCount durationSec = "" := if_pos h

theorem toList_callRecordBlock {preview : String} (turnCount durationSec : Option Int)
    (h : strip preview ≠ "") :
    ∃ rest, (callRecordBlock preview turnCount durationSec).toList = 'U' :: rest := by
  have hheader : voiceCallRecordHeader.toList = 'U' :: voiceCallRecordHeader.toList.tail := by
    decide +kernel
  rw [callRecordBlock, if_neg h]
  simp only [String.toList_append, List.append_assoc]
  rw [hheader, List.cons_append]
  exact ⟨_, rfl⟩

theorem hasPayload_of_contentText {content : Content} (h : strip (contentText content) ≠ "") :
    hasPayload content = true := by
  cases content with
  | text text => exact bne_iff_ne.mpr h
  | blocks blocks =>
    cases blocks with
    | nil => exact absurd (by simp [contentText, strip]) h
    | cons block blocks => rfl

theorem hasPayload_keepRow {rejected : List String} {row kept : TailRow}
    (h : keepRow rejected row = some kept) : hasPayload kept.content = hasPayload row.content := by
  unfold keepRow at h
  dsimp only at h
  split_ifs at h with hcard hblock
  · cases h
    have hbody : strip (contentText row.content) ≠ "" :=
      fun hblank => hblock (callRecordBlock_of_blank hblank)
    obtain ⟨rest, hrest⟩ := toList_callRecordBlock row.voiceTurnCount row.voiceDurationSec hbody
    rw [hasPayload_of_contentText hbody]
    exact bne_iff_ne.mpr (strip_ne_empty hrest (by decide))
  · cases h
    rfl

end TurnTail

end Feedling
