import Feedling.Store

/-!
# What a failed memory capture does to the capture state

A failure of a capture window counts against that window. Three rules decide when a window is given
up: bad output three times in a row, six failures that are not the account's, or an account that
stays broken for seven days. These are the pure functions both runtimes share; times are in
microseconds.

The classification of free error texts by the notice registry is the parameter
`classify`.
-/

namespace Feedling

inductive FailureClass where
  | parse | account | other
  deriving DecidableEq, Repr

/-! ## Classes of failures -/

/-- `DETERMINISTIC_FAILURE_KINDS`. -/
def deterministicFailureKinds : List String :=
  ["json_decode_error", "no_json_object", "not_an_object", "invalid_card", "format_error",
    "missing_cards_list"]

/-- `ACCOUNT_FAILURE_KINDS`. -/
def accountFailureKinds : List String :=
  ["auth_invalid", "quota_insufficient", "model_not_found", "rate_limited", "upstream_unavailable"]

/-- `ACCOUNT_ERROR_CONTRACT_CODES`. -/
def accountErrorContractCodes : List String :=
  ["quota_insufficient", "provider_account_expired", "auth_invalid", "model_not_found",
    "rate_limited", "upstream_unavailable", "resident_agent_cli_logged_out", "cli_config_invalid"]

/-- `OUR_SIDE_FAILURE_PREFIXES`. -/
def ourSideFailurePrefixes : List String :=
  ["database_pool_timeout", "capture_memory_write_failed", "memory_write_rejected", "lease_timeout",
    "slot_watchdog_timeout", "watchdog_requeue_exhausted"]

/-- `AGENT_CALL_FAILED_PREFIXES`. -/
def agentCallFailedPrefixes : List String :=
  ["capture_agent_call_failed", "dream_agent_call_failed", "migrate_agent_call_failed"]

/-- `AGENT_CALL_FAILURE_CLASSES`. -/
def agentCallFailureClasses : List String :=
  ["auth_invalid", "cli_config_invalid", "content_filtered", "context_overflow", "model_not_found",
    "provider_account_expired", "provider_incompatible", "quota_insufficient", "rate_limited",
    "resident_agent_cli_logged_out", "turn_timeout", "unknown", "upstream_unavailable"]

/-- `str.partition(':')`: before the first colon, and behind it if there is one. -/
def partitionColon (text : String) : String × Option String :=
  let chars := text.toList
  (String.ofList (chars.takeWhile (· != ':')),
    if ':' ∈ chars then some (String.ofList ((chars.dropWhile (· != ':')).drop 1)) else none)

/-- The reason without the scope that the hosted runtime puts in front. -/
def failureKind (reason : String) : String :=
  let text := lower (strip reason)
  if startsWith text "extraction_failed:" then
    String.ofList (text.toList.drop "extraction_failed:".length) else text

/-- `is_agent_call_failed_reason`. -/
def isAgentCallFailedReason (reason : String) : Bool :=
  decide ((partitionColon (strip reason)).1 ∈ agentCallFailedPrefixes)

/-- `normalize_reason(raw).partition(':')[2]` for a reason of a failed agent call. -/
def normalizedCode (classify : String → String) (reason : String) : String :=
  match (partitionColon (strip reason)).2 with
  | none => ""
  | some tail => if strip tail ∈ agentCallFailureClasses then strip tail else classify (strip tail)

/-- `account_error_code`. -/
@[irreducible] def accountErrorCode (classify : String → String) (reason : String) : String :=
  let kind := failureKind reason
  if deterministicFailureKinds.any (startsWith kind) then ""
  else if ourSideFailurePrefixes.any (startsWith kind) then ""
  else if kind ∈ accountFailureKinds then kind
  else if startsWith kind "provider_setup:" then "provider_setup"
  else
    let code :=
      if isAgentCallFailedReason reason then normalizedCode classify reason
      else classify (strip reason)
    if code ∈ accountErrorContractCodes then code else ""

/-- `failure_class`. -/
@[irreducible] def failureClass (classify : String → String) (reason : String) : FailureClass :=
  if deterministicFailureKinds.any (startsWith (failureKind reason)) then .parse
  else if accountErrorCode classify reason ≠ "" then .account
  else .other

/-! ## Windows -/

/-- A capture window. `afterSeq` is `none` when the key is missing, empty or no number. -/
structure CaptureWindow where
  afterMessageId : String
  afterSeq : Option Int
  untilMessageId : String
  untilTs : Time
  throughSeq : Int
  deriving DecidableEq, Repr

/-- `window_key`: the cursor that is stuck. -/
def CaptureWindow.key (w : CaptureWindow) : String :=
  let after := truncate 160 w.afterMessageId
  let upto := truncate 160 w.untilMessageId
  if after ≠ "" then "after:" ++ after
  else
    match w.afterSeq with
    | some n => "after_seq:" ++ toString (max 0 n)
    | none =>
      if upto ≠ "" ∨ w.throughSeq ≠ 0 then "until:" ++ upto ++ "|" ++ toString w.throughSeq else ""

/-! ## The capture state -/

/-- The keys of the `capture_state` document. A document from before the sequence numbers has no
`capture_seq_initialized`, and one that never captured has no `last_captured_until_seq`. -/
structure CaptureState where
  lastCapturedUntilMessageId : String
  lastCapturedUntilTs : Time
  lastCapturedUntilSeq : Option Int
  captureSeqInitialized : Option Bool
  captureFailStreak : Nat
  captureParseFailStreak : Nat
  captureWindowFailCount : Nat
  captureAccountFailSince : Time
  captureFailWindowKey : String
  captureAccountErrorCode : String
  captureSkippedWindows : Nat
  lastCaptureFailedAt : Time
  lastCaptureSkippedAt : Time
  deriving DecidableEq, Repr

/-- `CAPTURE_ACCOUNT_SKIP_AFTER_SEC`. -/
def captureAccountSkipAfter : Time := 7 * 86400000000

/-- `ACCOUNT_CLOCK_GAP_RESET_SEC`. -/
def accountClockGapReset : Time := 24 * 3600000000

namespace CaptureState

/-- `poison_skip_patch`: the cursor behind the window and no failure on record. -/
def poisonSkip (s : CaptureState) (w : CaptureWindow) (now : Time) (threshold : Nat) :
    Option CaptureState :=
  if truncate 160 w.untilMessageId = "" then none
  else if s.captureFailStreak + 1 < threshold then none
  else some { s with
    lastCapturedUntilMessageId := truncate 160 w.untilMessageId
    lastCapturedUntilTs := w.untilTs
    lastCapturedUntilSeq := some (max 0 w.throughSeq)
    captureSeqInitialized := some (decide (0 < max 0 w.throughSeq))
    captureFailStreak := 0
    captureParseFailStreak := 0
    captureWindowFailCount := 0
    captureAccountFailSince := 0
    captureFailWindowKey := ""
    captureSkippedWindows := s.captureSkippedWindows + 1
    lastCaptureSkippedAt := now }

end CaptureState

/-- `account_failure_clock`: since when the account fails, `0` for no time, and whether that is too
long. -/
def accountFailureClock (since lastFailed now : Time) (isAccount : Bool) : Time × Bool :=
  let running :=
    if since ≠ 0 ∧ lastFailed ≠ 0 ∧ lastFailed + accountClockGapReset < now then 0 else since
  let started := if isAccount then (if running = 0 then now else running) else running
  (started, isAccount && decide (0 < started ∧ started + captureAccountSkipAfter ≤ now))

theorem accountFailureClock_expired (since lastFailed now : Time) (isAccount : Bool) :
    (accountFailureClock since lastFailed now isAccount).2 =
      (isAccount && decide (0 < (accountFailureClock since lastFailed now isAccount).1 ∧
        (accountFailureClock since lastFailed now isAccount).1 + captureAccountSkipAfter ≤ now)) :=
  rfl

theorem accountFailureClock_account (since lastFailed now : Time) :
    (accountFailureClock since lastFailed now true).1 =
      if (accountFailureClock since lastFailed now false).1 = 0 then now
      else (accountFailureClock since lastFailed now false).1 := rfl

theorem accountFailureClock_kept {since lastFailed now : Time}
    (h : now ≤ lastFailed + accountClockGapReset) :
    (accountFailureClock since lastFailed now false).1 = since := by
  simp only [accountFailureClock, Bool.false_eq_true, if_false, ite_eq_right_iff]
  rintro ⟨_, _, hlate⟩
  exact absurd h (Nat.not_le.mpr hlate)

theorem accountFailureClock_running {since lastFailed now : Time}
    (h : (accountFailureClock since lastFailed now false).1 ≠ 0) :
    (accountFailureClock since lastFailed now false).1 = since ∧
      (lastFailed ≠ 0 → now ≤ lastFailed + accountClockGapReset) := by
  simp only [accountFailureClock, Bool.false_eq_true, if_false] at h ⊢
  split at h
  · exact absurd rfl h
  · next hkept =>
    rw [if_neg hkept]
    refine ⟨rfl, fun hfailed => ?_⟩
    by_contra hlate
    exact hkept ⟨h, hfailed, Nat.not_le.mp hlate⟩

section Patches

variable (classify : String → String)

/-- `windowless_failure_patch`. -/
def windowlessFailurePatch (s : CaptureState) (now : Time) (reason : String) : CaptureState :=
  { s with
    captureFailStreak := s.captureFailStreak + 1
    captureAccountErrorCode := accountErrorCode classify reason
    lastCaptureFailedAt := now
    captureParseFailStreak :=
      if failureClass classify reason = .parse then s.captureParseFailStreak else 0 }

/-- What a failure of a window counts. -/
structure WindowCounts where
  streak : Nat
  parseStreak : Nat
  windowCount : Nat
  accountSince : Time
  accountExpired : Bool
  deriving DecidableEq, Repr

/-- The counts after a failure of the window with the given key. -/
def CaptureState.windowCounts (s : CaptureState) (key : String) (now : Time) (kind : FailureClass) :
    WindowCounts :=
  let same := key = s.captureFailWindowKey
  let clock :=
    accountFailureClock (if same then s.captureAccountFailSince else 0) s.lastCaptureFailedAt now
    (kind = .account)
  { streak := if same then s.captureFailStreak + 1 else 1
    parseStreak := if kind = .parse then (if same then s.captureParseFailStreak else 0) + 1 else 0
    windowCount :=
      (if same then s.captureWindowFailCount else 0) + (if kind = .account then 0 else 1)
    accountSince := clock.1
    accountExpired := clock.2 }

def WindowCounts.gaveUp (c : WindowCounts) (kind : FailureClass) : Bool :=
  c.accountExpired ||
    (kind != .account && (decide (3 ≤ c.parseStreak) || decide (6 ≤ c.windowCount)))

/-- `capture_failure_patch`: the patched state, the streak, and whether the window was skipped. -/
def captureFailurePatch (s : CaptureState) (w : CaptureWindow) (now : Time) (reason : String) :
    CaptureState × Nat × Bool :=
  if w.key = "" then
    let patched := windowlessFailurePatch classify s now reason
    (patched, patched.captureFailStreak, false)
  else
    let kind := failureClass classify reason
    let counts := s.windowCounts w.key now kind
    let code := if kind = .account then accountErrorCode classify reason else ""
    match (if counts.gaveUp kind then s.poisonSkip w now 1 else none) with
    | some skipped =>
      ({ skipped with captureAccountErrorCode := code, lastCaptureFailedAt := now },
          counts.streak, true)
    | none =>
      ({ s with
          captureFailStreak := counts.streak
          captureAccountErrorCode := code
          captureParseFailStreak := counts.parseStreak
          captureWindowFailCount := counts.windowCount
          captureAccountFailSince := counts.accountSince
          captureFailWindowKey := w.key
          lastCaptureFailedAt := now }, counts.streak, false)

end Patches

end Feedling
