/-
The captured LLM payloads of a user (services/llm_payload_capture.py, models/llm.py): the upsert of a request, which rotates
the current era into the previous one when its marker changes, and the two UPDATEs that attach a response.

Requests and responses are captured by background tasks. A request capture reads the consent and then writes in one statement;
what it read is part of the operation. A response capture is a task that runs one UPDATE at a time, so that other tasks come
between them. The text that `json.dumps` writes matters by its length only, a parameter. The number of the LLM call that a
payload belongs to is history: the code does not see it.
-/
import Mathlib.Tactic
import Clawbolt.Core.Json

namespace Clawbolt.Capture

open Text (Str)

/-! ## Payloads -/

structure LLMRequestPayload where
  schemaVersion : ℤ
  purpose : Str
  userId : Str
  sessionId : Option Str
  requestId : Option Str
  model : Str
  provider : Str
  maxTokens : ℤ
  thinking : Json
  system : Json
  messages : List Json
  tools : Json
  minMessageSeqInPrompt : Option ℤ
  startedAt : Str

structure LLMResponsePayload where
  schemaVersion : ℤ
  purpose : Str
  userId : Str
  sessionId : Option Str
  requestId : Option Str
  model : Str
  provider : Str
  contentBlocks : List Json
  stopReason : Option Str
  inputTokens : Option ℤ
  outputTokens : Option ℤ
  cacheCreationInputTokens : Option ℤ
  cacheReadInputTokens : Option ℤ
  startedAt : Str
  completedAt : Str

def purposeAgentMain : Str := "agent_main".toList

def optStr (t : Option Str) : Json := t.elim .null .str

def optInt (n : Option ℤ) : Json := n.elim .null .int

/-- `_payload_to_json_dict` -/
def payloadToJsonDict (p : LLMRequestPayload) : Dict Json :=
  [("schema_version".toList, .int p.schemaVersion), ("user_id".toList, .str p.userId),
    ("session_id".toList, optStr p.sessionId), ("request_id".toList, optStr p.requestId), ("model".toList, .str p.model),
    ("provider".toList, .str p.provider), ("max_tokens".toList, .int p.maxTokens), ("thinking".toList, p.thinking),
    ("system".toList, p.system), ("messages".toList, .arr p.messages), ("tools".toList, p.tools),
    ("min_message_seq_in_prompt".toList, optInt p.minMessageSeqInPrompt), ("started_at".toList, .str p.startedAt)]

/-- `_response_to_json_dict` -/
def responseToJsonDict (p : LLMResponsePayload) : Dict Json :=
  [("schema_version".toList, .int p.schemaVersion), ("user_id".toList, .str p.userId),
    ("session_id".toList, optStr p.sessionId), ("request_id".toList, optStr p.requestId), ("model".toList, .str p.model),
    ("provider".toList, .str p.provider), ("content_blocks".toList, .arr p.contentBlocks),
    ("stop_reason".toList, optStr p.stopReason), ("input_tokens".toList, optInt p.inputTokens),
    ("output_tokens".toList, optInt p.outputTokens),
    ("cache_creation_input_tokens".toList, optInt p.cacheCreationInputTokens),
    ("cache_read_input_tokens".toList, optInt p.cacheReadInputTokens), ("started_at".toList, .str p.startedAt),
    ("completed_at".toList, .str p.completedAt)]

/-! ## Rows -/

/-- a JSON column, and the LLM call that its value is from -/
structure Captured where
  json : Dict Json
  call : ℕ

/-- a row of `llm_payload_captures` -/
structure LLMPayloadCapture where
  currentEraPayload : Captured
  currentEraMinMessageSeq : Option ℤ
  currentEraCapturedAt : ℕ
  currentEraRequestId : Option Str
  currentEraPayloadBytes : ℕ
  currentEraResponse : Option Captured := none
  currentEraResponseCapturedAt : Option ℕ := none
  currentEraResponseBytes : Option ℕ := none
  previousEraPayload : Option Captured := none
  previousEraMinMessageSeq : Option ℤ := none
  previousEraCapturedAt : Option ℕ := none
  previousEraRequestId : Option Str := none
  previousEraPayloadBytes : Option ℕ := none
  previousEraResponse : Option Captured := none
  previousEraResponseCapturedAt : Option ℕ := none
  previousEraResponseBytes : Option ℕ := none

/-- the values of the INSERT -/
def inserted (call : ℕ) (p : LLMRequestPayload) (capturedAt bytes : ℕ) : LLMPayloadCapture where
  currentEraPayload := ⟨payloadToJsonDict p, call⟩
  currentEraMinMessageSeq := p.minMessageSeqInPrompt
  currentEraCapturedAt := capturedAt
  currentEraRequestId := p.requestId
  currentEraPayloadBytes := bytes

/-- `ON CONFLICT DO UPDATE SET`: `c` is the stored row, `ex` the one that was to be inserted -/
def onConflict (c ex : LLMPayloadCapture) : LLMPayloadCapture :=
  -- IS DISTINCT FROM: null differs from every number
  let eraChanged := c.currentEraMinMessageSeq ≠ ex.currentEraMinMessageSeq
  { c with
    previousEraPayload := if eraChanged then some c.currentEraPayload else c.previousEraPayload
    previousEraMinMessageSeq := if eraChanged then c.currentEraMinMessageSeq else c.previousEraMinMessageSeq
    previousEraCapturedAt := if eraChanged then some c.currentEraCapturedAt else c.previousEraCapturedAt
    previousEraRequestId := if eraChanged then c.currentEraRequestId else c.previousEraRequestId
    previousEraPayloadBytes := if eraChanged then some c.currentEraPayloadBytes else c.previousEraPayloadBytes
    currentEraPayload := ex.currentEraPayload
    currentEraMinMessageSeq := ex.currentEraMinMessageSeq
    currentEraCapturedAt := ex.currentEraCapturedAt
    currentEraRequestId := ex.currentEraRequestId
    currentEraPayloadBytes := ex.currentEraPayloadBytes }

def upsert (row : Option LLMPayloadCapture) (ex : LLMPayloadCapture) : LLMPayloadCapture :=
  match row with
  | none => ex
  | some c => onConflict c ex

def maxCaptureBytes : ℕ := 2 * 1024 * 1024

/-! ## Response tasks -/

/-- a task of `_capture_llm_response_inner`: what it writes, and the UPDATE that comes next -/
structure Pairing where
  userId : Str
  requestId : Str
  serialized : Captured
  capturedAt : ℕ
  encodedBytes : ℕ
  attempt : ℕ
  /-- the current era was missed in this attempt -/
  missedCurrent : Bool

def responsePairingAttempts : ℕ := 3

/-- the first UPDATE of `_attempt_pair_response`; none when no row matches -/
def Pairing.updateCurrent (p : Pairing) (row : LLMPayloadCapture) : Option LLMPayloadCapture :=
  if row.currentEraRequestId = some p.requestId then
    some { row with
      currentEraResponse := some p.serialized
      currentEraResponseCapturedAt := some p.capturedAt
      currentEraResponseBytes := some p.encodedBytes }
  else none

/-- the second one -/
def Pairing.updatePrevious (p : Pairing) (row : LLMPayloadCapture) : Option LLMPayloadCapture :=
  if row.previousEraRequestId = some p.requestId then
    some { row with
      previousEraResponse := some p.serialized
      previousEraResponseCapturedAt := some p.capturedAt
      previousEraResponseBytes := some p.encodedBytes }
  else none

/-- the UPDATE that comes next, on the row of the user -/
def Pairing.update (p : Pairing) (row : LLMPayloadCapture) : Option LLMPayloadCapture :=
  if p.missedCurrent then p.updatePrevious row else p.updateCurrent row

/-- what is left to do when the UPDATE matched no row -/
def Pairing.missed (p : Pairing) : Option Pairing :=
  if p.missedCurrent then
    if p.attempt + 1 < responsePairingAttempts then some { p with attempt := p.attempt + 1, missedCurrent := false } else none
  else some { p with missedCurrent := true }

/-! ## Runs -/

structure Sys where
  rows : Str → Option LLMPayloadCapture
  tasks : ℕ → Option Pairing
  /-- the calls whose request was captured or dropped (history) -/
  calls : List ℕ

def Sys.init : Sys := ⟨fun _ => none, fun _ => none, []⟩

inductive Op
  /-- `capture_llm_request` of a call, with the `data_sharing_consent` it read -/
  | captureRequest (call : ℕ) (payload : LLMRequestPayload) (consent : Option Bool) (capturedAt : ℕ)
  /-- `capture_llm_response` begins, in task `t` -/
  | captureResponse (t call : ℕ) (payload : LLMResponsePayload) (capturedAt : ℕ)
  /-- task `t` runs its next UPDATE -/
  | update (t : ℕ)
  /-- task `t` ends early: a database error, or shutdown -/
  | abandon (t : ℕ)
  /-- `purge_user_captures` from the export, or the deletion of the account -/
  | purge (userId : Str)

section

variable (size : Dict Json → ℕ)

/-- `capture_llm_request`, on the row of the user -/
def captureLlmRequest (call : ℕ) (p : LLMRequestPayload) (consent : Option Bool) (capturedAt : ℕ)
    (row : Option LLMPayloadCapture) : Option LLMPayloadCapture :=
  if p.purpose ≠ purposeAgentMain then row
  else if size (payloadToJsonDict p) > maxCaptureBytes then row
  else if consent ≠ some true then none
  else some (upsert row (inserted call p capturedAt (size (payloadToJsonDict p))))

/-- `capture_llm_response` up to its first UPDATE -/
def captureLlmResponse (call : ℕ) (p : LLMResponsePayload) (capturedAt : ℕ) : Option Pairing :=
  if p.purpose ≠ purposeAgentMain then none
  else p.requestId.bind fun requestId =>
    if size (responseToJsonDict p) > maxCaptureBytes then none
    else some ⟨p.userId, requestId, ⟨responseToJsonDict p, call⟩, capturedAt, size (responseToJsonDict p), 0, false⟩

def step (s : Sys) : Op → Sys
  | .captureRequest call payload consent capturedAt =>
    -- the request of a call is captured once
    if call ∈ s.calls then s
    else { s with
      calls := call :: s.calls
      rows := Function.update s.rows payload.userId
        (captureLlmRequest size call payload consent capturedAt (s.rows payload.userId)) }
  | .captureResponse t call payload capturedAt =>
    if (s.tasks t).isSome then s
    else { s with tasks := Function.update s.tasks t (captureLlmResponse size call payload capturedAt) }
  | .update t =>
    match s.tasks t with
    | none => s
    | some p =>
      match (s.rows p.userId).bind p.update with
      | some row => { s with
        rows := Function.update s.rows p.userId (some row)
        tasks := Function.update s.tasks t none }
      | none => { s with tasks := Function.update s.tasks t p.missed }
  | .abandon t => { s with tasks := Function.update s.tasks t none }
  | .purge userId => { s with rows := Function.update s.rows userId none }

end

end Clawbolt.Capture
