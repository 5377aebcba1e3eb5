/-
The agent loop (`process_message`, `_call_llm_with_retry`, `_trim_and_retry`, `_fold_pending_inbound` and
`_wrap_up_after_max_rounds` of agent/core.py), from the prompt to the messages that go to compaction.

What the world answers is data: for each round what was drained, what the call of the model came to, and what the round of
tools met (`RoundScript`). A call retries rate limits and provider errors with the same messages, so they do not show here.
The arguments of a call that are no object are empty (`parse_tool_calls` lets no others through), and stand for none.

`requests` are the lists given to `messages_to_messages_api`, `sent` those of them that were not trimmed for a retry, and
`trims` what each retry dropped.
-/
import Mathlib.Tactic
import Clawbolt.Agent.StreamedCalls
import Clawbolt.AgentLoop.Layout

namespace Clawbolt.AgentLoop

open Text (Str)
open History (AgentMessage Env Settings ToolCallRequest)
open Workspace (UnifiedDiff)
open Agent (Asking CacheKey MessageResponse ParsedToolCall ToolRecord extractDeliveredSkills parseToolCalls)
open Approval (Decision)

/-! ## The world -/

structure Config where
  env : Env
  cfg : Settings
  diff : UnifiedDiff
  maxToolRounds : ℕ
  maxToolRounds_pos : 0 < maxToolRounds
  maxInputTokens : ℕ
  llmMaxTokensAgent : ℕ

/-- a message that came during the turn -/
structure Folded where
  content : Str
  seq : Option ℕ

/-- `FOLDED_MESSAGE_NOTE` -/
def foldedMessageNote : Str := "[Sent while you were working on this turn. Cover it in your reply.]".toList

/-- what a call of the model comes to: whether the provider refuses the prompt as too long, and the response, of the retry
then; none when it raises -/
structure Call where
  overflow : Bool
  response : Option MessageResponse

/-- what a round meets. Nothing is drained where the drain fails, or the turn has none. -/
structure RoundScript where
  folded : List Folded
  call : Call
  /-- drained when the response is a reply -/
  late : List Folded
  tools : List Agent.Tool
  toolEnv : Agent.Env
  asking : Asking
  outcome : ℕ → Agent.Outcome

/-! ## Responses -/

/-- `_VALID_STOP_REASONS` -/
def validStopReasons : List (Option Str) :=
  [some "end_turn".toList, some "max_tokens".toList, some "tool_use".toList, some "stop_sequence".toList, none]

/-- `_MAX_TOKENS_CEILING` -/
def maxTokensCeiling : ℕ := 16384

def truncated (response : MessageResponse) : Bool := response.stopReason = some "max_tokens".toList

/-- `get_response_text` -/
def responseText (response : MessageResponse) : Str :=
  (response.content.filterMap fun
    | .text text => some text
    | _ => none).flatten

/-- a count of `response.usage`; none and 0 are the same -/
def usageCount (response : MessageResponse) (key : String) : ℕ :=
  match response.usage.lookup key.toList with
  | some (.int n) => n.toNat
  | _ => 0

/-- the size of the prompt, when the response reports one -/
def promptTokens (response : MessageResponse) : Option ℕ :=
  if usageCount response "input_tokens" = 0 then none
  else
    some (usageCount response "input_tokens" + usageCount response "cache_creation_input_tokens" +
      usageCount response "cache_read_input_tokens")

def toolCallRequest (call : ParsedToolCall) : ToolCallRequest :=
  ⟨call.id, call.name, match call.arguments with
    | .obj args => args
    | _ => []⟩

def resultMessage (m : Agent.ToolResultMessage) : AgentMessage := .toolResult m.toolCallId m.content m.isError

/-! ## The loop -/

structure St where
  next : ℕ
  layout : Option Layout
  messages : List Obj
  /-- `_last_input_tokens` -/
  lastInputTokens : ℕ
  maxTokens : Option ℕ
  /-- `_reactive_trim_dropped` -/
  reactive : List Obj
  /-- `_approval_cache` -/
  cache : List (CacheKey × Decision)
  /-- `_delivered_skill_categories` -/
  delivered : List Str
  records : List ToolRecord
  requests : List (List AgentMessage)
  sent : List (List Obj)
  trims : List (List Obj)

/-- new messages at the end -/
def St.append (s : St) (ms : List AgentMessage) : St :=
  { s with messages := s.messages ++ allocate s.next ms, next := s.next + ms.length }

def foldedMessage (f : Folded) : AgentMessage := .user (foldedMessageNote ++ "\n\n".toList ++ f.content) f.seq

/-- `_fold_pending_inbound` -/
def St.fold (s : St) (folded : List Folded) : St := s.append (folded.map foldedMessage)

section

variable (c : Config)

/-- the settings of the retry's trim: without a trigger of its own it takes the target's -/
def Config.retrySettings : Settings := { c.cfg with contextTrimTriggerTokens := c.cfg.contextTrimTargetTokens }

/-- `_trim_and_retry`, up to the second call -/
def St.trimAndRetry (s : St) (messages : List Obj) : St :=
  let t := trimObjs c.env c.retrySettings s.next (stripped s.layout messages)
    (some (if s.lastInputTokens = 0 then c.maxInputTokens else s.lastInputTokens))
  let s := { s with reactive := s.reactive ++ t.dropped, trims := s.trims ++ [t.dropped] }
  match s.layout with
  | some l =>
    let (retry, l, next) := l.reapply c.diff t.next t.messages
    { s with layout := some l, next := next, requests := s.requests ++ [valuesOf retry] }
  | none => { s with next := t.next, requests := s.requests ++ [valuesOf t.messages] }

/-- `_call_llm_with_retry` -/
def St.callLlm (s : St) (messages : List Obj) (call : Call) : St :=
  let s := { s with requests := s.requests ++ [valuesOf messages], sent := s.sent ++ [messages] }
  if call.overflow then s.trimAndRetry c messages else s

/-- how a turn ends -/
inductive Ending where
  | raised
  /-- `_abort_without_persisting` -/
  | aborted
  | replied (text : Str)
deriving DecidableEq, Repr

/-- how a round ends: another one follows, if there is one left -/
inductive RoundEnd where
  | more (parsed : List ParsedToolCall) (response : MessageResponse)
  | ended (ending : Ending)

/-- `max_tokens or settings.llm_max_tokens_agent` -/
def St.effective (s : St) : ℕ :=
  match s.maxTokens with
  | some (n + 1) => n + 1
  | _ => c.llmMaxTokensAgent

/-- a response without tool calls -/
def St.draft (s : St) (last : Bool) (late : List Folded) (response : MessageResponse) : St × RoundEnd :=
  if truncated response then
    if s.effective c < maxTokensCeiling then
      ({ s with maxTokens := some (min (s.effective c * 2) maxTokensCeiling) }, .more [] response)
    else (s, .ended .aborted)
  else if last = false ∧ late.isEmpty = false then (s.fold late, .more [] response)
  else (s, .ended (.replied (responseText response)))

/-- a response with tool calls -/
def St.toolRound (s : St) (r : RoundScript) (calls : List ParsedToolCall) (response : MessageResponse) : St × RoundEnd :=
  let text := responseText response
  let s := s.append [.assistant (if text = [] then none else some text) (calls.map toolCallRequest) none]
  match Agent.executeToolRound r.toolEnv
      ⟨r.tools, calls, truncated response, r.asking, s.cache, s.delivered, r.outcome⟩ with
  | none => (s, .ended .raised)
  | some round =>
    let maxTokens := if truncated response then some (max (s.effective c) (min (s.effective c * 2) maxTokensCeiling))
      else s.maxTokens
    let s := { s with
      cache := round.cache
      delivered := round.log.delivered
      records := s.records ++ round.records
      maxTokens := maxTokens }
    (s.append (round.toolResults.map resultMessage), .more calls response)

/-- `_last_input_tokens` after a response -/
def St.noteUsage (s : St) (response : MessageResponse) : St :=
  { s with lastInputTokens := (promptTokens response).getD s.lastInputTokens }

/-- the body of the loop -/
def St.round (s : St) (last : Bool) (r : RoundScript) : St × RoundEnd :=
  let s := s.fold r.folded
  let s := s.callLlm c s.messages r.call
  match r.call.response with
  | none => (s, .ended .raised)
  | some response =>
    let s := s.noteUsage response
    if response.stopReason ∉ validStopReasons then (s, .ended .aborted)
    else
      match parseToolCalls response with
      | none => (s, .ended .raised)
      | some [] => s.draft c last r.late response
      | some (call :: calls) => s.toolRound c r (call :: calls) response

/-- the round `i`, and at most `left` more -/
def St.rounds (script : ℕ → RoundScript) : ℕ → ℕ → St → St × RoundEnd
  | 0, i, s => s.round c true (script i)
  | left + 1, i, s =>
    match s.round c false (script i) with
    | (s, .ended e) => (s, .ended e)
    | (s, .more _ _) => St.rounds script left (i + 1) s

/-- `_MAX_ROUNDS_WRAP_UP_INSTRUCTION` -/
def maxRoundsWrapUpInstruction : Str :=
  ("You have reached the tool-call limit for this turn and cannot call any more tools. " ++
    "Reply to the user now: say what you finished, what is still open, and what you " ++
    "need from them to continue.").toList

/-- `_MAX_ROUNDS_FALLBACK` -/
def maxRoundsFallback : Str :=
  ("I ran out of steps before I could finish this one. " ++
    "Reply \"keep going\" and I\x27ll pick up where I left off.").toList

/-- `_wrap_up_after_max_rounds` -/
def St.wrapUp (s : St) (call : Call) : St × Option MessageResponse :=
  let messages := s.messages ++ [⟨s.next, .user maxRoundsWrapUpInstruction none⟩]
  (({ s with next := s.next + 1 } : St).callLlm c messages call,
    call.response.filter fun r => decide (r.stopReason ∈ validStopReasons) && !truncated r)

/-- `already_replied` -/
def alreadyReplied (records : List ToolRecord) : Bool :=
  records.any fun r => decide ("sends_reply".toList ∈ r.tags) && !r.isError

/-- what follows the last round -/
def St.finish (wrapUpOnMaxRounds : Bool) (wrapUp : Call) : St × RoundEnd → St × Ending
  | (s, .ended e) => (s, e)
  | (s, .more parsed response) =>
    if parsed.isEmpty && truncated response then (s, .aborted)
    else if wrapUpOnMaxRounds = true ∧ responseText response = [] ∧ alreadyReplied s.records = false then
      let (s, answer) := s.wrapUp c wrapUp
      let reply := (answer.map responseText).getD []
      (s, .replied (if reply = [] then maxRoundsFallback else reply))
    else (s, .replied (responseText response))

/-! ## The turn -/

/-- the categories whose guidance is in the messages -/
def deliveredIn (messages : List AgentMessage) : List Str :=
  messages.flatMap fun
    | .toolResult _ content _ => extractDeliveredSkills content
    | _ => []

def Assembled.start (a : Assembled) (maxTokens : Option ℕ) : St where
  next := a.next
  layout := a.layout
  messages := a.messages
  lastInputTokens := 0
  maxTokens := maxTokens
  reactive := []
  cache := []
  delivered := deliveredIn (valuesOf a.messages)
  records := []
  requests := []
  sent := []
  trims := []

/-- what the world answers in a turn -/
structure TurnScript where
  rounds : ℕ → RoundScript
  wrapUpOnMaxRounds : Bool
  wrapUp : Call
  maxTokens : Option ℕ

structure TurnResult where
  assembled : Assembled
  state : St
  ending : Ending
  /-- the list passed to `trigger_compaction_for_dropped`, if it is called -/
  handed : Option (List Obj)

/-- `process_message` -/
def processMessage (t : TurnInput) (script : TurnScript) : TurnResult :=
  let a := t.assemblePrompt c.env c.cfg c.diff
  let (s, ending) := St.finish c script.wrapUpOnMaxRounds script.wrapUp
    (St.rounds c script.rounds (c.maxToolRounds - 1) 0 (a.start script.maxTokens))
  let allDropped := a.dropped ++ s.reactive
  ⟨a, s, ending, if ending = .raised ∨ allDropped = [] then none else some allDropped⟩

/-! ## Runs -/

def assistantMessage (response : MessageResponse) (calls : List ParsedToolCall) : AgentMessage :=
  .assistant (if responseText response = [] then none else some (responseText response)) (calls.map toolCallRequest) none

/-- the fields that no request and no trim is made of -/
def St.noting (s : St) (lastInputTokens : ℕ) (maxTokens : Option ℕ) (cache : List (CacheKey × Decision))
    (delivered : List Str) (records : List ToolRecord) : St :=
  { s with
    lastInputTokens := lastInputTokens
    maxTokens := maxTokens
    cache := cache
    delivered := delivered
    records := records }

/-- `P` is an invariant of the loop, when the messages that come in are `Q`, and then `R` holds at the end -/
structure Rule (Q : List AgentMessage → Prop) (P R : St → Prop) : Prop where
  append : ∀ s ms, P s → Q ms → P (s.append ms)
  call : ∀ s call, P s → P (s.callLlm c s.messages call)
  noting : ∀ s last maxTokens cache delivered records, P s → P (s.noting last maxTokens cache delivered records)
  done : ∀ s, P s → R s
  raised : ∀ s ms, P s → R (s.append ms)
  wrapUp : ∀ s call, P s → R (s.wrapUp c call).1

/-- the messages that come in during a round are `Q` -/
structure RoundScript.Brings (r : RoundScript) (Q : List AgentMessage → Prop) : Prop where
  folded : Q (r.folded.map foldedMessage)
  late : Q (r.late.map foldedMessage)
  tools : ∀ response calls cache delivered round, r.call.response = some response → parseToolCalls response = some calls →
    calls ≠ [] →
    Agent.executeToolRound r.toolEnv ⟨r.tools, calls, truncated response, r.asking, cache, delivered, r.outcome⟩ =
      some round → Q (assistantMessage response calls :: round.toolResults.map resultMessage)

variable {c}

theorem allocate_append (next : ℕ) (a b : List AgentMessage) :
    allocate next (a ++ b) = allocate next a ++ allocate (next + a.length) b := by
  induction a generalizing next with
  | nil => rfl
  | cons m a ih =>
    rw [List.cons_append, allocate, ih, allocate, List.length_cons]
    simp only [List.cons_append]
    congr 3
    omega

theorem append_append (s : St) (a b : List AgentMessage) : (s.append a).append b = s.append (a ++ b) := by
  unfold St.append
  simp only [allocate_append, List.length_append]
  congr 1
  · omega
  · rw [List.append_assoc]

variable {Q : List AgentMessage → Prop} {P R : St → Prop}

theorem draft_rule (h : Rule c Q P R) {s : St} (hs : P s) {late : List Folded} (hlate : Q (late.map foldedMessage))
    (last : Bool) (response : MessageResponse) : P (s.draft c last late response).1 := by
  unfold St.draft
  split_ifs
  · exact h.noting s s.lastInputTokens _ s.cache s.delivered s.records hs
  · exact hs
  · exact h.append s _ hs hlate
  · exact hs

theorem toolRound_rule (h : Rule c Q P R) {s : St} (hs : P s) {r : RoundScript} (hr : r.Brings Q)
    {response : MessageResponse} {calls : List ParsedToolCall} (hresponse : r.call.response = some response)
    (hcalls : parseToolCalls response = some calls) (hne : calls ≠ []) :
    (∃ parsed, (s.toolRound c r calls response).2 = .more parsed response ∧ P (s.toolRound c r calls response).1) ∨
      ((s.toolRound c r calls response).2 = .ended .raised ∧ R (s.toolRound c r calls response).1) := by
  unfold St.toolRound
  dsimp only
  split
  · exact Or.inr ⟨rfl, h.raised s [assistantMessage response calls] hs⟩
  · rename_i round hround
    refine Or.inl ⟨_, rfl, ?_⟩
    have hall := h.append s _ hs (hr.tools response calls _ _ round hresponse hcalls hne hround)
    rw [← List.singleton_append, ← append_append] at hall
    exact h.noting _ s.lastInputTokens (if truncated response then
      some (max (s.effective c) (min (s.effective c * 2) maxTokensCeiling)) else s.maxTokens) round.cache
      round.log.delivered (s.records ++ round.records) hall

theorem round_rule (h : Rule c Q P R) {s : St} (hs : P s) {r : RoundScript} (hr : r.Brings Q) (last : Bool) :
    P (s.round c last r).1 ∨ ((∃ e, (s.round c last r).2 = .ended e) ∧ R (s.round c last r).1) := by
  have hcalled : P ((s.fold r.folded).callLlm c (s.fold r.folded).messages r.call) :=
    h.call _ r.call (h.append s _ hs hr.folded)
  unfold St.round
  dsimp only
  generalize (s.fold r.folded).callLlm c (s.fold r.folded).messages r.call = s' at hcalled ⊢
  split
  · exact Or.inl hcalled
  · rename_i response hresponse
    have hnoted : P (s'.noteUsage response) := h.noting s' _ s'.maxTokens s'.cache s'.delivered s'.records hcalled
    by_cases hvalid : response.stopReason ∉ validStopReasons
    · rw [if_pos hvalid]
      exact Or.inl hnoted
    · rw [if_neg hvalid]
      split
      · exact Or.inl hnoted
      · exact Or.inl (draft_rule h hnoted hr.late last response)
      · rename_i call calls hcalls
        rcases toolRound_rule h hnoted hr hresponse hcalls (List.cons_ne_nil _ _) with ⟨_, -, hp⟩ | ⟨he, hR⟩
        · exact Or.inl hp
        · exact Or.inr ⟨⟨_, he⟩, hR⟩

theorem rounds_rule (h : Rule c Q P R) {script : ℕ → RoundScript} (hscript : ∀ i, (script i).Brings Q) (left i : ℕ) {s : St}
    (hs : P s) : P (St.rounds c script left i s).1 ∨
      ((∃ e, (St.rounds c script left i s).2 = .ended e) ∧ R (St.rounds c script left i s).1) := by
  induction left generalizing i s with
  | zero => exact round_rule h hs (hscript i) true
  | succ left ih =>
    have hround := round_rule h hs (hscript i) false
    rw [St.rounds]
    split
    · rename_i s' e heq
      rw [heq] at hround
      exact hround
    · rename_i s' parsed response heq
      rw [heq] at hround
      rcases hround with hp | ⟨⟨e, he⟩, -⟩
      · exact ih (i + 1) hp
      · cases he

theorem finish_rule (h : Rule c Q P R) (wrapUpOnMaxRounds : Bool) (wrapUp : Call) {s : St} {e : RoundEnd}
    (hs : P s ∨ ((∃ ending, e = .ended ending) ∧ R s)) : R (St.finish c wrapUpOnMaxRounds wrapUp (s, e)).1 := by
  cases e with
  | ended ending =>
    rcases hs with hs | ⟨-, hs⟩
    · exact h.done s hs
    · exact hs
  | more parsed response =>
    obtain hs : P s := by
      rcases hs with hs | ⟨⟨_, he⟩, -⟩
      · exact hs
      · cases he
    unfold St.finish
    dsimp only
    split_ifs
    · exact h.done s hs
    · exact h.wrapUp s wrapUp hs
    · exact h.wrapUp s wrapUp hs
    · exact h.done s hs

/-- **The rule of a turn.** -/
theorem processMessage_rule (h : Rule c Q P R) (t : TurnInput) (script : TurnScript)
    (hscript : ∀ i, (script.rounds i).Brings Q)
    (hstart : P ((t.assemblePrompt c.env c.cfg c.diff).start script.maxTokens)) : R (processMessage c t script).state := by
  have hrounds := rounds_rule h hscript (c.maxToolRounds - 1) 0 hstart
  exact finish_rule h script.wrapUpOnMaxRounds script.wrapUp hrounds

end

end Clawbolt.AgentLoop
