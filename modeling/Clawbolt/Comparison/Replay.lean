/-
The replay of a turn through a candidate (services/model_comparison/execution.py): decisions that are asked for again with a
larger budget when they were cut off, and lookups that are answered from what the live turn read.

The params model of a tool and the answers of the provider are parameters: the provider answers its k-th call as it likes.

- `decideCall_decided`: one decision, with all its attempts;
- `loop_accounts`: the rounds that are left, after decisions that were all continued;
- `replay_accounts`: the counts, the lookups, the prompts, the budgets and the cap of a replay;
- `replay_id_taken`: an id that the model gives may be the one that another call is answered under.
-/
import Mathlib.Tactic
import Clawbolt.Core.Fallible
import Clawbolt.Comparison.Shown

namespace Clawbolt.Replay

open Text (Str)
open Clawbolt.History (AgentMessage Args ToolCallRequest)
open Clawbolt.Checks (Env Tool acceptArgs canonicalArgs isMutatingCall)

/-! ## Model -/

/-- `_MAX_TOKENS_CEILING` -/
def maxTokensCeiling : ℕ := 16384

/-- `MAX_REPLAY_READ_ROUNDS` -/
def maxReplayReadRounds : ℕ := 6

/-- `THINKING_REPLY_ALLOWANCE` -/
def thinkingReplyAllowance : ℕ := 4096

/-- `_EFFORT_TO_BUDGET` -/
def effortToBudget : Dict ℕ :=
  [("minimal".toList, 1024), ("low".toList, 2048), ("medium".toList, 8192), ("high".toList, 24576),
    ("xhigh".toList, 32768)]

/-- what `reasoning_kwargs` asks for under `thinking`, if it does -/
inductive Thinking where
  | adaptive (effort : Str)
  | enabled (budgetTokens : ℕ)
  | disabled

/-- the room that the thinking takes, where a size is stated -/
def Thinking.budget : Thinking → Option ℕ
  | .adaptive effort => effortToBudget.lookup effort
  | .enabled budgetTokens => some budgetTokens
  | .disabled => none

/-- `fit_max_tokens_to_reasoning` -/
def fitMaxTokensToReasoning (maxTokens : ℕ) (reasoning : Option Thinking) : ℕ :=
  match reasoning.bind Thinking.budget with
  | none => maxTokens
  | some budget => if budget < maxTokens then maxTokens else budget + thinkingReplyAllowance

structure ToolCall where
  name : Str
  arguments : Args
  id : Str

structure RecordedToolResult where
  name : Str
  arguments : Args
  result : Str
  isError : Bool

/-- a content block of an answer; only the text and the tool uses are read -/
inductive ContentBlock where
  | text (text : Str)
  | toolUse (id name : Option Str) (input : Option Args)
  | other

structure Usage where
  inputTokens : ℕ
  outputTokens : ℕ
  cacheCreationInputTokens : Option ℕ
  cacheReadInputTokens : Option ℕ

structure MessageResponse where
  content : List ContentBlock
  stopReason : Option Str
  usage : Option Usage

/-- what a call of the provider comes to: an answer, or an exception with its type and its text -/
inductive Answer where
  | response (r : MessageResponse)
  | raised (type text : Str)

structure ModelCallResult where
  text : Str := []
  toolCalls : List ToolCall := []
  stopReason : Option Str := none
  inputTokens : ℕ := 0
  outputTokens : ℕ := 0
  cacheCreationInputTokens : ℕ := 0
  cacheReadInputTokens : ℕ := 0
  error : Str := []
  replayedLookups : List RecordedToolResult := []
  truncationRetries : ℕ := 0
  hitReadRoundCap : Bool := false

/-- `get_response_text` -/
def getResponseText (r : MessageResponse) : Str :=
  r.content.flatMap fun
    | .text text => text
    | _ => []

/-- `parse_tool_calls`, with an input that is no object as an empty one -/
def parseToolCalls (r : MessageResponse) : List ToolCall :=
  r.content.filterMap fun
    | .toolUse id name input => some ⟨name.getD [], input.getD [], id.getD []⟩
    | _ => none

/-- `_dispatch`, on what the provider answers -/
def dispatch : Answer → ModelCallResult
  | .raised type text => { error := type ++ ": ".toList ++ text }
  | .response r => {
      text := getResponseText r
      toolCalls := parseToolCalls r
      stopReason := r.stopReason
      inputTokens := (r.usage.map (·.inputTokens)).getD 0
      outputTokens := (r.usage.map (·.outputTokens)).getD 0
      cacheCreationInputTokens := (r.usage.bind (·.cacheCreationInputTokens)).getD 0
      cacheReadInputTokens := (r.usage.bind (·.cacheReadInputTokens)).getD 0 }

/-- `_add_usage` -/
def addUsage (total attempt : ModelCallResult) : ModelCallResult :=
  { total with
    inputTokens := total.inputTokens + attempt.inputTokens
    outputTokens := total.outputTokens + attempt.outputTokens
    cacheCreationInputTokens := total.cacheCreationInputTokens + attempt.cacheCreationInputTokens
    cacheReadInputTokens := total.cacheReadInputTokens + attempt.cacheReadInputTokens }

/-- `_needs_truncation_retry` -/
def needsTruncationRetry (result : ModelCallResult) (maxTokens : ℕ) : Bool :=
  result.error = [] && result.toolCalls.isEmpty && result.stopReason = some "max_tokens".toList &&
    maxTokens < maxTokensCeiling

theorem lt_ceiling {result : ModelCallResult} {maxTokens : ℕ} (h : needsTruncationRetry result maxTokens = true) :
    maxTokens < maxTokensCeiling := by
  simp only [needsTruncationRetry, Bool.and_eq_true, decide_eq_true_eq] at h
  exact h.2

/-- one call of the provider: the budget, and the result of this call alone -/
structure Attempt where
  maxTokens : ℕ
  result : ModelCallResult

/-- `min(budget * 2, _MAX_TOKENS_CEILING)` -/
def doubled (budget : ℕ+) : ℕ+ := ⟨min (budget * 2) maxTokensCeiling, lt_min (by positivity) (by decide)⟩

theorem doubled_gt {budget : ℕ+} (h : (budget : ℕ) < maxTokensCeiling) : (budget : ℕ) < doubled budget := by
  have hpos := budget.pos
  exact lt_min (by omega) h

/-- the loop of `_decide`: `n` calls were made before this decision, and `attempts` for it -/
def retry (provider : ℕ → Answer) (n : ℕ) (budget : ℕ+) (result : ModelCallResult) (attempts : List Attempt) :
    ModelCallResult × List Attempt :=
  if h : needsTruncationRetry result budget = true then
    let again := dispatch (provider (n + attempts.length))
    retry provider n (doubled budget) { addUsage again result with truncationRetries := result.truncationRetries + 1 }
      (attempts ++ [⟨doubled budget, again⟩])
  else (result, attempts)
termination_by maxTokensCeiling - budget
decreasing_by
  have hlt := lt_ceiling h
  have hgt := doubled_gt hlt
  omega

/-- `_decide` -/
def decideCall (provider : ℕ → Answer) (n : ℕ) (maxTokens : ℕ+) : ModelCallResult × List Attempt :=
  let result := dispatch (provider n)
  retry provider n maxTokens result [⟨maxTokens, result⟩]

/-- `normalized_args` -/
def normalizedArgs (env : Env) (tool : Tool) (args : Args) : Str :=
  match acceptArgs env tool args with
  | .error _ => canonicalArgs env args
  | .ok (_, validated) => canonicalArgs env validated

/-- the lookup that answers a call, if the live turn made it -/
def replayableLookup (env : Env) (toolsByName : Dict Tool) (recorded : List RecordedToolResult) (call : ToolCall) :
    Option RecordedToolResult :=
  match toolsByName.lookup call.name with
  | none => none
  | some tool =>
    if isMutatingCall tool call.arguments then none
    else
      (recorded.find? fun r =>
        r.name = call.name && normalizedArgs env tool r.arguments = normalizedArgs env tool call.arguments).map fun r =>
          ⟨call.name, call.arguments, r.result, r.isError⟩

/-- `replayable_lookups` -/
def replayableLookups (env : Env) (result : ModelCallResult) (toolsByName : Dict Tool) (recorded : List RecordedToolResult) :
    Option (List RecordedToolResult) :=
  if result.error ≠ [] ∨ result.toolCalls = [] ∨ result.stopReason = some "max_tokens".toList then none
  else result.toolCalls.mapM (replayableLookup env toolsByName recorded)

/-- the id that a call is answered under -/
def requestId (roundNumber index : ℕ) (call : ToolCall) : Str :=
  if call.id ≠ [] then call.id
  else "replay_".toList ++ (toString roundNumber).toList ++ "_".toList ++ (toString index).toList

def requests (toolCalls : List ToolCall) (roundNumber : ℕ) : List ToolCallRequest :=
  toolCalls.zipIdx.map fun p => ⟨requestId roundNumber p.2 p.1, p.1.name, p.1.arguments⟩

/-- `_lookup_round_messages` -/
def lookupRoundMessages (result : ModelCallResult) (fed : List RecordedToolResult) (roundNumber : ℕ) : List AgentMessage :=
  .assistant (if result.text = [] then none else some result.text) (requests result.toolCalls roundNumber) none ::
    List.zipWith (fun request item => .toolResult request.id item.result item.isError)
      (requests result.toolCalls roundNumber) fed

/-- one decision of a replay: the messages that it was asked on, and its attempts -/
structure Decision where
  messages : List AgentMessage
  attempts : List Attempt

def Decision.count (decisions : List Decision) : ℕ := (decisions.map (·.attempts.length)).sum

/-- the result of a round: its answer, with what the rounds before spent and what they looked up -/
def accumulate (decided : ModelCallResult) (spent : Option ModelCallResult) (lookups : List RecordedToolResult) :
    ModelCallResult :=
  let counted := match spent with
    | none => decided
    | some spent => { addUsage decided spent with truncationRetries := decided.truncationRetries + spent.truncationRetries }
  { counted with replayedLookups := lookups }

/-- the rounds of `call_model`, with this many left after the next -/
def loop (env : Env) (provider : ℕ → Answer) (baseBudget : ℕ+) (toolsByName : Option (Dict Tool))
    (recorded : List RecordedToolResult) :
    ℕ → List AgentMessage → List RecordedToolResult → Option ModelCallResult → List Decision →
      ModelCallResult × List Decision
  | left, messages, lookups, spent, decisions =>
    let (decided, attempts) := decideCall provider (Decision.count decisions) baseBudget
    let result := accumulate decided spent lookups
    let decisions' := decisions ++ [⟨messages, attempts⟩]
    match toolsByName with
    | none => (result, decisions')
    | some tools =>
      let fed := replayableLookups env result tools recorded
      match left, fed with
      | 0, fed => ({ result with hitReadRoundCap := fed.isSome }, decisions')
      | _ + 1, none => (result, decisions')
      | left + 1, some fed =>
        loop env provider baseBudget toolsByName recorded left
          (messages ++ lookupRoundMessages result fed (maxReplayReadRounds - (left + 1))) (lookups ++ fed) (some result)
          decisions'

/-- the budgets that a replay is given: its own, or the deployment's -/
structure Budgets where
  maxTokens : Option ℕ
  llmMaxTokensAgent : ℕ
  positive : 0 < llmMaxTokensAgent

/-- `max_tokens or settings.llm_max_tokens_agent` -/
def Budgets.chosen (b : Budgets) : ℕ :=
  match b.maxTokens with
  | some (n + 1) => n + 1
  | _ => b.llmMaxTokensAgent

theorem Budgets.chosen_pos (b : Budgets) : 0 < b.chosen := by
  unfold Budgets.chosen
  split
  · exact Nat.succ_pos _
  · exact b.positive

theorem le_fitMaxTokens (maxTokens : ℕ) (reasoning : Option Thinking) :
    maxTokens ≤ fitMaxTokensToReasoning maxTokens reasoning := by
  unfold fitMaxTokensToReasoning
  split
  · exact le_rfl
  · split_ifs with h
    · exact le_rfl
    · omega

/-- `base_budget` -/
def baseBudget (b : Budgets) (reasoning : Option Thinking) : ℕ+ :=
  ⟨fitMaxTokensToReasoning b.chosen reasoning, b.chosen_pos.trans_le (le_fitMaxTokens _ _)⟩

/-- `call_model`: the result, and the decisions that were asked for -/
def callModel (env : Env) (provider : ℕ → Answer) (assembled : List AgentMessage) (reasoning : Option Thinking)
    (budgets : Budgets) (toolsByName : Option (Dict Tool)) (recorded : List RecordedToolResult) :
    ModelCallResult × List Decision :=
  loop env provider (baseBudget budgets reasoning) toolsByName recorded maxReplayReadRounds assembled [] none []

/-! ## What is accounted for -/

/-- the token counts of a result -/
def ModelCallResult.tokens (r : ModelCallResult) : ℕ × ℕ × ℕ × ℕ :=
  (r.inputTokens, r.outputTokens, r.cacheCreationInputTokens, r.cacheReadInputTokens)

/-- the same answer, whatever was counted with it -/
structure ModelCallResult.Same (r r' : ModelCallResult) : Prop where
  text : r.text = r'.text
  toolCalls : r.toolCalls = r'.toolCalls
  stopReason : r.stopReason = r'.stopReason
  error : r.error = r'.error

/-- what the last attempt came to -/
def Decision.answer (d : Decision) : ModelCallResult := (d.attempts.getLast?.map (·.result)).getD {}

/-- a lookup answers a call with what the live turn read on the same arguments -/
structure Fed (env : Env) (tools : Dict Tool) (recorded : List RecordedToolResult) (call : ToolCall)
    (lookup : RecordedToolResult) : Prop where
  name : lookup.name = call.name
  arguments : lookup.arguments = call.arguments
  read : ∃ tool, tools.lookup call.name = some tool ∧ isMutatingCall tool call.arguments = false ∧
    ∃ r ∈ recorded, r.name = call.name ∧ normalizedArgs env tool r.arguments = normalizedArgs env tool call.arguments ∧
      lookup.result = r.result ∧ lookup.isError = r.isError

/-- the id that a message answers -/
def answeredId : AgentMessage → Option Str
  | .toolResult id _ _ => some id
  | _ => none

/-- the messages of a lookup round: the calls of a decision, each answered in its place, and once where their ids are
distinct -/
structure LookupRound (roundNumber : ℕ) (d : Decision) (round : List AgentMessage) : Prop where
  asked : ∃ content, round.head? = some (.assistant content (requests d.answer.toolCalls roundNumber) none)
  answered : round.tail.map answeredId = (requests d.answer.toolCalls roundNumber).map fun request => some request.id
  once : ((requests d.answer.toolCalls roundNumber).map (·.id)).Nodup → ∀ request ∈ requests d.answer.toolCalls roundNumber,
    (round.filterMap answeredId).count request.id = 1

/-- budgets that grow from the first one, up to the ceiling -/
structure Growing (maxTokens : ℕ) (attempts : List Attempt) : Prop where
  first : attempts.head?.map (·.maxTokens) = some maxTokens
  increasing : (attempts.map (·.maxTokens)).Pairwise (· < ·)
  ceiling : ∀ a ∈ attempts.tail, a.maxTokens ≤ maxTokensCeiling

/-- a decision that would be continued with lookups -/
def Continues (env : Env) (tools : Dict Tool) (recorded : List RecordedToolResult) (d : Decision) : Prop :=
  (replayableLookups env d.answer tools recorded).isSome = true

/-! ## One decision -/

theorem replayableLookups_same {env : Env} {r r' : ModelCallResult} {tools : Dict Tool} {recorded : List RecordedToolResult}
    (h : r.Same r') : replayableLookups env r tools recorded = replayableLookups env r' tools recorded := by
  rw [replayableLookups, replayableLookups, h.error, h.toolCalls, h.stopReason]

theorem lookupRoundMessages_same {r r' : ModelCallResult} (h : r.Same r') (fed : List RecordedToolResult) (roundNumber : ℕ) :
    lookupRoundMessages r fed roundNumber = lookupRoundMessages r' fed roundNumber := by
  rw [lookupRoundMessages, lookupRoundMessages, h.text, h.toolCalls]

theorem Growing.snoc {maxTokens budget : ℕ} {before : List Attempt} {r again : ModelCallResult}
    (h : Growing maxTokens (before ++ [⟨budget, r⟩])) {next : ℕ} (hgt : budget < next) (hle : next ≤ maxTokensCeiling) :
    Growing maxTokens (before ++ [⟨budget, r⟩] ++ [⟨next, again⟩]) := by
  refine ⟨?_, ?_, ?_⟩
  · have hfirst := h.first
    cases before <;> simpa using hfirst
  · have hinc := h.increasing
    simp only [List.map_append, List.map_cons, List.map_nil, List.pairwise_append, List.pairwise_singleton, true_and,
      List.mem_singleton, forall_eq, List.mem_append] at hinc ⊢
    refine ⟨hinc, ?_⟩
    rintro b (hb | rfl)
    · exact (hinc.2 b hb).trans hgt
    · exact hgt
  · intro a ha
    rw [List.tail_append_of_ne_nil (by simp)] at ha
    obtain ha | ha := List.mem_append.1 ha
    · exact h.ceiling a ha
    · rw [List.mem_singleton.1 ha]
      exact hle

/-- what one decision comes to: `n` calls of the provider were made before it -/
structure Decided (provider : ℕ → Answer) (n maxTokens : ℕ) (result : ModelCallResult) (attempts : List Attempt) : Prop where
  tokens : result.tokens = (attempts.map (·.result.tokens)).sum
  retries : attempts.length = result.truncationRetries + 1
  answers : attempts.map (·.result) = (List.range' n attempts.length).map fun k => dispatch (provider k)
  growing : Growing maxTokens attempts
  same : ∃ a, attempts.getLast? = some a ∧ result.Same a.result
  plain : result.replayedLookups = [] ∧ result.hitReadRoundCap = false

variable {env : Env} {provider : ℕ → Answer} {n : ℕ}

/-- one more attempt -/
theorem Decided.again {maxTokens : ℕ} {budget : ℕ+} {result : ModelCallResult} {attempts : List Attempt}
    (h : Decided provider n maxTokens result attempts) (hlast : ∃ before r, attempts = before ++ [Attempt.mk budget r])
    (hlt : (budget : ℕ) < maxTokensCeiling) {again : ModelCallResult}
    (hagain : again = dispatch (provider (n + attempts.length))) :
    Decided provider n maxTokens { addUsage again result with truncationRetries := result.truncationRetries + 1 }
      (attempts ++ [Attempt.mk (doubled budget) again]) where
  tokens := by
    rw [List.map_append, List.sum_append, ← h.tokens, List.map_singleton, List.sum_singleton, add_comm result.tokens]
    rfl
  retries := by
    rw [List.length_append, h.retries]
    rfl
  answers := by
    rw [List.map_append, h.answers, List.length_append, List.length_singleton, List.range'_concat, List.map_append, hagain,
      one_mul]
    rfl
  growing := by
    obtain ⟨before, r, rfl⟩ := hlast
    exact h.growing.snoc (doubled_gt hlt) (min_le_right _ _)
  same := ⟨_, List.getLast?_concat, ⟨rfl, rfl, rfl, rfl⟩⟩
  plain := by
    subst hagain
    cases provider (n + attempts.length) <;> exact ⟨rfl, rfl⟩

theorem retry_decided {maxTokens : ℕ} (budget : ℕ+) (result : ModelCallResult) (attempts : List Attempt)
    (hlast : ∃ before r, attempts = before ++ [Attempt.mk budget r]) (h : Decided provider n maxTokens result attempts) :
    Decided provider n maxTokens (retry provider n budget result attempts).1 (retry provider n budget result attempts).2 := by
  induction budget, result, attempts using retry.induct provider n with
  | case1 budget result attempts hneeds again ih =>
    rw [retry, dif_pos hneeds]
    exact ih ⟨_, _, rfl⟩ (h.again hlast (lt_ceiling hneeds) rfl)
  | case2 budget result attempts hneeds =>
    rw [retry, dif_neg hneeds]
    exact h

/-- **One decision.** The counts are those of its attempts, and the answer is that of the last. -/
theorem decideCall_decided (provider : ℕ → Answer) (n : ℕ) (maxTokens : ℕ+) :
    Decided provider n maxTokens (decideCall provider n maxTokens).1 (decideCall provider n maxTokens).2 := by
  refine retry_decided maxTokens _ _ ⟨[], _, rfl⟩ ?_
  exact {
    tokens := by simp
    retries := by cases provider n <;> rfl
    answers := rfl
    growing := ⟨rfl, List.pairwise_singleton _ _, by simp⟩
    same := ⟨_, rfl, rfl, rfl, rfl, rfl⟩
    plain := by cases provider n <;> exact ⟨rfl, rfl⟩ }

/-! ## The rounds -/

variable {tools : Dict Tool} {recorded : List RecordedToolResult} {assembled : List AgentMessage}

theorem fed_of_replayableLookup {call : ToolCall} {lookup : RecordedToolResult}
    (h : replayableLookup env tools recorded call = some lookup) : Fed env tools recorded call lookup := by
  rw [replayableLookup] at h
  cases htool : tools.lookup call.name with
  | none =>
    rw [htool] at h
    exact absurd h (Option.some_ne_none _).symm
  | some tool =>
    rw [htool] at h
    cases hmutating : isMutatingCall tool call.arguments with
    | true =>
      simp only [hmutating, if_true] at h
      exact absurd h (Option.some_ne_none _).symm
    | false =>
      simp only [hmutating, Bool.false_eq_true, if_false] at h
      obtain ⟨r, hr, rfl⟩ := Option.map_eq_some_iff.1 h
      have hmatch := List.find?_some hr
      rw [Bool.and_eq_true, decide_eq_true_eq, decide_eq_true_eq] at hmatch
      exact ⟨rfl, rfl, tool, htool, hmutating, r, List.mem_of_find?_eq_some hr, hmatch.1, hmatch.2, rfl, rfl⟩

/-- what is fed back answers the calls, one each -/
theorem fed_of_replayableLookups {r : ModelCallResult} {fed : List RecordedToolResult}
    (h : replayableLookups env r tools recorded = some fed) : List.Forall₂ (Fed env tools recorded) r.toolCalls fed := by
  rw [replayableLookups] at h
  split_ifs at h
  exact ((Fallible.mapM_option_iff _ _ _).1 h).imp fun _ _ => fed_of_replayableLookup

theorem length_requests (toolCalls : List ToolCall) (roundNumber : ℕ) :
    (requests toolCalls roundNumber).length = toolCalls.length := by
  rw [requests, List.length_map, List.length_zipIdx]

/-- results one for one with the requests answer them in their places -/
theorem answered_zipWith {calls : List ToolCallRequest} {fed : List RecordedToolResult} (h : calls.length = fed.length) :
    (List.zipWith (fun request item => AgentMessage.toolResult request.id item.result item.isError) calls fed).map answeredId =
      calls.map fun request => some request.id := by
  induction calls generalizing fed with
  | nil => rfl
  | cons request calls ih =>
    cases fed with
    | nil => exact absurd h (Nat.succ_ne_zero _)
    | cons item fed =>
      rw [List.zipWith_cons_cons, List.map_cons, List.map_cons, ih (Nat.succ.inj h)]
      rfl

theorem filterMap_of_map {α β : Type} {f : α → Option β} {l : List α} {r : List β} (h : l.map f = r.map some) :
    l.filterMap f = r := by
  have hid := List.filterMap_map (g := id) (f := f) (l := l)
  rw [h, List.filterMap_map] at hid
  simpa using hid.symm

theorem lookupRound_of_fed (roundNumber : ℕ) (d : Decision) {fed : List RecordedToolResult}
    (h : replayableLookups env d.answer tools recorded = some fed) :
    LookupRound roundNumber d (lookupRoundMessages d.answer fed roundNumber) := by
  have hlength := (length_requests d.answer.toolCalls roundNumber).trans (fed_of_replayableLookups h).length_eq
  have hanswered := answered_zipWith hlength
  refine ⟨⟨_, rfl⟩, hanswered, fun hnodup request hrequest => ?_⟩
  have hids : (lookupRoundMessages d.answer fed roundNumber).filterMap answeredId =
      (requests d.answer.toolCalls roundNumber).map (·.id) := by
    rw [lookupRoundMessages, List.filterMap_cons_none rfl]
    exact filterMap_of_map (hanswered.trans (by rw [List.map_map]; rfl))
  rw [hids]
  exact List.count_eq_one_of_mem hnodup (List.mem_map_of_mem hrequest)

/-- the lookup rounds of decisions that were continued, from this round on -/
def rounds (env : Env) (tools : Dict Tool) (recorded : List RecordedToolResult) (decisions : List Decision) :
    List (List AgentMessage) :=
  decisions.zipIdx.map fun p =>
    lookupRoundMessages p.1.answer ((replayableLookups env p.1.answer tools recorded).getD []) p.2

theorem rounds_concat (decisions : List Decision) (d : Decision) :
    rounds env tools recorded (decisions ++ [d]) = rounds env tools recorded decisions ++
      [lookupRoundMessages d.answer ((replayableLookups env d.answer tools recorded).getD []) decisions.length] := by
  rw [rounds, List.zipIdx_append, List.map_append, Nat.zero_add]
  rfl

/-- the decisions that were asked for: the provider's next answers, on the prompt and the rounds before, with growing
budgets -/
structure Asked (env : Env) (provider : ℕ → Answer) (assembled : List AgentMessage) (first : ℕ) (tools : Dict Tool)
    (recorded : List RecordedToolResult) (decisions : List Decision) : Prop where
  answers : (decisions.flatMap (·.attempts)).map (·.result) =
    (List.range (Decision.count decisions)).map fun k => dispatch (provider k)
  prompts : ∀ k d, decisions[k]? = some d →
    d.messages = assembled ++ (rounds env tools recorded (decisions.take k)).flatten
  growing : ∀ d ∈ decisions, Growing first d.attempts

/-- what was spent on the decisions so far -/
structure Counted (tokens : ℕ × ℕ × ℕ × ℕ) (retries : ℕ) (decisions : List Decision) : Prop where
  tokens : tokens = ((decisions.flatMap (·.attempts)).map (·.result.tokens)).sum
  retries : retries = (decisions.map (·.attempts.length - 1)).sum

theorem count_concat (decisions : List Decision) (d : Decision) :
    Decision.count (decisions ++ [d]) = Decision.count decisions + d.attempts.length := by
  rw [Decision.count, List.map_append, List.sum_append, List.map_singleton, List.sum_singleton, ← Decision.count]

variable {decisions : List Decision} {first : ℕ} {result : ModelCallResult} {attempts : List Attempt}

theorem Asked.snoc (h : Asked env provider assembled first tools recorded decisions)
    (hdecided : Decided provider (Decision.count decisions) first result attempts) :
    Asked env provider assembled first tools recorded
      (decisions ++ [⟨assembled ++ (rounds env tools recorded decisions).flatten, attempts⟩]) where
  answers := by
    rw [List.flatMap_append, List.map_append, h.answers, List.flatMap_singleton, hdecided.answers, count_concat,
      List.range_eq_range', List.range_eq_range', ← List.map_append, ← List.range'_append]
    simp
  prompts := by
    intro k d hd
    obtain hlt | hle := Nat.lt_or_ge k decisions.length
    · rw [List.getElem?_append_left hlt] at hd
      rw [h.prompts k d hd, List.take_append_of_le_length hlt.le]
    · rw [List.getElem?_append_right hle, List.getElem?_singleton] at hd
      split_ifs at hd with hk
      obtain rfl := Option.some.inj hd
      rw [show k = decisions.length by omega, List.take_left']
      rfl
  growing := by
    intro d hd
    obtain hd | hd := List.mem_append.1 hd
    · exact h.growing d hd
    · rw [List.mem_singleton.1 hd]
      exact hdecided.growing

theorem Counted.snoc {tokens : ℕ × ℕ × ℕ × ℕ} {retries : ℕ} (h : Counted tokens retries decisions) {n : ℕ}
    (hdecided : Decided provider n first result attempts) (messages : List AgentMessage) :
    Counted (result.tokens + tokens) (result.truncationRetries + retries) (decisions ++ [⟨messages, attempts⟩]) where
  tokens := by
    rw [List.flatMap_append, List.map_append, List.sum_append, ← h.tokens, List.flatMap_singleton, ← hdecided.tokens, add_comm]
  retries := by
    rw [List.map_append, List.sum_append, ← h.retries, List.map_singleton, List.sum_singleton, hdecided.retries,
      Nat.add_sub_cancel, add_comm]

/-- what a replay accounts for, once it is over -/
structure Accounts (env : Env) (provider : ℕ → Answer) (assembled : List AgentMessage) (first : ℕ) (tools : Dict Tool)
    (recorded : List RecordedToolResult) (result : ModelCallResult) (decisions : List Decision) : Prop where
  counted : Counted result.tokens result.truncationRetries decisions
  asked : Asked env provider assembled first tools recorded decisions
  lookups : result.replayedLookups =
    decisions.dropLast.flatMap fun d => (replayableLookups env d.answer tools recorded).getD []
  continued : ∀ d ∈ decisions.dropLast, Continues env tools recorded d
  few : decisions.length ≤ maxReplayReadRounds + 1
  decision : ∃ d, decisions.getLast? = some d ∧ result.Same d.answer
  capped : result.hitReadRoundCap = true ↔
    decisions.length = maxReplayReadRounds + 1 ∧ ∃ d, decisions.getLast? = some d ∧ Continues env tools recorded d

/-- the decisions before a round, which were all continued -/
structure Going (env : Env) (provider : ℕ → Answer) (assembled : List AgentMessage) (first : ℕ) (tools : Dict Tool)
    (recorded : List RecordedToolResult) (messages : List AgentMessage) (lookups : List RecordedToolResult)
    (spent : Option ModelCallResult) (decisions : List Decision) : Prop where
  counted : Counted ((spent.map (·.tokens)).getD 0) ((spent.map (·.truncationRetries)).getD 0) decisions
  asked : Asked env provider assembled first tools recorded decisions
  messages : messages = assembled ++ (rounds env tools recorded decisions).flatten
  lookups : lookups = decisions.flatMap fun d => (replayableLookups env d.answer tools recorded).getD []
  continued : ∀ d ∈ decisions, Continues env tools recorded d

/-- the result of a round has the round's answer and the counts of all rounds -/
theorem accumulate_spec (decided : ModelCallResult) (spent : Option ModelCallResult) (lookups : List RecordedToolResult) :
    (accumulate decided spent lookups).tokens = decided.tokens + (spent.map (·.tokens)).getD 0 ∧
      (accumulate decided spent lookups).truncationRetries =
        decided.truncationRetries + (spent.map (·.truncationRetries)).getD 0 ∧
      (accumulate decided spent lookups).Same decided ∧ (accumulate decided spent lookups).replayedLookups = lookups ∧
      (accumulate decided spent lookups).hitReadRoundCap = decided.hitReadRoundCap := by
  cases spent <;> exact ⟨rfl, rfl, ⟨rfl, rfl, rfl, rfl⟩, rfl, rfl⟩

theorem Decided.same_answer {n : ℕ} (h : Decided provider n first result attempts) (messages : List AgentMessage) :
    result.Same (Decision.answer ⟨messages, attempts⟩) := by
  obtain ⟨a, ha, hsame⟩ := h.same
  rw [Decision.answer, ha]
  exact hsame

section Round

variable {messages : List AgentMessage} {lookups : List RecordedToolResult} {spent : Option ModelCallResult}
  {decided : ModelCallResult}
  (h : Going env provider assembled first tools recorded messages lookups spent decisions)
  (hdecided : Decided provider (Decision.count decisions) first decided attempts)
include h hdecided

theorem Going.counted_snoc : Counted (accumulate decided spent lookups).tokens
    (accumulate decided spent lookups).truncationRetries (decisions ++ [⟨messages, attempts⟩]) := by
  obtain ⟨htokens, hretries, -⟩ := accumulate_spec decided spent lookups
  rw [htokens, hretries]
  exact h.counted.snoc hdecided messages

theorem Going.asked_snoc :
    Asked env provider assembled first tools recorded (decisions ++ [⟨messages, attempts⟩]) := by
  rw [h.messages]
  exact h.asked.snoc hdecided

omit h in
theorem same_accumulate :
    (accumulate decided spent lookups).Same (Decision.answer ⟨messages, attempts⟩) := by
  have hsame := (accumulate_spec decided spent lookups).2.2.1
  have hanswer := hdecided.same_answer messages
  exact ⟨hsame.text.trans hanswer.text, hsame.toolCalls.trans hanswer.toolCalls, hsame.stopReason.trans hanswer.stopReason,
    hsame.error.trans hanswer.error⟩

/-- a round that is continued -/
theorem Going.next {fed : List RecordedToolResult}
    (hfed : replayableLookups env (accumulate decided spent lookups) tools recorded = some fed) :
    Going env provider assembled first tools recorded
      (messages ++ lookupRoundMessages (accumulate decided spent lookups) fed decisions.length) (lookups ++ fed)
      (some (accumulate decided spent lookups)) (decisions ++ [⟨messages, attempts⟩]) := by
  have hsame : (accumulate decided spent lookups).Same (Decision.answer ⟨messages, attempts⟩) := same_accumulate hdecided
  rw [replayableLookups_same hsame] at hfed
  refine ⟨h.counted_snoc hdecided, h.asked_snoc hdecided, ?_, ?_, ?_⟩
  · rw [rounds_concat, hfed, List.flatten_append, ← List.append_assoc, ← h.messages, lookupRoundMessages_same hsame,
      List.flatten_singleton]
    rfl
  · rw [List.flatMap_append, ← h.lookups, List.flatMap_singleton, hfed]
    rfl
  · intro d hd
    obtain hd | hd := List.mem_append.1 hd
    · exact h.continued d hd
    · rw [List.mem_singleton.1 hd, Continues, hfed]
      rfl

/-- the round that is the last: its decision is recorded -/
theorem Going.stop (hlength : decisions.length ≤ maxReplayReadRounds) {capped : Bool}
    (hcapped : capped = true ↔ decisions.length = maxReplayReadRounds ∧
      (replayableLookups env (accumulate decided spent lookups) tools recorded).isSome = true) :
    Accounts env provider assembled first tools recorded
      { accumulate decided spent lookups with hitReadRoundCap := capped } (decisions ++ [⟨messages, attempts⟩]) := by
  have hsame : (accumulate decided spent lookups).Same (Decision.answer ⟨messages, attempts⟩) := same_accumulate hdecided
  rw [replayableLookups_same hsame] at hcapped
  have hlookups : (accumulate decided spent lookups).replayedLookups = lookups := rfl
  refine ⟨h.counted_snoc hdecided, h.asked_snoc hdecided, ?_, ?_, ?_,
    ⟨_, List.getLast?_concat, hsame.text, hsame.toolCalls, hsame.stopReason, hsame.error⟩, hcapped.trans ?_⟩
  · rw [List.dropLast_concat, ← h.lookups]
    exact hlookups
  · rw [List.dropLast_concat]
    exact h.continued
  · rw [List.length_append, List.length_singleton]
    exact Nat.succ_le_succ hlength
  · rw [List.length_append, List.length_singleton, Nat.add_left_inj, List.getLast?_concat]
    exact and_congr_right fun _ => ⟨fun hsome => ⟨_, rfl, hsome⟩, fun ⟨d, hd, hsome⟩ => Option.some.inj hd ▸ hsome⟩

/-- the round that is the last, below the cap -/
theorem Going.stop_uncapped (hlength : decisions.length ≤ maxReplayReadRounds)
    (hnot : ¬(decisions.length = maxReplayReadRounds ∧
      (replayableLookups env (accumulate decided spent lookups) tools recorded).isSome = true)) :
    Accounts env provider assembled first tools recorded (accumulate decided spent lookups)
      (decisions ++ [⟨messages, attempts⟩]) := by
  have hcap : (accumulate decided spent lookups).hitReadRoundCap = false :=
    (accumulate_spec decided spent lookups).2.2.2.2.trans hdecided.plain.2
  have hstop := h.stop hdecided hlength (iff_of_false Bool.false_ne_true hnot)
  rw [← hcap] at hstop
  exact hstop

end Round

/-- without tools nothing is continued -/
theorem replayableLookups_nil (result : ModelCallResult) (recorded : List RecordedToolResult) :
    (replayableLookups env result [] recorded).isSome = false := by
  rw [Option.isSome_eq_false_iff, Option.isNone_iff_eq_none, Option.eq_none_iff_forall_ne_some]
  intro fed hfed
  have hall := fed_of_replayableLookups hfed
  rw [replayableLookups] at hfed
  split_ifs at hfed with hstop
  cases hcalls : result.toolCalls with
  | nil => exact hstop (.inr (.inl hcalls))
  | cons call calls =>
    rw [hcalls] at hall
    cases hall with
    | cons hcall =>
      obtain ⟨tool, htool, -⟩ := hcall.read
      exact absurd htool (Option.some_ne_none tool).symm

/-- **Rounds.** From decisions that were all continued, the rounds that are left end a replay that accounts for all. -/
theorem loop_accounts {toolsByName : Option (Dict Tool)} {base : ℕ+} (left : ℕ) {messages : List AgentMessage}
    {lookups : List RecordedToolResult} {spent : Option ModelCallResult} {decisions : List Decision}
    (h : Going env provider assembled base (toolsByName.getD []) recorded messages lookups spent decisions)
    (hleft : decisions.length + left = maxReplayReadRounds) :
    Accounts env provider assembled base (toolsByName.getD []) recorded
      (loop env provider base toolsByName recorded left messages lookups spent decisions).1
      (loop env provider base toolsByName recorded left messages lookups spent decisions).2 := by
  induction left generalizing messages lookups spent decisions with
  | zero =>
    have hdecided := decideCall_decided provider (Decision.count decisions) base
    have hlength : decisions.length = maxReplayReadRounds := hleft
    cases toolsByName with
    | none =>
      rw [loop]
      refine h.stop_uncapped hdecided hlength.le ?_
      rw [Option.getD_none, replayableLookups_nil]
      exact fun hand => Bool.false_ne_true hand.2
    | some tools =>
      rw [loop]
      refine h.stop hdecided hlength.le ?_
      rw [and_iff_right hlength]
      rfl
  | succ left ih =>
    have hdecided := decideCall_decided provider (Decision.count decisions) base
    have hlt : decisions.length < maxReplayReadRounds := by omega
    cases toolsByName with
    | none =>
      rw [loop]
      exact h.stop_uncapped hdecided hlt.le fun hand => hlt.ne hand.1
    | some tools =>
      rw [loop]
      cases hfed : replayableLookups env (accumulate (decideCall provider (Decision.count decisions) base).1 spent lookups)
          tools recorded with
      | none =>
        simp only [hfed]
        exact h.stop_uncapped hdecided hlt.le fun hand => hlt.ne hand.1
      | some fed =>
        simp only [hfed]
        have hround : maxReplayReadRounds - (left + 1) = decisions.length := by omega
        rw [hround]
        refine ih (h.next hdecided hfed) ?_
        rw [List.length_append, List.length_singleton]
        omega

/-! ## A whole replay -/

/-- what a replay says of itself: its counts, its lookups, its prompts, its budgets and its cap -/
structure Replayed (env : Env) (provider : ℕ → Answer) (assembled : List AgentMessage) (first : ℕ) (tools : Dict Tool)
    (recorded : List RecordedToolResult) (result : ModelCallResult) (decisions : List Decision) : Prop where
  answers : (decisions.flatMap (·.attempts)).map (·.result) =
    (List.range (Decision.count decisions)).map fun k => dispatch (provider k)
  tokens : result.tokens = ((decisions.flatMap (·.attempts)).map (·.result.tokens)).sum
  retries : result.truncationRetries = (decisions.map (·.attempts.length - 1)).sum
  lookups : ∃ feds, result.replayedLookups = feds.flatten ∧
    List.Forall₂ (fun d fed => List.Forall₂ (Fed env tools recorded) d.answer.toolCalls fed) decisions.dropLast feds
  prompts : ∀ k d, decisions[k]? = some d → ∃ rounds : List (List AgentMessage), rounds.length = k ∧
    d.messages = assembled ++ rounds.flatten ∧
    ∀ j before, j < k → decisions[j]? = some before → ∃ round, rounds[j]? = some round ∧ LookupRound j before round
  few : decisions.length ≤ maxReplayReadRounds + 1
  growing : ∀ d ∈ decisions, Growing first d.attempts
  decision : ∃ d, decisions.getLast? = some d ∧ result.Same d.answer
  capped : result.hitReadRoundCap = true ↔
    decisions.length = maxReplayReadRounds + 1 ∧ ∃ d, decisions.getLast? = some d ∧ Continues env tools recorded d

theorem Accounts.lookups_fed (h : Accounts env provider assembled first tools recorded result decisions) :
    ∃ feds, result.replayedLookups = feds.flatten ∧
      List.Forall₂ (fun d fed => List.Forall₂ (Fed env tools recorded) d.answer.toolCalls fed) decisions.dropLast feds := by
  refine ⟨decisions.dropLast.map fun d => (replayableLookups env d.answer tools recorded).getD [], ?_, ?_⟩
  · rw [h.lookups, List.flatMap_def]
  · rw [List.forall₂_map_right_iff, List.forall₂_same]
    intro d hd
    obtain ⟨fed, hfed⟩ := Option.isSome_iff_exists.1 (h.continued d hd)
    rw [hfed]
    exact fed_of_replayableLookups hfed

theorem Accounts.prompt (h : Accounts env provider assembled first tools recorded result decisions) {k : ℕ}
    {d : Decision} (hd : decisions[k]? = some d) :
    ∃ rounds : List (List AgentMessage), rounds.length = k ∧ d.messages = assembled ++ rounds.flatten ∧
      ∀ j before, j < k → decisions[j]? = some before → ∃ round, rounds[j]? = some round ∧ LookupRound j before round := by
  have hk : k < decisions.length := (List.getElem?_eq_some_iff.1 hd).1
  refine ⟨rounds env tools recorded (decisions.take k), ?_, h.asked.prompts k d hd, fun j before hj hbefore => ?_⟩
  · rw [rounds, List.length_map, List.length_zipIdx, List.length_take, min_eq_left hk.le]
  · have hmem : before ∈ decisions.dropLast := by
      refine List.mem_iff_getElem?.2 ⟨j, ?_⟩
      rw [List.getElem?_dropLast, if_pos (by omega), hbefore]
    obtain ⟨fed, hfed⟩ := Option.isSome_iff_exists.1 (h.continued before hmem)
    refine ⟨lookupRoundMessages before.answer fed j, ?_, lookupRound_of_fed j before hfed⟩
    rw [rounds, List.getElem?_map, List.getElem?_zipIdx, List.getElem?_take_of_lt hj, hbefore]
    simp [hfed]

/-- **Replay.** It counts every call of the provider once, answers each call of a continued decision with what the live turn
read on the same arguments, asks each decision on the prompt and the answered rounds before it, with budgets that grow up to
the ceiling, and says that it hit the cap just when its last decision would have been continued. -/
theorem replay_accounts (env : Env) (provider : ℕ → Answer) (assembled : List AgentMessage) (reasoning : Option Thinking)
    (budgets : Budgets) (toolsByName : Option (Dict Tool)) (recorded : List RecordedToolResult) :
    Replayed env provider assembled (baseBudget budgets reasoning) (toolsByName.getD []) recorded
      (callModel env provider assembled reasoning budgets toolsByName recorded).1
      (callModel env provider assembled reasoning budgets toolsByName recorded).2 := by
  have hstart : Going env provider assembled (baseBudget budgets reasoning) (toolsByName.getD []) recorded assembled [] none
      [] :=
    ⟨⟨rfl, rfl⟩, ⟨rfl, fun k d hd => absurd hd (by simp), fun d hd => absurd hd List.not_mem_nil⟩, by simp [rounds], rfl,
      fun d hd => absurd hd List.not_mem_nil⟩
  have h := loop_accounts maxReplayReadRounds hstart (Nat.zero_add _)
  exact ⟨h.asked.answers, h.counted.tokens, h.counted.retries, h.lookups_fed, fun _ _ => h.prompt, h.few, h.asked.growing,
    h.decision, h.capped⟩

/-- a tool that only reads -/
def search : Tool where
  tags := [.readOnly]
  properties := none
  validate := .ok
  readOnlyWhen := none
  precheck := none

/-- an answer with two lookups, the second under the id that the first one will be answered under -/
def lookedTwice : ℕ → Answer
  | 0 => .response ⟨[.toolUse none (some "search".toList) none, .toolUse (some "replay_0_0".toList) (some "search".toList) none],
      none, none⟩
  | _ => .response ⟨[.text "done".toList], none, none⟩

/-- The ids that an answer gives are distinct, and one of its calls is answered twice. -/
theorem replay_id_taken :
    ((callModel Checks.plain lookedTwice [] none ⟨none, 8192, by decide⟩ (some [("search".toList, search)])
        [⟨"search".toList, [], "none".toList, false⟩]).2.map fun d =>
      ((d.answer.toolCalls.map (·.id)).filter (· ≠ []), d.messages.filterMap answeredId)) =
      [(["replay_0_0".toList], []), ([], ["replay_0_0".toList, "replay_0_0".toList])] := by
  decide +kernel

end Clawbolt.Replay
