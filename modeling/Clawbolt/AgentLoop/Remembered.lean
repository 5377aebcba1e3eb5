/-
What the session remembers of a turn (`run_agent` and `persist_outbound` of agent/router.py, over `process_message`): the
tool calls that ran, and the row that is stored for them.

The calls that ran are followed along the loop, each with the record that `_execute_single_tool` makes of it. The row keeps
the records as they are before `json.dumps`; the text that was sent is a parameter.

- `rounds_hold`: what ran is recorded, in order;
- `closes_iff`: the turns that end with a text;
- `turn_remembered`: when exactly what ran is stored;
- `write_forgotten`: a file is written, and no row says so.
-/
import Mathlib.Tactic
import Clawbolt.Agent.RoundOrder
import Clawbolt.AgentLoop.Delivery

namespace Clawbolt.AgentLoop.Remembered

open Text (Str)
open Agent (MessageResponse ParsedToolCall ToolRecord executeSingleTool executeToolRound parseToolCalls registerTools)

/-! ## Model -/

/-- what `run_agent` tells apart among the exceptions of `process_message` -/
inductive Failure where
  | contentFilter
  | authentication
  | other
deriving DecidableEq, Repr

/-- `CONTENT_FILTER_FALLBACK`, `AUTH_ERROR_FALLBACK` and `AGENT_ERROR_FALLBACK` -/
def fallback : Failure → Str
  | .contentFilter => "I wasn\x27t able to process that message. Could you try rephrasing?".toList
  | .authentication =>
    ("I\x27m experiencing a configuration issue and can\x27t respond right now. " ++ "The admin has been notified.").toList
  | .other => "I\x27m having trouble thinking right now. Can you try again in a moment?".toList

/-- `_LLM_ERROR_FALLBACK` -/
def llmErrorFallback : Str := "I\x27m having trouble thinking right now. Can you try again in a moment?".toList

structure AgentResponse where
  replyText : Str
  toolCalls : List ToolRecord := []
  isErrorFallback : Bool := false

structure OutboundRow where
  body : Str
  llmReplyText : Str
  toolInteractions : List ToolRecord

/-- `persist_outbound`; `dispatchedBody` is what `dispatch_reply_step` sent, if anything -/
def persistOutbound (dispatchedBody : Str) (response : AgentResponse) : List OutboundRow :=
  if response.replyText = [] ∨ response.isErrorFallback = true then []
  else [⟨if dispatchedBody = [] then response.replyText else dispatchedBody, response.replyText, response.toolCalls⟩]

/-- what `run_agent` makes of `process_message`, where an exception is one of `failure` -/
def agentResponse (failure : Failure) (result : TurnResult) : AgentResponse :=
  match result.ending with
  | .raised => { replyText := fallback failure, isErrorFallback := true }
  | .aborted => { replyText := llmErrorFallback, toolCalls := result.state.records, isErrorFallback := true }
  | .replied text => { replyText := text, toolCalls := result.state.records }

section

variable (c : Config)

/-- the outbound rows of a turn -/
def outboundRows (t : TurnInput) (script : TurnScript) (failure : Failure) (dispatchedBody : Str) : List OutboundRow :=
  persistOutbound dispatchedBody (agentResponse failure (processMessage c t script))

/-- the calls that run in a response's round, as `toolRound` runs them -/
def callsRan (s : St) (r : RoundScript) (calls : List ParsedToolCall) (response : MessageResponse) : List ToolRecord :=
  match executeToolRound r.toolEnv
      ⟨r.tools, calls, truncated response, r.asking, s.cache, s.delivered, r.outcome⟩ with
  | none => []
  | some round => round.approved.map fun e => (executeSingleTool r.toolEnv (registerTools r.tools) (r.outcome e.index) e).1

/-- the calls that run in a round -/
def roundRan (s : St) (r : RoundScript) : List ToolRecord :=
  let s := (s.fold r.folded).callLlm c (s.fold r.folded).messages r.call
  match r.call.response with
  | none => []
  | some response =>
    if stopsValid response = false then []
    else
      match parseToolCalls response with
      | none => []
      | some [] => []
      | some (call :: calls) => callsRan s r (call :: calls) response

/-- the calls that run in the loop -/
def roundsRan (script : ℕ → RoundScript) : ℕ → ℕ → St → List ToolRecord
  | 0, i, s => roundRan c s (script i)
  | left + 1, i, s =>
    match s.round c false (script i) with
    | (_, .ended _) => roundRan c s (script i)
    | (s', .more _ _) => roundRan c s (script i) ++ roundsRan script left (i + 1) s'

/-- the calls that run in a turn -/
def turnRan (t : TurnInput) (script : TurnScript) : List ToolRecord :=
  roundsRan c script.rounds (c.maxToolRounds - 1) 0 (t.start c script)

/-! ## The claim -/

/-- a call that ran is stored with its arguments and its result; guidance may follow the result -/
structure Stored (ran stored : ToolRecord) : Prop where
  call : stored.toolCallId = ran.toolCallId
  name : stored.name = ran.name
  args : stored.args = ran.args
  isError : stored.isError = ran.isError
  result : ran.result <+: stored.result

/-- every call that ran is stored in exactly one row, each as a record of its own -/
def Remembers (rows : List OutboundRow) (ran : List ToolRecord) : Prop :=
  ran ≠ [] → ∃ row, rows = [row] ∧ List.SublistForall₂ Stored ran row.toolInteractions

/-- a round's response is a whole reply with a text, and nothing came in that it leaves out -/
def Answers (last : Bool) (r : RoundScript) (text : Str) : Prop :=
  ∃ response, r.call.response = some response ∧ response.stopReason ∈ validStopReasons ∧
    parseToolCalls response = some [] ∧ truncated response = false ∧ (last = true ∨ r.late = []) ∧
    responseText response = text

/-- the round that ends the loop answers with a text. A last round that runs tools has a text beside them, or the wrap-up is
asked for: no tool has replied yet. -/
def Closes (wrapUpOnMaxRounds : Bool) (script : ℕ → RoundScript) : ℕ → ℕ → St → Prop
  | 0, i, s =>
    (∃ text, text ≠ [] ∧ Answers true (script i) text) ∨
      ∃ parsed response, (s.round c true (script i)).2 = .more parsed response ∧ parsed ≠ [] ∧
        (responseText response ≠ [] ∨
          wrapUpOnMaxRounds = true ∧ alreadyReplied (s.round c true (script i)).1.records = false)
  | left + 1, i, s =>
    match s.round c false (script i) with
    | (_, .ended _) => ∃ text, text ≠ [] ∧ Answers false (script i) text
    | (s', .more _ _) => Closes wrapUpOnMaxRounds script left (i + 1) s'

end

/-! ## What ran is recorded -/

theorem executed_stored {env : Agent.Env} {input : Agent.RoundInput} {round : Agent.Round}
    (hround : executeToolRound env input = some round) :
    List.SublistForall₂ Stored
      (round.approved.map fun e => (executeSingleTool env (registerTools input.tools) (input.outcome e.index) e).1)
      round.records := by
  obtain ⟨⟨log, entries⟩, -, rfl⟩ := Option.map_eq_some_iff.1 hround
  -- the approved calls are answered one by one, after whatever was refused
  have hexecute : ∀ (approved : List Agent.Entry) (log : Agent.Log), ∃ answers,
      (approved.foldl (Agent.Log.execute env (registerTools input.tools) input.outcome) log).answers = log.answers ++ answers ∧
      List.Forall₂ Stored
        (approved.map fun e => (executeSingleTool env (registerTools input.tools) (input.outcome e.index) e).1)
        (answers.filterMap Agent.Answer.record) := by
    intro approved
    induction approved with
    | nil => exact fun log => ⟨[], (List.append_nil _).symm, .nil⟩
    | cons e approved ih =>
      intro log
      obtain ⟨answers, hanswers, hstored⟩ := ih (log.execute env (registerTools input.tools) input.outcome e)
      refine ⟨_ :: answers, hanswers.trans ((congrArg (· ++ answers) rfl).trans (List.append_assoc _ _ _)), ?_⟩
      rw [List.map_cons]
      exact .cons ⟨rfl, rfl, rfl, rfl, List.prefix_append _ _⟩ hstored
  dsimp only
  rw [List.sublistForall₂_iff, Agent.Round.records]
  dsimp only
  rw [Agent.appendResults_eq]
  obtain ⟨answers, hanswers, hstored⟩ := hexecute _ _
  rw [hanswers, List.filterMap_append]
  exact ⟨_, hstored, List.sublist_append_right _ _⟩

variable {c : Config} {s : St} {r : RoundScript} {ran : List ToolRecord}

theorem callLlm_state (s : St) (messages : List Obj) (call : Call) :
    (s.callLlm c messages call).records = s.records ∧ (s.callLlm c messages call).cache = s.cache ∧
      (s.callLlm c messages call).delivered = s.delivered := by
  unfold St.callLlm
  dsimp only
  split
  · unfold St.trimAndRetry
    dsimp only
    split <;> exact ⟨rfl, rfl, rfl⟩
  · exact ⟨rfl, rfl, rfl⟩

theorem draft_records (s : St) (last : Bool) (late : List Folded) (response : MessageResponse) :
    (s.draft c last late response).1.records = s.records := by
  unfold St.draft
  split_ifs <;> rfl

/-- a round of tools records what ran -/
theorem toolRound_holds (h : List.SublistForall₂ Stored ran s.records) (r : RoundScript) (calls : List ParsedToolCall)
    (response : MessageResponse) :
    List.SublistForall₂ Stored (ran ++ callsRan s r calls response) (s.toolRound c r calls response).1.records := by
  unfold St.toolRound callsRan
  dsimp only [St.append]
  cases hround : executeToolRound r.toolEnv
      ⟨r.tools, calls, truncated response, r.asking, s.cache, s.delivered, r.outcome⟩ with
  | none =>
    rw [List.append_nil]
    exact h
  | some round =>
    obtain ⟨old, hold, hsub⟩ := List.sublistForall₂_iff.1 h
    obtain ⟨new, hnew, hsub'⟩ := List.sublistForall₂_iff.1 (executed_stored hround)
    exact List.sublistForall₂_iff.2 ⟨old ++ new, List.rel_append hold hnew, hsub.append hsub'⟩

theorem round_holds (h : List.SublistForall₂ Stored ran s.records) (last : Bool) (r : RoundScript) :
    List.SublistForall₂ Stored (ran ++ roundRan c s r) (s.round c last r).1.records := by
  obtain ⟨hrecords, hcache, hdelivered⟩ := callLlm_state (c := c) (s.fold r.folded) (s.fold r.folded).messages r.call
  unfold St.round roundRan
  dsimp only
  generalize (s.fold r.folded).callLlm c (s.fold r.folded).messages r.call = s' at hrecords ⊢
  have hs' : List.SublistForall₂ Stored ran s'.records := by
    rw [hrecords]
    exact h
  cases r.call.response with
  | none =>
    rw [List.append_nil]
    exact hs'
  | some response =>
    dsimp only
    by_cases hvalid : response.stopReason ∈ validStopReasons
    · rw [if_neg (not_not.2 hvalid), stopsValid_iff.2 hvalid, if_neg Bool.false_ne_true.symm]
      cases parseToolCalls response with
      | none =>
        rw [List.append_nil]
        exact hs'
      | some calls =>
        cases calls with
        | nil =>
          dsimp only
          rw [List.append_nil, draft_records]
          exact hs'
        | cons call calls => exact toolRound_holds (s := s'.noteUsage response) hs' r (call :: calls) response
    · rw [if_pos hvalid, if_pos (stopsValid_eq_false hvalid), List.append_nil]
      exact hs'

/-- what ran is recorded, in order -/
theorem rounds_hold {script : ℕ → RoundScript} (left i : ℕ) (h : List.SublistForall₂ Stored ran s.records) :
    List.SublistForall₂ Stored (ran ++ roundsRan c script left i s) (St.rounds c script left i s).1.records := by
  induction left generalizing i s ran with
  | zero => exact round_holds h true (script i)
  | succ left ih =>
    have hround := round_holds (c := c) h false (script i)
    rw [St.rounds, roundsRan]
    cases hresult : s.round c false (script i) with
    | mk s' e =>
      rw [hresult] at hround
      cases e with
      | ended ending => exact hround
      | more parsed response =>
        have hrest := ih (i + 1) hround
        rw [List.append_assoc] at hrest
        exact hrest

/-! ## The turns that end with a text -/

theorem round_replied (s : St) (last : Bool) (r : RoundScript) (text : Str) :
    (s.round c last r).2 = .ended (.replied text) ↔ Answers last r text := by
  unfold St.round Answers
  dsimp only
  generalize (s.fold r.folded).callLlm c (s.fold r.folded).messages r.call = s'
  cases r.call.response with
  | none => simp
  | some response =>
    simp only [Option.some.injEq, exists_eq_left']
    by_cases hvalid : response.stopReason ∈ validStopReasons
    · rw [if_neg (not_not.2 hvalid)]
      cases hparse : parseToolCalls response with
      | none => simp
      | some calls =>
        cases calls with
        | nil =>
          unfold St.draft
          cases htrunc : truncated response with
          | true =>
            rw [if_pos rfl]
            split_ifs <;> simp
          | false =>
            rw [if_neg Bool.false_ne_true]
            split_ifs with hlate
            · refine iff_of_false (by rintro ⟨⟩) ?_
              rintro ⟨-, -, -, hlast | hnil, -⟩
              · rw [hlate.1] at hlast
                exact Bool.false_ne_true hlast
              · rw [hnil] at hlate
                exact Bool.false_ne_true hlate.2.symm
            · have hnow : last = true ∨ r.late = [] := by
                by_contra hnot
                obtain ⟨hlast, hnil⟩ := not_or.1 hnot
                refine hlate ⟨Bool.eq_false_iff.2 hlast, ?_⟩
                rwa [Bool.eq_false_iff, Ne, List.isEmpty_iff]
              simp [hvalid, hnow]
        | cons call calls =>
          dsimp only
          obtain hend | hend := toolRound_end (c := c) (s'.noteUsage response) r (call :: calls) response
          · rw [hend]
            simp
          · rw [hend]
            simp
    · rw [if_pos hvalid]
      simp [hvalid]

/-- a round without tool calls that another one would follow was cut off, if it is the last -/
theorem round_more_nil (s : St) (r : RoundScript) {response : MessageResponse}
    (h : (s.round c true r).2 = .more [] response) : truncated response = true := by
  unfold St.round at h
  dsimp only at h
  generalize (s.fold r.folded).callLlm c (s.fold r.folded).messages r.call = s' at h
  cases hresponse : r.call.response with
  | none =>
    rw [hresponse] at h
    cases h
  | some answer =>
    rw [hresponse] at h
    dsimp only at h
    split_ifs at h
    cases hparse : parseToolCalls answer with
    | none =>
      rw [hparse] at h
      cases h
    | some calls =>
      rw [hparse] at h
      cases calls with
      | nil =>
        dsimp only at h
        unfold St.draft at h
        split_ifs at h with htrunc _ hlate
        · cases h
          exact htrunc
        · exact hlate.1.elim
      | cons call calls =>
        dsimp only at h
        obtain hend | hend := toolRound_end (c := c) (s'.noteUsage answer) r (call :: calls) answer
        · rw [hend] at h
          cases h
        · rw [hend] at h
          cases h

theorem finish_records (wrapUpOnMaxRounds : Bool) (wrapUp : Call) (s : St) (e : RoundEnd) :
    (St.finish c wrapUpOnMaxRounds wrapUp (s, e)).1.records = s.records := by
  cases e with
  | ended ending => rfl
  | more parsed response =>
    unfold St.finish
    dsimp only
    split
    · rfl
    · split
      · exact (callLlm_state _ _ wrapUp).1
      · rfl

theorem maxRoundsFallback_ne_nil : maxRoundsFallback ≠ [] := by decide

/-- what follows the last round ends with a text -/
theorem finish_more (wrapUpOnMaxRounds : Bool) (wrapUp : Call) (s : St) {parsed : List ParsedToolCall}
    {response : MessageResponse} (hnil : parsed = [] → truncated response = true) :
    (∃ text, text ≠ [] ∧ (St.finish c wrapUpOnMaxRounds wrapUp (s, .more parsed response)).2 = .replied text) ↔
      parsed ≠ [] ∧ (responseText response ≠ [] ∨ wrapUpOnMaxRounds = true ∧ alreadyReplied s.records = false) := by
  unfold St.finish
  dsimp only
  by_cases hparsed : parsed = []
  · have habort : (parsed.isEmpty && truncated response) = true := by
      rw [hnil hparsed, hparsed]
      rfl
    rw [if_pos habort]
    simp [hparsed]
  · have hgoes : ¬ (parsed.isEmpty && truncated response) = true := by
      rw [Bool.and_eq_true, List.isEmpty_iff]
      exact fun h => hparsed h.1
    rw [if_neg hgoes]
    by_cases hask : wrapUpOnMaxRounds = true ∧ responseText response = [] ∧ alreadyReplied s.records = false
    · rw [if_pos hask]
      refine iff_of_true ?_ ⟨hparsed, .inr ⟨hask.1, hask.2.2⟩⟩
      dsimp only
      by_cases hreply : ((s.wrapUp c wrapUp).2.map responseText).getD [] = []
      · exact ⟨maxRoundsFallback, maxRoundsFallback_ne_nil, by rw [if_pos hreply]⟩
      · exact ⟨_, hreply, by rw [if_neg hreply]⟩
    · rw [if_neg hask]
      constructor
      · rintro ⟨text, htext, hreply⟩
        obtain rfl := Ending.replied.inj hreply
        exact ⟨hparsed, .inl htext⟩
      · rintro ⟨-, htext | hwrapUp⟩
        · exact ⟨_, htext, rfl⟩
        · by_cases htext : responseText response = []
          · exact absurd ⟨hwrapUp.1, htext, hwrapUp.2⟩ hask
          · exact ⟨_, htext, rfl⟩

theorem closes_iff (wrapUpOnMaxRounds : Bool) (wrapUp : Call) {script : ℕ → RoundScript} (left i : ℕ) (s : St) :
    Closes c wrapUpOnMaxRounds script left i s ↔
      ∃ text, text ≠ [] ∧ (St.finish c wrapUpOnMaxRounds wrapUp (St.rounds c script left i s)).2 = .replied text := by
  induction left generalizing i s with
  | zero =>
    rw [St.rounds, Closes]
    have hreplied := round_replied (c := c) s true (script i)
    have hnil : ∀ response, (s.round c true (script i)).2 = .more [] response → truncated response = true :=
      fun _ h => round_more_nil s (script i) h
    generalize s.round c true (script i) = result at hreplied hnil ⊢
    obtain ⟨s', e⟩ := result
    cases e with
    | ended ending =>
      simp only [← hreplied, St.finish, RoundEnd.ended.injEq, reduceCtorEq, false_and, exists_false, or_false]
    | more parsed response =>
      have hmore := finish_more (c := c) wrapUpOnMaxRounds wrapUp s' fun hp : parsed = [] => hnil response (by rw [hp])
      rw [hmore]
      simp only [← hreplied, reduceCtorEq, and_false, exists_false, false_or, RoundEnd.more.injEq]
      constructor
      · rintro ⟨parsed', response', ⟨rfl, rfl⟩, h⟩
        exact h
      · exact fun h => ⟨parsed, response, ⟨rfl, rfl⟩, h⟩
  | succ left ih =>
    have hreplied := round_replied (c := c) s false (script i)
    rw [St.rounds, Closes]
    cases hresult : s.round c false (script i) with
    | mk s' e =>
      rw [hresult] at hreplied
      cases e with
      | ended ending => simp only [← hreplied, St.finish, RoundEnd.ended.injEq]
      | more parsed response => exact ih (i + 1) s'

/-! ## The turn -/

/-- a turn is stored, with all its records, when it ends with a text -/
theorem persistOutbound_cases (dispatchedBody : Str) (failure : Failure) (result : TurnResult) :
    (∃ text, text ≠ [] ∧ result.ending = .replied text) ∧
        (∃ row, persistOutbound dispatchedBody (agentResponse failure result) = [row] ∧
          row.toolInteractions = result.state.records) ∨
      (¬ ∃ text, text ≠ [] ∧ result.ending = .replied text) ∧
        persistOutbound dispatchedBody (agentResponse failure result) = [] := by
  unfold agentResponse
  cases result.ending with
  | raised => exact .inr ⟨by simp, if_pos (.inr rfl)⟩
  | aborted => exact .inr ⟨by simp, if_pos (.inr rfl)⟩
  | replied text =>
    by_cases htext : text = []
    · exact .inr ⟨by simp [htext], if_pos (.inl htext)⟩
    · have hstored : ¬ (text = [] ∨ false = true) := by simp [htext]
      exact .inl ⟨⟨text, htext, rfl⟩, _, if_neg hstored, rfl⟩

/-- **A turn's calls are remembered.** What ran is stored in exactly one row exactly when nothing ran, or the loop ends with a
text. -/
theorem turn_remembered (c : Config) (t : TurnInput) (script : TurnScript) (failure : Failure) (dispatchedBody : Str) :
    Remembers (outboundRows c t script failure dispatchedBody) (turnRan c t script) ↔
      turnRan c t script = [] ∨
        Closes c script.wrapUpOnMaxRounds script.rounds (c.maxToolRounds - 1) 0 (t.start c script) := by
  have hcloses : Closes c script.wrapUpOnMaxRounds script.rounds (c.maxToolRounds - 1) 0 (t.start c script) ↔
      ∃ text, text ≠ [] ∧ (processMessage c t script).ending = .replied text :=
    closes_iff script.wrapUpOnMaxRounds script.wrapUp _ _ _
  have hholds : List.SublistForall₂ Stored (turnRan c t script) (looped c t script).1.records :=
    rounds_hold _ _ .nil
  have hrecords : (processMessage c t script).state.records = (looped c t script).1.records :=
    finish_records script.wrapUpOnMaxRounds script.wrapUp (looped c t script).1 (looped c t script).2
  rw [← hrecords] at hholds
  rw [hcloses, outboundRows]
  obtain ⟨htext, row, hrow, hcalls⟩ | ⟨htext, hrow⟩ := persistOutbound_cases dispatchedBody failure (processMessage c t script)
  · refine iff_of_true ?_ (.inr htext)
    intro _
    exact ⟨row, hrow, by rwa [hcalls]⟩
  · rw [or_iff_left htext]
    constructor
    · intro h
      by_contra hran
      obtain ⟨row, hone, -⟩ := h hran
      rw [hrow] at hone
      cases hone
    · exact fun hnil hran => absurd hnil hran

/-- a response with one call, to write a file -/
def writesFile : MessageResponse where
  id := []
  model := []
  content := [.toolUse "c1".toList "write_file".toList (.obj [("path".toList, .str "notes.md".toList)])]
  stopReason := some "tool_use".toList
  stopSequence := none
  usage := []

/-- the model writes a file, and its next call raises -/
def writesThenRaises : TurnScript where
  rounds := fun i => { bareRound false writesFile with
    call := ⟨false, if i = 0 then some writesFile else none⟩
    tools := [Agent.workspaceTool "write_file" .always]
    toolEnv := Agent.workspaceEnv
    outcome := fun _ => .returned ⟨"ok".toList, false, none, [], none⟩ }
  wrapUpOnMaxRounds := true
  wrapUp := ⟨false, none⟩
  maxTokens := none

set_option maxRecDepth 20000 in
/-- the file is written, and no row says so -/
theorem write_forgotten :
    ¬ Remembers (outboundRows plainConfig afterOneExchange writesThenRaises .other [])
      (turnRan plainConfig afterOneExchange writesThenRaises) := by
  intro h
  have hran : (turnRan plainConfig afterOneExchange writesThenRaises).length = 1 := by decide +kernel
  have hrows : (outboundRows plainConfig afterOneExchange writesThenRaises .other []).length = 0 := by decide +kernel
  obtain ⟨row, hrow, -⟩ := h (List.ne_nil_of_length_pos (hran ▸ Nat.one_pos))
  rw [hrow] at hrows
  cases hrows

end Clawbolt.AgentLoop.Remembered
