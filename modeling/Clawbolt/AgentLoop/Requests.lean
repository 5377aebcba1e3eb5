/-
The requests of a turn. The messages of the loop are a conversation behind the system message, and stay one in every round:
with the messages that come in, a response and the results of its calls, the trim of a retry, and the wrap-up.

- `converses_of_renders`: the histories of a turn are conversations, if the stored rows can be sent;
- `follows_trimHistory`, `conversation_round`, `sends_retry`: what is kept of a conversation by the first trim, a round of
  tool calls and a retry;
- `requests_wellFormed`: every request of a turn is well-formed.
-/
import Mathlib.Tactic
import Clawbolt.Agent.RoundOrder
import Clawbolt.AgentLoop.Handed
import Clawbolt.AgentLoop.Rendered
import Clawbolt.History.Turn

namespace Clawbolt.AgentLoop

open Text (Str)
open Agent (MessageResponse ParsedToolCall parseToolCalls)
open History (AgentMessage Env Settings StoredMessage ToolCallRequest)

/-! ## What a turn is given -/

/-- the histories that a turn may render are conversations -/
structure TurnInput.Converses (t : TurnInput) : Prop where
  history : Conversation t.history
  shed : ∀ shed, t.shedHistory = some shed → ∀ fits messages dropped, shed fits = some (messages, dropped) →
    Conversation messages

/-- the turn renders `rows` with the renderer of the epoch, and sheds the rows that this view keeps -/
def TurnInput.Renders (t : TurnInput) (h : History.Ctx) (rows preceding : List StoredMessage) : Prop :=
  ∃ current compact stubBefore,
    let view := h.buildHistoryView rows current compact preceding stubBefore
    t.history = view.messages ∧ ∀ shed, t.shedHistory = some shed → ∃ current', ∀ fits messages dropped,
      shed fits = some (messages, dropped) → messages = (h.shedHistoryView (rows.drop view.droppedRows.length) current'
        (preceding ++ view.droppedRows) stubBefore fits).view.messages

/-- **Histories.** -/
theorem converses_of_renders {t : TurnInput} {h : History.Ctx} {rows preceding : List StoredMessage}
    (ht : t.Renders h rows preceding) (hrows : RowsSend h.env h.tzName preceding rows) : t.Converses := by
  obtain ⟨current, compact, stubBefore, hhistory, hshed⟩ := ht
  have hview := History.buildHistoryView_isRender h rows current compact preceding stubBefore
  refine ⟨hhistory ▸ conversation_view hview hrows, fun shed hs fits messages dropped hfits => ?_⟩
  obtain ⟨current', hmessages⟩ := hshed shed hs
  obtain ⟨start, v, -, hcandidate⟩ := History.shedHistoryView_candidate h
    (rows.drop (h.buildHistoryView rows current compact preceding stubBefore).droppedRows.length)
    (preceding ++ (h.buildHistoryView rows current compact preceding stubBefore).droppedRows) stubBefore current' fits
  rw [hmessages fits messages dropped hfits, hcandidate]
  refine conversation_view (History.shedCandidate_isRender h _ current' _ stubBefore start v) ?_
  -- the rows that the view keeps
  obtain ⟨kept, hkept, -⟩ := hview
  rw [(congrArg (List.drop _) hkept).trans List.drop_left]
  exact rowsSend_drop h.env h.tzName (hkept ▸ hrows)

/-- the calls of a response have different ids -/
def RoundScript.DistinctIds (r : RoundScript) : Prop :=
  ∀ response calls, r.call.response = some response → parseToolCalls response = some calls →
    (calls.map ParsedToolCall.id).Nodup

/-- a request that starts with the system message and goes on with a conversation -/
def Sends (t : TurnInput) (request : List AgentMessage) : Prop :=
  ∃ body, request = .system t.system :: body ∧ Conversation body

/-! ## What comes in -/

theorem conversation_folded (folded : List Folded) : Conversation (folded.map foldedMessage) := by
  refine conversation_users fun m hm => ?_
  obtain ⟨f, -, rfl⟩ := List.mem_map.1 hm
  refine ⟨_, f.seq, rfl, fun hnil => ?_⟩
  exact absurd (List.append_eq_nil_iff.1 (List.append_eq_nil_iff.1 hnil).1).2 (by decide)

theorem toolCallRequest_ids (calls : List ParsedToolCall) :
    (calls.map toolCallRequest).map ToolCallRequest.id = calls.map ParsedToolCall.id := by
  rw [List.map_map]
  rfl

/-- the results of a round answer the calls of the response -/
theorem results_perm {env : Agent.Env} {input : Agent.RoundInput} {round : Agent.Round}
    (h : Agent.executeToolRound env input = some round) :
    ((round.toolResults.map resultMessage).map item).Perm ((input.calls.map ParsedToolCall.id).map .answer) := by
  have hids := (Agent.answers_perm h).map Prod.snd
  have hleft : (round.log.answers.map Agent.Answer.key).map Prod.snd =
      round.toolResults.map Agent.ToolResultMessage.toolCallId := by
    rw [List.map_map, Agent.Round.toolResults, List.map_map]
    rfl
  have hright : (input.calls.zipIdx.map fun c => (c.2, c.1.id)).map Prod.snd = input.calls.map ParsedToolCall.id := by
    conv_rhs => rw [← List.zipIdx_map_fst 0 input.calls]
    rw [List.map_map, List.map_map]
    rfl
  rw [hleft, hright] at hids
  have hitems : (round.toolResults.map resultMessage).map item =
      (round.toolResults.map Agent.ToolResultMessage.toolCallId).map .answer := by
    rw [List.map_map, List.map_map]
    rfl
  rw [hitems]
  exact hids.map _

/-- **A response and its results.** -/
theorem conversation_round {env : Agent.Env} {input : Agent.RoundInput} {round : Agent.Round} {response : MessageResponse}
    (h : Agent.executeToolRound env input = some round) (hne : input.calls ≠ [])
    (hids : (input.calls.map ParsedToolCall.id).Nodup) :
    Conversation (assistantMessage response input.calls :: round.toolResults.map resultMessage) := by
  obtain ⟨call, calls, hcalls⟩ := List.exists_cons_of_ne_nil hne
  have hitem : item (assistantMessage response input.calls) = .call (input.calls.map ParsedToolCall.id) := by
    rw [← toolCallRequest_ids, assistantMessage, hcalls]
    rfl
  constructor
  · refine List.forall_mem_cons.2 ⟨⟨fun hnil => ?_, (toolCallRequest_ids input.calls).symm ▸ hids⟩, fun m hm => ?_⟩
    · simp [hcalls] at hnil
    · obtain ⟨result, -, rfl⟩ := List.mem_map.1 hm
      trivial
  · rw [List.map_cons, hitem, ← List.append_nil ((round.toolResults.map resultMessage).map item)]
    exact .call (results_perm h) .nil

/-! ## Trims -/

section

variable (env : Env) (cfg : Settings) (next : ℕ) (first : Obj)

/-- a conversation behind the first message, as objects -/
def Follows (first : Obj) (messages : List Obj) : Prop := ∃ body, messages = first :: body ∧ Conversation (valuesOf body)

theorem follows_of_values {messages : List Obj} (hhead : messages.head? = some first) {body : List AgentMessage}
    (h : valuesOf messages = first.message :: body) (hbody : Conversation body) : Follows first messages := by
  obtain ⟨rest, rfl⟩ : ∃ rest, messages = first :: rest := by
    cases messages with
    | nil => simp at hhead
    | cons m rest => exact ⟨rest, by rw [Option.some.inj hhead]⟩
  obtain rfl : valuesOf rest = body := (List.cons.inj h).2
  exact ⟨rest, rfl, hbody⟩

theorem head_attachSummaryObj (rest : List Obj) (summary : Str) :
    (attachSummaryObj next (first :: rest) summary).head? = some first := by
  simp only [attachSummaryObj]
  split <;> rfl

theorem follows_attachSummary {rest : List Obj} (h : Conversation (valuesOf rest)) (summary : Str) :
    Follows first (attachSummaryObj next (first :: rest) summary) := by
  obtain ⟨kept, hkept, hconv⟩ := conversation_attachSummary h first.message summary
  refine follows_of_values first (head_attachSummaryObj next first rest summary) ?_ hconv
  rw [attachSummaryObj_values]
  exact hkept

theorem follows_trim {body : List Obj} (h : Conversation (valuesOf body)) (inputTokens : Option ℕ) :
    Follows first (trimObjs env cfg next (first :: body) inputTokens).messages := by
  obtain ⟨hvalues, -, k, -, -, hmessages⟩ := trim_split env cfg next first body inputTokens
  obtain ⟨kept, hkept, hconv⟩ := conversation_trim env cfg first.message h inputTokens
  refine follows_of_values first ?_ (hvalues.trans hkept) hconv
  rcases hmessages with hmessages | ⟨summary, hmessages, -⟩
  · rw [hmessages]
    rfl
  · rw [hmessages]
    exact head_attachSummaryObj next first _ summary

/-- laying the updates keeps it -/
theorem follows_lay (diff : Workspace.UnifiedDiff) {l : Layout} (hbody : ∀ dynamic, l.body dynamic ≠ []) {messages : List Obj}
    (h : Follows first messages) : Follows first (l.lay diff next messages).messages := by
  obtain ⟨rest, rfl, hconv⟩ := h
  obtain ⟨rest', hlaid, hstands⟩ := lay_stands diff hbody next first rest
  exact ⟨rest', hlaid, hconv.replaced hstands⟩

end

section

variable {t : TurnInput} (env : Env) (cfg : Settings)

/-- **The first trim of a turn.** -/
theorem follows_trimHistory (h : t.Converses) (next : ℕ) (system : Obj) (ref : ℕ) {text : Str} (htext : text ≠ []) :
    Follows system (t.trimHistory env cfg next system t.rendered ⟨ref, .user text none⟩).messages := by
  have hcurrent : Conversation [.user text none] := conversation_user htext none
  unfold TurnInput.trimHistory
  split
  · rename_i messages dropped hshed
    have hmessages : Conversation messages := by
      unfold TurnInput.shed at hshed
      dsimp only at hshed
      split_ifs at hshed
      obtain ⟨shed, hs, hfits⟩ := Option.bind_eq_some_iff.1 hshed
      exact h.shed shed hs _ messages dropped hfits
    have hconv : Conversation (valuesOf (allocate next messages ++ [⟨ref, .user text none⟩])) := by
      rw [valuesOf_append, valuesOf_allocate]
      exact hmessages.append hcurrent
    dsimp only
    split_ifs
    · exact ⟨_, rfl, hconv⟩
    · exact follows_attachSummary _ system hconv _
  · refine follows_trim env cfg next system ?_ _
    rw [valuesOf_append, TurnInput.rendered, valuesOf_allocate]
    exact h.history.append hcurrent

theorem follows_trimmed (h : t.Converses) (diff : Workspace.UnifiedDiff) :
    Follows t.systemObj (t.assemblePrompt env cfg diff).trimmed := by
  unfold TurnInput.assemblePrompt TurnInput.measured
  cases hw : t.layout with
  | none => exact follows_trimHistory env cfg h _ _ _ (ne_nil_of_join t t.dynamic)
  | some l =>
    refine follows_trimHistory env cfg h _ _ _ fun hnil => ?_
    obtain ⟨w, -, rfl⟩ := Option.map_eq_some_iff.1 hw
    exact ne_nil_of_join t _ hnil

end

/-! ## The loop -/

section

variable {c : Config} {t : TurnInput} {a : Assembled} {rows : List Obj} {plain : Obj} {s : St}

/-- the messages that a trim measures are a conversation -/
theorem conversation_plain (hl : Lays t c.env c.cfg a rows plain) (ht : Follows t.systemObj a.trimmed) :
    Conversation (valuesOf (rows ++ [plain])) := by
  obtain ⟨text, note, ref, -, htrimmed, hplain⟩ := hl.source
  obtain ⟨body, hbody, hconv⟩ := ht
  obtain rfl := (List.cons.inj (htrimmed.symm.trans hbody)).2
  refine hconv.replaced ?_
  rw [valuesOf_append, valuesOf_append]
  refine List.rel_append (stands_same _) (.cons ⟨?_, fun _ => ?_⟩ .nil)
  · show item plain.message = _
    rw [hplain]
    rfl
  · rw [hplain]
    exact fun hnil => ne_nil_of_join t t.dynamic (List.append_eq_nil_iff.1 hnil).2

/-- the requests so far were conversations, and the messages of the loop go on with one -/
structure Talks (t : TurnInput) (a : Assembled) (rows : List Obj) (plain : Obj) (s : St) : Prop where
  inv : Inv a rows plain s
  own : Conversation (valuesOf (a.own s))
  body : ∀ l, s.layout = some l → ∀ dynamic, l.body dynamic ≠ []
  requests : ∀ r ∈ s.requests, Sends t r

theorem sends_of_follows {messages : List Obj} (h : Follows t.systemObj messages) : Sends t (valuesOf messages) := by
  obtain ⟨body, rfl, hconv⟩ := h
  exact ⟨valuesOf body, rfl, hconv⟩

/-- the messages of the turn, with `own` after the prompt -/
theorem follows_own (hl : Lays t c.env c.cfg a rows plain) (hplain : Conversation (valuesOf (rows ++ [plain])))
    {own : List Obj} (hown : Conversation (valuesOf own)) : Follows t.systemObj (a.messages ++ own) := by
  obtain ⟨rest, hmessages, hstands⟩ := hl.messages
  refine ⟨rest ++ own, by rw [hmessages, List.cons_append], ?_⟩
  rw [valuesOf_append]
  exact (hplain.replaced hstands).append hown

/-- **What a retry sends.** The messages without their updates, trimmed, with the updates laid anew. -/
theorem sends_retry (hl : Lays t c.env c.cfg a rows plain) (hplain : Conversation (valuesOf (rows ++ [plain])))
    (hlayout : s.layout.map Layout.sent = a.layout.map Layout.sent)
    (hbody : ∀ l, s.layout = some l → ∀ dynamic, l.body dynamic ≠ []) {own : List Obj}
    (hfresh : ∀ m ∈ own, a.next ≤ m.ref) (hown : Conversation (valuesOf own)) :
    let s' := s.trimAndRetry c (a.messages ++ own)
    (∀ r ∈ s'.requests, r ∈ s.requests ∨ Sends t r) ∧ ∀ l, s'.layout = some l → ∀ dynamic, l.body dynamic ≠ [] := by
  have htrim : Follows t.systemObj (retryTrim c s (a.messages ++ own)).messages := by
    unfold retryTrim
    rw [stripped_congr hlayout, hl.strip own hfresh]
    refine follows_trim c.env c.retrySettings s.next t.systemObj ?_ _
    rw [valuesOf_append]
    exact hplain.append hown
  intro s'
  have hs' : s' = s.trimAndRetry c (a.messages ++ own) := rfl
  unfold retryTrim at htrim
  unfold St.trimAndRetry at hs'
  dsimp only at hs'
  cases hlay : s.layout with
  | none =>
    rw [hlay] at hs' htrim
    dsimp only at hs'
    rw [hs']
    refine ⟨fun r hr => ?_, by simp⟩
    rcases List.mem_append.1 hr with hr | hr
    · exact Or.inl hr
    · exact Or.inr (List.mem_singleton.1 hr ▸ sends_of_follows htrim)
  | some l =>
    rw [hlay] at hs' htrim
    dsimp only at hs'
    rw [hs']
    refine ⟨fun r hr => ?_, fun l' hl' => ?_⟩
    · rcases List.mem_append.1 hr with hr | hr
      · exact Or.inl hr
      · have hlaid := follows_lay (trimObjs c.env c.retrySettings s.next (stripped (some l) (a.messages ++ own))
          (some (if s.lastInputTokens = 0 then c.maxInputTokens else s.lastInputTokens))).next t.systemObj c.diff
          (hbody l hlay) htrim
        exact Or.inr (List.mem_singleton.1 hr ▸ sends_of_follows hlaid)
    · obtain rfl := Option.some.inj hl'
      exact hbody l hlay

/-- a call of the model, with `own` after the prompt -/
theorem sends_callLlm (hl : Lays t c.env c.cfg a rows plain) (hplain : Conversation (valuesOf (rows ++ [plain])))
    (hlayout : s.layout.map Layout.sent = a.layout.map Layout.sent)
    (hbody : ∀ l, s.layout = some l → ∀ dynamic, l.body dynamic ≠ []) (hrequests : ∀ r ∈ s.requests, Sends t r)
    {own : List Obj} (hfresh : ∀ m ∈ own, a.next ≤ m.ref) (hown : Conversation (valuesOf own)) (call : Call) :
    (∀ r ∈ (s.callLlm c (a.messages ++ own) call).requests, Sends t r) ∧
      ∀ l, (s.callLlm c (a.messages ++ own) call).layout = some l → ∀ dynamic, l.body dynamic ≠ [] := by
  have hall : ∀ r ∈ s.requests ++ [valuesOf (a.messages ++ own)], Sends t r := by
    intro r hr
    rcases List.mem_append.1 hr with hr | hr
    · exact hrequests r hr
    · exact List.mem_singleton.1 hr ▸ sends_of_follows (follows_own hl hplain hown)
  unfold St.callLlm
  dsimp only
  split_ifs
  · have hretry := sends_retry (c := c) (s := { s with
      requests := s.requests ++ [valuesOf (a.messages ++ own)]
      sent := s.sent ++ [a.messages ++ own] }) hl hplain hlayout hbody hfresh hown
    exact ⟨fun r hr => (hretry.1 r hr).elim (hall r) id, hretry.2⟩
  · exact ⟨hall, hbody⟩

theorem talks_append (h : Talks t a rows plain s) {ms : List AgentMessage} (hms : Conversation ms) :
    Talks t a rows plain (s.append ms) where
  inv := inv_append h.inv ms
  own := by
    rw [own_append h.inv, valuesOf_append, valuesOf_allocate]
    exact h.own.append hms
  body := h.body
  requests := h.requests

theorem callLlm_messages (c : Config) (s : St) (messages : List Obj) (call : Call) :
    (s.callLlm c messages call).messages = s.messages := by
  unfold St.callLlm
  dsimp only
  split_ifs
  · exact (trimAndRetry_spec c _ messages).1
  · rfl

theorem talks_callLlm (hl : Lays t c.env c.cfg a rows plain) (hplain : Conversation (valuesOf (rows ++ [plain])))
    (h : Talks t a rows plain s) (call : Call) : Talks t a rows plain (s.callLlm c s.messages call) := by
  have hsends := sends_callLlm hl hplain h.inv.layout h.body h.requests (fun m hm => (h.inv.fresh m hm).1) h.own call
  rw [← h.inv.messages] at hsends
  refine ⟨inv_callLlm hl h.inv call, ?_, hsends.2, hsends.1⟩
  rw [Assembled.own, callLlm_messages]
  exact h.own

theorem sends_wrapUp (hl : Lays t c.env c.cfg a rows plain) (hplain : Conversation (valuesOf (rows ++ [plain])))
    (h : Talks t a rows plain s) (call : Call) : ∀ r ∈ (s.wrapUp c call).1.requests, Sends t r := by
  have hown : Conversation (valuesOf (a.own s ++ [⟨s.next, .user maxRoundsWrapUpInstruction none⟩])) := by
    rw [valuesOf_append]
    exact h.own.append (conversation_user (by decide +kernel) none)
  have hfresh : ∀ m ∈ a.own s ++ [⟨s.next, .user maxRoundsWrapUpInstruction none⟩], a.next ≤ m.ref := by
    intro m hm
    rcases List.mem_append.1 hm with hm | hm
    · exact (h.inv.fresh m hm).1
    · rw [List.mem_singleton.1 hm]
      exact h.inv.next
  have hsends := sends_callLlm (s := { s with next := s.next + 1 }) hl hplain h.inv.layout h.body h.requests hfresh hown call
  rw [← List.append_assoc, ← h.inv.messages] at hsends
  exact hsends.1

theorem talks_rule (hl : Lays t c.env c.cfg a rows plain) (hplain : Conversation (valuesOf (rows ++ [plain]))) :
    Rule c Conversation (Talks t a rows plain) fun s => ∀ r ∈ s.requests, Sends t r where
  append := fun _ _ h hms => talks_append h hms
  call := fun _ call h => talks_callLlm hl hplain h call
  noting := fun _ _ _ _ _ _ h => ⟨{ h.inv with }, h.own, h.body, h.requests⟩
  done := fun _ h => h.requests
  raised := fun _ _ h => h.requests
  wrapUp := fun _ call h => sends_wrapUp hl hplain h call

end

/-- **Every request of a turn is well-formed**, behind the system message. For every run of the loop on rows that can be sent,
with responses that give their calls different ids: whatever comes in, is answered by the tools, overflows and is trimmed. -/
theorem requests_wellFormed (c : Config) (t : TurnInput) (script : TurnScript) (h : History.Ctx)
    (rows preceding : List StoredMessage) (ht : t.Renders h rows preceding)
    (hrows : RowsSend h.env h.tzName preceding rows) (hids : ∀ i, (script.rounds i).DistinctIds) :
    ∀ r ∈ (processMessage c t script).state.requests,
      r.head? = some (.system t.system) ∧ WellFormed (messagesToMessagesApi r).2 := by
  obtain ⟨rows', plain, hl⟩ := assemble_cases t c.env c.cfg c.diff
  have hplain := conversation_plain hl (follows_trimmed c.env c.cfg (converses_of_renders ht hrows) c.diff)
  have hstart : Talks t (t.assemblePrompt c.env c.cfg c.diff) rows' plain
      ((t.assemblePrompt c.env c.cfg c.diff).start script.maxTokens) :=
    ⟨inv_start _ rows' plain script.maxTokens, by simpa [Assembled.own, Assembled.start, valuesOf] using ⟨by simp, .nil⟩,
      hl.body, by simp [Assembled.start]⟩
  have hbrings : ∀ i, (script.rounds i).Brings Conversation := fun i =>
    ⟨conversation_folded _, conversation_folded _, fun response calls _ _ _ hresponse hcalls hne hround =>
      conversation_round hround hne (hids i response calls hresponse hcalls)⟩
  intro r hr
  obtain ⟨body, rfl, hconv⟩ := processMessage_rule (talks_rule hl hplain) t script hbrings hstart r hr
  exact ⟨rfl, wellFormed_of_conversation hconv t.system⟩

/-- a question and its answer, as they are stored -/
def storedExchange : List StoredMessage := [
  ⟨.inbound, "How much does Acme owe?".toList, [], [], [], [], 1⟩,
  ⟨.outbound, "120".toList, [], [], [], [], 2⟩]

def sampleCtx : History.Ctx := ⟨History.sampleEnv [] [], History.Settings.default, [], []⟩

/-- the turn after it -/
def afterStoredExchange : TurnInput :=
  { afterOneExchange with history := (sampleCtx.buildHistoryView storedExchange none false [] none).messages }

/-- two calls are trimmed and retried -/
theorem overflows_wellFormed :
    let requests := (processMessage plainConfig afterStoredExchange twoOverflows).state.requests
    requests.length = 4 ∧ ∀ r ∈ requests,
      r.head? = some (.system afterStoredExchange.system) ∧ WellFormed (messagesToMessagesApi r).2 := by
  refine ⟨by decide +kernel, requests_wellFormed plainConfig afterStoredExchange twoOverflows sampleCtx storedExchange []
    ⟨none, false, none, rfl, fun shed hshed => absurd hshed (by simp [afterStoredExchange, afterOneExchange])⟩ ?_ ?_⟩
  · refine (rowsSend_cons _ _ _ _ _).2 ⟨fun hd => absurd rfl hd, (rowsSend_cons _ _ _ _ _).2 ⟨fun _ _ => ⟨?_, ?_⟩, ?_⟩⟩
    · exact withMarker_ne_nil (by decide)
    · decide
    · exact fun before msg after heq => by simp at heq
  · intro i response calls hresponse hcalls
    obtain rfl := Option.some.inj hresponse
    by_cases hi : i = 0
    · subst hi
      have hone : (parseToolCalls (callOrReply true)).map (·.map ParsedToolCall.id) = some ["a".toList] := by decide +kernel
      rw [show callOrReply (decide ((0 : ℕ) = 0)) = callOrReply true from rfl] at hcalls
      rw [hcalls] at hone
      simpa using congrArg List.Nodup (Option.some.inj hone)
    · have hreply : parseToolCalls (callOrReply (i = 0)) = some [] := by simp [hi]; rfl
      obtain rfl := Option.some.inj (hreply.symm.trans hcalls)
      simp

end Clawbolt.AgentLoop
