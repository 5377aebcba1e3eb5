/-
The history of a request: stored rows as messages (`_stored_messages_to_agent_messages` of agent/context.py), and the views
that the rebuild and the shed make of them.

- `conversation_row_iff`: what one row is rendered as can be sent exactly when the row has a text, and its calls have
  different ids;
- `rendered_conversation_iff`: so can the rendering of rows, when every row can;
- `conversation_view`: and then so can every view of them.
-/
import Mathlib.Tactic
import Clawbolt.AgentLoop.Messages
import Clawbolt.History.WriteResults

namespace Clawbolt.AgentLoop

open Text (Str)
open History (AgentMessage Carry Env StoredMessage StoredToolInteraction ToolCallRequest)

/-! ## Rendered rows -/

section

variable (env : Env) (tzName : Str)

/-- the text that a row is rendered with -/
def rowText (c : Carry) (msg : StoredMessage) : Str :=
  History.withMarker (History.timeMarker env c.prevIso msg.timestamp tzName) (History.rowContent msg)

/-- an outbound row that is rendered has a text, and its calls have different ids -/
def RowSends (c : Carry) (msg : StoredMessage) : Prop :=
  msg.direction ≠ .inbound → History.isApprovalPromptRow env msg = false →
    rowText env tzName c msg ≠ [] ∧
      ((History.parseToolInteractions env msg.toolInteractionsJson).map StoredToolInteraction.toolCallId).Nodup

theorem withMarker_ne_nil {marker : Option Str} {text : Str} (h : text ≠ []) : History.withMarker marker text ≠ [] := by
  unfold History.withMarker
  split
  · exact h
  · split_ifs
    · exact h
    · exact fun hnil => h (List.append_eq_nil_iff.1 hnil).2

/-- the items of an expanded row -/
theorem items_expanded (interactions : List StoredToolInteraction) (hne : interactions ≠ []) (text : Str)
    (seq : Option ℕ) : (History.expandOutboundWithTools interactions text seq).map item =
      .call (interactions.map StoredToolInteraction.toolCallId) ::
        ((interactions.map StoredToolInteraction.toolCallId).map .answer ++ [.plain]) := by
  obtain ⟨tc, tcs, rfl⟩ := List.exists_cons_of_ne_nil hne
  simp [History.expandOutboundWithTools, item, Function.comp_def]

theorem conversation_expanded_iff {interactions : List StoredToolInteraction} (hne : interactions ≠ []) (text : Str)
    (seq : Option ℕ) : Conversation (History.expandOutboundWithTools interactions text seq) ↔
      text ≠ [] ∧ (interactions.map StoredToolInteraction.toolCallId).Nodup := by
  have hids : (interactions.map fun tc => (⟨tc.toolCallId, tc.name, tc.args⟩ : ToolCallRequest)).map ToolCallRequest.id =
      interactions.map StoredToolInteraction.toolCallId := by
    rw [List.map_map]
    rfl
  constructor
  · intro h
    have hcall := h.sendable _ List.mem_cons_self
    have hreply := h.sendable (.assistant (some text) [] seq) (by simp [History.expandOutboundWithTools])
    exact ⟨hreply.1 rfl, hids ▸ hcall.2⟩
  · intro h
    refine ⟨fun m hm => ?_, ?_⟩
    · unfold History.expandOutboundWithTools at hm
      rw [List.cons_append] at hm
      rcases List.mem_cons.1 hm with rfl | hm
      · exact ⟨fun hnil => absurd (List.map_eq_nil_iff.1 hnil) hne, hids.symm ▸ h.2⟩
      · rcases List.mem_append.1 hm with hm | hm
        · obtain ⟨tc, -, rfl⟩ := List.mem_map.1 hm
          trivial
        · rw [List.mem_singleton.1 hm]
          exact ⟨fun _ => h.1, List.nodup_nil⟩
    · rw [items_expanded interactions hne]
      exact .call (List.Perm.refl _) (.plain .nil)

/-- **One row.** -/
theorem conversation_row_iff (c : Carry) (msg : StoredMessage) :
    Conversation ((History.converter env tzName).emit c msg) ↔ RowSends env tzName c msg := by
  have hnil : Conversation [] := ⟨by simp, .nil⟩
  show Conversation (History.convertRow env tzName c msg).1 ↔ _
  unfold History.convertRow RowSends rowText
  by_cases hd : msg.direction = .inbound
  · simp only [hd, if_true, ne_eq, not_true_eq_false, IsEmpty.forall_iff, iff_true]
    split_ifs with hstrip happroval
    · exact hnil
    · exact hnil
    · refine conversation_user (withMarker_ne_nil fun hempty => hstrip ?_) _
      rw [hempty]
      rfl
  · simp only [hd, if_false]
    by_cases ht : (History.parseToolInteractions env msg.toolInteractionsJson).isEmpty
    · have htools : History.parseToolInteractions env msg.toolInteractionsJson = [] := List.isEmpty_iff.1 ht
      simp only [htools, List.isEmpty_nil, not_true_eq_false, if_false, List.map_nil, List.nodup_nil, and_true]
      by_cases hp : History.isApprovalPrompt (History.rowContent msg) = true
      · simp [History.isApprovalPromptRow, hd, htools, hp, hnil]
      · simp only [History.isApprovalPromptRow, htools, hp]
        constructor
        · intro h _ _
          exact (h.sendable _ (List.mem_singleton_self _)).1 rfl
        · intro h
          refine ⟨fun m hm => ?_, .plain .nil⟩
          rw [List.mem_singleton.1 hm]
          exact ⟨fun _ => h hd (by simp), List.nodup_nil⟩
    · have htools : History.parseToolInteractions env msg.toolInteractionsJson ≠ [] := fun hnil => ht (List.isEmpty_iff.2 hnil)
      rw [if_pos ht]
      simp only [conversation_expanded_iff htools, History.isApprovalPromptRow, ht]
      simp [hd]

/-- the messages of rows start with none that answers -/
theorem opens_rendered (pre rows : List StoredMessage) :
    Exchange.Opens ((History.storedMessagesToAgentMessages env rows tzName pre).map item) := by
  intro i hi
  rw [List.head?_map] at hi
  obtain ⟨m, hm, rfl⟩ := Option.map_eq_some_iff.1 hi
  obtain ⟨q, hq⟩ := History.head_convert_seq env tzName pre rows m hm
  rintro ⟨key, hkey⟩
  obtain ⟨content, isError, rfl⟩ := toolResult_of_answer hkey
  simp [AgentMessage.seq?] at hq

/-- every row can be sent, after the rows before it -/
def RowsSend (pre rows : List StoredMessage) : Prop :=
  ∀ before msg after, rows = before ++ msg :: after → RowSends env tzName (History.stateAfter env (pre ++ before)) msg

theorem rowsSend_cons (pre : List StoredMessage) (msg : StoredMessage) (rows : List StoredMessage) :
    RowsSend env tzName pre (msg :: rows) ↔
      RowSends env tzName (History.stateAfter env pre) msg ∧ RowsSend env tzName (pre ++ [msg]) rows := by
  constructor
  · intro h
    refine ⟨by simpa using h [] msg rows rfl, fun before m after heq => ?_⟩
    have hlater := h (msg :: before) m after (by rw [heq, List.cons_append])
    rwa [← List.singleton_append, ← List.append_assoc] at hlater
  · intro h before m after heq
    rcases List.cons_eq_append_iff.1 heq with ⟨rfl, hm⟩ | ⟨before, rfl, hrows⟩
    · obtain ⟨rfl, -⟩ := List.cons.inj hm
      rw [List.append_nil]
      exact h.1
    · have hlater := h.2 before m after hrows
      rwa [List.append_assoc] at hlater

theorem rowsSend_drop {pre dropped kept : List StoredMessage} (h : RowsSend env tzName pre (dropped ++ kept)) :
    RowsSend env tzName (pre ++ dropped) kept := by
  intro before msg after heq
  have hlater := h (dropped ++ before) msg after (by rw [heq, List.append_assoc])
  rwa [← List.append_assoc] at hlater

/-- one more row in front -/
theorem convert_cons (pre : List StoredMessage) (msg : StoredMessage) (rows : List StoredMessage) :
    History.storedMessagesToAgentMessages env (msg :: rows) tzName pre =
      (History.converter env tzName).emit (History.stateAfter env pre) msg ++
        History.storedMessagesToAgentMessages env rows tzName (pre ++ [msg]) := by
  rw [← List.singleton_append, History.convert_append]
  simp [History.storedMessagesToAgentMessages]

theorem conversation_rows {pre rows : List StoredMessage} (h : RowsSend env tzName pre rows) :
    Conversation (History.storedMessagesToAgentMessages env rows tzName pre) := by
  induction rows generalizing pre with
  | nil => exact ⟨by simp [History.storedMessagesToAgentMessages], .nil⟩
  | cons msg rows ih =>
    obtain ⟨hmsg, hrows⟩ := (rowsSend_cons env tzName pre msg rows).1 h
    rw [convert_cons]
    exact ((conversation_row_iff env tzName _ msg).2 hmsg).append (ih hrows)

/-- **Rendered rows are a conversation** exactly when every outbound row among them has a text and calls of different ids. -/
theorem rendered_conversation_iff (pre rows : List StoredMessage) :
    Conversation (History.storedMessagesToAgentMessages env rows tzName pre) ↔ RowsSend env tzName pre rows := by
  refine ⟨fun h => ?_, conversation_rows env tzName⟩
  induction rows generalizing pre with
  | nil => exact fun before msg after heq => by simp at heq
  | cons msg rows ih =>
    rw [convert_cons] at h
    have hsettled := h.settled
    rw [List.map_append] at hsettled
    obtain ⟨hfirst, hrest⟩ := hsettled.split (opens_rendered env tzName (pre ++ [msg]) rows)
    refine (rowsSend_cons env tzName pre msg rows).2 ⟨(conversation_row_iff env tzName _ msg).1 ⟨fun m hm => ?_, hfirst⟩,
      ih (pre ++ [msg]) ⟨fun m hm => ?_, hrest⟩⟩
    · exact h.sendable m (List.mem_append_left _ hm)
    · exact h.sendable m (List.mem_append_right _ hm)

/-! ## Views -/

theorem stands_sameShape {m m' : AgentMessage} (h : History.SameShape m m') : Stands m m' := by
  cases m with
  | toolResult id content isError =>
    obtain ⟨content', rfl⟩ := h
    exact ⟨rfl, fun _ => trivial⟩
  | system content => exact (show m' = _ from h) ▸ Stands.refl _
  | user content seq => exact (show m' = _ from h) ▸ Stands.refl _
  | assistant content toolCalls seq => exact (show m' = _ from h) ▸ Stands.refl _

/-- **Views.** Whatever a view drops and stubs of rows that can be sent. -/
theorem conversation_view {c : History.Ctx} {rows preceding : List StoredMessage} {v : History.HistoryView}
    (h : History.IsRender c rows preceding v) (hrows : RowsSend c.env c.tzName preceding rows) :
    Conversation v.messages := by
  obtain ⟨kept, rfl, hshape⟩ := h.shapeKept
  exact (conversation_rows c.env c.tzName (rowsSend_drop c.env c.tzName hrows)).replaced
    (hshape.imp fun _ _ => stands_sameShape)

end

end Clawbolt.AgentLoop
