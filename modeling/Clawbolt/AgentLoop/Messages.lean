/-
The messages of a request (`messages_to_messages_api` and the `to_dict` methods of agent/messages.py).

A system message is passed on its own; the results that follow one another become one user message. A `Conversation` is a
list of the loop's messages in which every message has something to send and every tool call is answered by the results
right after it.

- `wellFormed_of_conversation`: a conversation is sent as well-formed messages;
- `conversation_trim`: trimming a conversation leaves one.
-/
import Mathlib.Tactic
import Clawbolt.Core.Exchange
import Clawbolt.History.Trim

namespace Clawbolt.AgentLoop

open Text (Str)
open History (AgentMessage Args Env Settings ToolCallRequest trimMessages)
open Exchange (Item Settled TakesAnswers)

/-! ## Model -/

inductive Role where
  | user
  | assistant
deriving DecidableEq, Repr

inductive Block where
  | text (text : Str)
  | toolUse (id name : Str) (input : Args)
  | toolResult (toolUseId content : Str) (isError : Bool)
deriving DecidableEq, Repr

inductive Content where
  | text (text : Str)
  | blocks (l : List Block)
deriving DecidableEq, Repr

/-- a message of the Messages API -/
structure ApiMessage where
  role : Role
  content : Content
deriving DecidableEq, Repr

/-- the content of an assistant message: no text block for an empty text -/
def assistantBlocks (content : Option Str) (toolCalls : List ToolCallRequest) : List Block :=
  (if content.getD [] = [] then [] else [.text (content.getD [])]) ++
    toolCalls.map fun tc => .toolUse tc.id tc.name tc.arguments

/-- what the loop of `messages_to_messages_api` holds -/
structure Converting where
  system : Option Str
  result : List ApiMessage
  pendingToolResults : List Block

/-- `_flush_tool_results` -/
def Converting.flush (c : Converting) : Converting :=
  if c.pendingToolResults = [] then c
  else { c with result := c.result ++ [⟨.user, .blocks c.pendingToolResults⟩], pendingToolResults := [] }

def Converting.push (c : Converting) (m : ApiMessage) : Converting := { c.flush with result := c.flush.result ++ [m] }

def Converting.add (c : Converting) : AgentMessage → Converting
  | .system content => { c with system := some content }
  | .toolResult id content isError =>
    { c with pendingToolResults := c.pendingToolResults ++ [.toolResult id content isError] }
  | .user content _ => c.push ⟨.user, .text content⟩
  | .assistant content toolCalls _ => c.push ⟨.assistant, .blocks (assistantBlocks content toolCalls)⟩

def messagesToMessagesApi (messages : List AgentMessage) : Option Str × List ApiMessage :=
  let c := (messages.foldl Converting.add ⟨none, [], []⟩).flush
  (c.system, c.result)

/-! ## Well-formed requests -/

def ApiMessage.HasContent (m : ApiMessage) : Prop := m.content ≠ .text [] ∧ m.content ≠ .blocks []

def Block.toolUse? : Block → Option Str
  | .toolUse id _ _ => some id
  | _ => none

def Block.toolResult? : Block → Option Str
  | .toolResult id _ _ => some id
  | _ => none

def Content.blockList : Content → List Block
  | .text _ => []
  | .blocks l => l

/-- the ids of the `tool_use` blocks -/
def ApiMessage.toolUses (m : ApiMessage) : List Str := m.content.blockList.filterMap Block.toolUse?

/-- the ids of the `tool_result` blocks -/
def ApiMessage.toolResults (m : ApiMessage) : List Str := m.content.blockList.filterMap Block.toolResult?

/-- no message is empty, every `tool_use` is answered by one `tool_result` of the user message after it, and every
`tool_result` answers a `tool_use` of the assistant message before it -/
structure WellFormed (ms : List ApiMessage) : Prop where
  content : ∀ m ∈ ms, m.HasContent
  answered : ∀ pre m post, ms = pre ++ m :: post → ∀ id ∈ m.toolUses,
    ∃ next rest, post = next :: rest ∧ next.role = .user ∧ next.toolResults.count id = 1
  asked : ∀ pre m post, ms = pre ++ m :: post → ∀ id ∈ m.toolResults,
    ∃ init prev, pre = init ++ [prev] ∧ prev.role = .assistant ∧ id ∈ prev.toolUses

/-- what well-formed messages are made of -/
inductive Exchanged : List ApiMessage → Prop where
  | nil : Exchanged []
  | plain {m : ApiMessage} {ms : List ApiMessage} : m.HasContent → m.toolUses = [] → m.toolResults = [] → Exchanged ms →
      Exchanged (m :: ms)
  | call {m r : ApiMessage} {ms : List ApiMessage} : m.HasContent → m.role = .assistant → m.toolResults = [] →
      m.toolUses.Nodup → r.HasContent → r.role = .user → r.toolUses = [] → r.toolResults.Perm m.toolUses → Exchanged ms →
      Exchanged (m :: r :: ms)

/-- where a message of a list stands: in front, or after it -/
theorem cut_cons {m x : ApiMessage} {ms pre post : List ApiMessage} (h : m :: ms = pre ++ x :: post) :
    (pre = [] ∧ x = m ∧ post = ms) ∨ ∃ init, pre = m :: init ∧ ms = init ++ x :: post := by
  rcases List.cons_eq_append_iff.1 h with ⟨hpre, hx⟩ | ⟨init, hpre, hms⟩
  · obtain ⟨hx, hpost⟩ := List.cons.inj hx
    exact Or.inl ⟨hpre, hx, hpost⟩
  · exact Or.inr ⟨init, hpre, hms⟩

/-- one more message in front, which neither calls nor answers -/
theorem WellFormed.plain {m : ApiMessage} {ms : List ApiMessage} (hm : m.HasContent) (huses : m.toolUses = [])
    (hresults : m.toolResults = []) (h : WellFormed ms) : WellFormed (m :: ms) where
  content := List.forall_mem_cons.2 ⟨hm, h.content⟩
  answered := by
    intro pre x post heq id hid
    rcases cut_cons heq with ⟨-, rfl, -⟩ | ⟨init, -, hms⟩
    · simp [huses] at hid
    · exact h.answered init x post hms id hid
  asked := by
    intro pre x post heq id hid
    rcases cut_cons heq with ⟨-, rfl, -⟩ | ⟨init, rfl, hms⟩
    · simp [hresults] at hid
    · obtain ⟨before, prev, rfl, hprev⟩ := h.asked init x post hms id hid
      exact ⟨m :: before, prev, rfl, hprev⟩

/-- one more call and its results in front -/
theorem WellFormed.call {m r : ApiMessage} {ms : List ApiMessage} (hm : m.HasContent) (hrole : m.role = .assistant)
    (hresults : m.toolResults = []) (hnodup : m.toolUses.Nodup) (hr : r.HasContent) (hruser : r.role = .user)
    (huses : r.toolUses = []) (hperm : r.toolResults.Perm m.toolUses) (h : WellFormed ms) :
    WellFormed (m :: r :: ms) where
  content := List.forall_mem_cons.2 ⟨hm, List.forall_mem_cons.2 ⟨hr, h.content⟩⟩
  answered := by
    intro pre x post heq id hid
    rcases cut_cons heq with ⟨-, rfl, rfl⟩ | ⟨init, -, htail⟩
    · exact ⟨r, ms, rfl, hruser, (hperm.count_eq id).trans (List.count_eq_one_of_mem hnodup hid)⟩
    · rcases cut_cons htail with ⟨-, rfl, -⟩ | ⟨init', -, hms⟩
      · simp [huses] at hid
      · exact h.answered init' x post hms id hid
  asked := by
    intro pre x post heq id hid
    rcases cut_cons heq with ⟨-, rfl, -⟩ | ⟨init, rfl, htail⟩
    · simp [hresults] at hid
    · rcases cut_cons htail with ⟨rfl, rfl, -⟩ | ⟨init', rfl, hms⟩
      · exact ⟨[], m, rfl, hrole, hperm.mem_iff.1 hid⟩
      · obtain ⟨before, prev, rfl, hprev⟩ := h.asked init' x post hms id hid
        exact ⟨m :: r :: before, prev, rfl, hprev⟩

theorem Exchanged.wellFormed {ms : List ApiMessage} (h : Exchanged ms) : WellFormed ms := by
  induction h with
  | nil => exact ⟨by simp, by simp, by simp⟩
  | plain hm huses hresults _ ih => exact ih.plain hm huses hresults
  | call hm hrole hresults hnodup hr hruser huses hperm _ ih =>
    exact ih.call hm hrole hresults hnodup hr hruser huses hperm

/-! ## Conversations -/

/-- what a message asks or answers -/
def item : AgentMessage → Item Str
  | .assistant _ (tc :: tcs) _ => .call ((tc :: tcs).map ToolCallRequest.id)
  | .toolResult id _ _ => .answer id
  | _ => .plain

theorem toolResult_of_answer {m : AgentMessage} {id : Str} (h : item m = .answer id) :
    ∃ content isError, m = .toolResult id content isError := by
  cases m with
  | toolResult id' content isError =>
    obtain rfl := Item.answer.inj h
    exact ⟨content, isError, rfl⟩
  | assistant content toolCalls seq => cases toolCalls <;> simp [item] at h
  | system content => simp [item] at h
  | user content seq => simp [item] at h

/-- the message has something to send, and its tool calls have different ids -/
def Sendable : AgentMessage → Prop
  | .system _ => False
  | .user content _ => content ≠ []
  | .assistant content toolCalls _ =>
    (toolCalls = [] → content.getD [] ≠ []) ∧ (toolCalls.map ToolCallRequest.id).Nodup
  | .toolResult .. => True

structure Conversation (messages : List AgentMessage) : Prop where
  sendable : ∀ m ∈ messages, Sendable m
  settled : Settled (messages.map item)

theorem Conversation.append {a b : List AgentMessage} (ha : Conversation a) (hb : Conversation b) :
    Conversation (a ++ b) where
  sendable := fun m hm => (List.mem_append.1 hm).elim (ha.sendable m) (hb.sendable m)
  settled := by
    rw [List.map_append]
    exact ha.settled.append hb.settled

theorem conversation_users {ms : List AgentMessage} (h : ∀ m ∈ ms, ∃ content seq, m = .user content seq ∧ content ≠ []) :
    Conversation ms := by
  induction ms with
  | nil => exact ⟨by simp, .nil⟩
  | cons m ms ih =>
    obtain ⟨⟨content, seq, rfl, hcontent⟩, hrest⟩ := List.forall_mem_cons.1 h
    exact ⟨List.forall_mem_cons.2 ⟨hcontent, (ih hrest).sendable⟩, .plain (ih hrest).settled⟩

theorem conversation_user {content : Str} (h : content ≠ []) (seq : Option ℕ) : Conversation [.user content seq] :=
  conversation_users fun _ hm => ⟨content, seq, List.mem_singleton.1 hm, h⟩

/-- a message that asks and answers the same as `m`, and has something to send if `m` has -/
def Stands (m m' : AgentMessage) : Prop := item m' = item m ∧ (Sendable m → Sendable m')

theorem Stands.refl (m : AgentMessage) : Stands m m := ⟨rfl, id⟩

/-- a conversation in which messages were replaced -/
theorem Conversation.replaced {a b : List AgentMessage} (ha : Conversation a) (h : List.Forall₂ Stands a b) :
    Conversation b := by
  obtain ⟨hsend, hsettled⟩ := ha
  constructor
  · clear hsettled
    induction h with
    | nil => simp
    | cons hm _ ih =>
      obtain ⟨hfirst, hrest⟩ := List.forall_mem_cons.1 hsend
      exact List.forall_mem_cons.2 ⟨hm.2 hfirst, ih hrest⟩
  · have hitems : b.map item = a.map item := by
      clear hsend hsettled
      induction h with
      | nil => rfl
      | cons hm _ ih => rw [List.map_cons, List.map_cons, hm.1, ih]
    rw [hitems]
    exact hsettled

/-! ## What a conversation is sent as -/

section

variable (c : Converting)

theorem flush_of_nil {c : Converting} (h : c.pendingToolResults = []) : c.flush = c := if_pos h

@[simp] theorem flush_pending : c.flush.pendingToolResults = [] := by
  unfold Converting.flush
  split_ifs with h
  · exact h
  · rfl

@[simp] theorem push_pending (m : ApiMessage) : (c.push m).pendingToolResults = [] := flush_pending c

theorem push_result_of_nil {c : Converting} (h : c.pendingToolResults = []) (m : ApiMessage) :
    (c.push m).result = c.result ++ [m] := by
  rw [Converting.push, flush_of_nil h]

theorem push_flush (m : ApiMessage) : c.flush.push m = c.push m := by
  unfold Converting.push
  rw [flush_of_nil (flush_pending c)]

/-- a message that is neither a result nor the system prompt flushes the results first -/
theorem add_flush {m : AgentMessage} (hm : Sendable m) (hanswer : ¬Exchange.IsAnswer (item m)) :
    c.flush.add m = c.add m := by
  cases m with
  | system content => exact absurd hm id
  | user content seq => exact push_flush c _
  | assistant content toolCalls seq => exact push_flush c _
  | toolResult id content isError => exact absurd ⟨id, rfl⟩ hanswer

/-- so do the messages of a conversation -/
theorem foldl_flush {l : List AgentMessage} (hs : ∀ m ∈ l, Sendable m) (hopen : Exchange.Opens (l.map item)) :
    (l.foldl Converting.add c.flush).flush = (l.foldl Converting.add c).flush := by
  cases l with
  | nil => exact flush_of_nil (flush_pending c)
  | cons m l =>
    have hm := add_flush c (hs m List.mem_cons_self) (hopen (item m) rfl)
    rw [List.foldl_cons, List.foldl_cons, hm]

/-- the results of a round wait for the next message -/
theorem foldl_results {l : List AgentMessage} {ids : List Str} (h : l.map item = ids.map .answer) :
    ∃ blocks, l.foldl Converting.add c = { c with pendingToolResults := c.pendingToolResults ++ blocks } ∧
      blocks.filterMap Block.toolResult? = ids ∧ blocks.filterMap Block.toolUse? = [] := by
  induction l generalizing c ids with
  | nil =>
    obtain rfl : ids = [] := by simpa using h.symm
    exact ⟨[], by simp, rfl, rfl⟩
  | cons m l ih =>
    obtain ⟨id, ids, rfl, hm, hl⟩ := List.map_eq_cons_iff.1 h.symm
    obtain ⟨content, isError, rfl⟩ := toolResult_of_answer hm.symm
    obtain ⟨blocks, hfold, hresults, huses⟩ := ih (c.add (.toolResult id content isError)) hl.symm
    refine ⟨.toolResult id content isError :: blocks, ?_, ?_, ?_⟩
    · rw [List.foldl_cons, hfold]
      simp [Converting.add]
    · rw [← hresults]
      rfl
    · rw [← huses]
      rfl

end

/-- a message that neither calls nor answers has content -/
theorem plain_sent {m : AgentMessage} (hs : Sendable m) (hm : item m = .plain) :
    ∃ sent : ApiMessage, (∀ c : Converting, c.add m = c.push sent) ∧ sent.HasContent ∧ sent.toolUses = [] ∧
      sent.toolResults = [] := by
  cases m with
  | system content => exact absurd hs id
  | toolResult id content isError => simp [item] at hm
  | user content seq =>
    exact ⟨⟨.user, .text content⟩, fun _ => rfl, ⟨fun h => hs (Content.text.inj h), by simp⟩, rfl, rfl⟩
  | assistant content toolCalls seq =>
    cases toolCalls with
    | cons tc tcs => simp [item] at hm
    | nil =>
      have hblocks : assistantBlocks content [] = [.text (content.getD [])] := by
        simp [assistantBlocks, hs.1 rfl]
      refine ⟨⟨.assistant, .blocks (assistantBlocks content [])⟩, fun _ => rfl, ⟨by simp, ?_⟩, ?_, ?_⟩
      · simp [hblocks]
      · simp [ApiMessage.toolUses, Content.blockList, hblocks, Block.toolUse?]
      · simp [ApiMessage.toolResults, Content.blockList, hblocks, Block.toolResult?]

theorem assistantBlocks_uses (content : Option Str) (toolCalls : List ToolCallRequest) :
    (assistantBlocks content toolCalls).filterMap Block.toolUse? = toolCalls.map ToolCallRequest.id := by
  have htext : ((if content.getD [] = [] then [] else [.text (content.getD [])]) : List Block).filterMap Block.toolUse? =
      [] := by
    split_ifs <;> rfl
  rw [assistantBlocks, List.filterMap_append, htext, List.nil_append, List.filterMap_map]
  exact List.filterMap_eq_map.symm ▸ rfl

theorem assistantBlocks_results (content : Option Str) (toolCalls : List ToolCallRequest) :
    (assistantBlocks content toolCalls).filterMap Block.toolResult? = [] := by
  refine List.filterMap_eq_nil_iff.2 fun b hb => ?_
  rcases List.mem_append.1 hb with hb | hb
  · split_ifs at hb
    · simp at hb
    · obtain rfl := List.mem_singleton.1 hb
      rfl
  · obtain ⟨tc, -, rfl⟩ := List.mem_map.1 hb
    rfl

/-- a message with calls, sent -/
theorem call_sent {m : AgentMessage} {ids : List Str} (hs : Sendable m) (hm : item m = .call ids) :
    ids ≠ [] ∧ ∃ sent : ApiMessage, (∀ c : Converting, c.add m = c.push sent) ∧ sent.HasContent ∧ sent.role = .assistant ∧
      sent.toolResults = [] ∧ sent.toolUses = ids ∧ ids.Nodup := by
  cases m with
  | system content => exact absurd hs id
  | toolResult id content isError => simp [item] at hm
  | user content seq => simp [item] at hm
  | assistant content toolCalls seq =>
    cases toolCalls with
    | nil => simp [item] at hm
    | cons tc tcs =>
      obtain rfl := Item.call.inj hm
      refine ⟨by simp, ⟨.assistant, .blocks (assistantBlocks content (tc :: tcs))⟩, fun _ => rfl, ⟨by simp, ?_⟩, rfl,
        assistantBlocks_results _ _, assistantBlocks_uses _ _, hs.2⟩
      simp [assistantBlocks]

theorem exchanged_convert {l : List AgentMessage} (h : Settled (l.map item)) (hs : ∀ m ∈ l, Sendable m) {c : Converting}
    (hc : c.pendingToolResults = []) :
    ∃ out, (l.foldl Converting.add c).flush.result = c.result ++ out ∧ Exchanged out := by
  generalize hitems : l.map item = items at h
  induction h generalizing l c with
  | nil =>
    obtain rfl := List.map_eq_nil_iff.1 hitems
    exact ⟨[], by simp [flush_of_nil hc], .nil⟩
  | plain _ ih =>
    obtain ⟨m, l, rfl, hm, rfl⟩ := List.map_eq_cons_iff.1 hitems
    obtain ⟨hfirst, hrest⟩ := List.forall_mem_cons.1 hs
    obtain ⟨sent, hadd, hcontent, huses, hresults⟩ := plain_sent hfirst hm
    obtain ⟨out, hout, hex⟩ := ih hrest (push_pending c sent) rfl
    refine ⟨sent :: out, ?_, .plain hcontent huses hresults hex⟩
    rw [List.foldl_cons, hadd, hout, push_result_of_nil hc, List.append_assoc, List.singleton_append]
  | @call ids answers rest hp hsettled ih =>
    obtain ⟨m, l, rfl, hm, htail⟩ := List.map_eq_cons_iff.1 hitems
    obtain ⟨results, l, rfl, rfl, rfl⟩ := List.map_eq_append_iff.1 htail
    obtain ⟨hfirst, hrest⟩ := List.forall_mem_cons.1 hs
    obtain ⟨hne, sent, hadd, hcontent, hrole, hresults, huses, hnodup⟩ := call_sent hfirst hm
    -- the results, in the order in which they come
    obtain ⟨ids', hids', hperm⟩ : ∃ ids' : List Str, results.map item = ids'.map .answer ∧ ids'.Perm ids := by
      have hcomp := congrFun (congrFun (List.eq_map_comp_perm (Item.answer (κ := Str))) (results.map item)) ids
      exact hcomp.mpr hp
    obtain ⟨blocks, hfold, hblocks, hnouse⟩ := foldl_results (c.push sent) hids'
    have hne' : blocks ≠ [] := by
      rintro rfl
      obtain rfl : ids' = [] := hblocks.symm
      exact hne (List.nil_perm.1 hperm)
    have hflush : ({ c.push sent with pendingToolResults := (c.push sent).pendingToolResults ++ blocks } :
        Converting).flush = { c.push sent with result := (c.push sent).result ++ [⟨.user, .blocks blocks⟩] } := by
      simp [Converting.flush, hne']
    obtain ⟨out, hout, hex⟩ := ih (l := l) (c := { c.push sent with
      result := (c.push sent).result ++ [⟨.user, .blocks blocks⟩] }) (fun x hx => hrest x (List.mem_append_right _ hx))
      (push_pending c sent) rfl
    refine ⟨sent :: ⟨.user, .blocks blocks⟩ :: out, ?_, .call hcontent hrole hresults (huses ▸ hnodup) ⟨by simp, ?_⟩ rfl
      hnouse ?_ hex⟩
    · rw [List.foldl_cons, hadd, List.foldl_append, hfold,
        ← foldl_flush _ (fun x hx => hrest x (List.mem_append_right _ hx)) hsettled.opens, hflush, hout]
      simp [push_result_of_nil hc]
    · simpa using hne'
    · have heq : (ApiMessage.mk .user (.blocks blocks)).toolResults = ids' := hblocks
      rw [heq, huses]
      exact hperm

/-- **Conversations are well-formed requests.** -/
theorem wellFormed_of_conversation {messages : List AgentMessage} (h : Conversation messages) (system : Str) :
    WellFormed (messagesToMessagesApi (.system system :: messages)).2 := by
  obtain ⟨out, hout, hex⟩ := exchanged_convert h.settled h.sendable (c := ⟨some system, [], []⟩) rfl
  rw [List.nil_append] at hout
  have hresult : (messagesToMessagesApi (.system system :: messages)).2 = out := hout
  rw [hresult]
  exact hex.wellFormed

/-! ## Trims -/

/-- the blocks of a trim take the results of their calls -/
theorem takesAnswers_joinsBlock : TakesAnswers item History.joinsBlock where
  starts := by
    intro m ids hm g
    cases m with
    | assistant content toolCalls seq =>
      cases toolCalls with
      | nil => simp [item] at hm
      | cons tc tcs =>
        unfold History.joinsBlock
        split
        · simp
        · rfl
    | system content => simp [item] at hm
    | user content seq => simp [item] at hm
    | toolResult id content isError => simp [item] at hm
  joins := by
    intro m ids done r id hm hdone hr
    obtain ⟨content, isError, rfl⟩ := toolResult_of_answer hr
    cases m with
    | assistant content toolCalls seq =>
      cases toolCalls with
      | nil => simp [item] at hm
      | cons tc tcs =>
        simp only [History.joinsBlock, Bool.and_true, List.all_eq_true]
        intro x hx
        obtain ⟨id', hx'⟩ := hdone x hx
        obtain ⟨_, _, rfl⟩ := toolResult_of_answer hx'
        rfl
    | system content => simp [item] at hm
    | user content seq => simp [item] at hm
    | toolResult id content isError => simp [item] at hm

theorem stands_note (note content : Str) (seq : Option ℕ) :
    Stands (.user content seq) (.user (note ++ "\n\n".toList ++ content) seq) :=
  ⟨rfl, fun _ h => by simp at h⟩

theorem prefixUser_stands {note : Str} {l l' : List AgentMessage} (h : History.prefixUser note l = some l') :
    List.Forall₂ Stands l l' := by
  induction l generalizing l' with
  | nil => simp [History.prefixUser] at h
  | cons m l ih =>
    have hskip : ∀ {l'}, (History.prefixUser note l).map (m :: ·) = some l' → List.Forall₂ Stands (m :: l) l' := by
      intro l' h
      obtain ⟨rest, hrest, rfl⟩ := Option.map_eq_some_iff.1 h
      exact .cons (Stands.refl m) (ih hrest)
    cases m with
    | user content seq =>
      obtain rfl := Option.some.inj h
      exact .cons (stands_note note content seq) (List.forall₂_same.2 fun m _ => Stands.refl m)
    | system content => exact hskip h
    | assistant content toolCalls seq => exact hskip h
    | toolResult id content isError => exact hskip h

/-- the summary goes on a user message, or becomes one -/
theorem conversation_attachSummary {kept : List AgentMessage} (h : Conversation kept) (first : AgentMessage)
    (summary : Str) : ∃ kept', History.attachSummary (first :: kept) summary = first :: kept' ∧ Conversation kept' := by
  unfold History.attachSummary
  dsimp only
  split
  · rename_i reversed hreversed
    exact ⟨reversed.reverse, rfl, h.replaced (List.forall₂_reverse_iff.1 (by simpa using prefixUser_stands hreversed))⟩
  · refine ⟨_, rfl, ⟨List.forall_mem_cons.2 ⟨?_, h.sendable⟩, .plain h.settled⟩⟩
    intro hnil
    simp at hnil

/-- a trim leaves the prompt, or cuts its body between two blocks: the first part is dropped, and the last block stays -/
theorem trim_cut (env : Env) (cfg : Settings) (first : AgentMessage) (body : List AgentMessage) (inputTokens : Option ℕ) :
    ∃ k, k ≤ (History.blocksOf body).length - 1 ∧
      let dropped := ((History.blocksOf body).take k).flatten
      let kept := ((History.blocksOf body).drop k).flatten
      dropped ++ kept = body ∧
      trimMessages env cfg (first :: body) inputTokens =
        ⟨if dropped = [] then first :: kept
          else History.attachSummary (first :: kept) (History.summarizeDroppedMessages dropped), dropped⟩ := by
  have hflat : ∀ k, ((History.blocksOf body).take k).flatten ++ ((History.blocksOf body).drop k).flatten = body := by
    intro k
    rw [← List.flatten_append, List.take_append_drop]
    exact Groups.flatten_group _ body
  by_cases hover : (History.TrimBudget.forPrompt env cfg (first :: body) inputTokens).overTrigger env (first :: body) = false
  · refine ⟨0, Nat.zero_le _, hflat 0, ?_⟩
    have hall := hflat 0
    simp only [List.take_zero, List.flatten_nil, List.nil_append, List.drop_zero] at hall
    unfold trimMessages
    simp [hover, hall]
  · obtain ⟨k, hk, hdrop⟩ := History.dropBlocks_take (History.TrimBudget.forPrompt env cfg (first :: body) inputTokens)
      env first (History.blocksOf body)
    refine ⟨k, hk, hflat k, ?_⟩
    unfold trimMessages
    dsimp only
    rw [if_neg hover, hdrop]

/-- **A trimmed conversation is a conversation.** -/
theorem conversation_trim (env : Env) (cfg : Settings) (first : AgentMessage) {body : List AgentMessage}
    (h : Conversation body) (inputTokens : Option ℕ) :
    ∃ body', (trimMessages env cfg (first :: body) inputTokens).messages = first :: body' ∧ Conversation body' := by
  obtain ⟨k, -, hbody, htrim⟩ := trim_cut env cfg first body inputTokens
  have hkept : Conversation ((History.blocksOf body).drop k).flatten := by
    refine ⟨fun m hm => h.sendable m ?_, Exchange.settled_drop takesAnswers_joinsBlock h.settled k⟩
    rw [← hbody]
    exact List.mem_append_right _ hm
  rw [htrim]
  dsimp only
  split_ifs
  · exact ⟨_, rfl, hkept⟩
  · exact conversation_attachSummary hkept _ _

end Clawbolt.AgentLoop
