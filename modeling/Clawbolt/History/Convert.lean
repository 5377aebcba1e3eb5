/-
The conversion of stored rows to agent messages (`_stored_messages_to_agent_messages` and `_state_after` in
agent/context.py), as a pass over the rows. It carries the timestamp of the last visible message and whether the last row
was an approval prompt.

- `stateAfter_append`: the rows before a slice leave the state that converting them would have left, so a row converts the
  same whichever slice it is loaded in (`convert_append`);
- `emit_ne_nil_iff`: a row becomes a message exactly when `isVisibleRow` says so;
- `seq_of_emit`: the messages of a row that carry a seq carry the row's, and the first one does (`head_emit_seq`).
-/
import Mathlib.Tactic
import Clawbolt.Core.Passes
import Clawbolt.History.Message

namespace Clawbolt.History

open Text (Str)

/-! ## Model -/

/-- what the conversion carries from row to row -/
structure Carry where
  prevIso : Str
  lastWasApprovalPrompt : Bool
deriving DecidableEq, Repr

/-- the loop body: the messages of a row, and what is carried on -/
def convertRow (env : Env) (tzName : Str) (c : Carry) (msg : StoredMessage) : List AgentMessage × Carry :=
  let content := rowContent msg
  let text := withMarker (timeMarker env c.prevIso msg.timestamp tzName) content
  if msg.direction = .inbound then
    if Text.strip content = [] then ([], { c with lastWasApprovalPrompt := false })
    else if c.lastWasApprovalPrompt ∧ (parseApprovalResponse env content).isSome then
      ([], { c with lastWasApprovalPrompt := false })
    else ([.user text (some msg.seq)], ⟨msg.timestamp, false⟩)
  else
    let toolInteractions := parseToolInteractions env msg.toolInteractionsJson
    if ¬ toolInteractions.isEmpty then
      (expandOutboundWithTools toolInteractions text (some msg.seq), ⟨msg.timestamp, false⟩)
    else if isApprovalPrompt content then ([], { c with lastWasApprovalPrompt := true })
    else ([.assistant (some text) [] (some msg.seq)], ⟨msg.timestamp, false⟩)

/-- the conversion of a list of rows -/
def converter (env : Env) (tzName : Str) : Passes.Pass Carry StoredMessage AgentMessage :=
  ⟨fun c msg => (convertRow env tzName c msg).1, fun c msg => (convertRow env tzName c msg).2⟩

/-- the timestamp of the last visible row; the rows are given last first -/
def lastVisibleTimestamp (env : Env) : List StoredMessage → Str
  | [] => []
  | msg :: before =>
    if isVisibleRow env msg (before.head?.any (isApprovalPromptRow env)) then msg.timestamp
    else lastVisibleTimestamp env before

/-- `_state_after` -/
def stateAfter (env : Env) (preceding : List StoredMessage) : Carry :=
  ⟨lastVisibleTimestamp env preceding.reverse, preceding.getLast?.any (isApprovalPromptRow env)⟩

/-- `_stored_messages_to_agent_messages` -/
def storedMessagesToAgentMessages (env : Env) (messages : List StoredMessage) (tzName : Str)
    (preceding : List StoredMessage) : List AgentMessage :=
  (converter env tzName).out (stateAfter env preceding) messages

/-! ## One row -/

section

variable (env : Env) (tzName : Str) (c : Carry) (msg : StoredMessage)

/-- what a row emits and carries on, by whether it is visible -/
theorem convertRow_visible (h : isVisibleRow env msg c.lastWasApprovalPrompt = true) :
    (convertRow env tzName c msg).2 = ⟨msg.timestamp, false⟩ ∧
      ((convertRow env tzName c msg).1 =
          [.user (withMarker (timeMarker env c.prevIso msg.timestamp tzName) (rowContent msg)) (some msg.seq)] ∨
        (convertRow env tzName c msg).1 =
          expandOutboundWithTools (parseToolInteractions env msg.toolInteractionsJson)
            (withMarker (timeMarker env c.prevIso msg.timestamp tzName) (rowContent msg)) (some msg.seq) ∨
        (convertRow env tzName c msg).1 =
          [.assistant (some (withMarker (timeMarker env c.prevIso msg.timestamp tzName) (rowContent msg))) []
            (some msg.seq)]) := by
  unfold isVisibleRow isApprovalPromptRow at h
  unfold convertRow
  by_cases hd : msg.direction = .inbound
  · simp only [hd, if_true, Bool.and_eq_true, decide_eq_true_eq, Bool.not_eq_true', Bool.and_eq_false_iff] at h ⊢
    obtain ⟨hs, hp⟩ := h
    rw [if_neg hs, if_neg (by rintro ⟨h1, h2⟩; rcases hp with hp | hp <;> simp_all)]
    exact ⟨rfl, Or.inl rfl⟩
  · simp only [hd, if_false]
    split_ifs with ht hp
    · simp [hd, ht, hp] at h
    · exact ⟨rfl, Or.inr (Or.inr rfl)⟩
    · exact ⟨rfl, Or.inr (Or.inl rfl)⟩

theorem convertRow_hidden (h : isVisibleRow env msg c.lastWasApprovalPrompt = false) :
    (convertRow env tzName c msg).1 = [] ∧
      (convertRow env tzName c msg).2 = ⟨c.prevIso, isApprovalPromptRow env msg⟩ := by
  unfold isVisibleRow at h
  unfold convertRow
  by_cases hd : msg.direction = .inbound
  · simp only [hd, if_true] at h ⊢
    have hp : isApprovalPromptRow env msg = false := by simp [isApprovalPromptRow, hd]
    split_ifs with hs ha
    · simp [hp]
    · simp [hp]
    · simp_all
  · simp only [hd, if_false, Bool.not_eq_false'] at h ⊢
    have h' := h
    simp only [isApprovalPromptRow, Bool.and_eq_true] at h'
    obtain ⟨⟨-, ht⟩, hp⟩ := h'
    simp [ht, hp, h]

theorem emit_ne_nil_iff : (converter env tzName).emit c msg ≠ [] ↔ isVisibleRow env msg c.lastWasApprovalPrompt = true := by
  cases h : isVisibleRow env msg c.lastWasApprovalPrompt with
  | true =>
    obtain ⟨-, h1 | h1 | h1⟩ := convertRow_visible env tzName c msg h <;>
      simp [converter, h1, expandOutboundWithTools]
  | false => simp [converter, (convertRow_hidden env tzName c msg h).1]

theorem isApprovalPromptRow_of_visible {p : Bool} (h : isVisibleRow env msg p = true) :
    isApprovalPromptRow env msg = false := by
  unfold isVisibleRow at h
  by_cases hd : msg.direction = .inbound
  · simp [isApprovalPromptRow, hd]
  · simpa [hd] using h

/-- what a row carries on, in one equation -/
theorem next_eq : (converter env tzName).next c msg =
    ⟨if isVisibleRow env msg c.lastWasApprovalPrompt then msg.timestamp else c.prevIso, isApprovalPromptRow env msg⟩ := by
  cases h : isVisibleRow env msg c.lastWasApprovalPrompt with
  | true => simp [converter, (convertRow_visible env tzName c msg h).1, isApprovalPromptRow_of_visible env msg h]
  | false => simp [converter, (convertRow_hidden env tzName c msg h).2]

/-- a row's messages carry its seq, or none -/
theorem seq_of_emit {m : AgentMessage} (hm : m ∈ (converter env tzName).emit c msg) {q : ℕ} (hq : m.seq? = some q) :
    q = msg.seq := by
  cases h : isVisibleRow env msg c.lastWasApprovalPrompt with
  | false => simp [converter, (convertRow_hidden env tzName c msg h).1] at hm
  | true =>
    obtain ⟨-, h1 | h1 | h1⟩ := convertRow_visible env tzName c msg h <;>
      simp only [converter, h1, expandOutboundWithTools, List.cons_append, List.mem_cons, List.mem_append, List.mem_map,
        List.not_mem_nil, or_false] at hm
    · subst hm; simpa [AgentMessage.seq?, eq_comm] using hq
    · rcases hm with rfl | ⟨_, -, rfl⟩ | rfl <;> simp_all [AgentMessage.seq?]
    · subst hm; simpa [AgentMessage.seq?, eq_comm] using hq

/-- the first message of a row carries its seq -/
theorem head_emit_seq {m : AgentMessage} {ms : List AgentMessage} (hm : (converter env tzName).emit c msg = m :: ms) :
    m.seq? = some msg.seq := by
  have hv : isVisibleRow env msg c.lastWasApprovalPrompt = true := (emit_ne_nil_iff env tzName c msg).1 (by simp [hm])
  obtain ⟨-, h1 | h1 | h1⟩ := convertRow_visible env tzName c msg hv <;>
    simp only [converter, h1, expandOutboundWithTools, List.cons_append, List.cons.injEq] at hm <;>
    obtain ⟨rfl, -⟩ := hm <;> rfl

end

/-! ## Slices -/

section

variable (env : Env) (tzName : Str)

/-- **One more row before a slice.** The state before a slice is the one the conversion would have left. -/
theorem stateAfter_snoc (pre : List StoredMessage) (msg : StoredMessage) :
    stateAfter env (pre ++ [msg]) = (converter env tzName).next (stateAfter env pre) msg := by
  have hhead : pre.reverse.head?.any (isApprovalPromptRow env) = pre.getLast?.any (isApprovalPromptRow env) := by
    rw [List.head?_reverse]
  rw [next_eq]
  simp only [stateAfter, List.reverse_append, List.reverse_cons, List.reverse_nil, List.nil_append, List.cons_append,
    lastVisibleTimestamp, hhead, List.getLast?_append, List.getLast?_singleton, Option.some_or, Option.any_some]
  rfl

theorem stateAfter_append (pre rows : List StoredMessage) :
    stateAfter env (pre ++ rows) = (converter env tzName).after (stateAfter env pre) rows := by
  induction rows generalizing pre with
  | nil => simp
  | cons msg rows ih =>
    have h := ih (pre ++ [msg])
    rw [List.append_assoc, List.singleton_append] at h
    rw [h, stateAfter_snoc env tzName]
    rfl

/-- **A row converts the same in every slice.** The rows before it are converted with it or handed over as preceding. -/
theorem convert_append (pre a b : List StoredMessage) :
    storedMessagesToAgentMessages env (a ++ b) tzName pre =
      storedMessagesToAgentMessages env a tzName pre ++ storedMessagesToAgentMessages env b tzName (pre ++ a) := by
  unfold storedMessagesToAgentMessages
  rw [Passes.Pass.out_append, stateAfter_append env tzName]

/-- the rows of a list that become messages, after the rows before them -/
def rendering (env : Env) : List StoredMessage → List StoredMessage → List StoredMessage
  | _, [] => []
  | pre, msg :: rows =>
    (if isVisibleRow env msg (pre.getLast?.any (isApprovalPromptRow env)) then [msg] else []) ++
      rendering env (pre ++ [msg]) rows

theorem rendering_subset (pre rows : List StoredMessage) : ∀ r ∈ rendering env pre rows, r ∈ rows := by
  induction rows generalizing pre with
  | nil => simp [rendering]
  | cons msg rows ih =>
    intro r hr
    rcases List.mem_append.1 hr with hr | hr
    · split_ifs at hr <;> simp_all
    · exact List.mem_cons_of_mem _ (ih (pre ++ [msg]) r hr)

/-- the first message of a slice carries a seq -/
theorem head_convert_seq (pre rows : List StoredMessage) :
    ∀ m ∈ (storedMessagesToAgentMessages env rows tzName pre).head?, ∃ q, m.seq? = some q := by
  induction rows generalizing pre with
  | nil => simp [storedMessagesToAgentMessages]
  | cons msg rows ih =>
    intro m hm
    rw [← List.singleton_append, convert_append] at hm
    have hone : storedMessagesToAgentMessages env [msg] tzName pre =
        (converter env tzName).emit (stateAfter env pre) msg := by
      simp [storedMessagesToAgentMessages]
    rw [hone] at hm
    cases he : (converter env tzName).emit (stateAfter env pre) msg with
    | nil => rw [he, List.nil_append] at hm; exact ih (pre ++ [msg]) m hm
    | cons x ms =>
      rw [he] at hm
      simp only [List.cons_append, List.head?_cons, Option.mem_def, Option.some.injEq] at hm
      exact ⟨_, hm ▸ head_emit_seq env tzName _ msg he⟩

/-- **What the messages of a slice carry.** The seqs of the messages are the seqs of its visible rows. -/
theorem mem_convert_seq (pre rows : List StoredMessage) (q : ℕ) :
    (∃ m ∈ storedMessagesToAgentMessages env rows tzName pre, m.seq? = some q) ↔
      ∃ r ∈ rendering env pre rows, r.seq = q := by
  induction rows generalizing pre with
  | nil => simp [storedMessagesToAgentMessages, rendering]
  | cons msg rows ih =>
    have hsplit := convert_append env tzName pre [msg] rows
    rw [List.singleton_append] at hsplit
    have hone : storedMessagesToAgentMessages env [msg] tzName pre =
        (converter env tzName).emit (stateAfter env pre) msg := by
      simp [storedMessagesToAgentMessages]
    have hvis : (∃ m ∈ (converter env tzName).emit (stateAfter env pre) msg, m.seq? = some q) ↔
        isVisibleRow env msg (pre.getLast?.any (isApprovalPromptRow env)) = true ∧ msg.seq = q := by
      constructor
      · rintro ⟨m, hm, hq⟩
        refine ⟨(emit_ne_nil_iff env tzName _ msg).1 (List.ne_nil_of_mem hm), (seq_of_emit env tzName _ msg hm hq).symm⟩
      · rintro ⟨hv, rfl⟩
        obtain ⟨m, ms, hms⟩ := List.exists_cons_of_ne_nil
          ((emit_ne_nil_iff env tzName (stateAfter env pre) msg).2 hv)
        exact ⟨m, by simp [hms], head_emit_seq env tzName _ msg hms⟩
    simp only [hsplit, hone, List.mem_append, or_and_right, exists_or, ih, hvis, rendering]
    refine or_congr_left ?_
    split_ifs with hv <;> simp [hv]

end

end Clawbolt.History
