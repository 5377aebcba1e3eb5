/-
The plain trim (agent/trimming.py): block-wise dropping of the oldest messages of a prompt that is over the trigger.

A prompt is the system message, the history and the current turn. Blocks are dropped from the front until the prompt is
within the target, and the last block always stays; the summary of what was dropped goes on the newest user turn.
`int(input_tokens * n / prompt_chars)` is division in `ℕ`, which it equals for every product below 2^53.

- `dropBlocks_fits`: where the loop stops, the prompt fits or one block is left;
- `trim_dropped_history`: what a trim drops is the front of the history, whatever its budget;
- `trim_all`: a prompt can be so large that all of its history goes.
-/
import Mathlib
import Clawbolt.Core.Groups
import Clawbolt.History.Epoch

namespace Clawbolt.History

open Text (Str)

/-! ## The summary of dropped messages -/

/-- `_SUMMARY_MAX_CHARS` -/
def summaryMaxChars : ℕ := 500

/-- `content.split("\n", 1)[0][:80]` -/
def firstLine (content : Str) : Str := (content.takeWhile (· ≠ '\n')).take 80

def userSnippets (dropped : List AgentMessage) : List Str :=
  dropped.filterMap fun m => match m with
    | .user content _ => if content = [] then none else some (firstLine content)
    | _ => none

def assistantSnippets (dropped : List AgentMessage) : List Str :=
  dropped.filterMap fun m => match m with
    | .assistant (some content) _ _ => if content = [] then none else some (firstLine content)
    | _ => none

def toolCallsMade (dropped : List AgentMessage) : List Str :=
  dropped.flatMap fun m => match m with
    | .assistant _ toolCalls _ => toolCalls.map ToolCallRequest.name
    | _ => []

/-- `summarize_dropped_messages` -/
def summarizeDroppedMessages (dropped : List AgentMessage) : Str :=
  let users := userSnippets dropped
  let assistants := assistantSnippets dropped
  let tools := toolCallsMade dropped
  let count := (toString dropped.length).toList ++ " earlier message(s) were trimmed from context.".toList
  let topics := Text.join "; ".toList (users.take 5) ++
    if 5 < users.length then " (and ".toList ++ (toString (users.length - 5)).toList ++ " more)".toList else []
  let parts := [count] ++ (if users = [] then [] else ["User topics: ".toList ++ topics]) ++
    (if assistants = [] then [] else
      ["Assistant discussed: ".toList ++ Text.join "; ".toList (assistants.take 3)]) ++
    (if tools = [] then [] else
      ["Tools used: ".toList ++ Text.join ", ".toList (tools.dedup.insertionSort (· ≤ ·))])
  (Text.join " ".toList parts).take summaryMaxChars

/-- the note put ahead of the first user message of a list, none without one -/
def prefixUser (note : Str) : List AgentMessage → Option (List AgentMessage)
  | [] => none
  | .user content seq :: rest => some (.user (note ++ "\n\n".toList ++ content) seq :: rest)
  | m :: rest => (prefixUser note rest).map (m :: ·)

/-- `attach_summary` -/
def attachSummary (messages : List AgentMessage) (summary : Str) : List AgentMessage :=
  let note := "[Summary of earlier conversation: ".toList ++ summary ++ "]".toList
  match messages with
  | [] => [.user note none]
  | first :: rest =>
    match prefixUser note rest.reverse with
    | some reversed => first :: reversed.reverse
    | none => first :: .user note none :: rest

/-! ## The budget -/

/-- `_OVERHEAD_TOKEN_ESTIMATE` -/
def overheadTokenEstimate : ℕ := 10000

/-- `trimming._CHARS_PER_TOKEN` -/
def trimCharsPerToken : ℕ := 4

/-- `CONTEXT_TRIM_DEFAULT_TRIGGER_BUFFER_TURNS` -/
def defaultTriggerBufferTurns : ℕ := 16

/-- `_count_user_turns` -/
def countUserTurns (msgs : List AgentMessage) : ℕ :=
  (msgs.filter fun m => match m with | .user .. => true | _ => false).length

def messageLength (env : Env) : AgentMessage → ℕ
  | .system content => content.length
  | .user content _ => content.length
  | .assistant content toolCalls _ =>
    (content.getD []).length + (toolCalls.map fun tc => tc.name.length + (env.str tc.arguments).length).sum
  | .toolResult _ content _ => content.length

/-- `_content_length` -/
def contentLength (env : Env) (msgs : List AgentMessage) : ℕ := (msgs.map (messageLength env)).sum

structure TrimBudget where
  targetTokens : ℕ
  targetTurns : Option ℕ
  triggerTokens : ℕ
  triggerTurns : Option ℤ
  inputTokens : ℕ
  promptChars : ℕ
  promptChars_pos : 0 < promptChars

/-- `TrimBudget.for_prompt` with the thresholds of the settings; no `inputTokens` is an estimate from the characters -/
def TrimBudget.forPrompt (env : Env) (cfg : Settings) (messages : List AgentMessage) (inputTokens : Option ℕ) :
    TrimBudget where
  targetTokens := cfg.contextTrimTargetTokens
  targetTurns := some cfg.contextTrimTargetTurns
  triggerTokens := cfg.contextTrimTriggerTokens
  triggerTurns := some (cfg.contextTrimTriggerTurns.getD (cfg.contextTrimTargetTurns + defaultTriggerBufferTurns))
  inputTokens := inputTokens.getD (contentLength env messages / trimCharsPerToken + overheadTokenEstimate)
  promptChars := max (contentLength env messages) 1
  promptChars_pos := by omega

namespace TrimBudget

variable (b : TrimBudget) (env : Env)

def tokens (msgs : List AgentMessage) : ℕ := b.inputTokens * contentLength env msgs / b.promptChars

def overTrigger (msgs : List AgentMessage) : Bool :=
  if msgs.length ≤ 2 then false
  else if b.triggerTokens < b.tokens env msgs then true
  else b.triggerTurns.any fun t => t < (countUserTurns msgs : ℤ)

def fits (msgs : List AgentMessage) : Bool :=
  if b.targetTokens < b.tokens env msgs then false
  else !(b.targetTurns.any fun t => t < countUserTurns msgs)

end TrimBudget

/-! ## The trim -/

/-- whether a block takes the next message: an open tool call its results, and then the reply of its row -/
def joinsBlock (block : List AgentMessage) (msg : AgentMessage) : Bool :=
  match block with
  | .assistant _ (_ :: _) seq :: rest =>
    rest.all (fun m => match m with | .toolResult .. => true | _ => false) &&
      match msg with
      | .toolResult .. => true
      | .assistant _ [] seq' => seq.isSome && seq' = seq
      | _ => false
  | _ => false

/-- the blocks of a body, which are removed whole -/
def blocksOf (body : List AgentMessage) : List (List AgentMessage) := Groups.group joinsBlock body

/-- blocks removed from the front until the rest fits; the last one stays -/
def TrimBudget.dropBlocks (b : TrimBudget) (env : Env) (system : AgentMessage) :
    List (List AgentMessage) → List AgentMessage × List (List AgentMessage)
  | [] => ([], [])
  | [blk] => ([], [blk])
  | blk :: next :: blocks =>
    if b.fits env (system :: (blk :: next :: blocks).flatten) then ([], blk :: next :: blocks)
    else
      let (dropped, kept) := b.dropBlocks env system (next :: blocks)
      (blk ++ dropped, kept)

structure TrimResult where
  messages : List AgentMessage
  dropped : List AgentMessage
deriving DecidableEq, Repr

/-- `trim_messages` -/
def trimMessages (env : Env) (cfg : Settings) (messages : List AgentMessage) (inputTokens : Option ℕ) : TrimResult :=
  let b := TrimBudget.forPrompt env cfg messages inputTokens
  if b.overTrigger env messages = false then ⟨messages, []⟩
  else
    match messages with
    | [] => ⟨[], []⟩
    | system :: body =>
      let (dropped, kept) := b.dropBlocks env system (blocksOf body)
      let result := system :: kept.flatten
      ⟨if dropped = [] then result else attachSummary result (summarizeDroppedMessages dropped), dropped⟩

/-! ## What is dropped -/

section

variable (b : TrimBudget) (env : Env) (system : AgentMessage)

/-- the loop removes the first blocks, and not the last one -/
theorem dropBlocks_take (blocks : List (List AgentMessage)) :
    ∃ k, k ≤ blocks.length - 1 ∧ b.dropBlocks env system blocks = ((blocks.take k).flatten, blocks.drop k) := by
  induction blocks with
  | nil => exact ⟨0, le_rfl, rfl⟩
  | cons blk blocks ih =>
    cases blocks with
    | nil => exact ⟨0, le_rfl, rfl⟩
    | cons next blocks =>
      rw [TrimBudget.dropBlocks]
      split_ifs
      · exact ⟨0, Nat.zero_le _, rfl⟩
      · obtain ⟨k, hk, h⟩ := ih
        simp only [List.length_cons] at hk
        exact ⟨k + 1, by simp; omega, by rw [h]; simp⟩

/-- where the loop stops, the rest fits or is one block -/
theorem dropBlocks_fits (blocks : List (List AgentMessage)) :
    b.fits env (system :: (b.dropBlocks env system blocks).2.flatten) = true ∨
      (b.dropBlocks env system blocks).2.length ≤ 1 := by
  induction blocks with
  | nil => exact Or.inr (by simp [TrimBudget.dropBlocks])
  | cons blk blocks ih =>
    cases blocks with
    | nil => exact Or.inr (by simp [TrimBudget.dropBlocks])
    | cons next blocks =>
      rw [TrimBudget.dropBlocks]
      split_ifs with hf
      · exact Or.inl hf
      · exact ih

/-- a prompt that never fits loses every block but the last -/
theorem dropBlocks_of_not_fits (h : ∀ rest, b.fits env (system :: rest) = false) (blocks : List (List AgentMessage)) :
    (b.dropBlocks env system blocks).1 = blocks.dropLast.flatten := by
  induction blocks with
  | nil => rfl
  | cons blk blocks ih =>
    cases blocks with
    | nil => rfl
    | cons next blocks =>
      rw [TrimBudget.dropBlocks, if_neg (by simp [h])]
      simp only [List.dropLast_cons_cons, List.flatten_cons]
      rw [ih]

end

section

variable (env : Env) (cfg : Settings) (system content : Str) (history : List AgentMessage)

/-- the current turn is a block of its own -/
theorem blocksOf_current : blocksOf (history ++ [.user content none]) = blocksOf history ++ [[.user content none]] := by
  refine Groups.group_snoc_of_not_joins _ _ _ fun g => ?_
  unfold joinsBlock
  split <;> simp

/-- the prompt that a trim measures -/
def prompt : List AgentMessage := .system system :: (history ++ [.user content none])

/-- what a trim drops: nothing, or what the loop removes of the blocks of the history and the current turn -/
theorem trim_cases (inputTokens : Option ℕ) :
    let b := TrimBudget.forPrompt env cfg (prompt system content history) inputTokens
    (b.overTrigger env (prompt system content history) = false ∧
        (trimMessages env cfg (prompt system content history) inputTokens).dropped = []) ∨
      (b.overTrigger env (prompt system content history) = true ∧
        (trimMessages env cfg (prompt system content history) inputTokens).dropped =
          (b.dropBlocks env (.system system) (blocksOf history ++ [[.user content none]])).1) := by
  intro b
  cases h : b.overTrigger env (prompt system content history) with
  | false => exact Or.inl ⟨rfl, by unfold trimMessages; rw [if_pos h]⟩
  | true =>
    refine Or.inr ⟨rfl, ?_⟩
    unfold trimMessages
    rw [if_neg (by simpa [b] using h), ← blocksOf_current]
    rfl

/-- **A trim drops the front of the history.** The current turn always stays. -/
theorem trim_dropped_history (inputTokens : Option ℕ) :
    (trimMessages env cfg (prompt system content history) inputTokens).dropped <+: history := by
  rcases trim_cases env cfg system content history inputTokens with ⟨-, h⟩ | ⟨-, h⟩
  · rw [h]; exact List.nil_prefix
  · obtain ⟨k, hk, hd⟩ := dropBlocks_take (TrimBudget.forPrompt env cfg (prompt system content history) inputTokens) env
      (.system system) (blocksOf history ++ [[.user content none]])
    rw [h, hd, List.take_append_of_le_length (by simpa using hk)]
    refine ⟨((blocksOf history).drop k).flatten, ?_⟩
    rw [← List.flatten_append, List.take_append_drop]
    exact Groups.flatten_group _ history

/-- **A prompt can lose all of its history**: for a count of input tokens, whatever the thresholds are. -/
theorem trim_all (hs : system ≠ []) (hh : history ≠ []) :
    ∃ inputTokens, (trimMessages env cfg (prompt system content history) (some inputTokens)).dropped = history := by
  -- every part of the prompt that holds the system message measures more than both thresholds
  refine ⟨(cfg.contextTrimTargetTokens + cfg.contextTrimTriggerTokens + 1) *
    max (contentLength env (prompt system content history)) 1, ?_⟩
  set b := TrimBudget.forPrompt env cfg (prompt system content history)
    (some ((cfg.contextTrimTargetTokens + cfg.contextTrimTriggerTokens + 1) *
      max (contentLength env (prompt system content history)) 1)) with hb
  have htok : ∀ rest, cfg.contextTrimTargetTokens + cfg.contextTrimTriggerTokens <
      b.tokens env (.system system :: rest) := by
    intro rest
    have hlen : 1 ≤ contentLength env (.system system :: rest) := by
      have := List.length_pos_iff.2 hs
      simp only [contentLength, List.map_cons, List.sum_cons, messageLength]
      omega
    have heq : b.tokens env (.system system :: rest) =
        (cfg.contextTrimTargetTokens + cfg.contextTrimTriggerTokens + 1) * contentLength env (.system system :: rest) := by
      unfold TrimBudget.tokens
      rw [hb]
      simp only [TrimBudget.forPrompt, Option.getD_some]
      rw [Nat.mul_right_comm, Nat.mul_div_cancel _ (by omega)]
    rw [heq]
    calc cfg.contextTrimTargetTokens + cfg.contextTrimTriggerTokens
        < (cfg.contextTrimTargetTokens + cfg.contextTrimTriggerTokens + 1) * 1 := by omega
      _ ≤ _ := Nat.mul_le_mul_left _ hlen
  have hover : b.overTrigger env (prompt system content history) = true := by
    have hlen : ¬ (prompt system content history).length ≤ 2 := by
      have := List.length_pos_iff.2 hh
      simp [prompt]; omega
    have htr : b.triggerTokens < b.tokens env (prompt system content history) := by
      have := htok (history ++ [.user content none])
      have ht : b.triggerTokens = cfg.contextTrimTriggerTokens := rfl
      unfold prompt
      omega
    unfold TrimBudget.overTrigger
    rw [if_neg hlen, if_pos htr]
  have hfit : ∀ rest, b.fits env (.system system :: rest) = false := by
    intro rest
    have := htok rest
    have ht : b.targetTokens = cfg.contextTrimTargetTokens := rfl
    unfold TrimBudget.fits
    rw [if_pos (by omega)]
  rcases trim_cases env cfg system content history _ with ⟨h, -⟩ | ⟨-, h⟩
  · exact absurd h (by rw [← hb, hover]; simp)
  · rw [h, ← hb, dropBlocks_of_not_fits b env _ hfit, List.dropLast_concat]
    exact Groups.flatten_group _ history

end

end Clawbolt.History
