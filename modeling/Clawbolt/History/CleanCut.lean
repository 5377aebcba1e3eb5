/-
Where a trim cuts (`trim_messages` and `attach_summary` in agent/trimming.py), for every budget.

A prompt is the system message and the parts a turn builds it of: user messages, replies, rows with tool calls, and tool
rounds. The blocks of the trim are these parts, so the cut never goes through one.

- `blocksOf_segments`: the blocks are the parts;
- `trim_clean_cut`: what is dropped, then what is kept, are the parts in order; no part is split and no row is on both sides;
  where the trim fires, what is kept is the longest end that fits, or the last part;
- `kept_above_target`: a prompt between the target and the trigger is left as it is, and does not fit.
-/
import Mathlib.Tactic
import Clawbolt.History.Trim
import Clawbolt.History.WriteResults

namespace Clawbolt.History

open Text (Str)

/-! ## Any budget -/

theorem max_contentLength_pos (env : Env) (messages : List AgentMessage) : 0 < max (contentLength env messages) 1 :=
  lt_of_lt_of_le Nat.one_pos (le_max_right _ _)

/-- `TrimBudget.for_prompt` -/
def TrimBudget.ofArgs (env : Env) (messages : List AgentMessage) (targetTokens : ℕ) (targetTurns : Option ℕ)
    (triggerTurns : Option ℤ) (triggerTokens inputTokens : Option ℕ) : TrimBudget where
  targetTokens := targetTokens
  targetTurns := targetTurns
  triggerTokens := triggerTokens.getD targetTokens
  triggerTurns := match triggerTurns with
    | some t => some t
    | none => targetTurns.map fun t => (t + defaultTriggerBufferTurns : ℤ)
  inputTokens := inputTokens.getD (contentLength env messages / trimCharsPerToken + overheadTokenEstimate)
  promptChars := max (contentLength env messages) 1
  promptChars_pos := max_contentLength_pos env messages

/-- `trim_messages`, its budget given -/
def TrimBudget.trim (b : TrimBudget) (env : Env) (messages : List AgentMessage) : TrimResult :=
  if b.overTrigger env messages = false then ⟨messages, []⟩
  else
    match messages with
    | [] => ⟨[], []⟩
    | system :: body =>
      let (dropped, kept) := b.dropBlocks env system (blocksOf body)
      let result := system :: kept.flatten
      ⟨if dropped = [] then result else attachSummary result (summarizeDroppedMessages dropped), dropped⟩

/-! ## The parts of a prompt -/

/-- what a turn puts into its prompt at once -/
inductive Segment where
  /-- an inbound row, the current turn, or a message folded in -/
  | user (content : Str) (seq : Option ℕ)
  /-- an outbound row without tool calls, or a reply of the turn -/
  | reply (content : Option Str) (seq : Option ℕ)
  /-- an outbound row with tool calls: the call, its results, the reply -/
  | row (seq : ℕ) (call : ToolCallRequest) (calls : List ToolCallRequest) (results : List (Str × Str × Bool)) (text : Str)
  /-- a tool round of the turn -/
  | round (content : Option Str) (call : ToolCallRequest) (calls : List ToolCallRequest) (results : List (Str × Str × Bool))

namespace Segment

def resultMessages (results : List (Str × Str × Bool)) : List AgentMessage :=
  results.map fun r => .toolResult r.1 r.2.1 r.2.2

def messages : Segment → List AgentMessage
  | .user content seq => [.user content seq]
  | .reply content seq => [.assistant content [] seq]
  | .row seq call calls results text =>
    .assistant none (call :: calls) (some seq) :: (resultMessages results ++ [.assistant (some text) [] (some seq)])
  | .round content call calls results => .assistant content (call :: calls) none :: resultMessages results

/-- the row that a part renders -/
def seq? : Segment → Option ℕ
  | .user _ seq => seq
  | .reply _ seq => seq
  | .row seq .. => some seq
  | .round .. => none

end Segment

/-- the messages of the parts -/
def bodyOf (segments : List Segment) : List AgentMessage := (segments.map Segment.messages).flatten

/-- a list of parts in which each row is rendered once -/
def OncePerRow (segments : List Segment) : Prop := (segments.filterMap Segment.seq?).Nodup

instance (segments : List Segment) : Decidable (OncePerRow segments) := by
  unfold OncePerRow
  infer_instance

/-! ## The blocks are the parts -/

section

variable (content : Option Str) (call : ToolCallRequest) (calls : List ToolCallRequest) (seq : Option ℕ)
  (results : List (Str × Str × Bool))

/-- an open call takes a result -/
theorem joins_result (id text : Str) (isError : Bool) :
    joinsBlock (.assistant content (call :: calls) seq :: Segment.resultMessages results) (.toolResult id text isError) = true := by
  simp [joinsBlock, Segment.resultMessages]

/-- and the reply of its row -/
theorem joins_reply (text : Option Str) (seq' : Option ℕ) :
    joinsBlock (.assistant content (call :: calls) seq :: Segment.resultMessages results) (.assistant text [] seq') =
      (seq.isSome && decide (seq' = seq)) := by
  simp [joinsBlock, Segment.resultMessages]

theorem joins_results {pre : List AgentMessage} {x : AgentMessage} (h : pre ++ [x] <+: Segment.resultMessages results) :
    joinsBlock (.assistant content (call :: calls) seq :: pre) x = true := by
  obtain ⟨rest, hrest⟩ := h
  obtain ⟨front, _, -, hfront, -⟩ := List.map_eq_append_iff.1 hrest.symm
  obtain ⟨before, last, -, rfl, hlast⟩ := List.map_eq_append_iff.1 hfront
  obtain ⟨r, -, rfl⟩ := List.map_eq_singleton_iff.1 hlast
  exact joins_result content call calls seq before r.1 r.2.1 r.2.2

/-- a part is one block -/
theorem blocksOf_segment (s : Segment) : blocksOf s.messages = [s.messages] := by
  cases s with
  | user content seq => rfl
  | reply content seq => rfl
  | row seq call calls results text =>
    refine Groups.group_eq_singleton _ _ _ fun pre x hpre => ?_
    rcases List.prefix_concat_iff.1 hpre with heq | hpre
    · -- the reply of the row
      obtain ⟨rfl, hx⟩ := List.append_inj' heq rfl
      obtain rfl := List.singleton_inj.1 hx
      rw [joins_reply]
      simp
    · exact joins_results none call calls (some seq) results hpre
  | round content call calls results =>
    exact Groups.group_eq_singleton _ _ _ fun pre x hpre => joins_results content call calls none results hpre

/-- no part is taken into the block of another one -/
theorem not_joins (s s' : Segment) {msg : AgentMessage} (h : s'.messages.head? = some msg) :
    joinsBlock s.messages msg = false := by
  have hmsg : (∃ c q, msg = .user c q) ∨ (∃ c q, msg = .assistant c [] q) ∨ ∃ c t ts q, msg = .assistant c (t :: ts) q := by
    cases s' <;> obtain rfl := Option.some.inj h <;> simp
  cases s with
  | user => rfl
  | reply => rfl
  | row seq call calls results text => simp [Segment.messages, joinsBlock, Segment.resultMessages]
  | round content call calls results =>
    rcases hmsg with ⟨c, q, rfl⟩ | ⟨c, q, rfl⟩ | ⟨c, t, ts, q, rfl⟩
    · simp [Segment.messages, joinsBlock]
    · exact joins_reply content call calls none results c q
    · simp [Segment.messages, joinsBlock]

theorem blocksOf_segments (segments : List Segment) : blocksOf (bodyOf segments) = segments.map Segment.messages := by
  induction segments using List.reverseRecOn with
  | nil => rfl
  | append_singleton segments s ih =>
    obtain ⟨msg, rest, hs⟩ : ∃ msg rest, s.messages = msg :: rest := by cases s <;> exact ⟨_, _, rfl⟩
    have hbody : bodyOf (segments ++ [s]) = bodyOf segments ++ msg :: rest := by simp [bodyOf, hs]
    have hlast : ∀ g, (blocksOf (bodyOf segments)).getLast? = some g → joinsBlock g msg = false := by
      intro g hg
      rw [ih] at hg
      obtain ⟨s', -, rfl⟩ := List.mem_map.1 (List.mem_of_getLast? hg)
      exact not_joins s' s (by rw [hs]; rfl)
    rw [hbody, blocksOf, Groups.group_append_of_last joinsBlock _ _ hlast, ← hs, List.map_append]
    exact congrArg₂ (· ++ ·) ih (blocksOf_segment s)

end

/-! ## The cut -/

/-- the loop removes the first blocks, each of them because the rest did not fit -/
theorem dropBlocks_least (b : TrimBudget) (env : Env) (system : AgentMessage) (blocks : List (List AgentMessage)) :
    ∃ k, k ≤ blocks.length - 1 ∧ b.dropBlocks env system blocks = ((blocks.take k).flatten, blocks.drop k) ∧
      ∀ j < k, b.fits env (system :: (blocks.drop j).flatten) = false := by
  induction blocks with
  | nil => exact ⟨0, le_rfl, rfl, nofun⟩
  | cons blk blocks ih =>
    cases blocks with
    | nil => exact ⟨0, le_rfl, rfl, nofun⟩
    | cons next blocks =>
      rw [TrimBudget.dropBlocks]
      split_ifs with hfits
      · exact ⟨0, Nat.zero_le _, rfl, nofun⟩
      · obtain ⟨k, hk, h, hleast⟩ := ih
        simp only [List.length_cons] at hk
        refine ⟨k + 1, by simp; omega, by rw [h]; simp, fun j hj => ?_⟩
        cases j with
        | zero => exact Bool.eq_false_iff.2 hfits
        | succ j => exact hleast j (by omega)

def isUser : AgentMessage → Bool
  | .user .. => true
  | _ => false

/-- the messages with the note on the newest user message, or ahead of them when there is none -/
def Noted (note : Str) (body noted : List AgentMessage) : Prop :=
  (∃ before content seq after, body = before ++ .user content seq :: after ∧ after.any isUser = false ∧
    noted = before ++ .user (note ++ "\n\n".toList ++ content) seq :: after) ∨
  (body.any isUser = false ∧ noted = .user note none :: body)

theorem prefixUser_cases (note : Str) (l : List AgentMessage) :
    (prefixUser note l = none ∧ l.any isUser = false) ∨
    ∃ before content seq after, l = before ++ .user content seq :: after ∧ before.any isUser = false ∧
      prefixUser note l = some (before ++ .user (note ++ "\n\n".toList ++ content) seq :: after) := by
  induction l with
  | nil => exact Or.inl ⟨rfl, rfl⟩
  | cons m l ih =>
    cases m with
    | user content seq => exact Or.inr ⟨[], content, seq, l, rfl, rfl, rfl⟩
    | _ =>
      rcases ih with ⟨hnone, hany⟩ | ⟨before, content, seq, after, rfl, hany, hsome⟩
      · exact Or.inl ⟨by simp [prefixUser, hnone], by simp [hany, isUser]⟩
      · exact Or.inr ⟨_ :: before, content, seq, after, rfl, by simp [hany, isUser], by simp [prefixUser, hsome]⟩

theorem attachSummary_noted (system : AgentMessage) (body : List AgentMessage) (summary : Str) :
    ∃ noted, attachSummary (system :: body) summary = system :: noted ∧
      Noted ("[Summary of earlier conversation: ".toList ++ summary ++ "]".toList) body noted := by
  unfold attachSummary
  generalize "[Summary of earlier conversation: ".toList ++ summary ++ "]".toList = note
  rcases prefixUser_cases note body.reverse with ⟨hnone, hany⟩ | ⟨before, content, seq, after, hbody, hany, hsome⟩
  · simp only [hnone]
    exact ⟨_, rfl, Or.inr ⟨by simpa using hany, rfl⟩⟩
  · simp only [hsome]
    refine ⟨_, rfl, Or.inl ⟨after.reverse, content, seq, before.reverse, ?_, by simpa using hany, by simp⟩⟩
    rw [← List.reverse_reverse body, hbody]
    simp

/-- what a trim makes of a prompt: the parts it drops, and the parts it keeps -/
structure CleanCut (b : TrimBudget) (env : Env) (system : AgentMessage) (segments dropped kept : List Segment) (r : TrimResult) :
    Prop where
  parts : segments = dropped ++ kept
  blocks : blocksOf (bodyOf segments) = segments.map Segment.messages
  dropped_eq : r.dropped = bodyOf dropped
  messages : (dropped = [] ∧ r.messages = system :: bodyOf kept) ∨
    (dropped ≠ [] ∧ ∃ noted, r.messages = system :: noted ∧
      Noted ("[Summary of earlier conversation: ".toList ++ summarizeDroppedMessages (bodyOf dropped) ++ "]".toList)
        (bodyOf kept) noted)
  rows : ∀ m ∈ bodyOf dropped, ∀ m' ∈ bodyOf kept, m.seq? = none ∨ m.seq? ≠ m'.seq?
  some_kept : segments ≠ [] → kept ≠ []
  below_trigger : b.overTrigger env (system :: bodyOf segments) = false → dropped = []
  longest : b.overTrigger env (system :: bodyOf segments) = true →
    (∀ j < dropped.length, b.fits env (system :: bodyOf (segments.drop j)) = false) ∧
      (b.fits env (system :: bodyOf kept) = true ∨ kept.length ≤ 1)

/-- the seq of a message of a part is that of the part -/
theorem seq_of_segment {s : Segment} {m : AgentMessage} (hm : m ∈ s.messages) : m.seq? = none ∨ m.seq? = s.seq? := by
  cases s with
  | user content seq => exact Or.inr (by rw [List.mem_singleton.1 hm]; rfl)
  | reply content seq => exact Or.inr (by rw [List.mem_singleton.1 hm]; rfl)
  | row seq call calls results text =>
    rcases List.mem_cons.1 hm with rfl | hm
    · exact Or.inr rfl
    · rcases List.mem_append.1 hm with hm | hm
      · obtain ⟨r, -, rfl⟩ := List.mem_map.1 hm
        exact Or.inl rfl
      · exact Or.inr (by rw [List.mem_singleton.1 hm]; rfl)
  | round content call calls results =>
    rcases List.mem_cons.1 hm with rfl | hm
    · exact Or.inl rfl
    · obtain ⟨r, -, rfl⟩ := List.mem_map.1 hm
      exact Or.inl rfl

/-- no row is on both sides of a cut between parts -/
theorem rows_apart {dropped kept : List Segment} (h : OncePerRow (dropped ++ kept)) :
    ∀ m ∈ bodyOf dropped, ∀ m' ∈ bodyOf kept, m.seq? = none ∨ m.seq? ≠ m'.seq? := by
  intro m hm m' hm'
  obtain ⟨_, hl, hm⟩ := List.mem_flatten.1 hm
  obtain ⟨s, hs, rfl⟩ := List.mem_map.1 hl
  obtain ⟨_, hl', hm'⟩ := List.mem_flatten.1 hm'
  obtain ⟨s', hs', rfl⟩ := List.mem_map.1 hl'
  rcases seq_of_segment hm with hseq | hseq
  · exact Or.inl hseq
  · cases hq : m.seq? with
    | none => exact Or.inl rfl
    | some q =>
      refine Or.inr fun heq => ?_
      have hq' : s'.seq? = some q := by
        rcases seq_of_segment hm' with h' | h'
        · rw [h'] at heq
          cases heq
        · rw [← h', ← heq]
      unfold OncePerRow at h
      rw [List.filterMap_append] at h
      exact (List.disjoint_of_nodup_append h) (List.mem_filterMap.2 ⟨s, hs, hseq ▸ hq⟩) (List.mem_filterMap.2 ⟨s', hs', hq'⟩)

/-- **A clean cut.** A trim drops the first parts and keeps the others, whatever the budget. -/
theorem trim_clean_cut (b : TrimBudget) (env : Env) (system : AgentMessage) (segments : List Segment)
    (h : OncePerRow segments) :
    ∃ dropped kept, CleanCut b env system segments dropped kept (b.trim env (system :: bodyOf segments)) := by
  cases hover : b.overTrigger env (system :: bodyOf segments) with
  | false =>
    have htrim : b.trim env (system :: bodyOf segments) = ⟨system :: bodyOf segments, []⟩ := by
      unfold TrimBudget.trim
      rw [if_pos hover]
    refine ⟨[], segments, rfl, blocksOf_segments segments, by rw [htrim]; rfl, Or.inl ⟨rfl, by rw [htrim]⟩, nofun, id,
      fun _ => rfl, fun h => ?_⟩
    rw [hover] at h
    cases h
  | true =>
    obtain ⟨k, hk, hdrop, hleast⟩ := dropBlocks_least b env system (segments.map Segment.messages)
    rw [List.length_map] at hk
    have hfits := dropBlocks_fits b env system (segments.map Segment.messages)
    rw [hdrop, ← List.map_drop, List.length_map] at hfits
    rw [← List.map_take, ← List.map_drop] at hdrop
    have htrim : b.trim env (system :: bodyOf segments) =
        ⟨if bodyOf (segments.take k) = [] then system :: bodyOf (segments.drop k)
          else attachSummary (system :: bodyOf (segments.drop k)) (summarizeDroppedMessages (bodyOf (segments.take k))),
          bodyOf (segments.take k)⟩ := by
      unfold TrimBudget.trim
      rw [if_neg (by simp [hover])]
      simp only [blocksOf_segments, hdrop]
      rfl
    have hempty : ∀ l : List Segment, bodyOf l = [] ↔ l = [] := by
      intro l
      refine ⟨fun hl => ?_, fun hl => by rw [hl]; rfl⟩
      cases l with
      | nil => rfl
      | cons s l => cases s <;> simp [bodyOf, Segment.messages] at hl
    refine ⟨segments.take k, segments.drop k, (List.take_append_drop k segments).symm, blocksOf_segments segments,
      by rw [htrim], ?_, rows_apart (by rwa [List.take_append_drop]), fun hne => ?_, fun hno => ?_, fun _ => ⟨fun j hj => ?_, hfits⟩⟩
    · rw [htrim]
      by_cases hnil : segments.take k = []
      · exact Or.inl ⟨hnil, if_pos ((hempty _).2 hnil)⟩
      · refine Or.inr ⟨hnil, ?_⟩
        rw [if_neg (fun hbody => hnil ((hempty _).1 hbody))]
        exact attachSummary_noted _ _ _
    · have hlen := List.length_pos_iff.2 hne
      rw [Ne, List.drop_eq_nil_iff]
      omega
    · rw [hover] at hno
      cases hno
    · rw [List.length_take] at hj
      have hno := hleast j (by omega)
      rwa [← List.map_drop] at hno

/-- what is kept fits, and no longer end does; or it is the last part -/
def LongestEnd (b : TrimBudget) (env : Env) (system : AgentMessage) (segments : List Segment) (r : TrimResult) : Prop :=
  ∃ dropped kept, CleanCut b env system segments dropped kept r ∧
    (∀ j < dropped.length, b.fits env (system :: bodyOf (segments.drop j)) = false) ∧
    (b.fits env (system :: bodyOf kept) = true ∨ kept.length ≤ 1)

/-- two turns, and a tool round of the second -/
def twoTurns : List Segment :=
  [.user "hi".toList (some 1), .row 2 ⟨"c1".toList, "read_file".toList, []⟩ [] [("c1".toList, "notes".toList, false)] "ok".toList,
    .user "go on".toList none, .round none ⟨"c2".toList, "read_file".toList, []⟩ [] [("c2".toList, "more".toList, false)]]

/-- the target is one turn, the trigger two -/
def oneTurnBudget (segments : List Segment) : TrimBudget :=
  .ofArgs (sampleEnv [] []) (.system "You help.".toList :: bodyOf segments) 120000 (some 1) (some 2) none (some 100)

theorem third_turn_cut : ∃ dropped kept, CleanCut (oneTurnBudget (.user "first".toList (some 0) :: twoTurns)) (sampleEnv [] [])
    (.system "You help.".toList) (.user "first".toList (some 0) :: twoTurns) dropped kept
    ((oneTurnBudget (.user "first".toList (some 0) :: twoTurns)).trim (sampleEnv [] [])
      (.system "You help.".toList :: bodyOf (.user "first".toList (some 0) :: twoTurns))) :=
  trim_clean_cut _ _ _ _ (by decide)

/-- **Between the target and the trigger nothing is dropped**, though what is kept does not fit. -/
theorem kept_above_target :
    ¬ ∀ (env : Env) (targetTokens : ℕ) (targetTurns : Option ℕ) (triggerTurns : Option ℤ) (triggerTokens inputTokens : Option ℕ)
        (system : AgentMessage) (segments : List Segment), OncePerRow segments →
      LongestEnd (.ofArgs env (system :: bodyOf segments) targetTokens targetTurns triggerTurns triggerTokens inputTokens) env
        system segments
        ((TrimBudget.ofArgs env (system :: bodyOf segments) targetTokens targetTurns triggerTurns triggerTokens inputTokens).trim
          env (system :: bodyOf segments)) := by
  intro h
  obtain ⟨dropped, kept, hcut, -, hfits⟩ := h (sampleEnv [] []) 120000 (some 1) (some 2) none (some 100)
    (.system "You help.".toList) twoTurns (by decide)
  obtain rfl := hcut.below_trigger (by decide +kernel)
  obtain rfl : twoTurns = kept := hcut.parts
  revert hfits
  decide +kernel

end Clawbolt.History
