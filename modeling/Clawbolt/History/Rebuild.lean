/-
The history one turn sends: the cold-start rebuild and the mid-session shed (`_render`, `build_history_view`,
`shed_history_view` in agent/prompt_epoch.py), with `strip_skill_guidance` (agent/skills/loader.py) and
`is_mutating_call` (agent/tools/base.py).

`renderPass` is the loop of `_render` over the rendered messages: it carries the turn and row a message belongs to and
the calls seen so far by id. The searches over the verbatim window and the dropped turns are structural in the number of
turns left. `int(budget * 0.6)` is `budget * 6 / 10`, which it equals for every budget below 2^50.
-/
import Mathlib.Tactic
import Clawbolt.Core.Groups
import Clawbolt.History.Convert
import Clawbolt.History.Epoch

namespace Clawbolt.History

open Text (Str)

/-! ## SKILL.md guidance -/

/-- `[A-Za-z0-9_-]` -/
def isNameChar (c : Char) : Bool :=
  ('A' ≤ c ∧ c ≤ 'Z') || ('a' ≤ c ∧ c ≤ 'z') || ('0' ≤ c ∧ c ≤ '9') || c = '_' || c = '-'

/-- an opening line at the start of the text: its name, and the text after it -/
def openingLine (t : Str) : Option (Str × Str) :=
  let opening := "\n\n[skill-guidance: ".toList
  if opening.isPrefixOf t then
    let rest := t.drop opening.length
    let name := rest.takeWhile isNameChar
    let rest := rest.dropWhile isNameChar
    if name ≠ [] ∧ "]\n".toList.isPrefixOf rest then some (name, rest.drop 2) else none
  else none

/-- `_DELIMITED_BLOCK_RE` at the start of the text: the text after the block -/
def delimitedBlock (t : Str) : Option Str :=
  match openingLine t with
  | none => none
  | some (name, rest) =>
    (Text.splitFirst ("\n[/skill-guidance: ".toList ++ name ++ "]".toList) rest).map Prod.snd

/-- `_DELIMITED_BLOCK_RE.subn("", t)`; the first `skip` characters are part of the last block -/
def dropBlocks : ℕ → Str → Str × ℕ
  | _, [] => ([], 0)
  | skip + 1, _ :: cs => dropBlocks skip cs
  | 0, c :: cs =>
    match delimitedBlock (c :: cs) with
    | some rest =>
      let (out, n) := dropBlocks (cs.length - rest.length) cs
      (out, n + 1)
    | none =>
      let (out, n) := dropBlocks 0 cs
      (c :: out, n)

/-- the text before the last match of `_LEGACY_BLOCK_START_RE`, none without a match -/
def beforeLegacyBlock : ℕ → Str → Option Str
  | _, [] => none
  | skip + 1, c :: cs => (beforeLegacyBlock skip cs).map (c :: ·)
  | 0, c :: cs =>
    match openingLine (c :: cs) with
    | some (_, rest) =>
      match beforeLegacyBlock (cs.length - rest.length) cs with
      | some t => some (c :: t)
      | none => some []
    | none => (beforeLegacyBlock 0 cs).map (c :: ·)

/-- `strip_skill_guidance` -/
def stripSkillGuidance (text : Str) : Str :=
  let (stripped, n) := dropBlocks 0 text
  if n ≠ 0 then stripped else (beforeLegacyBlock 0 text).getD text

/-! ## Reads and writes -/

structure Tool where
  /-- `ToolTags.READ_ONLY in tool.tags` -/
  readOnly : Bool
  /-- none inside when it raises -/
  readOnlyWhen : Option (Args → Option Bool)

/-- `is_mutating_call` -/
def isMutatingCall (tool : Tool) (args : Args) : Bool :=
  if tool.readOnly then false
  else
    match tool.readOnlyWhen with
    | none => true
    | some readOnly =>
      match readOnly args with
      | none => true
      | some b => !b

/-- `_is_write` -/
def isWrite (toolsByName : Dict Tool) (name : Str) (args : Args) : Bool :=
  match toolsByName.lookup name with
  | none => true
  | some tool => isMutatingCall tool args

/-! ## One render -/

/-- `_ELIDE_MIN_CHARS` -/
def elideMinChars : ℕ := 300

def elidedResultStub (toolName : Str) (chars : ℕ) : Str :=
  "[tool result elided: ".toList ++ toolName ++ ", ".toList ++ (toString chars).toList ++
    " chars; re-run only if it just reads]".toList

/-- what the loop of `_render` carries -/
structure RenderState where
  group : Option ℕ
  rowSeq : Option ℕ
  calls : Dict (Str × Args)

structure Rendered where
  message : AgentMessage
  /-- part of the inherited history -/
  inherited : Bool
  elided : Bool

/-- the parameters of one render -/
structure RenderArgs where
  toolsByName : Dict Tool
  groupOf : ℕ → Option ℕ
  verbatimFrom : ℕ
  stubBefore : Option ℕ

/-- the state once a message is seen -/
def RenderArgs.see (p : RenderArgs) (s : RenderState) (m : AgentMessage) : RenderState :=
  let s := match m.seq? with
    | some q => { s with group := p.groupOf q, rowSeq := some q }
    | none => s
  match m with
  | .assistant _ toolCalls _ =>
    { s with calls := toolCalls.foldl (fun d tc => Dict.set tc.id (tc.name, tc.arguments) d) s.calls }
  | _ => s

/-- in a turn before the verbatim window, or in a row below the stub seq -/
def RenderArgs.old (p : RenderArgs) (s : RenderState) : Bool :=
  s.group.any (· < p.verbatimFrom) || (p.stubBefore.any fun b => s.rowSeq.any (· < b))

/-- what becomes of an old result -/
def RenderArgs.elide (p : RenderArgs) (s : RenderState) (toolCallId content : Str) : Str × Bool :=
  let content := stripSkillGuidance content
  match s.calls.lookup toolCallId with
  | none => (content, false)
  | some (name, args) =>
    if elideMinChars < content.length ∧ isWrite p.toolsByName name args = false then
      (elidedResultStub name content.length, true)
    else (content, false)

/-- the message that is sent in place of `m` -/
def RenderArgs.rendered (p : RenderArgs) (s : RenderState) (m : AgentMessage) : Rendered :=
  match m with
  | .toolResult id content isError =>
    if p.old s then
      ⟨.toolResult id (p.elide s id content).1 isError, s.group.isSome, (p.elide s id content).2⟩
    else ⟨m, s.group.isSome, false⟩
  | _ => ⟨m, s.group.isSome, false⟩

/-- the loop of `_render` -/
def RenderArgs.renderPass (p : RenderArgs) : Passes.Pass RenderState AgentMessage Rendered :=
  ⟨fun s m => [p.rendered (p.see s m) m], p.see⟩

/-- `_CHARS_PER_TOKEN` -/
def charsPerToken : ℕ := 2

def messageChars (env : Env) : AgentMessage → ℕ
  | .assistant content toolCalls _ =>
    (content.getD []).length + (toolCalls.map fun tc => tc.name.length + (env.dumps tc.arguments).length).sum
  | .system content => content.length
  | .user content _ => content.length
  | .toolResult _ content _ => content.length

def estimateTokens (env : Env) (messages : List AgentMessage) : ℕ :=
  (messages.map (messageChars env)).sum / charsPerToken

/-- `_group_turns`: an inbound row starts a turn -/
def groupTurns (rows : List StoredMessage) : List (List StoredMessage) :=
  Groups.group (fun _ row => row.direction ≠ .inbound) rows

/-- `group_of`: the last turn that holds a row of the seq -/
def groupOf (preGroups : List (List StoredMessage)) (q : ℕ) : Option ℕ :=
  lastIndex (fun g => (preGroups.getD g []).any fun row => row.seq = q) preGroups.length

/-- everything a render reads that the searches do not change -/
structure Ctx where
  env : Env
  cfg : Settings
  toolsByName : Dict Tool
  tzName : Str

structure View where
  messages : List AgentMessage
  tokens : ℕ
  elided : ℕ

/-- the messages `_render` appends, in order -/
def Ctx.renderOut (c : Ctx) (preGroups : List (List StoredMessage)) (post : List StoredMessage) (verbatimFrom : ℕ)
    (preceding : List StoredMessage) (stubBefore : Option ℕ) : List Rendered :=
  (RenderArgs.mk c.toolsByName (groupOf preGroups) verbatimFrom stubBefore).renderPass.out ⟨none, none, []⟩
    (storedMessagesToAgentMessages c.env (preGroups.flatten ++ post) c.tzName preceding)

/-- what `_render` returns of them -/
def viewOf (env : Env) (out : List Rendered) : View :=
  ⟨out.map Rendered.message, estimateTokens env ((out.filter Rendered.inherited).map Rendered.message),
    (out.filter Rendered.elided).length⟩

/-- `_render` -/
def Ctx.render (c : Ctx) (preGroups : List (List StoredMessage)) (post : List StoredMessage) (verbatimFrom : ℕ)
    (preceding : List StoredMessage) (stubBefore : Option ℕ) : View :=
  viewOf c.env (c.renderOut preGroups post verbatimFrom preceding stubBefore)

/-! ## The cold-start rebuild -/

structure HistoryView where
  messages : List AgentMessage
  epoch : PromptEpoch
  droppedRows : List StoredMessage
  elidedResults : ℕ

/-- `fit_verbatim`: the widest verbatim window, at most `verbatim`, that fits -/
def Ctx.fitVerbatim (c : Ctx) (kept : List (List StoredMessage)) (post preceding : List StoredMessage)
    (stubBefore : Option ℕ) : ℕ → View
  | 0 => c.render kept post kept.length preceding stubBefore
  | verbatim + 1 =>
    let v := c.render kept post (kept.length - (verbatim + 1)) preceding stubBefore
    if v.tokens ≤ c.cfg.coldStartHistoryBudgetTokens then v else c.fitVerbatim kept post preceding stubBefore verbatim

/-- `_DROP_TO_FRACTION` of the budget -/
def Settings.dropTo (cfg : Settings) : ℕ := cfg.coldStartHistoryBudgetTokens * 6 / 10

/-- the loop of step 3, with `left` turns that may still be dropped: how many turns it drops -/
def Ctx.dropTurns (c : Ctx) (groups : List (List StoredMessage)) (post preceding : List StoredMessage)
    (stubBefore : Option ℕ) : ℕ → ℕ → ℕ → ℕ
  | 0, start, _ => start
  | left + 1, start, tokens =>
    if c.cfg.dropTo < tokens ∨ c.cfg.contextTrimTargetTurns < groups.length - start then
      c.dropTurns groups post preceding stubBefore left (start + 1)
        (c.render (groups.drop (start + 1)) post groups.length (preceding ++ (groups.take (start + 1)).flatten)
          stubBefore).tokens
    else start

/-- the widest window of `groups[start:]` that fits -/
def Ctx.fitFrom (c : Ctx) (groups : List (List StoredMessage)) (post preceding : List StoredMessage)
    (stubBefore : Option ℕ) (start : ℕ) : View :=
  c.fitVerbatim (groups.drop start) post (preceding ++ (groups.take start).flatten) stubBefore
    (min c.cfg.coldStartVerbatimTurns (groups.drop start).length)

/-- over budget, or too many turns -/
def Ctx.tooLong (c : Ctx) (groups : List (List StoredMessage)) (v : View) : Prop :=
  c.cfg.coldStartHistoryBudgetTokens < v.tokens ∨ c.cfg.contextTrimTargetTurns < groups.length

instance (c : Ctx) (groups : List (List StoredMessage)) (v : View) : Decidable (c.tooLong groups v) := by
  unfold Ctx.tooLong; infer_instance

/-- how many turns the rebuild drops -/
def Ctx.start (c : Ctx) (groups : List (List StoredMessage)) (post preceding : List StoredMessage)
    (stubBefore : Option ℕ) : ℕ :=
  let v := c.fitFrom groups post preceding stubBefore 0
  if c.tooLong groups v then c.dropTurns groups post preceding stubBefore (groups.length - 1) 0 v.tokens else 0

/-- `build_history_view` -/
def Ctx.buildHistoryView (c : Ctx) (rows : List StoredMessage) (current : Option StoredMessage) (compact : Bool)
    (preceding : List StoredMessage) (stubBefore : Option ℕ) : HistoryView :=
  let plain := storedMessagesToAgentMessages c.env rows c.tzName preceding
  match current with
  | none => ⟨plain, ⟨0, true, none⟩, [], 0⟩
  | some current =>
    let (epoch, boundary) := findEpoch c.env c.cfg rows current
    if compact = false ∨ (boundary = 0 ∧ stubBefore = none) then ⟨plain, epoch, [], 0⟩
    else if boundary = 0 then
      let v := c.render [] rows 0 preceding stubBefore
      ⟨v.messages, epoch, [], v.elided⟩
    else
      let groups := groupTurns (rows.take boundary)
      let post := rows.drop boundary
      let start := c.start groups post preceding stubBefore
      let v := c.fitFrom groups post preceding stubBefore start
      ⟨v.messages, epoch, (groups.take start).flatten, v.elided⟩

section

variable (c : Ctx) (rows : List StoredMessage) (current : StoredMessage) (preceding : List StoredMessage)
  (stubBefore : Option ℕ)

/-- the plain rendering: not compacting, or nothing to rebuild -/
theorem buildHistoryView_plain {compact : Bool}
    (h : compact = false ∨ ((findEpoch c.env c.cfg rows current).2 = 0 ∧ stubBefore = none)) :
    c.buildHistoryView rows (some current) compact preceding stubBefore =
      ⟨storedMessagesToAgentMessages c.env rows c.tzName preceding, (findEpoch c.env c.cfg rows current).1, [], 0⟩ := by
  simp only [Ctx.buildHistoryView]
  rw [if_pos h]

/-- one epoch, with a stub seq: nothing is inherited -/
theorem buildHistoryView_stubbed (h0 : (findEpoch c.env c.cfg rows current).2 = 0) (hs : stubBefore ≠ none) :
    c.buildHistoryView rows (some current) true preceding stubBefore =
      ⟨(c.render [] rows 0 preceding stubBefore).messages, (findEpoch c.env c.cfg rows current).1, [],
        (c.render [] rows 0 preceding stubBefore).elided⟩ := by
  simp only [Ctx.buildHistoryView]
  rw [if_neg (by simp [hs]), if_pos h0]

/-- the rebuild of the inherited turns -/
theorem buildHistoryView_rebuilt (h0 : (findEpoch c.env c.cfg rows current).2 ≠ 0) :
    let groups := groupTurns (rows.take (findEpoch c.env c.cfg rows current).2)
    let post := rows.drop (findEpoch c.env c.cfg rows current).2
    let start := c.start groups post preceding stubBefore
    c.buildHistoryView rows (some current) true preceding stubBefore =
      ⟨(c.fitFrom groups post preceding stubBefore start).messages, (findEpoch c.env c.cfg rows current).1,
        (groups.take start).flatten, (c.fitFrom groups post preceding stubBefore start).elided⟩ := by
  simp only [Ctx.buildHistoryView]
  rw [if_neg (by simp [h0]), if_neg h0]

end

/-! ## The mid-session shed -/

structure ShedView where
  view : HistoryView
  stubBefore : ℕ

section

variable (c : Ctx) (rows : List StoredMessage) (current : StoredMessage) (preceding : List StoredMessage)
  (stubBefore : Option ℕ)

/-- `stub_line`: the stub seq that leaves the last `verbatim` turns whole -/
def stubLine (groups : List (List StoredMessage)) (verbatim : ℕ) : ℕ :=
  let line :=
    if verbatim = 0 then current.seq
    else (((groups.getD (groups.length - verbatim) []).head?).map StoredMessage.seq).getD 0
  match stubBefore with
  | none => line
  | some s => max line s

/-- `render`: the candidate that drops `start` turns and stubs all but the last `verbatim` -/
def Ctx.shedCandidate (start verbatim : ℕ) : HistoryView :=
  let groups := groupTurns rows
  let dropped := (groups.take start).flatten
  let view := c.buildHistoryView (groups.drop start).flatten (some current) true (preceding ++ dropped)
    (some (stubLine current stubBefore groups verbatim))
  { view with droppedRows := dropped ++ view.droppedRows }

/-- the windows of at most `verbatim` turns, widest first -/
def Ctx.widestFrom (fits : List AgentMessage → Bool) (start : ℕ) : ℕ → Option ShedView
  | 0 =>
    let view := c.shedCandidate rows current preceding stubBefore start 0
    if fits view.messages then some ⟨view, stubLine current stubBefore (groupTurns rows) 0⟩ else none
  | verbatim + 1 =>
    let view := c.shedCandidate rows current preceding stubBefore start (verbatim + 1)
    if fits view.messages then some ⟨view, stubLine current stubBefore (groupTurns rows) (verbatim + 1)⟩
    else Ctx.widestFrom fits start verbatim

/-- `widest` -/
def Ctx.widest (fits : List AgentMessage → Bool) (start : ℕ) : Option ShedView :=
  c.widestFrom rows current preceding stubBefore fits start
    (min c.cfg.coldStartVerbatimTurns ((groupTurns rows).length - start))

/-- the binary search of step 3, in at most `fuel` rounds -/
def Ctx.fewestDrops (fits : List AgentMessage → Bool) : ℕ → ℕ → ℕ → ℕ
  | 0, low, _ => low
  | fuel + 1, low, high =>
    if low < high then
      let middle := (low + high) / 2
      if fits (c.shedCandidate rows current preceding stubBefore middle 0).messages then
        Ctx.fewestDrops fits fuel low middle
      else Ctx.fewestDrops fits fuel (middle + 1) high
    else low

/-- `shed_history_view` -/
def Ctx.shedHistoryView (fits : List AgentMessage → Bool) : ShedView :=
  let last := (groupTurns rows).length - 1
  let alone (start : ℕ) : ShedView :=
    ⟨c.shedCandidate rows current preceding stubBefore start 0, stubLine current stubBefore (groupTurns rows) 0⟩
  match c.widest rows current preceding stubBefore fits 0 with
  | some found => found
  | none =>
    if 1 ≤ last then
      let low := c.fewestDrops rows current preceding stubBefore fits last 1 last
      (c.widest rows current preceding stubBefore fits low).getD (alone low)
    else alone 0

end

end Clawbolt.History
