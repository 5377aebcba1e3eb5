/-
Tool calls that arrive as a stream of events (`_BlockState` and `_MessageAccumulator` of services/llm_service.py,
`parse_tool_calls` of agent/llm_parsing.py), up to the round that answers them.

`json.loads` is a parameter: a text is read as a value, raises a `JSONDecodeError`, or raises something else (a nesting
too deep, a number too long). The input of a block that starts is an object; the input of a block that was built from its
fragments is whatever `json.loads` read.

`rejectsMalformed_iff`: arguments that are no JSON object are rejected without harm exactly when they are `null`.
-/
import Mathlib.Tactic
import Mathlib.Data.List.Sort
import Clawbolt.Agent.RoundOrder
import Clawbolt.QuickBooks.Merge

namespace Clawbolt.Agent

open Text (Str)
open QuickBooks (truthy)

/-! ## Blocks -/

/-- what `json.loads` comes to -/
inductive Loaded where
  | value (v : Json)
  | decodeError
  | raised

/-- the block of a `content_block_start` -/
inductive StartBlock where
  | text (text : Str)
  | thinking (thinking signature : Str)
  | toolUse (id name : Str) (input : Dict Json)
  | other

inductive ContentBlock where
  | text (text : Str)
  | thinking (thinking signature : Str)
  | toolUse (id name : Str) (input : Json)
  | other

/-- `_BlockState` -/
structure BlockState where
  start : StartBlock
  text : List Str := []
  thinking : List Str := []
  jsonInput : List Str := []
  signature : Str := []

/-- the input of a tool block; none where `json.loads` raises more than a `JSONDecodeError` -/
def streamedInput (loads : Str → Loaded) (input : Dict Json) (fragments : List Str) : Option Json :=
  let raw := fragments.flatten
  if raw = [] then some (.obj input)
  else
    match loads raw with
    | .value parsed => some parsed
    | .decodeError => some (.obj input)
    | .raised => none

/-- `_BlockState.build` -/
def BlockState.build (loads : Str → Loaded) (b : BlockState) : Option ContentBlock :=
  match b.start with
  | .text text => some (.text (text ++ b.text.flatten))
  | .thinking thinking signature =>
    some (.thinking (thinking ++ b.thinking.flatten) (if b.signature ≠ [] then b.signature else signature))
  | .toolUse id name input => (streamedInput loads input b.jsonInput).map fun parsed => .toolUse id name parsed
  | .other => some .other

/-! ## The stream -/

structure MessageResponse where
  id : Str
  model : Str
  content : List ContentBlock
  stopReason : Option Str
  stopSequence : Option Str
  usage : Dict Json

inductive Delta where
  | text (text : Str)
  | thinking (thinking : Str)
  | signature (signature : Str)
  | inputJson (partialJson : Str)
  | other

/-- the `delta` of a `message_delta` -/
structure MessageDelta where
  stopReason : Option Str
  stopSequence : Option Str

inductive StreamEvent where
  | messageStart (message : MessageResponse)
  | contentBlockStart (index : ℤ) (block : StartBlock)
  | contentBlockDelta (index : ℤ) (delta : Delta)
  | contentBlockStop (index : ℤ)
  | messageDelta (delta : MessageDelta) (usage : Dict Json)
  | messageStop (message : Option MessageResponse)

/-- `_MessageAccumulator` -/
structure MessageAccumulator where
  final : Option MessageResponse := none
  start : Option MessageResponse := none
  blocks : List (ℤ × BlockState) := []
  delta : Option MessageDelta := none
  usage : Option (Dict Json) := none
  stopped : Bool := false

/-- `self._blocks[index] = block` -/
def setBlock (index : ℤ) (block : BlockState) : List (ℤ × BlockState) → List (ℤ × BlockState)
  | [] => [(index, block)]
  | (i, b) :: blocks => if i = index then (i, block) :: blocks else (i, b) :: setBlock index block blocks

def BlockState.addDelta (b : BlockState) : Delta → BlockState
  | .text text => { b with text := b.text ++ [text] }
  | .thinking thinking => { b with thinking := b.thinking ++ [thinking] }
  | .signature signature => { b with signature := signature }
  | .inputJson partialJson => { b with jsonInput := b.jsonInput ++ [partialJson] }
  | .other => b

/-- `_MessageAccumulator.add` with `_add_delta` -/
def MessageAccumulator.add (acc : MessageAccumulator) : StreamEvent → MessageAccumulator
  | .messageStart message => { acc with start := some message }
  | .contentBlockStart index block => { acc with blocks := setBlock index { start := block } acc.blocks }
  | .contentBlockDelta index delta =>
    match acc.blocks.lookup index with
    | none => acc
    | some block => { acc with blocks := setBlock index (block.addDelta delta) acc.blocks }
  | .contentBlockStop _ => acc
  | .messageDelta delta usage => { acc with delta := some delta, usage := some usage }
  | .messageStop message => { acc with final := message, stopped := true }

inductive StreamError where
  /-- `ProviderError` -/
  | provider (text : String)
  /-- what `json.loads` raised -/
  | loads

/-- the blocks by their index -/
def MessageAccumulator.sortedBlocks (acc : MessageAccumulator) : List BlockState :=
  (acc.blocks.insertionSort fun a b => a.1 ≤ b.1).map Prod.snd

/-- `_merged_usage` -/
def MessageAccumulator.mergedUsage (acc : MessageAccumulator) (start : Dict Json) : Dict Json :=
  match acc.usage with
  | none => start
  | some counts => Dict.update start (counts.filter fun kv => kv.2 ≠ .null)

/-- `_MessageAccumulator.build` -/
def MessageAccumulator.build (loads : Str → Loaded) (acc : MessageAccumulator) : Except StreamError MessageResponse :=
  match acc.final with
  | some message => .ok message
  | none =>
    match acc.start with
    | none => .error (.provider "LLM stream ended without a message to accumulate")
    | some start =>
      if acc.stopped then
        match acc.sortedBlocks.mapM (BlockState.build loads) with
        | none => .error .loads
        | some content =>
          let message := { start with content := content, usage := acc.mergedUsage start.usage }
          match acc.delta with
          | none => .ok message
          | some delta => .ok { message with stopReason := delta.stopReason, stopSequence := delta.stopSequence }
      else .error (.provider "LLM stream ended before the provider signalled completion")

/-- the accumulator after a stream -/
def accumulate (events : List StreamEvent) : MessageAccumulator := events.foldl MessageAccumulator.add {}

/-! ## The calls -/

def ContentBlock.toolCall? : ContentBlock → Option ParsedToolCall
  | .toolUse id name input => some ⟨id, name, input⟩
  | _ => none

/-- `tc.arguments.keys() if tc.arguments else ''` does not raise -/
def keysLogged : Json → Bool
  | .obj _ => true
  | v => !truthy v

/-- `parse_tool_calls`; none where its log line raises -/
def parseToolCalls (response : MessageResponse) : Option (List ParsedToolCall) :=
  let result := response.content.filterMap ContentBlock.toolCall?
  if result.all fun call => keysLogged call.arguments then some result else none

/-! ## From the stream to the calls -/

/-- a tool block with the fragments of its input -/
structure ToolBlock where
  id : Str
  name : Str
  input : Dict Json
  fragments : List Str

def BlockState.toolBlock? (b : BlockState) : Option ToolBlock :=
  match b.start with
  | .toolUse id name input => some ⟨id, name, input, b.jsonInput⟩
  | _ => none

def ToolBlock.call (loads : Str → Loaded) (b : ToolBlock) : Option ParsedToolCall :=
  (streamedInput loads b.input b.fragments).map fun v => ⟨b.id, b.name, v⟩

/-- the tool blocks of a stream -/
def toolBlocks (events : List StreamEvent) : List ToolBlock :=
  (accumulate events).sortedBlocks.filterMap BlockState.toolBlock?

/-- the stream starts and stops, without its message attached -/
structure Reassembled (events : List StreamEvent) : Prop where
  started : ∃ message, .messageStart message ∈ events
  stopped : .messageStop none ∈ events
  unattached : ∀ message, .messageStop (some message) ∉ events

theorem accumulate_snoc (events : List StreamEvent) (e : StreamEvent) :
    accumulate (events ++ [e]) = (accumulate events).add e := by
  unfold accumulate
  rw [List.foldl_append]
  rfl

def StreamEvent.starts : StreamEvent → Bool
  | .messageStart _ => true
  | _ => false

def StreamEvent.stops : StreamEvent → Bool
  | .messageStop _ => true
  | _ => false

/-- a delta changes nothing but the blocks -/
theorem MessageAccumulator.add_contentBlockDelta (acc : MessageAccumulator) (index : ℤ) (delta : Delta) :
    ∃ blocks, acc.add (.contentBlockDelta index delta) = { acc with blocks := blocks } := by
  cases h : acc.blocks.lookup index with
  | none => exact ⟨acc.blocks, by simp only [MessageAccumulator.add, h]⟩
  | some block => exact ⟨_, by simp only [MessageAccumulator.add, h]; rfl⟩

theorem MessageAccumulator.add_start (acc : MessageAccumulator) (e : StreamEvent) :
    (acc.add e).start.isSome = (acc.start.isSome || e.starts) := by
  cases e with
  | contentBlockDelta index delta =>
    obtain ⟨blocks, h⟩ := acc.add_contentBlockDelta index delta
    rw [h]
    exact (Bool.or_false _).symm
  | _ => simp [MessageAccumulator.add, StreamEvent.starts]

theorem MessageAccumulator.add_stopped (acc : MessageAccumulator) (e : StreamEvent) :
    (acc.add e).stopped = (acc.stopped || e.stops) := by
  cases e with
  | contentBlockDelta index delta =>
    obtain ⟨blocks, h⟩ := acc.add_contentBlockDelta index delta
    rw [h]
    exact (Bool.or_false _).symm
  | _ => simp [MessageAccumulator.add, StreamEvent.stops]

theorem accumulate_started {events : List StreamEvent} {message : MessageResponse} (h : .messageStart message ∈ events) :
    (accumulate events).start.isSome = true := by
  induction events using List.reverseRecOn with
  | nil => simp at h
  | append_singleton events e ih =>
    rw [accumulate_snoc, MessageAccumulator.add_start]
    rcases List.mem_append.1 h with h | h
    · rw [ih h, Bool.true_or]
    · obtain rfl := List.mem_singleton.1 h
      exact Bool.or_true _

theorem accumulate_stopped {events : List StreamEvent} (h : .messageStop none ∈ events) :
    (accumulate events).stopped = true := by
  induction events using List.reverseRecOn with
  | nil => simp at h
  | append_singleton events e ih =>
    rw [accumulate_snoc, MessageAccumulator.add_stopped]
    rcases List.mem_append.1 h with h | h
    · rw [ih h, Bool.true_or]
    · obtain rfl := List.mem_singleton.1 h
      exact Bool.or_true _

theorem accumulate_final {events : List StreamEvent} (h : ∀ message, .messageStop (some message) ∉ events) :
    (accumulate events).final = none := by
  induction events using List.reverseRecOn with
  | nil => rfl
  | append_singleton events e ih =>
    have hfinal := ih fun message hm => h message (List.mem_append_left _ hm)
    rw [accumulate_snoc]
    cases e with
    | contentBlockDelta index delta =>
      obtain ⟨blocks, hadd⟩ := (accumulate events).add_contentBlockDelta index delta
      rw [hadd]
      exact hfinal
    | messageStop message =>
      cases message with
      | none => rfl
      | some message => exact absurd (List.mem_append_right _ (List.mem_singleton_self _)) (h message)
    | _ => exact hfinal

/-- the built tool blocks are the calls of the tool blocks -/
theorem mapM_build (loads : Str → Loaded) (blocks : List BlockState) :
    (blocks.mapM (BlockState.build loads)).map (fun content => content.filterMap ContentBlock.toolCall?) =
      (blocks.filterMap BlockState.toolBlock?).mapM (ToolBlock.call loads) := by
  induction blocks with
  | nil => rfl
  | cons b blocks ih =>
    rw [List.mapM_cons]
    cases hb : b.start with
    | toolUse id name input =>
      have htool : b.toolBlock? = some ⟨id, name, input, b.jsonInput⟩ := by
        rw [BlockState.toolBlock?, hb]
      have hbuild : b.build loads = (streamedInput loads input b.jsonInput).map fun v => .toolUse id name v := by
        rw [BlockState.build, hb]
      rw [List.filterMap_cons_some htool, List.mapM_cons, ← ih, hbuild, ToolBlock.call]
      cases streamedInput loads input b.jsonInput with
      | none => rfl
      | some v => cases blocks.mapM (BlockState.build loads) <;> rfl
    | _ =>
      have htool : b.toolBlock? = none := by
        rw [BlockState.toolBlock?, hb]
      have hbuild : ∃ block, b.build loads = some block ∧ block.toolCall? = none := by
        rw [BlockState.build, hb]
        exact ⟨_, rfl, rfl⟩
      obtain ⟨block, hbuild, hnone⟩ := hbuild
      rw [List.filterMap_cons_none htool, ← ih, hbuild]
      cases blocks.mapM (BlockState.build loads) with
      | none => rfl
      | some content => exact congrArg some (List.filterMap_cons_none hnone)

/-- a reassembled stream is built exactly when its blocks are -/
theorem build_iff {loads : Str → Loaded} {events : List StreamEvent} (h : Reassembled events) (content : List ContentBlock) :
    (∃ response, (accumulate events).build loads = .ok response ∧ response.content = content) ↔
      (accumulate events).sortedBlocks.mapM (BlockState.build loads) = some content := by
  obtain ⟨message, hmessage⟩ := h.started
  obtain ⟨start, hstart⟩ := Option.isSome_iff_exists.1 (accumulate_started hmessage)
  simp only [MessageAccumulator.build, accumulate_final h.unattached, hstart, accumulate_stopped h.stopped, if_true]
  cases (accumulate events).sortedBlocks.mapM (BlockState.build loads) with
  | none => simp
  | some built => cases (accumulate events).delta <;> simp

theorem parseToolCalls_eq_some {response : MessageResponse} {calls : List ParsedToolCall} :
    parseToolCalls response = some calls ↔ response.content.filterMap ContentBlock.toolCall? = calls ∧
      ∀ call ∈ calls, keysLogged call.arguments = true := by
  unfold parseToolCalls
  simp only [List.all_eq_true]
  constructor
  · intro hp
    split_ifs at hp with hall
    obtain rfl := Option.some.inj hp
    exact ⟨rfl, hall⟩
  · intro hp
    obtain ⟨rfl, hall⟩ := hp
    rw [if_pos hall]

/-- **From the stream to the calls.** A reassembled stream is parsed exactly when the input of every tool block is read and
its keys can be logged. -/
theorem parse_iff {loads : Str → Loaded} {events : List StreamEvent} (h : Reassembled events)
    (calls : List ParsedToolCall) :
    (∃ response, (accumulate events).build loads = .ok response ∧ parseToolCalls response = some calls) ↔
      (toolBlocks events).mapM (ToolBlock.call loads) = some calls ∧
      ∀ call ∈ calls, keysLogged call.arguments = true := by
  rw [toolBlocks, ← mapM_build, Option.map_eq_some_iff]
  constructor
  · intro hp
    obtain ⟨response, hbuild, hparse⟩ := hp
    obtain ⟨hcalls, hkeys⟩ := parseToolCalls_eq_some.1 hparse
    exact ⟨⟨response.content, (build_iff h _).1 ⟨response, hbuild, rfl⟩, hcalls⟩, hkeys⟩
  · intro hp
    obtain ⟨⟨content, hcontent, hcalls⟩, hkeys⟩ := hp
    obtain ⟨response, hbuild, rfl⟩ := (build_iff h _).2 hcontent
    exact ⟨response, hbuild, parseToolCalls_eq_some.2 ⟨hcalls, hkeys⟩⟩

/-! ## From the calls to the round -/

/-- a text that is not read as a JSON object -/
def Malformed (loads : Str → Loaded) (b : ToolBlock) : Prop :=
  b.fragments.flatten ≠ [] ∧ ∀ d, loads b.fragments.flatten ≠ .value (.obj d)

/-- pydantic takes nothing but objects for the parameters, and does not miss a text there -/
def Tool.TakesObjects (tool : Tool) : Prop :=
  ∀ v, (∀ d, v ≠ .obj d) → ∃ errors, tool.modelValidate v = .error errors ∧ ∀ e ∈ errors, isNumberForString e = false

/-- a call is answered with one error, and its function does not run -/
structure Rejected (r : Round) (i : ℕ) (id : Str) : Prop where
  answered : ∃ a ∈ r.log.answers, a.key = (i, id) ∧ a.message.isError = true ∧
    ∀ b ∈ r.log.answers, b.index = i → b = a
  notRun : ∀ trace, r.Schedules trace → Event.start i ∉ trace

/-- the stream is parsed, and any round of its calls returns and rejects the malformed ones -/
def RejectsMalformed (loads : Str → Loaded) (events : List StreamEvent) : Prop :=
  ∃ response calls, (accumulate events).build loads = .ok response ∧ parseToolCalls response = some calls ∧
    ∀ env input, input.calls = calls → (∀ tool ∈ input.tools, tool.TakesObjects) →
      ∃ r, executeToolRound env input = some r ∧
        ∀ i b, (toolBlocks events)[i]? = some b → Malformed loads b → Rejected r i b.id

/-- a call that does not pass phase 1 is rejected -/
theorem rejected_of_invalid {env : Env} {input : RoundInput} {r : Round} (hr : executeToolRound env input = some r)
    {i : ℕ} {call : ParsedToolCall} (hcall : input.calls[i]? = some call)
    (hnone : accepted? env (registerTools input.tools) (call, i) = none) : Rejected r i call.id := by
  have hentry : ∀ e ∈ input.entries env, e.index ≠ i := by
    intro e he hi
    obtain ⟨c, hc, hsome⟩ := List.mem_filterMap.1 he
    obtain ⟨hindex, -⟩ := accepted_call hsome
    obtain rfl : c = (call, i) := by
      rw [List.mem_zipIdx_iff_getElem?, ← hindex, hi, hcall] at hc
      exact Prod.ext (Option.some.inj hc).symm (hindex.symm.trans hi)
    rw [hnone] at hsome
    exact absurd hsome (by simp)
  constructor
  · obtain ⟨-, rejected, answered, hlog, hall, -, herrs, -⟩ := executeToolRound_answers hr
    have hkey : (i, call.id) ∈ rejected.map Answer.key ++ (input.entries env).map Entry.key :=
      hall.mem_iff.2 (List.mem_map.2 ⟨(call, i), List.mem_zipIdx_iff_getElem?.2 hcall, rfl⟩)
    rcases List.mem_append.1 hkey with hkey | hkey
    · obtain ⟨a, ha, hak⟩ := List.mem_map.1 hkey
      have ha' : a ∈ r.log.answers := hlog ▸ List.mem_append_left _ ha
      refine ⟨a, ha', hak, herrs a ha, fun b hb hindex => answer_unique hr ha' hb (hindex.trans ?_)⟩
      exact (congrArg Prod.fst hak).symm
    · obtain ⟨e, he, hek⟩ := List.mem_map.1 hkey
      exact absurd (congrArg Prod.fst hek) (hentry e he)
  · intro trace hs hstart
    obtain ⟨e, hindex, hpermitted⟩ := (start_mem_trace hr hs i).1 hstart
    exact hentry e hpermitted.1 hindex

/-- the error of a model that is given no object -/
def modelTypeError (input : Json) : FieldError := ⟨[], "Input should be a valid dictionary".toList, "model_type".toList, input⟩

/-- a tool whose parameters all have defaults -/
def defaultsTool (name : Str) : Tool where
  name := name
  modelValidate := fun
    | .obj args => .ok args
    | input => .error [modelTypeError input]
  paramsSummary := []
  tags := []
  approvalPolicy := none
  concurrencyGroup := fun _ => none

theorem defaultsTool_takesObjects (name : Str) : (defaultsTool name).TakesObjects := by
  intro v hv
  have herror : ∀ e ∈ [modelTypeError v], isNumberForString e = false := by
    intro e he
    obtain rfl := List.mem_singleton.1 he
    have htype : (modelTypeError v).type ≠ "string_type".toList :=
      (by decide : "model_type".toList ≠ "string_type".toList)
    rw [isNumberForString, decide_eq_false htype, Bool.false_and]
  refine ⟨[modelTypeError v], ?_, herror⟩
  cases v with
  | obj d => exact absurd rfl (hv d)
  | _ => rfl

/-- a round with the one tool -/
def roundWith (name : Str) (calls : List ParsedToolCall) : RoundInput where
  tools := [defaultsTool name]
  calls := calls
  responseTruncated := false
  asking := ⟨false, fun _ => .denied⟩
  cache := []
  delivered := []
  outcome := fun _ => .returned ⟨[], false, none, [], none⟩

theorem registerTools_singleton (tool : Tool) : (registerTools [tool]).lookup tool.name = some tool := by
  simp [registerTools, Dict.set]

/-- the tool runs on any object -/
theorem runs_of_object {calls : List ParsedToolCall} {i : ℕ} {call : ParsedToolCall} {args : Dict Json}
    (hcall : calls[i]? = some call) (hargs : call.arguments = .obj args) {r : Round}
    (hr : executeToolRound workspaceEnv (roundWith call.name calls) = some r) {trace : List Event} (hs : r.Schedules trace) :
    Event.start i ∈ trace := by
  have hlookup : (registerTools (roundWith call.name calls).tools).lookup call.name = some (defaultsTool call.name) :=
    registerTools_singleton (defaultsTool call.name)
  have hcheck : checkCall workspaceEnv (registerTools (roundWith call.name calls).tools) call =
      .valid (defaultsTool call.name) args := by
    rw [checkCall, hargs, if_neg (by simp), hlookup]
    rfl
  have hentry : accepted? workspaceEnv (registerTools (roundWith call.name calls).tools) (call, i) =
      some ⟨i, call, defaultsTool call.name, args⟩ := by
    rw [accepted?, hcheck]
  have hmem : ⟨i, call, defaultsTool call.name, args⟩ ∈ (roundWith call.name calls).entries workspaceEnv :=
    List.mem_filterMap.2 ⟨(call, i), List.mem_zipIdx_iff_getElem?.2 hcall, hentry⟩
  have hlevel : Entry.level workspaceEnv ⟨i, call, defaultsTool call.name, args⟩ = .always := rfl
  exact (start_mem_trace hr hs i).2 ⟨_, rfl, hmem, Or.inl hlevel⟩

/-- the round raises on what the tool does not take -/
theorem raises_of_nonobject {calls : List ParsedToolCall} {call : ParsedToolCall} (hcall : call ∈ calls)
    (hnull : call.arguments ≠ .null) (hobj : ∀ d, call.arguments ≠ .obj d) :
    ¬∃ r, executeToolRound workspaceEnv (roundWith call.name calls) = some r := by
  rw [executeToolRound_returns]
  intro hrec
  have hlookup : (registerTools (roundWith call.name calls).tools).lookup call.name = some (defaultsTool call.name) :=
    registerTools_singleton (defaultsTool call.name)
  have hcheck : ∃ error, checkCall workspaceEnv (registerTools (roundWith call.name calls).tools) call =
      .invalid (defaultsTool call.name) error := by
    rw [checkCall, if_neg hnull, hlookup]
    cases hargs : call.arguments with
    | obj d => exact absurd hargs (hobj d)
    | _ => exact ⟨_, rfl⟩
  obtain ⟨error, hcheck⟩ := hcheck
  obtain ⟨args, hargs⟩ := hrec call hcall _ error hcheck
  exact hobj args hargs

/-! ## Malformed calls -/

theorem mapM_call_get {loads : Str → Loaded} {blocks : List ToolBlock} {calls : List ParsedToolCall}
    (h : blocks.mapM (ToolBlock.call loads) = some calls) {i : ℕ} {b : ToolBlock} (hb : blocks[i]? = some b) :
    ∃ call, b.call loads = some call ∧ calls[i]? = some call := by
  induction blocks generalizing calls i with
  | nil => simp at hb
  | cons b' blocks ih =>
    rw [List.mapM_cons] at h
    obtain ⟨call, hcall, h⟩ := Option.bind_eq_some_iff.1 h
    obtain ⟨rest, hrest, h⟩ := Option.bind_eq_some_iff.1 h
    obtain rfl := Option.some.inj h
    cases i with
    | zero =>
      obtain rfl := Option.some.inj hb
      exact ⟨call, hcall, rfl⟩
    | succ i => exact ih hrest hb

theorem mapM_call_some {loads : Str → Loaded} {blocks : List ToolBlock}
    (h : ∀ b ∈ blocks, ∃ call, b.call loads = some call) : ∃ calls, blocks.mapM (ToolBlock.call loads) = some calls ∧
      ∀ call ∈ calls, ∃ b ∈ blocks, b.call loads = some call := by
  induction blocks with
  | nil => exact ⟨[], rfl, by simp⟩
  | cons b blocks ih =>
    obtain ⟨call, hcall⟩ := h b List.mem_cons_self
    obtain ⟨rest, hrest, hmem⟩ := ih fun b' hb => h b' (List.mem_cons_of_mem _ hb)
    refine ⟨call :: rest, by rw [List.mapM_cons, hcall, hrest]; rfl, fun c hc => ?_⟩
    rcases List.mem_cons.1 hc with rfl | hc
    · exact ⟨b, List.mem_cons_self, hcall⟩
    · obtain ⟨b', hb', hc'⟩ := hmem c hc
      exact ⟨b', List.mem_cons_of_mem _ hb', hc'⟩

theorem call_arguments {loads : Str → Loaded} {b : ToolBlock} {call : ParsedToolCall} (h : b.call loads = some call) :
    call.id = b.id ∧ call.name = b.name ∧ streamedInput loads b.input b.fragments = some call.arguments := by
  obtain ⟨v, hv, rfl⟩ := Option.map_eq_some_iff.1 h
  exact ⟨rfl, rfl, hv⟩

/-- what a malformed block must be, if the stream does no harm -/
theorem null_of_rejectsMalformed {loads : Str → Loaded} {events : List StreamEvent} (h : Reassembled events)
    (hreject : RejectsMalformed loads events) {b : ToolBlock} (hb : b ∈ toolBlocks events) (hbad : Malformed loads b) :
    loads b.fragments.flatten = .value .null := by
  obtain ⟨response, calls, hbuild, hparse, hround⟩ := hreject
  obtain ⟨hcalls, hkeys⟩ := (parse_iff h calls).1 ⟨response, hbuild, hparse⟩
  obtain ⟨i, hi⟩ := List.getElem?_of_mem hb
  obtain ⟨call, hcall, hget⟩ := mapM_call_get hcalls hi
  obtain ⟨hid, hname, hinput⟩ := call_arguments hcall
  have htools : ∀ tool ∈ (roundWith call.name calls).tools, tool.TakesObjects := by
    intro tool ht
    obtain rfl := List.mem_singleton.1 ht
    exact defaultsTool_takesObjects _
  obtain ⟨r, hr, hrejected⟩ := hround workspaceEnv (roundWith call.name calls) rfl htools
  rw [streamedInput, if_neg hbad.1] at hinput
  cases hl : loads b.fragments.flatten with
  | raised =>
    rw [hl] at hinput
    exact absurd hinput (by simp)
  | decodeError =>
    -- the call runs on the input that the block started with
    rw [hl] at hinput
    have hargs : call.arguments = .obj b.input := (Option.some.inj hinput).symm
    have hs : r.Schedules ((bucketByConcurrencyGroup r.approved).map unitEvents).flatten :=
      Schedule.Interleaving.sequential _
    exact absurd (runs_of_object hget hargs hr hs) ((hrejected i b hi hbad).notRun _ hs)
  | value v =>
    rw [hl] at hinput
    have hargs : call.arguments = v := (Option.some.inj hinput).symm
    by_cases hnull : v = .null
    · rw [hnull]
    · have hobj : ∀ d, call.arguments ≠ .obj d := by
        intro d hd
        exact hbad.2 d (by rw [hl, ← hargs, hd])
      exact absurd ⟨r, hr⟩ (raises_of_nonobject (List.mem_of_getElem? hget) (hargs ▸ hnull) hobj)

/-- **Malformed tool calls.** A stream that the accumulator reassembles is parsed, and its malformed calls are answered with
one error each and do not run, whatever the tools, if and only if each of them is `null`. -/
theorem rejectsMalformed_iff {loads : Str → Loaded} {events : List StreamEvent} (h : Reassembled events) :
    RejectsMalformed loads events ↔
      ∀ b ∈ toolBlocks events, Malformed loads b → loads b.fragments.flatten = .value .null := by
  constructor
  · intro hreject b hb hbad
    exact null_of_rejectsMalformed h hreject hb hbad
  · intro hnull
    -- every call comes with an object or without arguments
    have hargs : ∀ b ∈ toolBlocks events, ∃ call, b.call loads = some call ∧
        (call.arguments = .null ∨ (¬Malformed loads b ∧ ∃ d, call.arguments = .obj d)) := by
      intro b hb
      by_cases hraw : b.fragments.flatten = []
      · refine ⟨⟨b.id, b.name, .obj b.input⟩, ?_, Or.inr ⟨fun hbad => hbad.1 hraw, _, rfl⟩⟩
        rw [ToolBlock.call, streamedInput, if_pos hraw]
        rfl
      · by_cases hbad : Malformed loads b
        · refine ⟨⟨b.id, b.name, .null⟩, ?_, Or.inl rfl⟩
          rw [ToolBlock.call, streamedInput, if_neg hraw, hnull b hb hbad]
          rfl
        · have hd : ∃ d, loads b.fragments.flatten = .value (.obj d) := by
            by_contra hno
            exact hbad ⟨hraw, fun d hd => hno ⟨d, hd⟩⟩
          obtain ⟨d, hd⟩ := hd
          refine ⟨⟨b.id, b.name, .obj d⟩, ?_, Or.inr ⟨hbad, d, rfl⟩⟩
          rw [ToolBlock.call, streamedInput, if_neg hraw, hd]
          rfl
    obtain ⟨calls, hcalls, hmem⟩ := mapM_call_some fun b hb => (hargs b hb).imp fun _ => And.left
    have hobj : ∀ call ∈ calls, call.arguments = .null ∨ ∃ d, call.arguments = .obj d := by
      intro call hc
      obtain ⟨b, hb, hbc⟩ := hmem call hc
      obtain ⟨call', hbc', hor⟩ := hargs b hb
      obtain rfl := Option.some.inj (hbc.symm.trans hbc')
      exact hor.imp_right And.right
    have hkeys : ∀ call ∈ calls, keysLogged call.arguments = true := by
      intro call hc
      rcases hobj call hc with hnil | ⟨d, hd⟩
      · rw [hnil]
        rfl
      · rw [hd]
        rfl
    obtain ⟨response, hbuild, hparse⟩ := (parse_iff h calls).2 ⟨hcalls, hkeys⟩
    refine ⟨response, calls, hbuild, hparse, fun env input hinput _ => ?_⟩
    have hrec : ∀ call ∈ input.calls, Recordable env (registerTools input.tools) call := by
      intro call hc tool error hcheck
      rcases hobj call (hinput ▸ hc) with hnil | hd
      · rw [checkCall, if_pos hnil] at hcheck
        exact absurd hcheck (by simp)
      · exact hd
    obtain ⟨r, hr⟩ := (executeToolRound_returns env input).2 hrec
    refine ⟨r, hr, fun i b hi hbad => ?_⟩
    obtain ⟨call, hcall, hget⟩ := mapM_call_get hcalls hi
    obtain ⟨call', hcall', hor⟩ := hargs b (List.mem_of_getElem? hi)
    obtain rfl := Option.some.inj (hcall.symm.trans hcall')
    have hnil : call.arguments = .null := hor.resolve_right fun hd => hd.1 hbad
    rw [← (call_arguments hcall).1]
    refine rejected_of_invalid hr (hinput ▸ hget) ?_
    rw [accepted?, checkCall, if_pos hnil]

/-! ## An upload without its arguments -/

/-- a call of `upload_to_storage`, whose parameters all have defaults -/
def uploadStream (fragment : String) : List StreamEvent := [
  .messageStart ⟨"msg_1".toList, [], [], none, none, []⟩,
  .contentBlockStart 0 (.toolUse "toolu_1".toList "upload_to_storage".toList []),
  .contentBlockDelta 0 (.inputJson fragment.toList),
  .contentBlockStop 0,
  .messageDelta ⟨some "max_tokens".toList, none⟩ [],
  .messageStop none]

/-- `json.loads` on `null` and on a text that breaks off -/
def loadsNull (raw : Str) : Loaded := if raw = "null".toList then .value .null else .decodeError

theorem uploadStream_reassembled (fragment : String) : Reassembled (uploadStream fragment) :=
  ⟨⟨_, List.mem_cons_self⟩, by simp [uploadStream], by simp [uploadStream]⟩

theorem toolBlocks_uploadStream (fragment : String) : toolBlocks (uploadStream fragment) =
    [⟨"toolu_1".toList, "upload_to_storage".toList, [], [fragment.toList]⟩] := rfl

set_option maxRecDepth 20000 in
/-- arguments that are `null` do no harm -/
theorem null_upload_rejected : RejectsMalformed loadsNull (uploadStream "null") := by
  refine (rejectsMalformed_iff (uploadStream_reassembled "null")).2 fun b hb _ => ?_
  rw [toolBlocks_uploadStream] at hb
  obtain rfl := List.mem_singleton.1 hb
  rfl

set_option maxRecDepth 20000 in
/-- an upload whose arguments break off runs without them -/
theorem truncated_upload_runs : ¬RejectsMalformed loadsNull (uploadStream "\x7b\"folder_path\": \"/Acme") := by
  intro hreject
  have hbad : Malformed loadsNull
      ⟨"toolu_1".toList, "upload_to_storage".toList, [], ["\x7b\"folder_path\": \"/Acme".toList]⟩ :=
    ⟨by decide, fun d hd => absurd (show Loaded.decodeError = .value (.obj d) from hd) (by simp)⟩
  have hnull := null_of_rejectsMalformed (uploadStream_reassembled _) hreject
    (by rw [toolBlocks_uploadStream]; exact List.mem_singleton_self _) hbad
  exact absurd (show Loaded.decodeError = .value .null from hnull) (by simp)

end Clawbolt.Agent
