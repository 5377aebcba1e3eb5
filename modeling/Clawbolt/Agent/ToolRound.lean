/-
A round of tool calls (`_execute_tool_round`, `_execute_single_tool`, `_validate_tool_args`, `_get_tool_permission` and
`_attach_first_use_skill_guidance` of agent/core.py, with agent/core_support.py, agent/tool_errors.py and the skill markers
of agent/skills/loader.py).

What the round calls is data: a tool's `model_validate`, its policy and its concurrency group (`Tool`), the permission
store and the tool registry (`Env`), the user's answer to the prompt for a call (`gate`) and what the function of a call
comes to (`outcome`), both by the index of the call. None of them raises, apart from a tool's function. The prompts, the
events and the telemetry of a round are left out.

The functions of a round run side by side: `Round.Schedules` are the orders in which the event loop may start and finish
them. The loop appends a result message and the record of the call together, so both are read off one list of answers.
-/
import Mathlib.Tactic
import Clawbolt.Core.Json
import Clawbolt.Core.Schedule
import Clawbolt.Approval.Gate
import Clawbolt.Approval.Permissions

namespace Clawbolt.Agent

open Text (Str)
open Approval (Decision PermissionLevel)

/-! ## Tools -/

inductive ToolErrorKind where
  | validation
  | service
  | notFound
  | permission
  | auth
  | internal
  | interrupted
deriving DecidableEq, Repr

/-- `_ERROR_KIND_HINTS` -/
def errorKindHint : ToolErrorKind → String
  | .validation => "[Check the expected parameter format and try again with corrected arguments.]"
  | .notFound => "[The requested resource was not found. Verify the identifier and try again.]"
  | .service =>
    "[An external service is temporarily unavailable. Try a different approach or inform the user.]"
  | .permission => "[You do not have permission for this operation. Inform the user.]"
  | .auth =>
    "[This integration is not connected. Do not retry. Let the user know they need to authenticate via the web dashboard.]"
  | .internal =>
    "[An internal error occurred. Inform the user that this operation is temporarily unavailable.]"
  | .interrupted =>
    "[The user changed the subject instead of responding to the approval prompt. Do not retry this tool. In one short " ++
      "sentence, tell the user you are skipping the specific action they did not approve (name it) and that they can ask " ++
      "for it again later. If the user\x27s new message follows this result, answer it in the same reply. Otherwise end " ++
      "your turn; it is handled separately.]"

/-- `_DEFAULT_ERROR_HINT` -/
def defaultErrorHint : String := "[Analyze the error above and try a different approach.]"

/-- `_TRUNCATION_HINT` -/
def truncationHint : String :=
  "[Your previous response was cut short (hit the token limit) and the tool call was incomplete. Simplify your " ++
    "approach: use smaller payloads, break the operation into multiple steps, or omit optional fields.]"

structure ToolReceipt where
  action : Str
  target : Str
  url : Option Str
deriving DecidableEq, Repr

structure ToolResult where
  content : Str
  isError : Bool
  errorKind : Option ToolErrorKind
  hint : Str
  receipt : Option ToolReceipt
deriving DecidableEq, Repr

/-- what awaiting a tool's function comes to; an exception is `f"{type(exc).__name__}: {exc}"` -/
inductive Outcome where
  | returned (result : ToolResult)
  | raised (text : Str)
deriving DecidableEq, Repr

/-- `build_error_hint` -/
def buildErrorHint (result : ToolResult) : Str :=
  if result.hint ≠ [] then
    if Text.startsWith "[".toList result.hint then result.hint else "[".toList ++ result.hint ++ "]".toList
  else
    match result.errorKind with
    | some kind => (errorKindHint kind).toList
    | none => defaultErrorHint.toList

/-- a part of the location of a field -/
inductive LocPart where
  | key (k : Str)
  | index (i : ℕ)
deriving DecidableEq, Repr

structure FieldError where
  loc : List LocPart
  msg : Str
  type : Str
  input : Json

/-- pydantic's `ValidationError` -/
abbrev ValidationError := List FieldError

structure ApprovalPolicy where
  defaultLevel : PermissionLevel
  resourceExtractor : Option (Dict Json → Option Str)
  descriptionBuilder : Option (Dict Json → Str)
  resourceNoun : Option Str
  /-- none when it raises or finds nothing -/
  previewBuilder : Option (Dict Json → Option Str)

structure Tool where
  name : Str
  /-- `params_model.model_validate(args).model_dump()` -/
  modelValidate : Json → Except ValidationError (Dict Json)
  /-- `summarize_tool_params` -/
  paramsSummary : Str
  tags : List Str
  approvalPolicy : Option ApprovalPolicy
  /-- `_resolve_concurrency_group` -/
  concurrencyGroup : Dict Json → Option Str

structure Env where
  /-- `str` of a number -/
  str : Json → Str
  /-- `_scrub_secrets` -/
  scrubSecrets : Str → Str
  /-- `check_permission` of the store: tool, resource, default -/
  checkPermission : Str → Option Str → PermissionLevel → PermissionLevel
  /-- `get_specialist_factory_for_tool`; none without a registry -/
  specialistFactory : Str → Option Str
  /-- `get_skill_instructions` -/
  skillInstructions : Str → Option Str

/-- `ParsedToolCall`; the arguments of a call without any are null -/
structure ParsedToolCall where
  id : Str
  name : Str
  arguments : Json

structure ToolResultMessage where
  toolCallId : Str
  content : Str
  isError : Bool
deriving DecidableEq, Repr

/-- `StoredToolInteraction` -/
structure ToolRecord where
  toolCallId : Str
  name : Str
  args : Dict Json
  result : Str
  isError : Bool
  tags : List Str
  receipt : Option ToolReceipt
deriving DecidableEq, Repr

/-- `register_tools`: the last tool of a name -/
def registerTools (tools : List Tool) : Dict Tool := tools.foldl (fun d t => Dict.set t.name t d) []

/-- `_get_tool_tags` -/
def toolTags (tools : Dict Tool) (name : Str) : List Str := ((tools.lookup name).map Tool.tags).getD []

/-! ## Arguments -/

/-- `container[...][loc[-1]] = value` after walking `loc`; none where the walk raises -/
def setAt (value : Json) : List LocPart → Json → Option Json
  | [], _ => none
  | [.key k], .obj d => some (.obj (Dict.set k value d))
  | [.index i], .arr l => if i < l.length then some (.arr (l.set i value)) else none
  | .key k :: loc, .obj d =>
    (d.lookup k).bind fun inner => (setAt value loc inner).map fun inner' => .obj (Dict.set k inner' d)
  | .index i :: loc, .arr l =>
    l[i]?.bind fun inner => (setAt value loc inner).map fun inner' => .arr (l.set i inner')
  | _, _ => none

/-- a number where a text is expected -/
def isNumberForString (e : FieldError) : Bool :=
  e.type = "string_type".toList &&
    match e.input with
    | .int _ => true
    | .float _ => true
    | _ => false

/-- `_stringify_numbers_for_string_fields` -/
def stringifyNumbers (env : Env) (args : Json) (exc : ValidationError) : Option Json :=
  let step := fun (s : Json × Bool) e =>
    if isNumberForString e then
      match setAt (.str (env.str e.input)) e.loc s.1 with
      | some coerced => (coerced, true)
      | none => s
    else s
  let (coerced, fixedAny) := exc.foldl step (args, false)
  if fixedAny then some coerced else none

def locText : LocPart → Str
  | .key k => k
  | .index i => Nat.toDigits 10 i

/-- `format_validation_error` -/
def formatValidationError (tool : Tool) (exc : ValidationError) : Str :=
  let line (e : FieldError) := "  ".toList ++ Text.join " -> ".toList (e.loc.map locText) ++ ": ".toList ++ e.msg ++
    " (type=".toList ++ e.type ++ ")".toList
  let summary := if tool.paramsSummary = [] then [] else ["\nExpected parameters: ".toList ++ tool.paramsSummary]
  Text.join "\n".toList (["Validation error for ".toList ++ tool.name ++ ":".toList] ++ exc.map line ++ summary)

/-- `_validate_tool_args`: the validated arguments, or the error message -/
def validateToolArgs (env : Env) (tool : Tool) (args : Json) : Except Str (Dict Json) :=
  match tool.modelValidate args with
  | .ok validated => .ok validated
  | .error exc =>
    match stringifyNumbers env args exc with
    | none => .error (formatValidationError tool exc)
    | some coerced =>
      match tool.modelValidate coerced with
      | .ok validated => .ok validated
      | .error retry => .error (formatValidationError tool retry)

/-- what phase 1 makes of a call -/
inductive Checked where
  | malformed
  | unknown
  | invalid (tool : Tool) (error : Str)
  | valid (tool : Tool) (args : Dict Json)

/-- the checks of a call. A call whose arguments are None is requested with `{}`, so `not tool_args` holds of it. -/
def checkCall (env : Env) (tools : Dict Tool) (call : ParsedToolCall) : Checked :=
  if call.arguments = .null then .malformed
  else
    match tools.lookup call.name with
    | none => .unknown
    | some tool =>
      match validateToolArgs env tool call.arguments with
      | .ok args => .valid tool args
      | .error error => .invalid tool error

/-! ## Skill guidance -/

def isSkillNameChar (c : Char) : Bool := c.isAlphanum || c = '_' || c = '-'

/-- `extract_delivered_skills`: the markers `[skill-guidance: name]` of a text; two of them never overlap -/
def extractDeliveredSkills (text : Str) : List Str :=
  text.tails.filterMap fun t =>
    let opening := "[skill-guidance: ".toList
    if Text.startsWith opening t then
      let rest := t.drop opening.length
      let name := rest.takeWhile isSkillNameChar
      if name ≠ [] ∧ Text.startsWith "]".toList (rest.drop name.length) then some name else none
    else none

/-- `skill_guidance_block` -/
def skillGuidanceBlock (factoryName instructions : Str) : Str :=
  "\n\n[skill-guidance: ".toList ++ factoryName ++ "]\n".toList ++ instructions ++ "\n[/skill-guidance: ".toList ++
    factoryName ++ "]".toList

/-- `_attach_first_use_skill_guidance`: the block that it appends to the record and to the message, and the categories
delivered after it -/
def firstUseGuidance (env : Env) (delivered : List Str) (record : ToolRecord) (msg : ToolResultMessage) :
    Str × List Str :=
  let delivered := delivered ++ extractDeliveredSkills msg.content
  match env.specialistFactory record.name with
  | none => ([], delivered)
  | some category =>
    if category ∈ delivered then ([], delivered)
    else
      match env.skillInstructions category with
      | none => ([], delivered ++ [category])
      | some [] => ([], delivered ++ [category])
      | some instructions => (skillGuidanceBlock category instructions, delivered ++ [category])

/-! ## The log of a round -/

/-- the result message of a call, and its record, if it leaves one -/
structure Answer where
  index : ℕ
  message : ToolResultMessage
  record : Option ToolRecord
deriving DecidableEq, Repr

/-- `tool_results` with `tool_call_records`, `actions_taken` and `_delivered_skill_categories` -/
structure Log where
  answers : List Answer
  actions : List Str
  delivered : List Str

def Log.add (log : Log) (answer : Answer) (actions : List Str) : Log :=
  { log with answers := log.answers ++ [answer], actions := log.actions ++ actions }

/-- an answer with its first-use guidance -/
def Log.addGuided (env : Env) (log : Log) (index : ℕ) (record : ToolRecord) (msg : ToolResultMessage) (action : Str) :
    Log :=
  let (block, delivered) := firstUseGuidance env log.delivered record msg
  { log.add ⟨index, { msg with content := msg.content ++ block }, some { record with result := record.result ++ block }⟩
      [action] with
    delivered := delivered }

/-! ## Phase 1 -/

/-- `_ToolEntry`, with its call -/
structure Entry where
  index : ℕ
  call : ParsedToolCall
  tool : Tool
  args : Dict Json

/-- `", ".join(sorted(names))` -/
def availableTools (tools : Dict Tool) : Str :=
  Text.join ", ".toList ((tools.map Prod.fst).mergeSort fun a b => !decide (b < a))

def malformedAnswer (call : ParsedToolCall) (i : ℕ) : Answer :=
  ⟨i, ⟨call.id, "Error: malformed arguments for ".toList ++ call.name, true⟩, none⟩

def unknownAnswer (tools : Dict Tool) (call : ParsedToolCall) (i : ℕ) : Answer :=
  ⟨i, ⟨call.id, "Error: unknown tool \"".toList ++ call.name ++ "\". Available tools: ".toList ++
    availableTools tools ++ "\n\n".toList ++ defaultErrorHint.toList, true⟩, none⟩

/-- phase 1 of the round. The record of a validation failure takes an object for its arguments, and raises for any other
value (none). -/
def phase1 (env : Env) (tools : Dict Tool) (responseTruncated : Bool) :
    Log → List (ParsedToolCall × ℕ) → Option (Log × List Entry)
  | log, [] => some (log, [])
  | log, (call, i) :: calls =>
    match checkCall env tools call with
    | .malformed =>
      phase1 env tools responseTruncated
        (log.add (malformedAnswer call i) ["Failed: ".toList ++ call.name ++ " (bad args)".toList]) calls
    | .unknown => phase1 env tools responseTruncated (log.add (unknownAnswer tools call i) []) calls
    | .invalid _ error =>
      match call.arguments with
      | .obj args =>
        let hint := if responseTruncated then truncationHint else errorKindHint .validation
        let text := error ++ "\n\n".toList ++ hint.toList
        phase1 env tools responseTruncated
          (log.addGuided env i ⟨call.id, call.name, args, text, true, toolTags tools call.name, none⟩
            ⟨call.id, text, true⟩ ("Failed: ".toList ++ call.name ++ " (validation)".toList)) calls
      | _ => none
    | .valid tool args =>
      (phase1 env tools responseTruncated log calls).map fun r => (r.1, ⟨i, call, tool, args⟩ :: r.2)

/-! ## Phase 2 -/

/-- `_get_tool_permission`: level, resource, description -/
def getToolPermission (env : Env) (tool : Tool) (args : Dict Json) : PermissionLevel × Option Str × Str :=
  match tool.approvalPolicy with
  | none => (.always, none, tool.name)
  | some policy =>
    let resource := policy.resourceExtractor.bind fun extract => extract args
    let level := env.checkPermission tool.name resource policy.defaultLevel
    let description := (policy.descriptionBuilder.map fun build => build args).getD tool.name
    let previewed := if level = .ask then policy.previewBuilder.bind fun build => build args else none
    match previewed with
    | some (c :: text) => (level, resource, c :: text)
    | _ => (level, resource, description)

def Entry.level (env : Env) (e : Entry) : PermissionLevel := (getToolPermission env e.tool e.args).1

def Entry.resource (env : Env) (e : Entry) : Option Str := (getToolPermission env e.tool e.args).2.1

def Entry.description (env : Env) (e : Entry) : Str := (getToolPermission env e.tool e.args).2.2

/-- `_resolve_concurrency_group` for a call -/
def Entry.group (e : Entry) : Option Str := e.tool.concurrencyGroup e.args

/-- the tool and resource that a decision is cached for -/
abbrev CacheKey := Str × Option Str

def Entry.cacheKey (env : Env) (e : Entry) : CacheKey := (e.tool.name, e.resource env)

/-- a denied call -/
def deniedAnswer (tools : Dict Tool) (e : Entry) : Answer :=
  let text := "Error: permission denied for tool \x27".toList ++ e.call.name ++ "\x27\n\n".toList ++
    (errorKindHint .permission).toList
  ⟨e.index, ⟨e.call.id, text, true⟩,
    some ⟨e.call.id, e.call.name, e.args, text, true, toolTags tools e.call.name, none⟩⟩

def Log.deny (tools : Dict Tool) (log : Log) (e : Entry) : Log :=
  log.add (deniedAnswer tools e) ["Denied: ".toList ++ e.call.name]

/-- a call that the user did not answer for -/
def interruptedAnswer (env : Env) (tools : Dict Tool) (e : Entry) : Answer :=
  let text := "Tool request interrupted: the user moved on to a different topic instead of approving \"".toList ++
    e.description env ++ "\". Do not proactively retry this tool; only call it again if the user explicitly asks.\n\n".toList ++
    (errorKindHint .interrupted).toList
  ⟨e.index, ⟨e.call.id, text, true⟩,
    some ⟨e.call.id, e.call.name, e.args, text, true, toolTags tools e.call.name, none⟩⟩

def Log.interrupt (env : Env) (tools : Dict Tool) (log : Log) (e : Entry) : Log :=
  log.add (interruptedAnswer env tools e) ["Interrupted: ".toList ++ e.call.name]

/-- APPROVED, ALWAYS_ALLOW or ALWAYS_ALLOW_ALL -/
def approves : Decision → Bool
  | .approved => true
  | .alwaysAllow => true
  | .alwaysAllowAll => true
  | _ => false

/-- how the round asks: whether it can, and what the user decides on a call -/
structure Asking where
  canAsk : Bool
  gate : ℕ → Decision

/-- the cached decision, or the user's; without a channel to ask on, a denial -/
def Asking.decide (asking : Asking) (env : Env) (cache : List (CacheKey × Decision)) (e : Entry) : Decision :=
  match cache.lookup (e.cacheKey env) with
  | some decision => decision
  | none => if asking.canAsk then asking.gate e.index else .denied

/-- the cache after the call: a decision of the user is cached, an interruption is not -/
def Asking.remember (asking : Asking) (env : Env) (cache : List (CacheKey × Decision)) (e : Entry) :
    List (CacheKey × Decision) :=
  match cache.lookup (e.cacheKey env) with
  | some _ => cache
  | none =>
    if asking.canAsk ∧ asking.gate e.index ≠ .interrupted then (e.cacheKey env, asking.gate e.index) :: cache else cache

/-- the permissions that a decision stores -/
def stored (env : Env) (e : Entry) (decision : Decision) : List (Str × PermissionLevel × Option Str) :=
  match decision with
  | .alwaysAllow => [(e.tool.name, .always, e.resource env)]
  | .alwaysAllowAll =>
    let supportsBlanket := (e.tool.approvalPolicy.bind ApprovalPolicy.resourceNoun).isSome
    [(e.tool.name, .always, if supportsBlanket then none else e.resource env)]
  | .alwaysDeny => [(e.tool.name, .never, e.resource env)]
  | _ => []

structure AskState where
  log : Log
  approved : List Entry
  cache : List (CacheKey × Decision)
  granted : List (Str × PermissionLevel × Option Str)

/-- the loop over the calls that need approval, up to an interruption -/
def askLoop (env : Env) (tools : Dict Tool) (asking : Asking) : AskState → List Entry → AskState
  | st, [] => st
  | st, e :: rest =>
    let decision := asking.decide env st.cache e
    let st := { st with
      cache := asking.remember env st.cache e
      granted := st.granted ++ stored env e decision }
    if approves decision then askLoop env tools asking { st with approved := st.approved ++ [e] } rest
    else if decision = .interrupted then
      { st with log := (e :: rest).foldl (fun log e => log.interrupt env tools e) st.log }
    else askLoop env tools asking { st with log := st.log.deny tools e } rest

/-! ## Execution -/

/-- `_execute_single_tool` -/
def executeSingleTool (env : Env) (tools : Dict Tool) (outcome : Outcome) (e : Entry) :
    ToolRecord × ToolResultMessage × Str :=
  let tags := toolTags tools e.call.name
  match outcome with
  | .returned result =>
    let text := if result.isError then result.content ++ "\n\n".toList ++ buildErrorHint result else result.content
    let action := (if result.isError then "Failed: ".toList else "Called ".toList) ++ e.call.name
    let receipt := if result.isError then none else result.receipt
    (⟨e.call.id, e.call.name, e.args, text, result.isError, tags, receipt⟩, ⟨e.call.id, text, result.isError⟩, action)
  | .raised exc =>
    let text := ("Error: tool ".toList ++ e.call.name ++ " raised ".toList ++ env.scrubSecrets exc ++ "\n\n".toList ++
      (errorKindHint .internal).toList).take 1500
    (⟨e.call.id, e.call.name, e.args, text, true, tags, none⟩, ⟨e.call.id, text, true⟩, "Failed: ".toList ++ e.call.name)

/-- `_bucket_by_concurrency_group` -/
def bucketByConcurrencyGroup (approved : List Entry) : List (List (Entry × ℕ)) :=
  (Schedule.buckets (fun item : Entry × ℕ => item.1.group) approved.zipIdx).flatMap fun bucket =>
    match bucket.1 with
    | none => bucket.2.map fun item => [item]
    | some _ => [bucket.2]

/-- the results of the units, by their position -/
def resultsByPos (env : Env) (tools : Dict Tool) (outcome : ℕ → Outcome) (approved : List Entry) :
    List (ℕ × Entry × ToolRecord × ToolResultMessage × Str) :=
  (bucketByConcurrencyGroup approved).flatten.map fun item =>
    (item.2, item.1, executeSingleTool env tools (outcome item.1.index) item.1)

/-- the results of the calls, in the order of `approved_entries` -/
def appendResults (env : Env) (tools : Dict Tool) (outcome : ℕ → Outcome) (approved : List Entry) (log : Log) : Log :=
  (List.range approved.length).foldl (fun log pos =>
    match (resultsByPos env tools outcome approved).lookup pos with
    | some (e, record, msg, action) => log.addGuided env e.index record msg action
    | none => log) log

structure Round where
  log : Log
  approved : List Entry
  cache : List (CacheKey × Decision)
  granted : List (Str × PermissionLevel × Option Str)

/-- what the round returns -/
def Round.toolResults (r : Round) : List ToolResultMessage := r.log.answers.map Answer.message

/-- what it appends to `tool_call_records` -/
def Round.records (r : Round) : List ToolRecord := r.log.answers.filterMap Answer.record

/-- what a round starts from -/
structure RoundInput where
  tools : List Tool
  calls : List ParsedToolCall
  responseTruncated : Bool
  asking : Asking
  cache : List (CacheKey × Decision)
  delivered : List Str
  outcome : ℕ → Outcome

/-- `_execute_tool_round` -/
def executeToolRound (env : Env) (input : RoundInput) : Option Round :=
  let tools := registerTools input.tools
  (phase1 env tools input.responseTruncated ⟨[], [], input.delivered⟩ input.calls.zipIdx).map fun (log, entries) =>
    let denied := entries.filter fun e => e.level env = .never
    let st := askLoop env tools input.asking
      ⟨denied.foldl (fun log e => log.deny tools e) log, entries.filter fun e => e.level env = .always, input.cache, []⟩
      (entries.filter fun e => e.level env = .ask)
    ⟨appendResults env tools input.outcome st.approved st.log, st.approved, st.cache, st.granted⟩

/-- a call's function starts, or comes to its outcome -/
inductive Event where
  | start (index : ℕ)
  | stop (index : ℕ)
deriving DecidableEq, Repr

/-- the events of a unit: one call after the other -/
def unitEvents (unit : List (Entry × ℕ)) : List Event :=
  unit.flatMap fun item => [.start item.1.index, .stop item.1.index]

/-- the order in which a round's functions run -/
def Round.Schedules (r : Round) (trace : List Event) : Prop :=
  Schedule.Interleaving ((bucketByConcurrencyGroup r.approved).map unitEvents) trace

end Clawbolt.Agent
