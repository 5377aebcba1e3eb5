/-
Stored rows and the messages the agent loop reads (agent/dto.py, agent/messages.py), and the functions of agent/context.py,
agent/approval.py and agent/system_prompt.py that look at one row.

`Env` holds what the code calls outside the repository: `datetime.fromisoformat` and `strftime`, the time zone database,
`json.loads`, `json.dumps` and `str`, the validation of a stored tool interaction, and `str.lower`. Nothing is assumed of it.
A `Datetime` is a wall clock in microseconds with the offset of its zone, or none for a naive one.

A stored row keeps only what the history reads: the thinking text, media and external id of a row are left out, and so
are the error flag, tags and receipt of a tool interaction, which the rendering ignores.
-/
import Mathlib.Tactic
import Clawbolt.Core.Json
import Clawbolt.Approval.Gate

namespace Clawbolt.History

open Text (Str)

/-! ## Rows and messages -/

/-- `MessageDirection`; a row can hold any string -/
inductive Direction where
  | inbound
  | outbound
  | other
deriving DecidableEq, Repr

structure StoredMessage where
  direction : Direction
  body : Str
  processedContext : Str
  toolInteractionsJson : Str
  llmReplyText : Str
  timestamp : Str
  seq : ℕ
deriving DecidableEq, Repr

abbrev Args := Dict Json

structure StoredToolInteraction where
  toolCallId : Str
  name : Str
  args : Args
  result : Str
deriving DecidableEq, Repr

structure ToolCallRequest where
  id : Str
  name : Str
  arguments : Args
deriving DecidableEq, Repr

inductive AgentMessage where
  | system (content : Str)
  | user (content : Str) (seq : Option ℕ)
  | assistant (content : Option Str) (toolCalls : List ToolCallRequest) (seq : Option ℕ)
  | toolResult (toolCallId content : Str) (isError : Bool)
deriving DecidableEq, Repr

/-- `getattr(m, "seq", None)` -/
def AgentMessage.seq? : AgentMessage → Option ℕ
  | .user _ s => s
  | .assistant _ _ s => s
  | _ => none

structure Datetime where
  wall : ℤ
  offset : Option ℤ
deriving DecidableEq, Repr

structure Env where
  /-- none when it raises -/
  fromisoformat : Str → Option Datetime
  /-- the offset of a zone at an instant; none for a name that is no zone -/
  zone : Str → Option (ℤ → ℤ)
  /-- `strftime('%A, %Y-%m-%d %I:%M %p')` of a wall clock -/
  strftime : ℤ → Str
  /-- none when it raises -/
  loads : Str → Option Json
  /-- `StoredToolInteraction.model_validate`, none when it raises -/
  modelValidate : Json → Option StoredToolInteraction
  /-- `json.dumps(args, default=str)` -/
  dumps : Args → Str
  /-- `str(args)` -/
  str : Args → Str
  lower : Str → Str

/-! ## Time markers -/

def Datetime.instant (d : Datetime) : ℤ := d.wall - d.offset.getD 0

/-- `d.replace(tzinfo=UTC)` when `d` is naive -/
def Datetime.aware (d : Datetime) : Datetime := { d with offset := some (d.offset.getD 0) }

/-- `to_local_time` -/
def toLocalTime (env : Env) (now : Datetime) (tzName : Str) : Datetime :=
  if tzName = [] then now
  else
    match env.zone tzName with
    | none => now
    | some off => ⟨now.instant + off now.instant, some (off now.instant)⟩

/-- `d.date()` -/
def Datetime.date (d : Datetime) : ℤ := d.wall / (24 * 3600 * 1000000)

/-- 30 minutes -/
def timestampGapThreshold : ℤ := 30 * 60 * 1000000

def parseTs (env : Env) (raw : Str) : Option Datetime := (env.fromisoformat raw).map Datetime.aware

/-- `_time_marker`; an empty `prevIso` is no previous message -/
def timeMarker (env : Env) (prevIso curIso tzName : Str) : Option Str :=
  match parseTs env curIso with
  | none => none
  | some cur =>
    let prev := if prevIso = [] then none else parseTs env prevIso
    let here := toLocalTime env cur tzName
    let marker := some ("[".toList ++ Text.strip (env.strftime here.wall) ++ "]".toList)
    match prev with
    | none => marker
    | some p =>
      let sameDay := (toLocalTime env p tzName).date = here.date
      if sameDay ∧ cur.instant - p.instant < timestampGapThreshold then none else marker

/-- `_with_marker` -/
def withMarker (marker : Option Str) (text : Str) : Str :=
  match marker with
  | none => text
  | some m => if m = [] then text else m ++ "\n".toList ++ text

/-! ## One row -/

def parseToolInteractions (env : Env) (raw : Str) : List StoredToolInteraction :=
  if raw = [] then []
  else
    match env.loads raw with
    | some (.arr items) => items.filterMap env.modelValidate
    | _ => []

/-- the call, its results, the reply; both assistant messages carry the row's seq -/
def expandOutboundWithTools (interactions : List StoredToolInteraction) (replyText : Str) (seq : Option ℕ) :
    List AgentMessage :=
  .assistant none (interactions.map fun tc => ⟨tc.toolCallId, tc.name, tc.args⟩) seq ::
    interactions.map (fun tc => .toolResult tc.toolCallId tc.result false) ++ [.assistant (some replyText) [] seq]

/-- `_APPROVAL_PROMPT_TRAILERS` -/
def approvalPromptTrailers : List String :=
  ["never: deny and remember", "never — deny and remember", "Reply yes or no (always/never to remember your choice)"]

def isApprovalPrompt (content : Str) : Bool :=
  approvalPromptTrailers.any fun trailer => Text.endsWith trailer.toList (Text.rstrip content)

open Approval in
/-- `_APPROVAL_RESPONSE_FAST_PATH` -/
def approvalResponseFastPath : List (String × Decision) :=
  [("yes", .approved), ("y", .approved), ("always", .alwaysAllow), ("no", .denied), ("n", .denied), ("never", .alwaysDeny),
    ("yes always", .alwaysAllow), ("always yes", .alwaysAllow), ("y always", .alwaysAllow), ("always y", .alwaysAllow),
    ("always allow", .alwaysAllow), ("allow always", .alwaysAllow), ("always all", .alwaysAllowAll),
    ("all always", .alwaysAllowAll), ("allow all", .alwaysAllowAll), ("always everyone", .alwaysAllowAll),
    ("always anyone", .alwaysAllowAll), ("no never", .alwaysDeny), ("never no", .alwaysDeny), ("n never", .alwaysDeny),
    ("never n", .alwaysDeny), ("never allow", .alwaysDeny), ("deny always", .alwaysDeny)]

/-- `_APPROVAL_RESPONSE_PUNCTUATION` -/
def approvalResponsePunctuation : Str := ".,!?;:".toList

/-- `_parse_approval_response` -/
def parseApprovalResponse (env : Env) (text : Str) : Option Approval.Decision :=
  let cleaned := (env.lower (Text.strip text)).filter (· ∉ approvalResponsePunctuation)
  let normalized := Text.join " ".toList (Text.split cleaned)
  (approvalResponseFastPath.find? fun kv => kv.1.toList = normalized).map Prod.snd

/-- `_row_content`: the reply before its receipts, the processed inbound text -/
def rowContent (msg : StoredMessage) : Str :=
  if msg.direction = .outbound then if msg.llmReplyText = [] then msg.body else msg.llmReplyText
  else if msg.processedContext = [] then msg.body else msg.processedContext

def isApprovalPromptRow (env : Env) (msg : StoredMessage) : Bool :=
  msg.direction ≠ .inbound && (parseToolInteractions env msg.toolInteractionsJson).isEmpty &&
    isApprovalPrompt (rowContent msg)

def isVisibleRow (env : Env) (msg : StoredMessage) (afterApprovalPrompt : Bool) : Bool :=
  if msg.direction = .inbound then
    Text.strip (rowContent msg) ≠ [] && !(afterApprovalPrompt && (parseApprovalResponse env (rowContent msg)).isSome)
  else !isApprovalPromptRow env msg

/-! ## Concrete environments -/

/-- a string field of a stored interaction: empty by default, and no other type validates -/
def stringField (d : Dict Json) (key : String) : Option Str :=
  match d.lookup key.toList with
  | none => some []
  | some (.str s) => some s
  | _ => none

/-- the validation of an interaction with string ids, names and results, and object arguments -/
def validateInteraction : Json → Option StoredToolInteraction
  | .obj d => do
    let toolCallId ← stringField d "tool_call_id"
    let name ← stringField d "name"
    let result ← stringField d "result"
    match d.lookup "args".toList with
    | none => some ⟨toolCallId, name, [], result⟩
    | some (.obj args) => some ⟨toolCallId, name, args, result⟩
    | _ => none
  | _ => none

/-- UTC timestamps (their text, their instant, their day and time) and JSON texts by table; no zones, no arguments -/
def sampleEnv (times : List (String × ℤ × String)) (texts : List (Str × Json)) : Env where
  fromisoformat t := (times.find? fun x => x.1.toList = t).map fun x => ⟨x.2.1, some 0⟩
  zone _ := none
  strftime wall := ((times.find? fun x => x.2.1 = wall).map fun x => x.2.2.toList).getD []
  loads t := texts.lookup t
  modelValidate := validateInteraction
  dumps _ := "\x7b\x7d".toList
  str _ := "\x7b\x7d".toList
  lower := id

end Clawbolt.History
