/-
The views of shared data: `_group_turns` of `conversations.py` and `_decode_snapshot` of `compaction.py`.

`json.loads` and the validations of pydantic's models are parameters; of the validation of what is shown, only that a text
field takes a string or nothing matters. A timestamp is the text that `iso_or_none` gives.

- `flush_turns`: a flush adds the turn of what is pending, or nothing is pending.
-/
import Mathlib.Tactic
import Clawbolt.History.Message
import Clawbolt.SharedData.Redaction

namespace Clawbolt.SharedData

open Text (Str)
open History (Direction)

/-! ## What is stored -/

structure Message where
  seq : ℕ
  direction : Direction
  body : Str
  thinkingText : Str
  timestamp : Option Str
  toolInteractionsJson : Str

structure StoredToolReceipt where
  action : Str
  target : Str
  url : Option Str

structure StoredToolInteraction where
  toolCallId : Str
  name : Str
  args : List (Str × Value)
  result : Str
  isError : Bool
  receipt : Option StoredToolReceipt

/-- why `json.loads` raises: no JSON, an integer with too many digits, or too deep a nesting -/
inductive LoadError where
  | decode
  | digits
  | recursion
deriving DecidableEq, Repr

structure Env where
  unicode : Unicode
  loads : Str → Except LoadError Value
  /-- `StoredToolInteraction.model_validate`, nothing for an entry that is not valid -/
  modelValidate : Value → Option StoredToolInteraction

/-! ## What is shown -/

structure MessageItem where
  seq : ℕ
  direction : Str
  body : Str
  thinking : Str
  timestamp : Option Str

structure Receipt where
  action : Str
  target : Str
  url : Option Str

structure ToolCall where
  toolCallId : Str
  name : Str
  args : List (Str × Value)
  result : Str
  isError : Bool
  receipt : Option Receipt

structure Turn where
  turnIndex : ℕ
  userMessage : Option MessageItem
  agentReply : Option MessageItem
  toolCalls : List ToolCall
  startedAt : Option Str
  finishedAt : Option Str

structure Snapshot where
  text : Option Str
  truncated : Bool
  sizeBytes : Option ℤ
  head : Option Str
  tail : Option Str
  sha256 : Option Str

variable (env : Env)

/-! ## Conversations -/

/-- `_parse_tool_interactions`: entries that are not valid are left out -/
def parseToolInteractions (raw : Str) : Except LoadError (List StoredToolInteraction) :=
  if raw = [] ∨ raw = "[]".toList then .ok []
  else
    match env.loads raw with
    | .ok (.list entries) => .ok (entries.filterMap env.modelValidate)
    | .ok _ => .ok []
    | .error .decode => .ok []
    | .error e => .error e

def redactReceipt (r : StoredToolReceipt) : Receipt where
  action := redactPii env.unicode r.action
  target := redactPii env.unicode r.target
  url := r.url.bind fun url => if url = [] then none else some (redactPii env.unicode url)

def redactToolCall (interaction : StoredToolInteraction) : ToolCall where
  toolCallId := interaction.toolCallId
  name := interaction.name
  args := redactValues env.unicode interaction.args
  result := redactPii env.unicode interaction.result
  isError := interaction.isError
  receipt := interaction.receipt.map (redactReceipt env)

/-- the turns so far, and what the next one is made of -/
structure Grouping where
  turns : List Turn
  pendingUser : Option Message
  pendingAgentMsgs : List Message
  pendingTools : List ToolCall
  turnIndex : ℕ

/-- the bodies of a reply of several messages -/
def joinedBody (msgs : List Message) : Str := Text.join "\n".toList ((msgs.map Message.body).filter (· ≠ []))

def joinedThinking (msgs : List Message) : Str := Text.join "\n\n".toList ((msgs.map Message.thinkingText).filter (· ≠ []))

def agentReply (msgs : List Message) : Option MessageItem :=
  msgs.getLast?.map fun last =>
    ⟨last.seq, "outbound".toList, redactPii env.unicode (joinedBody msgs), redactPii env.unicode (joinedThinking msgs),
      last.timestamp⟩

def userMessage (m : Message) : MessageItem :=
  ⟨m.seq, "inbound".toList, redactPii env.unicode m.body, [], m.timestamp⟩

/-- the turn of what is pending -/
def Grouping.turn (s : Grouping) : Turn :=
  let reply := agentReply env s.pendingAgentMsgs
  let user := s.pendingUser.map (userMessage env)
  let startedAt := match user with
    | some m => m.timestamp
    | none => s.pendingAgentMsgs.head?.bind Message.timestamp
  { turnIndex := s.turnIndex, userMessage := user, agentReply := reply, toolCalls := s.pendingTools, startedAt,
    finishedAt := match reply with | some r => r.timestamp | none => startedAt }

def Grouping.flush (s : Grouping) : Grouping :=
  if s.pendingUser.isNone ∧ s.pendingAgentMsgs = [] then s
  else
    { turns := s.turns ++ [s.turn env], pendingUser := none, pendingAgentMsgs := [], pendingTools := [],
      turnIndex := s.turnIndex + 1 }

def Grouping.add (s : Grouping) (msg : Message) : Except LoadError Grouping :=
  if msg.direction = .inbound then .ok { s.flush env with pendingUser := some msg }
  else do
    let interactions ← parseToolInteractions env msg.toolInteractionsJson
    return { s with
      pendingAgentMsgs := s.pendingAgentMsgs ++ [msg]
      pendingTools := s.pendingTools ++ interactions.map (redactToolCall env) }

/-- `_group_turns`; a row whose JSON is too long or too deep to load fails the whole view -/
def groupTurns (messages : List Message) : Except LoadError (List Turn) := do
  let s ← messages.foldlM (Grouping.add env) ⟨[], none, [], [], 0⟩
  return (s.flush env).turns

/-! ## Snapshots -/

inductive SnapshotError where
  | recursion
  | validation
deriving DecidableEq, Repr

/-- a field that takes a string or nothing -/
def strField : Option Value → Except SnapshotError (Option Str)
  | none => .ok none
  | some .none => .ok none
  | some (.str s) => .ok (some s)
  | _ => .error .validation

/-- an `int`; `True` and `False` are integers -/
def Value.int? : Value → Option ℤ
  | .int n => some n
  | .bool b => some (if b then 1 else 0)
  | _ => Option.none

def plainSnapshot (text : Option Str) : Snapshot := ⟨text, false, none, none, none, none⟩

/-- `_decode_snapshot`: a truncation record, or a text -/
def decodeSnapshot (raw : Option Str) : Except SnapshotError Snapshot :=
  match raw with
  | none => .ok (plainSnapshot none)
  | some raw =>
    match env.loads raw with
    | .error .recursion => .error .recursion
    | .ok (.dict d) =>
      match d.lookup "truncated".toList, (d.lookup "size_bytes".toList).bind Value.int? with
      | some (.bool true), some size => do
        let head ← strField (d.lookup "head".toList)
        let tail ← strField (d.lookup "tail".toList)
        let sha256 ← strField (d.lookup "sha256".toList)
        return ⟨none, true, some size, head.map (redactPii env.unicode), tail.map (redactPii env.unicode), sha256⟩
      | _, _ => .ok (plainSnapshot (some (redactPii env.unicode raw)))
    | _ => .ok (plainSnapshot (some (redactPii env.unicode raw)))

/-! ## A flush -/

theorem flush_turns (s : Grouping) :
    (s.flush env = s ∧ s.pendingUser = none ∧ s.pendingAgentMsgs = []) ∨
      (s.flush env = ⟨s.turns ++ [s.turn env], none, [], [], s.turnIndex + 1⟩ ∧
        ¬ (s.pendingUser = none ∧ s.pendingAgentMsgs = [])) := by
  unfold Grouping.flush
  split_ifs with h
  · exact Or.inl ⟨rfl, Option.isNone_iff_eq_none.1 h.1, h.2⟩
  · exact Or.inr ⟨rfl, fun hnone => h ⟨Option.isNone_iff_eq_none.2 hnone.1, hnone.2⟩⟩

end Clawbolt.SharedData
