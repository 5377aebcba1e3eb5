/-
The checks of a candidate's decision (services/model_comparison/checks.py): the calls that a tool would refuse, the writes
that the live turn did not make, the record IDs that the model was never shown.

The params model of a tool, its precheck and its predicate for reads are parameters.

- `checkCandidate_insert`: what one more call adds to the findings;
- `lookup_writtenTargets`: what production wrote to with a tool;
- `unrequested_exact`: calls that production made too are never unrequested, and a write by a stranger is so once.
-/
import Mathlib.Tactic
import Clawbolt.Comparison.Ids

namespace Clawbolt.Checks

open Text (Str)

/-! ## Model -/

inductive ToolTags where
  | sendsReply
  | modifiesProfile
  | readOnly
deriving DecidableEq

/-- a part of the place of a validation error -/
inductive Part where
  | key (k : Str)
  | index (i : ℕ)

/-- an error of a params model, as `exc.errors()` gives it -/
structure ErrorDetails where
  type : Str
  loc : List Part
  msg : Str
  input : Json

structure Tool where
  tags : List ToolTags
  /-- the names and descriptions of the schema of the params model -/
  properties : Option (Dict Str)
  /-- `params_model.model_validate`: the fields of the model -/
  validate : Dict Json → Except (List ErrorDetails) (Dict Json)
  /-- none when it raises -/
  readOnlyWhen : Option (Dict Json → Option Bool)
  /-- what it refuses the call for; none when it raises -/
  precheck : Option (Dict Json → Option (Option Str))

inductive Side where
  | production
  | candidate
deriving DecidableEq

inductive Finding where
  | unknownTool
  | invalidArgs
  | unrequestedWrite
  | fabricatedId
  | truncated
  | toolNotInSchema
  | callFailed
deriving DecidableEq

structure Issue where
  finding : Finding
  toolName : Str := []
  detail : Str
  side : Side
deriving DecidableEq

structure ToolCall where
  name : Str
  arguments : Dict Json

structure RecordedToolResult where
  name : Str
  arguments : Dict Json
  result : Str

structure ModelCallResult where
  toolCalls : List ToolCall
  stopReason : Option Str
  error : Str
  replayedLookups : List RecordedToolResult

/-- `is_mutating_call` -/
def isMutatingCall (tool : Tool) (args : Dict Json) : Bool :=
  if .readOnly ∈ tool.tags then false
  else
    match tool.readOnlyWhen with
    | none => true
    | some reads => !(reads args).getD false

/-- `container[…][…] = text` at a place, none for a `KeyError`, an `IndexError` or a `TypeError` -/
def assign (text : Str) : List Part → Json → Option Json
  | [.key k], .obj d => some (.obj (Dict.set k (.str text) d))
  | [.index i], .arr l => if i < l.length then some (.arr (l.set i (.str text))) else none
  | .key k :: place, .obj d => do
    let v ← d.lookup k
    let v' ← assign text place v
    some (.obj (Dict.set k v' d))
  | .index i :: place, .arr l => do
    let v ← l[i]?
    let v' ← assign text place v
    some (.arr (l.set i v'))
  | _, _ => none

/-- `str(value)` of a number that is not a bool -/
def numberText (env : Env) : Json → Option Str
  | .int n => some (intText n)
  | .float x => some (env.floatText x)
  | _ => none

/-- `_stringify_numbers_for_string_fields` -/
def stringifyNumbers (env : Env) (toolArgs : Dict Json) (errors : List ErrorDetails) : Option (Dict Json) :=
  let (coerced, fixedAny) := errors.foldl (fun (acc : Json × Bool) error =>
    if error.type ≠ "string_type".toList then acc
    else
      match numberText env error.input with
      | none => acc
      | some text =>
        match assign text error.loc acc.1 with
        | none => acc
        | some coerced => (coerced, true)) (Json.obj toolArgs, false)
  match coerced, fixedAny with
  | .obj d, true => some d
  | _, _ => none

/-- `accept_args`: the arguments as accepted, and the fields of the validated model -/
def acceptArgs (env : Env) (tool : Tool) (args : Dict Json) : Except (List ErrorDetails) (Dict Json × Dict Json) :=
  match tool.validate args with
  | .ok validated => .ok (args, validated)
  | .error errors =>
    match stringifyNumbers env args errors with
    | none => .error errors
    | some coerced => (tool.validate coerced).map fun validated => (coerced, validated)

def partText : Part → Str
  | .key k => k
  | .index i => (toString i).toList

/-- `_first_error` -/
def firstError (errors : List ErrorDetails) : Str :=
  match errors with
  | [] => "validation failed".toList
  | first :: _ =>
    let loc := Text.join ".".toList (first.loc.map partText)
    (if loc = [] then "<root>".toList else loc) ++ ": ".toList ++ first.msg

/-- `_args_are_valid` -/
def argsAreValid (env : Env) (tool : Tool) (args : Dict Json) : Bool × Str :=
  match acceptArgs env tool args with
  | .error errors => (false, firstError errors)
  | .ok (validated, _) =>
    -- a precheck that crashes refuses nothing
    match tool.precheck.bind fun check => (check validated).join with
    | none => (true, [])
    | some refusal => if refusal = [] then (true, []) else (false, "rejected by the tool before running: ".toList ++ refusal)

/-- the characters that `[a-z0-9]` matches -/
def isWord (c : Char) : Bool := ('a' ≤ c && c ≤ 'z') || ('0' ≤ c && c ≤ '9')

/-- `fabricated_ids` -/
def fabricatedIds (env : Env) (tool : Tool) (args : Dict Json) (seen : Str) : List (Str × Str) :=
  (collectIds env (idProperties env tool.properties) [] args).filter fun p =>
    !Text.hasToken isWord (env.lower p.2) (env.lower seen)

/-- `_fabricated_id_issue` -/
def fabricatedIdIssue (env : Env) (tool : Tool) (callName : Str) (args : Dict Json) (seen : Str) (side : Side) :
    Option Issue :=
  let missing := fabricatedIds env tool args seen
  if missing = [] then none
  else some {
    finding := .fabricatedId
    toolName := callName
    detail := "wrote to ".toList ++ Text.join ", ".toList (missing.map fun p => p.1 ++ "=".toList ++ p.2) ++
      ", which appears nowhere in the conversation, the user's message or any tool result it had seen by then".toList
    side }

/-- `_write_targets_by_tool` -/
def writeTargetsByTool (env : Env) (tools : Dict Tool) (productionCalls : List RecordedToolResult) : Dict (List Str) :=
  productionCalls.foldl (fun byTool recorded =>
    match tools.lookup recorded.name with
    | none => byTool
    | some tool =>
      if isMutatingCall tool recorded.arguments then
        Dict.set recorded.name ((byTool.lookup recorded.name).getD [] ++ writeTargets env tool.properties recorded.arguments)
          byTool
      else byTool) []

/-- whether a call puts a message in front of the user -/
def replies (tools : Dict Tool) (name : Str) (args : Dict Json) : Bool :=
  match tools.lookup name with
  | none => false
  | some tool => .sendsReply ∈ tool.tags && isMutatingCall tool args

/-- `_reply_count` -/
def replyCount (tools : Dict Tool) (calls : List (Str × Dict Json)) : ℕ := calls.countP fun c => replies tools c.1 c.2

/-- `_unrequested_write_issue` -/
def unrequestedWriteIssue (env : Env) (tool : Tool) (name : Str) (arguments : Dict Json) (writtenTargets : Dict (List Str))
    (side : Side) : Option Issue :=
  match writtenTargets.lookup name with
  | none => some ⟨.unrequestedWrite, name, "a write the live turn did not make".toList, side⟩
  | some touched =>
    let targets := writeTargets env tool.properties arguments
    if targets = [] then none
    else if targets.any (· ∈ touched) then none
    else some {
      finding := .unrequestedWrite
      toolName := name
      detail := "wrote to ".toList ++ Text.join ", ".toList (targets.insertionSort fun a b => strLe a b) ++
        ", which no write the live turn made with this tool touched".toList
      side }

/-- `_check_one_call` -/
def checkOneCall (env : Env) (tools : Dict Tool) (recorded : List Str) (writtenTargets : Dict (List Str)) (seen : Str)
    (side : Side) (checkUnrequested : Bool) (name : Str) (arguments : Dict Json) : List Issue :=
  match tools.lookup name with
  | none =>
    if name ∈ recorded ∨ side = .production then
      [⟨.toolNotInSchema, name, ("in this turn's record but not in the current tool schema, so the " ++
        "replay is describing a tool surface the user no longer has").toList, side⟩]
    else [⟨.unknownTool, name, "not present in the tool schema this turn offered".toList, side⟩]
  | some tool =>
    let (valid, detail) := argsAreValid env tool arguments
    if !valid then [⟨.invalidArgs, name, detail, side⟩]
    else if !isMutatingCall tool arguments then []
    else
      (if checkUnrequested then (unrequestedWriteIssue env tool name arguments writtenTargets side).toList else []) ++
        (fabricatedIdIssue env tool name arguments seen side).toList

/-- `_extra_message_issues` -/
def extraMessageIssues (tools : Dict Tool) (candidateCalls : List ToolCall) (productionCalls : List RecordedToolResult) :
    List Issue :=
  let candidateReplies := replyCount tools (candidateCalls.map fun c => (c.name, c.arguments))
  let productionReplies := replyCount tools (productionCalls.map fun c => (c.name, c.arguments))
  if candidateReplies ≤ productionReplies then []
  else [{
    finding := .unrequestedWrite
    detail := "sent the user ".toList ++ (toString candidateReplies).toList ++
      " message(s) where the live turn sent ".toList ++ (toString productionReplies).toList ++ ", so ".toList ++
      (toString (candidateReplies - productionReplies)).toList ++ " would reach them unasked".toList
    side := .candidate }]

/-- the findings of one call of the candidate -/
def candidateIssues (env : Env) (tools : Dict Tool) (productionCalls lookups : List RecordedToolResult) (seen : Str)
    (c : ToolCall) : List Issue :=
  checkOneCall env tools (productionCalls.map (·.name)) (writeTargetsByTool env tools productionCalls)
    (Text.join "\n".toList (seen :: lookups.map (·.result))) .candidate true c.name c.arguments

/-- a call that its own findings charge already -/
def charged (issues : List Issue) : Bool := issues.any fun i => i.finding = .invalidArgs || i.finding = .unrequestedWrite

/-- what is said of a reply that was cut off -/
def truncatedIssues (stopReason : Option Str) : List Issue :=
  if stopReason = some "max_tokens".toList then
    [⟨.truncated, [], "response hit the output token ceiling after production's retry".toList, .candidate⟩] else []

/-- `check_candidate` -/
def checkCandidate (env : Env) (call : ModelCallResult) (tools : Dict Tool) (productionCalls : List RecordedToolResult)
    (seen : Str) : List Issue :=
  if call.error ≠ [] then [⟨.callFailed, [], call.error, .candidate⟩]
  else
    let found := candidateIssues env tools productionCalls call.replayedLookups seen
    truncatedIssues call.stopReason ++ call.toolCalls.flatMap found ++
      extraMessageIssues tools (call.toolCalls.filter fun c => !charged (found c)) productionCalls

/-! ## What production wrote to -/

/-- the writes that production made with a tool -/
def writes (tool : Tool) (name : Str) (productionCalls : List RecordedToolResult) : List RecordedToolResult :=
  productionCalls.filter fun r => r.name = name && isMutatingCall tool r.arguments

theorem writeTargetsByTool_snoc (env : Env) (tools : Dict Tool) (productionCalls : List RecordedToolResult)
    (r : RecordedToolResult) :
    writeTargetsByTool env tools (productionCalls ++ [r]) =
      match tools.lookup r.name with
      | none => writeTargetsByTool env tools productionCalls
      | some tool =>
        if isMutatingCall tool r.arguments then
          Dict.set r.name (((writeTargetsByTool env tools productionCalls).lookup r.name).getD [] ++
            writeTargets env tool.properties r.arguments) (writeTargetsByTool env tools productionCalls)
        else writeTargetsByTool env tools productionCalls := by
  rw [writeTargetsByTool, List.foldl_append]
  rfl

theorem writes_snoc_own {tool : Tool} {name : Str} {productionCalls : List RecordedToolResult} {r : RecordedToolResult}
    (hname : r.name = name) (hmutating : isMutatingCall tool r.arguments = true) :
    writes tool name (productionCalls ++ [r]) = writes tool name productionCalls ++ [r] := by
  rw [writes, List.filter_append, ← writes, List.filter_cons_of_pos (by simp [hname, hmutating]), List.filter_nil]

theorem writes_snoc_other {tool : Tool} {name : Str} {productionCalls : List RecordedToolResult} {r : RecordedToolResult}
    (h : ¬(r.name = name ∧ isMutatingCall tool r.arguments = true)) :
    writes tool name (productionCalls ++ [r]) = writes tool name productionCalls := by
  rw [writes, List.filter_append, ← writes, List.filter_cons_of_neg (by simpa using h), List.filter_nil, List.append_nil]

/-- what production wrote to with a tool: nothing is there for a tool that it did not write with -/
theorem lookup_writtenTargets (env : Env) {tools : Dict Tool} {name : Str} {tool : Tool} (ht : tools.lookup name = some tool)
    (productionCalls : List RecordedToolResult) :
    (writeTargetsByTool env tools productionCalls).lookup name =
      if writes tool name productionCalls = [] then none
      else some ((writes tool name productionCalls).flatMap fun r => writeTargets env tool.properties r.arguments) := by
  induction productionCalls using List.reverseRecOn with
  | nil => rfl
  | append_singleton productionCalls r ih =>
    rw [writeTargetsByTool_snoc]
    by_cases hname : r.name = name
    · subst hname
      rw [ht]
      cases hmutating : isMutatingCall tool r.arguments with
      | false =>
        rw [writes_snoc_other (fun h => Bool.eq_false_iff.1 hmutating h.2)]
        simp only [hmutating, Bool.false_eq_true, if_false]
        exact ih
      | true =>
        have hne : writes tool r.name productionCalls ++ [r] ≠ [] := List.concat_ne_nil _ _
        rw [writes_snoc_own rfl hmutating, if_neg hne, List.flatMap_append, List.flatMap_singleton]
        simp only [hmutating, if_true]
        rw [Dict.lookup_set, if_pos rfl, ih]
        by_cases hnone : writes tool r.name productionCalls = []
        · rw [if_pos hnone, hnone]
          rfl
        · rw [if_neg hnone]
          rfl
    · rw [writes_snoc_other (fun h => hname h.1), ← ih]
      cases tools.lookup r.name with
      | none => rfl
      | some other =>
        by_cases hmutating : isMutatingCall other r.arguments = true
        · simp only [hmutating, if_true]
          rw [Dict.lookup_set, if_neg (Ne.symm hname)]
        · simp only [hmutating]
          rfl

/-- a write that the live turn did not ask for: through a tool that production never wrote with, or to other things -/
def Stranger (env : Env) (tool : Tool) (productionCalls : List RecordedToolResult) (c : ToolCall) : Prop :=
  (∀ r ∈ productionCalls, r.name = c.name → isMutatingCall tool r.arguments = false) ∨
  (writeTargets env tool.properties c.arguments ≠ [] ∧
    ∀ r ∈ productionCalls, r.name = c.name → isMutatingCall tool r.arguments = true →
      ∀ t ∈ writeTargets env tool.properties r.arguments, t ∉ writeTargets env tool.properties c.arguments)

theorem mem_writes {tool : Tool} {name : Str} {productionCalls : List RecordedToolResult} {r : RecordedToolResult} :
    r ∈ writes tool name productionCalls ↔
      r ∈ productionCalls ∧ r.name = name ∧ isMutatingCall tool r.arguments = true := by
  simp [writes, List.mem_filter]

/-- a stranger's write is reported, under the name of the call -/
theorem stranger_issue {env : Env} {tools : Dict Tool} {tool : Tool} {productionCalls : List RecordedToolResult} {c : ToolCall}
    (ht : tools.lookup c.name = some tool) (h : Stranger env tool productionCalls c) :
    ∃ issue, unrequestedWriteIssue env tool c.name c.arguments (writeTargetsByTool env tools productionCalls) .candidate =
      some issue ∧ issue.finding = .unrequestedWrite ∧ issue.toolName = c.name := by
  rw [unrequestedWriteIssue, lookup_writtenTargets env ht]
  by_cases hnone : writes tool c.name productionCalls = []
  · rw [if_pos hnone]
    exact ⟨_, rfl, rfl, rfl⟩
  · obtain hread | ⟨hsome, hdisjoint⟩ := h
    · exfalso
      obtain ⟨r, hr⟩ := List.exists_mem_of_ne_nil _ hnone
      obtain ⟨hmem, hname, hmutating⟩ := mem_writes.1 hr
      exact Bool.eq_false_iff.1 (hread r hmem hname) hmutating
    · have hany : ((writeTargets env tool.properties c.arguments).any fun t =>
          t ∈ (writes tool c.name productionCalls).flatMap fun r => writeTargets env tool.properties r.arguments) = false := by
        rw [List.any_eq_false]
        intro t ht
        rw [decide_eq_true_eq, List.mem_flatMap]
        rintro ⟨r, hr, htouched⟩
        obtain ⟨hmem, hname, hmutating⟩ := mem_writes.1 hr
        exact hdisjoint r hmem hname hmutating t htouched ht
      simp only [if_neg hnone, if_neg hsome, hany]
      exact ⟨_, rfl, rfl, rfl⟩

/-- a write that production made too is not reported -/
theorem repeat_issue {env : Env} {tools : Dict Tool} {tool : Tool} {productionCalls : List RecordedToolResult} {c : ToolCall}
    (ht : tools.lookup c.name = some tool) (hmutating : isMutatingCall tool c.arguments = true)
    (h : ∃ r ∈ productionCalls, r.name = c.name ∧ r.arguments = c.arguments) :
    unrequestedWriteIssue env tool c.name c.arguments (writeTargetsByTool env tools productionCalls) .candidate = none := by
  obtain ⟨r, hr, hname, hargs⟩ := h
  have hmem : r ∈ writes tool c.name productionCalls := mem_writes.2 ⟨hr, hname, hargs ▸ hmutating⟩
  rw [unrequestedWriteIssue, lookup_writtenTargets env ht, if_neg (List.ne_nil_of_mem hmem)]
  by_cases hnothing : writeTargets env tool.properties c.arguments = []
  · simp only [hnothing, if_true]
  · obtain ⟨t, htarget⟩ := List.exists_mem_of_ne_nil _ hnothing
    have hany : ((writeTargets env tool.properties c.arguments).any fun t =>
        t ∈ (writes tool c.name productionCalls).flatMap fun r => writeTargets env tool.properties r.arguments) = true := by
      rw [List.any_eq_true]
      refine ⟨t, htarget, ?_⟩
      rw [decide_eq_true_eq, List.mem_flatMap]
      exact ⟨r, hmem, hargs ▸ htarget⟩
    simp only [if_neg hnothing, hany, if_true]

/-! ## The findings of a call -/

theorem fabricated_finding {env : Env} {tool : Tool} {name : Str} {args : Dict Json} {seen : Str} {side : Side} {issue : Issue}
    (h : issue ∈ fabricatedIdIssue env tool name args seen side) : issue.finding = .fabricatedId := by
  rw [Option.mem_def, fabricatedIdIssue] at h
  split at h
  · cases h
  · rw [← Option.some.inj h]

/-- a valid write of the candidate is charged for being unrequested, and for the IDs that it made up -/
theorem candidateIssues_write {env : Env} {tools : Dict Tool} {tool : Tool} {c : ToolCall}
    (ht : tools.lookup c.name = some tool) (hvalid : (argsAreValid env tool c.arguments).1 = true)
    (hmutating : isMutatingCall tool c.arguments = true) (productionCalls lookups : List RecordedToolResult) (seen : Str) :
    candidateIssues env tools productionCalls lookups seen c =
      (unrequestedWriteIssue env tool c.name c.arguments (writeTargetsByTool env tools productionCalls) .candidate).toList ++
        (fabricatedIdIssue env tool c.name c.arguments (Text.join "\n".toList (seen :: lookups.map (·.result)))
          .candidate).toList := by
  simp only [candidateIssues, checkOneCall, ht, hvalid, hmutating, Bool.not_true, Bool.false_eq_true, if_false, if_true]

/-- a stranger's write is reported once -/
theorem stranger_once {env : Env} {tools : Dict Tool} {tool : Tool} {c : ToolCall} {productionCalls : List RecordedToolResult}
    (ht : tools.lookup c.name = some tool) (hvalid : (argsAreValid env tool c.arguments).1 = true)
    (hmutating : isMutatingCall tool c.arguments = true) (h : Stranger env tool productionCalls c)
    (lookups : List RecordedToolResult) (seen : Str) :
    ∃ issue, (candidateIssues env tools productionCalls lookups seen c).filter (fun i => i.finding = .unrequestedWrite) =
      [issue] ∧ issue.toolName = c.name := by
  obtain ⟨issue, hissue, hfinding, hname⟩ := stranger_issue ht h
  refine ⟨issue, ?_, hname⟩
  rw [candidateIssues_write ht hvalid hmutating, hissue, List.filter_append]
  have hown : (some issue).toList.filter (fun i => i.finding = .unrequestedWrite) = [issue] := by
    simp [hfinding]
  have hfabricated : (fabricatedIdIssue env tool c.name c.arguments (Text.join "\n".toList (seen :: lookups.map (·.result)))
      .candidate).toList.filter (fun i => i.finding = .unrequestedWrite) = [] := by
    rw [List.filter_eq_nil_iff]
    intro i hi
    rw [fabricated_finding (Option.mem_toList.1 hi)]
    decide
  rw [hown, hfabricated, List.append_nil]

/-- a call that production made too is not reported -/
theorem repeat_unreported {env : Env} {tools : Dict Tool} {c : ToolCall} {productionCalls : List RecordedToolResult}
    (h : ∃ r ∈ productionCalls, r.name = c.name ∧ r.arguments = c.arguments) (lookups : List RecordedToolResult)
    (seen : Str) : ∀ i ∈ candidateIssues env tools productionCalls lookups seen c, i.finding ≠ .unrequestedWrite := by
  intro i hi
  cases ht : tools.lookup c.name with
  | none =>
    simp only [candidateIssues, checkOneCall, ht] at hi
    split at hi
    · rw [List.mem_singleton.1 hi]
      exact fun h => Finding.noConfusion h
    · rw [List.mem_singleton.1 hi]
      exact fun h => Finding.noConfusion h
  | some tool =>
    cases hvalid : (argsAreValid env tool c.arguments).1 with
    | false =>
      simp only [candidateIssues, checkOneCall, ht, hvalid, Bool.not_false, if_true] at hi
      rw [List.mem_singleton.1 hi]
      exact fun h => Finding.noConfusion h
    | true =>
      cases hmutating : isMutatingCall tool c.arguments with
      | false =>
        simp only [candidateIssues, checkOneCall, ht, hvalid, hmutating, Bool.not_true, Bool.not_false,
          Bool.false_eq_true, if_false, if_true] at hi
        exact absurd hi List.not_mem_nil
      | true =>
        rw [candidateIssues_write ht hvalid hmutating, repeat_issue ht hmutating h] at hi
        rw [fabricated_finding (Option.mem_toList.1 hi)]
        decide

/-! ## The whole decision -/

/-- what one more call adds to the findings, when it is charged already: its own, and nothing to the count of messages -/
theorem checkCandidate_insert {env : Env} {call : ModelCallResult} {tools : Dict Tool}
    {productionCalls : List RecordedToolResult} {seen : Str} (hok : call.error = []) {before after : List ToolCall}
    {c : ToolCall} (hcalls : call.toolCalls = before ++ c :: after)
    (hcharged : charged (candidateIssues env tools productionCalls call.replayedLookups seen c) = true) :
    ∃ pre post,
      checkCandidate env call tools productionCalls seen =
        pre ++ candidateIssues env tools productionCalls call.replayedLookups seen c ++ post ∧
      checkCandidate env { call with toolCalls := before ++ after } tools productionCalls seen = pre ++ post := by
  have hnot : ¬call.error ≠ [] := not_not.2 hok
  let found := candidateIssues env tools productionCalls call.replayedLookups seen
  let kept := fun c => !charged (found c)
  simp only [checkCandidate, if_neg hnot, hcalls]
  rw [List.flatMap_append, List.flatMap_cons, List.flatMap_append, List.filter_append, List.filter_append,
    List.filter_cons_of_neg (by simp [hcharged])]
  refine ⟨truncatedIssues call.stopReason ++ before.flatMap found,
    after.flatMap found ++ extraMessageIssues tools (before.filter kept ++ after.filter kept) productionCalls, ?_, ?_⟩
  · simp only [List.append_assoc, found, kept]
  · simp only [List.append_assoc, found, kept]

/-- fewer calls are fewer messages -/
theorem extraMessageIssues_eq_nil {tools : Dict Tool} {candidateCalls : List ToolCall}
    {productionCalls : List RecordedToolResult}
    (h : (candidateCalls.map fun c => (c.name, c.arguments)).Subperm (productionCalls.map fun c => (c.name, c.arguments))) :
    extraMessageIssues tools candidateCalls productionCalls = [] := by
  have hle : replyCount tools (candidateCalls.map fun c => (c.name, c.arguments)) ≤
      replyCount tools (productionCalls.map fun c => (c.name, c.arguments)) := h.countP_le _
  rw [extraMessageIssues]
  exact if_pos hle

/-- **The check is exact on repeats and on strangers.** -/
theorem unrequested_exact (env : Env) (call : ModelCallResult) (tools : Dict Tool)
    (productionCalls : List RecordedToolResult) (seen : Str) (hok : call.error = []) :
    ((call.toolCalls.map fun c => (c.name, c.arguments)).Subperm (productionCalls.map fun c => (c.name, c.arguments)) →
      ∀ issue ∈ checkCandidate env call tools productionCalls seen, issue.finding ≠ .unrequestedWrite) ∧
    ∀ before c after tool, call.toolCalls = before ++ c :: after → tools.lookup c.name = some tool →
      (argsAreValid env tool c.arguments).1 = true → isMutatingCall tool c.arguments = true →
      Stranger env tool productionCalls c →
      ∃ pre own post, checkCandidate env call tools productionCalls seen = pre ++ own ++ post ∧
        checkCandidate env { call with toolCalls := before ++ after } tools productionCalls seen = pre ++ post ∧
        own = candidateIssues env tools productionCalls call.replayedLookups seen c ∧
        ∃ issue, own.filter (fun i => i.finding = .unrequestedWrite) = [issue] ∧ issue.toolName = c.name := by
  refine ⟨?_, ?_⟩
  · intro hsub issue hissue
    have hnot : ¬call.error ≠ [] := not_not.2 hok
    have hrepeats : ∀ c ∈ call.toolCalls, ∃ r ∈ productionCalls, r.name = c.name ∧ r.arguments = c.arguments := by
      intro c hc
      obtain ⟨r, hr, heq⟩ := List.mem_map.1 (hsub.subset (List.mem_map_of_mem hc))
      exact ⟨r, hr, congrArg Prod.fst heq, congrArg Prod.snd heq⟩
    simp only [checkCandidate, if_neg hnot] at hissue
    rw [extraMessageIssues_eq_nil ((List.filter_sublist.map _).subperm.trans hsub), List.append_nil, List.mem_append] at hissue
    obtain htruncated | hown := hissue
    · rw [truncatedIssues] at htruncated
      split at htruncated
      · rw [List.mem_singleton.1 htruncated]
        decide
      · exact absurd htruncated List.not_mem_nil
    · obtain ⟨c, hc, hissue⟩ := List.mem_flatMap.1 hown
      exact repeat_unreported (hrepeats c hc) _ _ issue hissue
  · intro before c after tool hcalls ht hvalid hmutating hstranger
    obtain ⟨issue, honce, hname⟩ := stranger_once ht hvalid hmutating hstranger call.replayedLookups seen
    have hcharged : charged (candidateIssues env tools productionCalls call.replayedLookups seen c) = true := by
      obtain ⟨hmem, hfinding⟩ := List.mem_filter.1 (honce ▸ List.mem_singleton_self issue)
      rw [charged, List.any_eq_true]
      refine ⟨issue, hmem, ?_⟩
      rw [hfinding, Bool.or_true]
    obtain ⟨pre, post, hall, hwithout⟩ := checkCandidate_insert hok hcalls hcharged
    exact ⟨pre, _, post, hall, hwithout, rfl, issue, honce, hname⟩

/-- ASCII only -/
def plain : Env where
  isDigit := Char.isDigit
  isAlnum := Char.isAlphanum
  lower := List.map Char.toLower
  casefold := List.map Char.toLower
  floatText _ := "1.5".toList

def addNote : Tool where
  tags := []
  properties := some [("work_order_id".toList, []), ("body".toList, [])]
  validate args := .ok args
  readOnlyWhen := none
  precheck := none

def noteOn (workOrder : Str) : Dict Json := [("work_order_id".toList, .str workOrder), ("body".toList, .str "done".toList)]

def notesOn (workOrders : List Str) : ModelCallResult where
  toolCalls := workOrders.map fun w => ⟨"add_note".toList, noteOn w⟩
  stopReason := none
  error := []
  replayedLookups := []

/-- the note of production on 118600 is fine, another one on the neighbouring 118601 is not -/
theorem unrequested_exact_neighbour :
    (∀ issue ∈ checkCandidate plain (notesOn ["118600".toList]) [("add_note".toList, addNote)]
      [⟨"add_note".toList, noteOn "118600".toList, []⟩] [], issue.finding ≠ .unrequestedWrite) ∧
    ∃ pre own post, checkCandidate plain (notesOn ["118600".toList, "118601".toList]) [("add_note".toList, addNote)]
      [⟨"add_note".toList, noteOn "118600".toList, []⟩] [] = pre ++ own ++ post ∧
      checkCandidate plain (notesOn ["118600".toList]) [("add_note".toList, addNote)]
        [⟨"add_note".toList, noteOn "118600".toList, []⟩] [] = pre ++ post ∧
      own = candidateIssues plain [("add_note".toList, addNote)] [⟨"add_note".toList, noteOn "118600".toList, []⟩] [] []
        ⟨"add_note".toList, noteOn "118601".toList⟩ ∧
      ∃ issue, own.filter (fun i => i.finding = .unrequestedWrite) = [issue] ∧ issue.toolName = "add_note".toList := by
  refine ⟨(unrequested_exact plain (notesOn ["118600".toList]) _ _ [] rfl).1 (List.Subperm.refl _), ?_⟩
  refine (unrequested_exact plain (notesOn ["118600".toList, "118601".toList]) _ _ [] rfl).2 [⟨_, noteOn "118600".toList⟩]
    ⟨"add_note".toList, noteOn "118601".toList⟩ [] addNote rfl rfl (by decide +kernel) (by decide +kernel) (.inr ⟨?_, ?_⟩)
  · decide +kernel
  · decide +kernel

end Clawbolt.Checks
