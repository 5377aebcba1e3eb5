/-
The approval gate of one user (`ApprovalGate` in agent/approval.py), split at its await points. Database calls succeed.

A `request_approval` coroutine logs `requested`, upserts the `pending_approvals` row, registers its `PendingApproval`
in `_pending` and hands the prompt to `publish_outbound` (one segment, no await between the two), waits for the event or
the timeout, and cleans up. A `resolve` call reads the slot and publishes its decision in its first segment; it then
deletes the row, logs `decided`, and sets the event, one segment each. A call that finds no entry returns False at once.

- `Request`: a coroutine's frame and its `PendingApproval` object. The `resolve` calls that hold the object are its
  `replies`; a reply that reached `woke` returned True.
- `St.pending` is `_pending.get(user_id)`: one slot, whoever registered last. Every cleanup pops whatever is there.
- `timeout` may fire whenever the coroutine is suspended in `wait_for`, also after the event is set: a cancelled task
  resumes with `TimeoutError` if the deadline passes before it runs.

Ghost data, read by no step: `St.shown` (the prompts handed to the channel, in order) and `Reply.prompted` (the last of
them when the call began).
-/
import Mathlib.Tactic
import Clawbolt.Core.Runs

namespace Clawbolt.Approval

/-! ## Model -/

/-- `ApprovalDecision` -/
inductive Decision where
  | approved
  | denied
  | alwaysAllow
  | alwaysAllowAll
  | alwaysDeny
  | interrupted
deriving DecidableEq, Repr

inductive EventType where
  | requested
  | decided
  | timedOut
deriving DecidableEq, Repr

/-- a row of `approval_events` -/
structure Event where
  eventType : EventType
  toolName : String
  description : String
  channel : String
  chatId : String
  decision : Option Decision
deriving DecidableEq, Repr

/-- what a suspended `request_approval` does when it next runs -/
inductive Phase where
  | logRequested
  | persistRow
  | register
  | publishing
  | waiting
  /-- the prompt could not be sent: delete the row and deny -/
  | publishFailed
  | timedOut
  | logTimedOut
  | cleanup (d : Decision)
  | done (d : Decision)
deriving DecidableEq, Repr

/-- what a suspended `resolve` does when it next runs -/
inductive ReplyPhase where
  | deleteRow
  | logDecided
  | setEvent
  /-- `event.set()` ran and the call returned True -/
  | woke
deriving DecidableEq, Repr

structure Reply where
  decision : Decision
  phase : ReplyPhase
  prompted : Option ℕ
deriving DecidableEq, Repr

structure Request where
  toolName : String
  description : String
  channel : String
  chatId : String
  phase : Phase
  /-- `pending.decision` -/
  decision : Option Decision
  /-- `pending.event.is_set()` -/
  event : Bool
  replies : List Reply
deriving DecidableEq, Repr

structure St where
  requests : List Request
  pending : Option ℕ
  /-- the `pending_approvals` row: the request that wrote it -/
  row : Option ℕ
  log : List Event
  shown : List ℕ
  /-- `resolve` calls that returned False -/
  refused : ℕ
deriving DecidableEq, Repr

inductive Op where
  | requestApproval (toolName description channel chatId : String)
  /-- request `i` runs to its next await -/
  | resume (i : ℕ)
  | publishFails (i : ℕ)
  | timeout (i : ℕ)
  | resolve (d : Decision)
  /-- reply `j` of request `i` runs to its next await -/
  | resumeReply (i j : ℕ)
deriving DecidableEq, Repr

def init : St := ⟨[], none, none, [], [], 0⟩

/-- a request that was just called -/
def called (toolName description channel chatId : String) : Request :=
  ⟨toolName, description, channel, chatId, .logRequested, none, false, []⟩

def requestedEvent (r : Request) : Event := ⟨.requested, r.toolName, r.description, r.channel, r.chatId, none⟩

def timedOutEvent (r : Request) : Event := ⟨.timedOut, r.toolName, r.description, r.channel, r.chatId, none⟩

/-- `resolve` does not know the channel: it logs it empty -/
def decidedEvent (r : Request) (d : Decision) : Event := ⟨.decided, r.toolName, r.description, "", "", some d⟩

def St.setRequest (s : St) (i : ℕ) (r : Request) : St := { s with requests := s.requests.set i r }

/-- one segment of `request_approval`, the awaits it passes succeeding -/
def resumeRequest (s : St) (i : ℕ) (r : Request) : St :=
  match r.phase with
  | .logRequested => { s.setRequest i { r with phase := .persistRow } with log := s.log ++ [requestedEvent r] }
  | .persistRow => { s.setRequest i { r with phase := .register } with row := some i }
  | .register =>
    { s.setRequest i { r with phase := .publishing } with pending := some i, shown := s.shown ++ [i] }
  | .publishing => s.setRequest i { r with phase := .waiting }
  | .waiting =>
    if r.event then
      { s.setRequest i { r with phase := .cleanup (r.decision.getD .denied) } with pending := none }
    else s
  | .publishFailed => { s.setRequest i { r with phase := .done .denied } with row := none }
  | .timedOut => { s.setRequest i { r with phase := .logTimedOut } with row := none }
  | .logTimedOut => { s.setRequest i { r with phase := .done .denied } with log := s.log ++ [timedOutEvent r] }
  | .cleanup d => { s.setRequest i { r with phase := .done d } with row := none }
  | .done _ => s

/-- one segment of `resolve` after the first -/
def resumeReply (s : St) (i : ℕ) (r : Request) (j : ℕ) (k : Reply) : St :=
  match k.phase with
  | .deleteRow =>
    { s.setRequest i { r with replies := r.replies.set j { k with phase := .logDecided } } with row := none }
  | .logDecided =>
    { s.setRequest i { r with replies := r.replies.set j { k with phase := .setEvent } } with
      log := s.log ++ [decidedEvent r k.decision] }
  | .setEvent => s.setRequest i { r with event := true, replies := r.replies.set j { k with phase := .woke } }
  | .woke => s

def step (s : St) : Op → St
  | .requestApproval t d c h => { s with requests := s.requests ++ [called t d c h] }
  | .resume i =>
    match s.requests[i]? with
    | none => s
    | some r => resumeRequest s i r
  | .publishFails i =>
    match s.requests[i]? with
    | none => s
    | some r =>
      if r.phase = .publishing then { s.setRequest i { r with phase := .publishFailed } with pending := none } else s
  | .timeout i =>
    match s.requests[i]? with
    | none => s
    | some r => if r.phase = .waiting then { s.setRequest i { r with phase := .timedOut } with pending := none } else s
  | .resolve d =>
    match s.pending with
    | none => { s with refused := s.refused + 1 }
    | some i =>
      match s.requests[i]? with
      | none => s
      | some r =>
        s.setRequest i { r with decision := some d, replies := r.replies ++ [⟨d, .deleteRow, s.shown.getLast?⟩] }
  | .resumeReply i j =>
    match s.requests[i]? with
    | none => s
    | some r =>
      match r.replies[j]? with
      | none => s
      | some k => resumeReply s i r j k

abbrev run (s : St) (ops : List Op) : St := Runs.run step s ops

/-- an event that ends a request: `decided` or `timed_out` -/
def Event.isTerminal (e : Event) : Bool := e.eventType ≠ .requested

def terminal (s : St) : List Event := s.log.filter Event.isTerminal

def Request.isDone (r : Request) : Bool :=
  match r.phase with
  | .done _ => true
  | _ => false

/-- nothing is left to run: every request returned, and so did every reply -/
def Finished (s : St) : Prop := ∀ r ∈ s.requests, r.isDone = true ∧ ∀ k ∈ r.replies, k.phase = .woke

instance (s : St) : Decidable (Finished s) := by unfold Finished; infer_instance

end Clawbolt.Approval
