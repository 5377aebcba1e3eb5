/-
The mid-turn inbox (agent/midturn.py) and the dispatches that wait in it (`_dispatch_to_pipeline` of agent/ingestion.py and
the drain of agent/core.py), on the event loop that runs them.

A step of the machine is one callback of the loop, with everything its task does up to the next await, or an event from
outside. What the awaits of the standard library do is written out: `asyncio.Lock`, `asyncio.Event.wait`, `asyncio.wait`
and `Task.cancel` each schedule callbacks, and their order decides who is first.

- A foldable dispatch is three tasks: its own, and the `run` and `folded` tasks of `run_unless_folded`. Any other dispatch
  runs `_run_locked` in its own task.
- The lock is held from `Phase.user` to the end of `Phase.unwind`. The reloads of the user and of the session each wait for
  the database at least once. What the database answers is seen between two iterations of the loop, and then wakes the
  task at once or through a callback of its own.
- A turn is the pipeline of `handle_inbound_message`. What it awaits may end at any time. It drains the inbox when it wants.
- Whoever else takes the lock is a dispatch that is not foldable.
- `Choice` is what the code outside this machine makes of a callback.

`claimedBy` and `started` are ghost data: which turns claimed the dispatch, and whether its own pipeline began.
-/
import Mathlib.Tactic
import Clawbolt.Core.AsyncLock
import Clawbolt.Core.ReadyQueue
import Clawbolt.Core.Runs
import Clawbolt.History.Window

namespace Clawbolt.Midturn

open Text (Str)
open History (StoredMessage)

/-! ## Dispatches -/

/-- what `_dispatch_to_pipeline` is given; the messages are those of a batch, or the one message -/
structure Request where
  userId : Str
  sessionId : Str
  channel : Str
  requestId : Str
  messages : List StoredMessage
deriving DecidableEq

/-- `if channel and not request_id` -/
def Request.Foldable (r : Request) : Prop := r.channel ≠ [] ∧ r.requestId = []

instance (r : Request) : Decidable r.Foldable := by unfold Request.Foldable; infer_instance

/-- where `_run_locked` is -/
inductive Phase where
  /-- there is no such dispatch -/
  | idle
  | start
  /-- in `user_locks.acquire` -/
  | lock
  /-- the reload of the user -/
  | user
  /-- the reload of the session -/
  | session
  /-- in `handle_inbound_message` -/
  | turn
  /-- an exception leaves it -/
  | unwind
  | ended
deriving DecidableEq, Repr

/-- the task of `consumed.wait()` -/
inductive FoldTask where
  | start
  | waiting
  | ended
deriving DecidableEq, Repr

/-- where the dispatch is: in the `asyncio.wait` of both tasks, or of the run it cancelled -/
inductive DispatchTask where
  | waiting
  | joining
  | ended
deriving DecidableEq, Repr

inductive Outcome where
  /-- answered by the turn that claimed it -/
  | folded
  | completed
  | errorFallback
  | cancelled
deriving DecidableEq, Repr

/-- a dispatch, with the `PendingInbound` it registers -/
structure Dispatch where
  request : Request
  phase : Phase
  fut : Fut := .pending
  /-- `CancelledError` is thrown into the run task at its next step -/
  throws : Bool := false
  /-- `run.cancel()` was called -/
  cancelRequested : Bool := false
  /-- `run.cancelled()` -/
  runCancelled : Bool := false
  /-- `pipeline_error` is set, or `timed_out` -/
  pipelineError : Bool := false
  fold : FoldTask
  dispatch : DispatchTask
  consumed : Bool := false
  /-- the dispatch itself was cancelled -/
  cancelled : Bool := false
  outcome : Option Outcome := none
  claimedBy : List ℕ := []
  started : Bool := false
deriving DecidableEq

/-- no dispatch -/
def Dispatch.none : Dispatch := { request := ⟨[], [], [], [], []⟩, phase := .idle, fold := .ended, dispatch := .ended }

/-! ## The loop -/

inductive Kind where
  | run
  /-- the database has answered the run task -/
  | ioReady
  | fold
  /-- `folded` is done -/
  | foldDone
  /-- `run` is done -/
  | runDone
  | dispatch
deriving DecidableEq, Repr

/-- a callback, for a dispatch -/
structure Handle where
  kind : Kind
  of : ℕ
deriving DecidableEq, Repr

structure St where
  dispatches : ℕ → Dispatch
  count : ℕ
  /-- `MidTurnInbox._pending`, by user -/
  pending : Str → List ℕ
  locked : Str → Bool
  /-- the waiters of the lock of a user -/
  waiters : Str → List ℕ
  ready : ReadyQueue Handle
  /-- the stored rows and their sessions -/
  stored : List (Str × StoredMessage)

def init : St := ⟨fun _ => .none, 0, fun _ => [], fun _ => false, fun _ => [], .empty, []⟩

/-- what a callback meets -/
structure Choice where
  /-- what the task awaits is not over: it awaits again -/
  more : Bool := false
  /-- the turn runs into another await -/
  goesOn : Bool := false
  /-- it ends in an exception of its own -/
  raises : Bool := false
  /-- the turn drains the inbox -/
  drains : Bool := false
  /-- the turn catches the `CancelledError` -/
  swallows : Bool := false
  /-- the reply that the turn stores when it ends -/
  reply : Option StoredMessage := none

namespace St

def user (s : St) (d : ℕ) : Str := (s.dispatches d).request.userId

def upd (s : St) (d : ℕ) (f : Dispatch → Dispatch) : St :=
  { s with dispatches := Function.update s.dispatches d (f (s.dispatches d)) }

def soon (s : St) (k : Kind) (d : ℕ) : St := { s with ready := s.ready.callSoon ⟨k, d⟩ }

def Queued (s : St) (k : Kind) (d : ℕ) : Prop := (⟨k, d⟩ : Handle) ∈ s.ready.handles

instance (s : St) (k : Kind) (d : ℕ) : Decidable (s.Queued k d) := by unfold Queued; infer_instance

/-- the task is scheduled, unless it is already -/
def wake (s : St) (k : Kind) (d : ℕ) : St := { s with ready := s.ready.wake ⟨k, d⟩ }

/-! ## The lock -/

/-- `Lock._wake_up_first` -/
def wakeUpFirst (s : St) (u : Str) : St :=
  match s.waiters u with
  | [] => s
  | e :: _ =>
    if (s.dispatches e).fut = .pending then (s.upd e fun x => { x with fut := .result }).wake .run e else s

/-- `MidTurnInbox.register` -/
def register (s : St) (d : ℕ) : St :=
  { s with pending := Function.update s.pending (s.user d) (s.pending (s.user d) ++ [d]) }

/-- `MidTurnInbox.unregister` -/
def unregister (s : St) (d : ℕ) : St :=
  { s with pending := Function.update s.pending (s.user d) ((s.pending (s.user d)).erase d) }

/-- the run task has the lock: it is registered no longer, and reloads the user -/
def hold (s : St) (d : ℕ) : St :=
  ({ s with locked := Function.update s.locked (s.user d) true }.unregister d).upd d fun x => { x with phase := .user }

/-- `Lock.acquire` up to its first await -/
def acquire (s : St) (d : ℕ) : St :=
  let u := s.user d
  if s.locked u = false ∧ ∀ e ∈ s.waiters u, (s.dispatches e).fut = .cancelled then s.hold d
  else
    { s with waiters := Function.update s.waiters u (s.waiters u ++ [d]) }.upd d fun x =>
      { x with phase := .lock, fut := .pending }

/-- the waiter has left the queue of the lock -/
def dequeue (s : St) (d : ℕ) : St :=
  { s with waiters := Function.update s.waiters (s.user d) ((s.waiters (s.user d)).erase d) }

/-- `Lock.release` -/
def release (s : St) (d : ℕ) : St :=
  { s with locked := Function.update s.locked (s.user d) false }.wakeUpFirst (s.user d)

/-! ## The tasks -/

/-- the result of the run task -/
def endRun (s : St) (d : ℕ) (cancelled error : Bool) : St :=
  s.upd d fun x => { x with phase := .ended, runCancelled := cancelled, pipelineError := error }

/-- the run task releases the lock and is done -/
def leave (s : St) (d : ℕ) (cancelled error : Bool) : St := ((s.endRun d cancelled error).release d).soon .runDone d

/-- the run task is done before it had the lock: it leaves the queue, and wakes the next waiter when it was its turn -/
def giveUp (s : St) (d : ℕ) : St :=
  let s := (s.endRun d true false).dequeue d
  (if s.locked (s.user d) then s else s.wakeUpFirst (s.user d)).soon .runDone d

/-- an exception leaves the run task; only a `CancelledError` that was asked for is not caught -/
def unwind (s : St) (d : ℕ) (c : Choice) : St :=
  let s := s.upd d fun x => { x with phase := .unwind }
  if c.more then s
  else
    let cancelled := (s.dispatches d).cancelRequested && !c.raises
    s.leave d cancelled !cancelled

/-- `entry.consumed.set()`, for one of the entries that `t` claims -/
def consume (s : St) (t e : ℕ) : St :=
  let s := s.upd e fun x => { x with consumed := true, claimedBy := x.claimedBy ++ [t] }
  if (s.dispatches e).fold = .waiting then s.soon .fold e else s

/-- the entries that `claim` finds for the turn -/
def matching (s : St) (t : ℕ) : List ℕ :=
  (s.pending (s.user t)).filter fun e =>
    (s.dispatches e).request.sessionId = (s.dispatches t).request.sessionId ∧
      (s.dispatches e).request.channel = (s.dispatches t).request.channel

/-- `MidTurnInbox.claim`, for the turn `t` -/
def claim (s : St) (t : ℕ) : St :=
  let claimed := s.matching t
  let s := { s with
    pending := Function.update s.pending (s.user t) ((s.pending (s.user t)).filter fun e => e ∉ claimed) }
  claimed.foldl (fun s e => s.consume t e) s

/-- `_fold_pending_inbound`: only a turn that could itself be folded has a drain -/
def drain (s : St) (t : ℕ) : St := if (s.dispatches t).request.Foldable then s.claim t else s

/-- the turn runs up to its next await, or to its end -/
def turnStep (s : St) (d : ℕ) (c : Choice) : St :=
  let s := if c.drains then s.drain d else s
  if c.goesOn then s
  else
    { s with stored := s.stored ++ c.reply.toList.map fun m => ((s.dispatches d).request.sessionId, m) }.leave d false
      c.raises

/-- `_run_locked`, from one await to the next -/
def runStep (s : St) (d : ℕ) (c : Choice) : St :=
  let x := s.dispatches d
  let s := s.upd d fun x => { x with throws := false }
  match x.phase with
  | .idle | .ended => s
  | .start => if x.throws then (s.endRun d true false).soon .runDone d else s.acquire d
  | .lock => if x.throws then s.giveUp d else (s.dequeue d).hold d
  | .user =>
    if x.throws || c.raises then s.unwind d c
    else if c.more then s
    else s.upd d fun x => { x with phase := .session }
  | .session =>
    if x.throws || c.raises then s.unwind d c
    else if c.more then s
    else (s.upd d fun x => { x with phase := .turn, started := true }).turnStep d c
  | .turn => if x.throws && !c.swallows then s.unwind d c else s.turnStep d c
  | .unwind => s.unwind d c

/-- `run.cancel()` -/
def cancelRun (s : St) (d : ℕ) : St :=
  (s.upd d fun x => { x with
    throws := true
    cancelRequested := true
    fut := if x.phase = .lock ∧ x.fut = .pending then .cancelled else x.fut }).wake .run d

/-- `consumed.wait()` -/
def foldStep (s : St) (d : ℕ) : St :=
  let x := s.dispatches d
  if x.fold = .ended then s
  else if x.consumed then (s.upd d fun x => { x with fold := .ended }).soon .foldDone d
  else s.upd d fun x => { x with fold := .waiting }

/-- the end of the dispatch: unregistered, and the error fallback unless it was folded, was cancelled or went well -/
def finish (s : St) (d : ℕ) : St :=
  (s.unregister d).upd d fun x => { x with
    dispatch := .ended
    outcome := some (
      if x.cancelled then .cancelled
      else if x.runCancelled then .folded
      else if x.pipelineError then .errorFallback
      else .completed) }

/-- `run_unless_folded` after one of its waits -/
def dispatchStep (s : St) (d : ℕ) : St :=
  let x := s.dispatches d
  match x.dispatch with
  | .waiting =>
    let s := s.upd d fun x => { x with fold := .ended }
    if x.phase = .ended then s.finish d else (s.upd d fun x => { x with dispatch := .joining }).cancelRun d
  | .joining => s.finish d
  | .ended => s

/-- a callback of the loop -/
def call (s : St) (c : Choice) : Handle → St
  | ⟨.run, d⟩ => s.runStep d c
  | ⟨.ioReady, d⟩ =>
    if (s.dispatches d).phase = .user ∨ (s.dispatches d).phase = .session then s.wake .run d else s
  | ⟨.fold, d⟩ => s.foldStep d
  -- a wait that is over takes no notice
  | ⟨.foldDone, d⟩ => if (s.dispatches d).dispatch = .waiting then s.wake .dispatch d else s
  | ⟨.runDone, d⟩ => if (s.dispatches d).dispatch = .ended then s else s.wake .dispatch d
  | ⟨.dispatch, d⟩ => s.dispatchStep d

/-- the database may answer -/
def Awaiting (s : St) (d : ℕ) : Prop :=
  ((s.dispatches d).phase = .user ∨ (s.dispatches d).phase = .session) ∧ ¬ s.Queued .run d ∧ ¬ s.Queued .ioReady d

instance (s : St) (d : ℕ) : Decidable (s.Awaiting d) := by unfold Awaiting; infer_instance

/-- `_dispatch_to_pipeline` up to its first await; its messages are stored -/
def dispatch (s : St) (r : Request) : St :=
  let d := s.count
  let s := { s with
    count := d + 1
    stored := s.stored ++ r.messages.map fun m => (r.sessionId, m) }
  if r.Foldable then
    (((s.upd d fun _ => { request := r, phase := .start, fold := .start, dispatch := .waiting }).register d).soon .run d).soon
      .fold d
  else (s.upd d fun _ => { request := r, phase := .start, fold := .ended, dispatch := .ended }).soon .run d

/-- the dispatch is cancelled from outside -/
def cancel (s : St) (d : ℕ) : St :=
  let x := s.dispatches d
  if x.dispatch ≠ .ended then (s.upd d fun x => { x with cancelled := true }).wake .dispatch d
  else if ¬ x.request.Foldable ∧ x.phase ≠ .idle ∧ x.phase ≠ .ended then
    (s.upd d fun x => { x with cancelled := true }).cancelRun d
  else s

end St

inductive Op where
  | dispatch (r : Request)
  /-- the next callback of the iteration -/
  | tick (c : Choice)
  | iterate
  /-- between two iterations, the database answers -/
  | io (d : ℕ) (direct : Bool)
  /-- what the turn awaits is over -/
  | resume (d : ℕ)
  /-- the timeout of the turn expires -/
  | expire (d : ℕ)
  | cancel (d : ℕ)

def step (s : St) : Op → St
  | .dispatch r => s.dispatch r
  | .tick c =>
    match s.ready.now with
    | [] => s
    | h :: _ => { s with ready := s.ready.pop }.call c h
  | .iterate => if s.ready.now = [] then { s with ready := s.ready.iterate } else s
  | .io d direct =>
    if s.ready.now = [] ∧ s.Awaiting d then s.soon (if direct then .run else .ioReady) d else s
  | .resume d =>
    if (s.dispatches d).phase = .turn ∨ (s.dispatches d).phase = .unwind then s.wake .run d else s
  | .expire d =>
    if (s.dispatches d).phase = .user ∨ (s.dispatches d).phase = .session ∨ (s.dispatches d).phase = .turn then
      (s.upd d fun x => { x with throws := true }).wake .run d
    else s
  | .cancel d => s.cancel d

abbrev run (s : St) (ops : List Op) : St := Runs.run step s ops

end Clawbolt.Midturn
