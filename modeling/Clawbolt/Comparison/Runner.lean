/-
One model comparison run (services/model_comparison/runner.py, `start_run`, `cancel_run` and `delete_run` of
routers/admin_model_comparison.py), split at every await.

The main task is `_guarded` around `execute_run`; it starts a chain of turns for each cache epoch, and goes on when they are
done or when one raises, the others still running. A chain asks the watcher before each turn; the watcher reads the status at
most once a poll interval. Status writes are unconditional, but for the sweep's. The clock counts milliseconds.

What a turn reports, and the cancellation of a task at shutdown, are left out; a crash loses the tasks and keeps the row.
-/
import Mathlib.Tactic
import Clawbolt.Core.Runs
import Clawbolt.Endpoints.Requests

namespace Clawbolt.Comparison

open Endpoints (RunStatus)

/-- `_CANCEL_POLL_SECONDS` -/
def cancelPoll : ℕ := 1000

/-- `_HEARTBEAT_STALE_AFTER` -/
def heartbeatStaleAfter : ℕ := 15 * 60 * 1000

/-- `MAX_CONSECUTIVE_CALL_FAILURES` -/
def maxConsecutiveCallFailures : ℕ := 3

/-- the run's row -/
structure Row where
  status : RunStatus
  progressCompleted : ℕ
  /-- the rows of its turns -/
  turns : ℕ
  heartbeatAt : Option ℕ
  createdAt : ℕ
deriving DecidableEq, Repr

/-- where a chain stands with its next turn -/
inductive Worker where
  /-- before it has a slot -/
  | idle
  /-- before `is_cancelled`, and before the lock of the watcher -/
  | top
  | lock
  /-- in `is_cancelled` with the clock it read: before the status is read, and after, with when and what it was -/
  | polling (at_ : ℕ)
  | polled (at_ readAt : ℕ) (status : Option RunStatus)
  /-- the provider turn is on -/
  | turn
  /-- before the commit of its row -/
  | commit
  | done
  | raised
deriving DecidableEq, Repr

structure Chain where
  /-- turns left, the next one included -/
  left : ℕ
  worker : Worker
deriving DecidableEq, Repr

/-- nothing follows -/
def Chain.ended (c : Chain) : Bool := c.worker = .done || c.worker = .raised

/-- it holds a slot of the semaphore -/
def Chain.holdsSlot (c : Chain) : Bool := !c.ended && c.worker ≠ .idle

/-- where the main task stands -/
inductive Main where
  | load
  | user
  | markRunning
  | fixture
  | total (chains : List ℕ)
  | target (chains : List ℕ)
  /-- the first turn runs alone -/
  | first (rest : List ℕ)
  | gather
  | aggregate
  /-- in `_finish`, from `_guarded` or not -/
  | finish (status : RunStatus) (guarded : Bool)
  | done
deriving DecidableEq, Repr

/-- `_CancellationWatcher` -/
structure Watcher where
  cancelled : Bool
  checkedAt : ℕ
  locked : Bool
deriving DecidableEq, Repr

structure Sys where
  now : ℕ
  concurrency : ℕ
  /-- none once deleted -/
  row : Option Row
  main : Main
  chains : List Chain
  /-- what the first chain that raised did raise: `CancelledError` or not -/
  raisedFirst : Option Bool
  watcher : Watcher
  consecutiveFailures : ℕ
  /-- `breaker_error` is set -/
  breaker : Bool
  /-- cancel requests that have read an active status, and deletes that have read another one -/
  cancels : ℕ
  deletes : ℕ
  /-- when a cancel committed -/
  cancelTimes : List ℕ
  /-- when a provider turn started -/
  started : List ℕ
  /-- the run has ended itself -/
  ownEnd : Bool
deriving DecidableEq, Repr

/-- a run that `start_run` has inserted and launched -/
def launched (now concurrency : ℕ) : Sys where
  now := now
  concurrency := concurrency
  row := some ⟨.pending, 0, 0, none, now⟩
  main := .load
  chains := []
  raisedFirst := none
  watcher := ⟨false, 0, false⟩
  consecutiveFailures := 0
  breaker := false
  cancels := 0
  deletes := 0
  cancelTimes := []
  started := []
  ownEnd := false

/-- how an await of the main task ends -/
inductive Input where
  | ok
  /-- the user is gone -/
  | absent
  /-- the lengths of the chains -/
  | chains (lengths : List ℕ)
  | raise
deriving DecidableEq, Repr

inductive Event where
  | tick (ms : ℕ)
  | main (input : Input)
  /-- a chain goes on; `fails` is whether its call failed, or its session raised -/
  | chain (i : ℕ) (fails : Bool)
  | cancelRead
  | cancelCommit
  | deleteRead
  | deleteCommit
  /-- `mark_interrupted_runs` -/
  | sweep
  | crash
deriving DecidableEq, Repr

def Sys.setStatus (s : Sys) (status : RunStatus) : Sys := { s with row := s.row.map fun r => { r with status := status } }

/-- an exception reaches `_guarded` -/
def Sys.fail (s : Sys) (status : RunStatus) : Sys := { s with main := .finish status true }

def raisedStatus (cancelled : Bool) : RunStatus := if cancelled then .cancelled else .failed

/-- the main task until its next await -/
def mainStep (s : Sys) (input : Input) : Sys :=
  match s.main, input with
  | .done, _ => s
  | .finish _ guarded, .raise => if guarded then { s with main := .done } else s.fail .failed
  | .finish status _, _ => { s.setStatus status with main := .done, ownEnd := s.ownEnd || s.row.isSome }
  | .first rest, _ =>
    match s.raisedFirst with
    | some cancelled => s.fail (raisedStatus cancelled)
    | none =>
      if s.chains.all Chain.ended then
        { s with main := .gather, chains := (rest.filter (· ≠ 0)).map fun left => ⟨left, .idle⟩ }
      else s
  | .gather, _ =>
    match s.raisedFirst with
    | some cancelled => s.fail (raisedStatus cancelled)
    | none => if s.chains.all Chain.ended then { s with main := .aggregate } else s
  | _, .raise => s.fail .failed
  | .load, _ => if s.row.isNone then { s with main := .done } else { s with main := .user }
  | .user, .absent => { s with main := .finish .failed false }
  | .user, _ => { s with main := .markRunning }
  | .markRunning, _ => { s.setStatus .running with main := .fixture }
  | .fixture, .chains lengths =>
    let lengths := lengths.filter (· ≠ 0)
    if lengths = [] then { s with main := .finish .completed false } else { s with main := .total lengths }
  | .fixture, _ => s
  | .total lengths, _ => { s with main := .target lengths }
  | .target lengths, _ => { s with main := .first ((lengths.headD 0 - 1) :: lengths.tail), chains := [⟨1, .idle⟩] }
  | .aggregate, _ => { s with main := .finish (if s.breaker then .failed else .completed) false }

def Sys.setWorker (s : Sys) (i : ℕ) (c : Chain) (w : Worker) : Sys := { s with chains := s.chains.set i { c with worker := w } }

/-- the chain is through with a turn -/
def Sys.nextTurn (s : Sys) (i : ℕ) (c : Chain) : Sys :=
  { s with chains := s.chains.set i ⟨c.left - 1, if c.left ≤ 1 then .done else .top⟩ }

def Sys.raiseChain (s : Sys) (i : ℕ) (c : Chain) (cancelled : Bool) : Sys :=
  { s.setWorker i c .raised with raisedFirst := s.raisedFirst.or (some cancelled) }

/-- `is_cancelled` has answered -/
def Sys.answer (s : Sys) (i : ℕ) (c : Chain) (cancelled : Bool) : Sys :=
  if cancelled then s.raiseChain i c true
  else if s.breaker then s.nextTurn i c
  else { s.setWorker i c .turn with started := s.started ++ [s.now] }

/-- a chain until its next await -/
def chainStep (s : Sys) (i : ℕ) (c : Chain) (fails : Bool) : Sys :=
  match c.worker with
  | .idle => if s.chains.countP Chain.holdsSlot < max 1 s.concurrency then s.setWorker i c .top else s
  | .top => if s.watcher.cancelled then s.answer i c true else s.setWorker i c .lock
  | .lock =>
    if s.watcher.locked then s
    else if s.now - s.watcher.checkedAt < cancelPoll then s.answer i c s.watcher.cancelled
    else { s.setWorker i c (.polling s.now) with watcher := { s.watcher with locked := true } }
  | .polling at_ =>
    if fails then { s with watcher := { s.watcher with locked := false } }.raiseChain i c false
    else s.setWorker i c (.polled at_ s.now (s.row.map Row.status))
  | .polled at_ _ status =>
    if fails then { s with watcher := { s.watcher with locked := false } }.raiseChain i c false
    else { s with watcher := ⟨status == some RunStatus.cancelled, at_, false⟩ }.answer i c (status == some RunStatus.cancelled)
  | .turn =>
    let failures := if fails then s.consecutiveFailures + 1 else 0
    { s.setWorker i c .commit with
      consecutiveFailures := failures, breaker := s.breaker || maxConsecutiveCallFailures ≤ failures }
  | .commit =>
    if fails then s.raiseChain i c false
    else
      { s.nextTurn i c with
        row := s.row.map fun r =>
          { r with progressCompleted := r.progressCompleted + 1, turns := r.turns + 1, heartbeatAt := some s.now } }
  | .done => s
  | .raised => s

/-- the last sign of life -/
def Row.lastSeen (r : Row) : ℕ := r.heartbeatAt.getD r.createdAt

def step (s : Sys) : Event → Sys
  | .tick ms => { s with now := s.now + ms }
  | .main input => mainStep s input
  | .chain i fails =>
    match s.chains[i]? with
    | none => s
    | some c => chainStep s i c fails
  | .cancelRead => if s.row.any fun r => r.status.isActive then { s with cancels := s.cancels + 1 } else s
  | .cancelCommit =>
    if s.cancels = 0 then s
    else if s.row.isNone then { s with cancels := s.cancels - 1 }
    else { s.setStatus .cancelled with cancels := s.cancels - 1, cancelTimes := s.cancelTimes ++ [s.now] }
  | .deleteRead => if s.row.any fun r => !r.status.isActive then { s with deletes := s.deletes + 1 } else s
  | .deleteCommit => if s.deletes = 0 then s else { s with row := none, deletes := s.deletes - 1 }
  | .sweep =>
    if s.row.any fun r => r.status.isActive && r.lastSeen + heartbeatStaleAfter < s.now then s.setStatus .interrupted else s
  | .crash => { s with main := .done, chains := [] }

end Clawbolt.Comparison
