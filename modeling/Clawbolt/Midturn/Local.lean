/-
One dispatch of the mid-turn inbox by itself: its data, its callbacks in the ready queue, and whether it is registered.
`Move` is everything that a step of the loop can do to it.

Once a turn has claimed a dispatch, two callbacks race: the one that cancels its run task, three callbacks after the claim,
and the one that would start its own pipeline, which needs the lock and two answers of the database. `Race` says where the
first has to be for each place of the second.

- `inv_move` and `inv_iterate`: a move keeps the invariant, and so does the next iteration of the loop;
- `exclusive_move`: a claimed dispatch never starts its own pipeline.
-/
import Mathlib.Tactic
import Clawbolt.Midturn.Inbox

namespace Clawbolt.Midturn

/-! ## The machine of one dispatch -/

structure Loc where
  x : Dispatch
  q : ReadyQueue Kind
  registered : Prop

def Loc.none : Loc := ⟨.none, .empty, False⟩

/-- before the run task has the lock -/
@[grind] def Phase.Waits (p : Phase) : Prop := p = .start ∨ p = .lock

/-- while it reloads the user and the session -/
@[grind] def Phase.Reloads (p : Phase) : Prop := p = .user ∨ p = .session

/-- the move of one dispatch within an iteration of the loop -/
inductive Move : Loc → Loc → Prop where
  | dispatch (r : Request) : r.Foldable →
      Move .none ⟨{ request := r, phase := .start, fold := .start, dispatch := .waiting }, ⟨[], [.run, .fold]⟩, True⟩
  | dispatchInline (r : Request) : ¬ r.Foldable →
      Move .none ⟨{ request := r, phase := .start, fold := .ended, dispatch := .ended }, ⟨[], [.run]⟩, False⟩
  | io (l : Loc) (k : Kind) : l.q.now = [] → l.x.phase.Reloads → .run ∉ l.q.handles → .ioReady ∉ l.q.handles →
      k = .run ∨ k = .ioReady → Move l { l with q := l.q.callSoon k }
  /-- the lock wakes it -/
  | grant (l : Loc) : l.x.phase = .lock → l.x.fut = .pending →
      Move l { l with x := { l.x with fut := .result }, q := l.q.wake .run }
  | claim (l : Loc) (t : ℕ) : l.registered → (l.x.phase = .lock → l.x.fut ≠ .result) →
      Move l ⟨{ l.x with consumed := true, claimedBy := l.x.claimedBy ++ [t] },
        if l.x.fold = .waiting then l.q.callSoon .fold else l.q, False⟩
  | resume (l : Loc) : l.x.phase = .turn ∨ l.x.phase = .unwind → Move l { l with q := l.q.wake .run }
  | expire (l : Loc) : l.x.phase.Reloads ∨ l.x.phase = .turn →
      Move l { l with x := { l.x with throws := true }, q := l.q.wake .run }
  | cancel (l : Loc) : l.x.dispatch ≠ .ended →
      Move l { l with x := { l.x with cancelled := true }, q := l.q.wake .dispatch }
  | cancelInline (l : Loc) : ¬ l.x.request.Foldable → l.x.phase ≠ .idle → l.x.phase ≠ .ended →
      Move l { l with
        x := { l.x with
          cancelled := true, throws := true, cancelRequested := true
          fut := if l.x.phase = .lock ∧ l.x.fut = .pending then .cancelled else l.x.fut }
        q := l.q.wake .run }
  | leave (l : Loc) (c e : Bool) : l.x.phase = .turn ∨ l.x.phase = .unwind → (c = true → l.x.cancelRequested = true) →
      (c = false → l.x.started = true ∨ e = true) →
      Move l { l with
        x := { l.x with phase := .ended, runCancelled := c, pipelineError := e }, q := l.q.callSoon .runDone }
  -- the run task
  | endEarly (l : Loc) (rest : List Kind) : l.q.now = .run :: rest → l.x.phase.Waits → l.x.throws = true →
      Move l { l with
        x := { l.x with throws := false, phase := .ended, runCancelled := true, pipelineError := false }
        q := l.q.pop.callSoon .runDone }
  | hold (l : Loc) (rest : List Kind) : l.q.now = .run :: rest → l.x.phase.Waits → l.x.throws = false →
      Move l ⟨{ l.x with throws := false, phase := .user }, l.q.pop, False⟩
  | enqueue (l : Loc) (rest : List Kind) : l.q.now = .run :: rest → l.x.phase = .start → l.x.throws = false →
      Move l { l with x := { l.x with throws := false, phase := .lock, fut := .pending }, q := l.q.pop }
  | again (l : Loc) (rest : List Kind) : l.q.now = .run :: rest →
      (l.x.phase.Reloads ∧ l.x.throws = false) ∨ l.x.phase = .turn →
      Move l { l with x := { l.x with throws := false }, q := l.q.pop }
  | reload (l : Loc) (rest : List Kind) : l.q.now = .run :: rest → l.x.phase = .user → l.x.throws = false →
      Move l { l with x := { l.x with throws := false, phase := .session }, q := l.q.pop }
  | begin (l : Loc) (rest : List Kind) : l.q.now = .run :: rest → l.x.phase = .session → l.x.throws = false →
      Move l { l with x := { l.x with throws := false, phase := .turn, started := true }, q := l.q.pop }
  | unwind (l : Loc) (rest : List Kind) : l.q.now = .run :: rest →
      l.x.phase.Reloads ∨ l.x.phase = .turn ∨ l.x.phase = .unwind →
      Move l { l with x := { l.x with throws := false, phase := .unwind }, q := l.q.pop }
  | stale (l : Loc) (rest : List Kind) : l.q.now = .run :: rest → l.x.phase = .ended →
      Move l { l with x := { l.x with throws := false }, q := l.q.pop }
  -- the other callbacks
  | ioReady (l : Loc) (rest : List Kind) : l.q.now = .ioReady :: rest → l.x.phase.Reloads →
      Move l { l with q := l.q.pop.wake .run }
  | ioStale (l : Loc) (rest : List Kind) : l.q.now = .ioReady :: rest → ¬ l.x.phase.Reloads →
      Move l { l with q := l.q.pop }
  | foldEnded (l : Loc) (rest : List Kind) : l.q.now = .fold :: rest → l.x.fold = .ended → Move l { l with q := l.q.pop }
  | foldConsumed (l : Loc) (rest : List Kind) : l.q.now = .fold :: rest → l.x.fold ≠ .ended → l.x.consumed = true →
      Move l { l with x := { l.x with fold := .ended }, q := l.q.pop.callSoon .foldDone }
  | foldWaits (l : Loc) (rest : List Kind) : l.q.now = .fold :: rest → l.x.fold ≠ .ended → l.x.consumed = false →
      Move l { l with x := { l.x with fold := .waiting }, q := l.q.pop }
  | done (l : Loc) (k : Kind) (rest : List Kind) : l.q.now = k :: rest → k = .foldDone ∨ k = .runDone →
      l.x.dispatch = .waiting ∨ (k = .runDone ∧ l.x.dispatch = .joining) →
      Move l { l with q := l.q.pop.wake .dispatch }
  | doneStale (l : Loc) (k : Kind) (rest : List Kind) : l.q.now = k :: rest → k = .foldDone ∨ k = .runDone →
      l.x.dispatch ≠ .waiting → (k = .runDone → l.x.dispatch = .ended) → Move l { l with q := l.q.pop }
  | join (l : Loc) (rest : List Kind) : l.q.now = .dispatch :: rest → l.x.dispatch = .waiting → l.x.phase ≠ .ended →
      Move l { l with
        x := { l.x with
          fold := .ended, dispatch := .joining, throws := true, cancelRequested := true
          fut := if l.x.phase = .lock ∧ l.x.fut = .pending then .cancelled else l.x.fut }
        q := l.q.pop.wake .run }
  | finish (l : Loc) (rest : List Kind) (f : FoldTask) : l.q.now = .dispatch :: rest →
      (l.x.dispatch = .waiting ∧ l.x.phase = .ended ∧ f = .ended) ∨ (l.x.dispatch = .joining ∧ f = l.x.fold) →
      Move l ⟨{ l.x with
          fold := f
          dispatch := .ended
          outcome := some (
            if l.x.cancelled then .cancelled
            else if l.x.runCancelled then .folded
            else if l.x.pipelineError then .errorFallback
            else .completed) }, l.q.pop, False⟩
  | dispatchStale (l : Loc) (rest : List Kind) : l.q.now = .dispatch :: rest → l.x.dispatch = .ended →
      Move l { l with q := l.q.pop }

/-! ## The invariant -/

/-- the callback that cancels the run task comes within `n` iterations after this one -/
def Loc.CancelsWithin (l : Loc) (n : ℕ) : Prop :=
  (.fold ∈ l.q.now ∧ l.x.fold ≠ .ended ∧ 2 ≤ n) ∨ (.fold ∈ l.q.next ∧ l.x.fold ≠ .ended ∧ 3 ≤ n) ∨
    (.foldDone ∈ l.q.now ∧ 1 ≤ n) ∨ (.foldDone ∈ l.q.next ∧ 2 ≤ n) ∨
    .dispatch ∈ l.q.now ∨ (.dispatch ∈ l.q.next ∧ 1 ≤ n)

/-- the cancel of a claimed dispatch against the start of its pipeline -/
structure Race (l : Loc) : Prop where
  start : l.x.phase = .start → l.x.fold ≠ .ended
  lock : l.x.phase = .lock → l.CancelsWithin 3 ∧ (.run ∈ l.q.now → l.CancelsWithin 2)
  user : l.x.phase = .user → l.x.throws = false →
    l.CancelsWithin 2 ∧ (.run ∈ l.q.now ∨ .ioReady ∈ l.q.now → l.CancelsWithin 1)
  session : l.x.phase = .session → l.x.throws = false →
    (.run ∉ l.q.handles → .ioReady ∉ l.q.handles → l.CancelsWithin 1) ∧
      (.run ∈ l.q.handles → l.q.Before .dispatch .run) ∧ (.ioReady ∈ l.q.handles → l.q.Before .dispatch .ioReady)

structure Inv (l : Loc) : Prop where
  idle : l.x.phase = .idle → l = .none
  -- what is scheduled
  once : ∀ k, k = .run ∨ k = .ioReady ∨ k = .dispatch → l.q.handles.count k ≤ 1
  ioReady : .ioReady ∈ l.q.handles → ¬ l.x.phase.Waits
  oneIo : l.x.phase.Reloads → l.x.throws = false → ¬ (.run ∈ l.q.handles ∧ .ioReady ∈ l.q.handles)
  start : l.x.phase = .start → .run ∈ l.q.handles
  lockPending : l.x.phase = .lock → l.x.fut = .pending → .run ∉ l.q.handles ∧ l.x.throws = false
  lockWoken : l.x.phase = .lock → l.x.fut ≠ .pending → .run ∈ l.q.handles
  lockCancelled : l.x.phase = .lock → l.x.fut = .cancelled → l.x.throws = true
  foldStart : l.x.fold = .start → .fold ∈ l.q.handles
  startFold : l.x.phase = .start → l.x.fold ≠ .ended →
    l.x.fold = .start ∧ l.q.Before .run .fold ∧ (.run ∈ l.q.now → .fold ∈ l.q.now)
  foldDone : .foldDone ∈ l.q.handles → l.x.claimedBy ≠ []
  runDone : .runDone ∈ l.q.handles → l.x.phase = .ended
  dispatchWakes : .dispatch ∈ l.q.handles → l.x.dispatch = .waiting →
    l.x.claimedBy ≠ [] ∨ l.x.cancelled = true ∨ l.x.phase = .ended
  dispatchJoins : .dispatch ∈ l.q.handles → l.x.dispatch = .joining → l.x.phase = .ended ∨ l.x.cancelled = true
  -- claims
  registered : l.registered → l.x.phase.Waits ∨ l.x.phase = .ended
  unclaimed : l.registered →
    l.x.started = false ∧ l.x.request.Foldable ∧ l.x.claimedBy = [] ∧ l.x.consumed = false
  registeredFold : l.registered → l.x.cancelRequested = false → l.x.fold ≠ .ended
  claimed : l.x.claimedBy ≠ [] →
    l.x.claimedBy.length = 1 ∧ l.x.consumed = true ∧ l.x.request.Foldable ∧ ¬ l.registered
  consumed : l.x.consumed = true → l.x.claimedBy ≠ []
  race : l.x.claimedBy ≠ [] → l.x.cancelRequested = false → Race l
  exclusive : l.x.claimedBy ≠ [] → l.x.started = false
  turn : l.x.phase = .turn → l.x.started = true
  started : l.x.started = true → l.x.phase = .turn ∨ l.x.phase = .unwind ∨ l.x.phase = .ended
  -- cancels
  cancelThrows : l.x.cancelRequested = true → l.x.phase.Waits ∨ l.x.phase.Reloads → l.x.throws = true
  throwsCancel : l.x.throws = true → l.x.phase.Waits → l.x.cancelRequested = true
  cancelCause : l.x.cancelRequested = true → l.x.claimedBy ≠ [] ∨ l.x.cancelled = true
  runCancelled : l.x.runCancelled = true → l.x.cancelRequested = true
  -- ends
  endedRun : l.x.phase = .ended → l.x.runCancelled = false → l.x.started = true ∨ l.x.pipelineError = true
  ending : l.x.phase = .ended → l.x.dispatch ≠ .ended → .runDone ∈ l.q.handles ∨ .dispatch ∈ l.q.handles
  joining : l.x.dispatch = .joining → l.x.cancelRequested = true
  dispatchEnded : l.x.dispatch = .ended → l.x.request.Foldable →
    (l.x.phase = .ended ∨ l.x.cancelRequested = true) ∧ l.x.outcome.isSome = true
  folded : l.x.outcome = some .folded → l.x.claimedBy ≠ []
  completed : l.x.outcome = some .completed → l.x.started = true
  errorFallback : l.x.outcome = some .errorFallback → l.x.phase = .ended ∧ l.x.pipelineError = true
  cancelled : l.x.outcome = some .cancelled → l.x.cancelled = true

variable {l l' : Loc}

theorem inv_none : Inv .none := by
  constructor <;> simp [Loc.none, Dispatch.none, ReadyQueue.empty, ReadyQueue.handles, Request.Foldable, Phase.Waits,
    Phase.Reloads]

/-! ## What is scheduled -/

theorem idle_move (h : Inv l) (m : Move l l') : l'.x.phase = .idle → l' = .none := by
  have hidle := h.idle
  cases m <;> grind -ring -linarith -order -ac [Loc.none, Dispatch.none, ReadyQueue.empty, ReadyQueue.iterate]

/-- the tasks are scheduled once -/
theorem once_move (h : Inv l) (m : Move l l') {k : Kind} (hk : k = .run ∨ k = .ioReady ∨ k = .dispatch) :
    l'.q.handles.count k ≤ 1 := by
  have honce := h.once k hk
  have hne (j : Kind) (hj : j ≠ .run ∧ j ≠ .ioReady ∧ j ≠ .dispatch) : k ≠ j := by
    rcases hk with rfl | rfl | rfl
    · exact hj.1.symm
    · exact hj.2.1.symm
    · exact hj.2.2.symm
  cases m with
  | dispatch r hr => rcases hk with rfl | rfl | rfl <;> exact Nat.le_of_ble_eq_true rfl
  | dispatchInline r hr => rcases hk with rfl | rfl | rfl <;> exact Nat.le_of_ble_eq_true rfl
  | io _ j hnow hphase hrun hio hj =>
    refine ReadyQueue.count_callSoon_le honce fun heq => ?_
    rcases hj with rfl | rfl
    · exact heq ▸ hrun
    · exact heq ▸ hio
  | claim _ t hreg hlock =>
    show (if l.x.fold = .waiting then l.q.callSoon .fold else l.q).handles.count k ≤ 1
    split_ifs
    · exact ReadyQueue.count_callSoon_le honce fun heq => absurd heq (hne .fold (by decide))
    · exact honce
  | leave => exact ReadyQueue.count_callSoon_le honce fun heq => absurd heq (hne .runDone (by decide))
  | endEarly =>
    exact ReadyQueue.count_callSoon_le (ReadyQueue.count_pop_le honce) fun heq => absurd heq (hne .runDone (by decide))
  | foldConsumed =>
    exact ReadyQueue.count_callSoon_le (ReadyQueue.count_pop_le honce) fun heq => absurd heq (hne .foldDone (by decide))
  | grant | resume | expire | cancel | cancelInline => exact ReadyQueue.count_wake_le honce
  | ioReady | done | join => exact ReadyQueue.count_wake_le (ReadyQueue.count_pop_le honce)
  | hold | enqueue | again | reload | begin | unwind | stale | ioStale | foldEnded | foldWaits | doneStale | finish
  | dispatchStale => exact ReadyQueue.count_pop_le honce

theorem ioReady_move (h : Inv l) (m : Move l l') : .ioReady ∈ l'.q.handles → ¬ l'.x.phase.Waits := by
  have hio := h.ioReady
  cases m <;> grind -ring -linarith -order -ac [ReadyQueue.mem_pop, Loc.none]

/-- what wakes the run task is the answer that it waits for -/
theorem oneIo_move (h : Inv l) (m : Move l l') :
    l'.x.phase.Reloads → l'.x.throws = false → ¬ (.run ∈ l'.q.handles ∧ .ioReady ∈ l'.q.handles) := by
  have hone := h.oneIo
  have hwaits := h.ioReady
  cases m with
  | ioReady _ rest hq hphase =>
    intro _ _ hboth
    have hgone : .ioReady ∉ l.q.pop.handles := ReadyQueue.not_mem_pop (h.once .ioReady (by decide)) hq
    exact hgone ((ReadyQueue.mem_wake.1 hboth.2).resolve_right nofun)
  | _ => grind -ring -linarith -order -ac [ReadyQueue.mem_pop]

theorem start_move (h : Inv l) (m : Move l l') : l'.x.phase = .start → .run ∈ l'.q.handles := by
  have hstart := h.start
  cases m <;> grind -ring -linarith -order -ac [ReadyQueue.mem_pop]

theorem lockPending_move (h : Inv l) (m : Move l l') :
    l'.x.phase = .lock → l'.x.fut = .pending → .run ∉ l'.q.handles ∧ l'.x.throws = false := by
  have hpending := h.lockPending
  cases m with
  | enqueue _ rest hq hphase hthrows => exact fun _ _ => ⟨ReadyQueue.not_mem_pop (h.once .run (by decide)) hq, rfl⟩
  | _ => grind -ring -linarith -order -ac [ReadyQueue.mem_pop]

theorem lockWoken_move (h : Inv l) (m : Move l l') :
    l'.x.phase = .lock → l'.x.fut ≠ .pending → .run ∈ l'.q.handles := by
  have hwoken := h.lockWoken
  cases m <;> grind -ring -linarith -order -ac [ReadyQueue.mem_pop]

theorem lockCancelled_move (h : Inv l) (m : Move l l') :
    l'.x.phase = .lock → l'.x.fut = .cancelled → l'.x.throws = true := by
  have hcancelled := h.lockCancelled
  cases m <;> grind -ring -linarith -order -ac

theorem foldStart_move (h : Inv l) (m : Move l l') : l'.x.fold = .start → .fold ∈ l'.q.handles := by
  have hfold := h.foldStart
  cases m <;> grind -ring -linarith -order -ac [ReadyQueue.mem_pop]

theorem foldDone_move (h : Inv l) (m : Move l l') : .foldDone ∈ l'.q.handles → l'.x.claimedBy ≠ [] := by
  have hdone := h.foldDone
  have hconsumed := h.consumed
  cases m with
  | claim _ t hreg hlock => exact fun _ => List.append_ne_nil_of_right_ne_nil _ (List.cons_ne_nil t [])
  | _ => grind -ring -linarith -order -ac [ReadyQueue.mem_pop]

theorem runDone_move (h : Inv l) (m : Move l l') : .runDone ∈ l'.q.handles → l'.x.phase = .ended := by
  have hdone := h.runDone
  cases m <;> grind -ring -linarith -order -ac [ReadyQueue.mem_pop]

/-- the dispatch wakes because it was claimed, because it was cancelled, or because its run task is done -/
theorem dispatchWakes_move (h : Inv l) (m : Move l l') : .dispatch ∈ l'.q.handles → l'.x.dispatch = .waiting →
    l'.x.claimedBy ≠ [] ∨ l'.x.cancelled = true ∨ l'.x.phase = .ended := by
  have hwakes := h.dispatchWakes
  have hfold := h.foldDone
  have hrun := h.runDone
  cases m with
  | claim _ t hreg hlock => exact fun _ _ => Or.inl (List.append_ne_nil_of_right_ne_nil _ (List.cons_ne_nil t []))
  | _ => grind -ring -linarith -order -ac [ReadyQueue.mem_pop]

theorem dispatchJoins_move (h : Inv l) (m : Move l l') :
    .dispatch ∈ l'.q.handles → l'.x.dispatch = .joining → l'.x.phase = .ended ∨ l'.x.cancelled = true := by
  have hjoins := h.dispatchJoins
  have hrun := h.runDone
  cases m with
  | join _ rest hq hwaiting hphase =>
    -- the callback that runs was the only one
    intro hmem
    have hnone : .dispatch ∉ l.q.pop.handles := ReadyQueue.not_mem_pop (h.once .dispatch (by decide)) hq
    exact absurd ((ReadyQueue.mem_wake.1 hmem).resolve_right nofun) hnone
  | _ => grind -ring -linarith -order -ac [ReadyQueue.mem_pop]

/-- the run task begins before `consumed.wait()` does, in the same iteration -/
theorem startFold_move (h : Inv l) (m : Move l l') : l'.x.phase = .start → l'.x.fold ≠ .ended →
    l'.x.fold = .start ∧ l'.q.Before .run .fold ∧ (.run ∈ l'.q.now → .fold ∈ l'.q.now) := by
  have hstart := h.startFold
  cases m with
  | dispatch r hr => exact fun _ _ => ⟨rfl, ⟨[.run], [.fold], rfl, by decide, by decide⟩, nofun⟩
  | dispatchInline r hr => exact fun _ hne => absurd rfl hne
  | claim _ t hreg hlock =>
    intro hphase hne
    obtain ⟨hfold, hrest⟩ := hstart hphase hne
    have hwaiting : l.x.fold ≠ .waiting := by simp [hfold]
    exact ⟨hfold, by simpa only [if_neg hwaiting] using hrest⟩
  | cancel _ hopen =>
    intro hphase hne
    obtain ⟨hfold, hbefore, hnow⟩ := hstart hphase hne
    exact ⟨hfold, hbefore.wake _, by simpa using hnow⟩
  | foldConsumed _ rest hq | foldWaits _ rest hq | foldEnded _ rest hq =>
    -- the callback of the run task comes first
    intro hphase hne
    grind -ring -linarith -order -ac [ReadyQueue.Before.head_ne]
  | _ => grind -ring -linarith -order -ac [ReadyQueue.Before.wake, ReadyQueue.Before.pop, ReadyQueue.Before.head_ne, ReadyQueue.mem_pop, ReadyQueue.now_pop]

/-! ## Claims -/

/-- a cancelled run task may be done before its dispatch is unregistered -/
theorem registered_move (h : Inv l) (m : Move l l') : l'.registered → l'.x.phase.Waits ∨ l'.x.phase = .ended := by
  have hreg := h.registered
  cases m <;> grind -ring -linarith -order -ac [Loc.none]

theorem unclaimed_move (h : Inv l) (m : Move l l') : l'.registered →
    l'.x.started = false ∧ l'.x.request.Foldable ∧ l'.x.claimedBy = [] ∧ l'.x.consumed = false := by
  have hreg := h.registered
  have hunclaimed := h.unclaimed
  cases m <;> grind -ring -linarith -order -ac [Loc.none]

theorem registeredFold_move (h : Inv l) (m : Move l l') :
    l'.registered → l'.x.cancelRequested = false → l'.x.fold ≠ .ended := by
  have hfold := h.registeredFold
  have hunclaimed := h.unclaimed
  have hjoining := h.joining
  cases m <;> grind -ring -linarith -order -ac [Loc.none]

/-- only a registered dispatch is claimed, and then it is registered no longer -/
theorem claimed_move (h : Inv l) (m : Move l l') : l'.x.claimedBy ≠ [] →
    l'.x.claimedBy.length = 1 ∧ l'.x.consumed = true ∧ l'.x.request.Foldable ∧ ¬ l'.registered := by
  have hclaimed := h.claimed
  cases m with
  | claim _ t hreg hlock =>
    obtain ⟨_, hfoldable, hnil, _⟩ := h.unclaimed hreg
    exact fun _ => ⟨by simp [hnil], rfl, hfoldable, not_false⟩
  | _ => grind -ring -linarith -order -ac [Loc.none]

theorem consumed_move (h : Inv l) (m : Move l l') : l'.x.consumed = true → l'.x.claimedBy ≠ [] := by
  have hconsumed := h.consumed
  cases m with
  | claim _ t hreg hlock => exact fun _ => List.append_ne_nil_of_right_ne_nil _ (List.cons_ne_nil t [])
  | _ => grind -ring -linarith -order -ac [Loc.none]

theorem turn_move (h : Inv l) (m : Move l l') : l'.x.phase = .turn → l'.x.started = true := by
  have hturn := h.turn
  cases m <;> grind -ring -linarith -order -ac

theorem started_move (h : Inv l) (m : Move l l') :
    l'.x.started = true → l'.x.phase = .turn ∨ l'.x.phase = .unwind ∨ l'.x.phase = .ended := by
  have hstarted := h.started
  cases m <;> grind -ring -linarith -order -ac [Loc.none]

/-! ## Cancels and ends -/

theorem cancelThrows_move (h : Inv l) (m : Move l l') :
    l'.x.cancelRequested = true → l'.x.phase.Waits ∨ l'.x.phase.Reloads → l'.x.throws = true := by
  have hthrows := h.cancelThrows
  cases m <;> grind -ring -linarith -order -ac

theorem throwsCancel_move (h : Inv l) (m : Move l l') :
    l'.x.throws = true → l'.x.phase.Waits → l'.x.cancelRequested = true := by
  have hcancel := h.throwsCancel
  cases m <;> grind -ring -linarith -order -ac

/-- a run task is cancelled because its dispatch was claimed, or was cancelled itself -/
theorem cancelCause_move (h : Inv l) (m : Move l l') :
    l'.x.cancelRequested = true → l'.x.claimedBy ≠ [] ∨ l'.x.cancelled = true := by
  have hcause := h.cancelCause
  cases m with
  | claim _ t hreg hlock => exact fun _ => Or.inl (List.append_ne_nil_of_right_ne_nil _ (List.cons_ne_nil t []))
  | join _ rest hq hwaiting hphase =>
    intro _
    have hmem : .dispatch ∈ l.q.handles := (ReadyQueue.mem_pop hq).2 (Or.inl rfl)
    rcases h.dispatchWakes hmem hwaiting with hclaimed | hcancelled | hended
    · exact Or.inl hclaimed
    · exact Or.inr hcancelled
    · exact absurd hended hphase
  | _ => grind -ring -linarith -order -ac [Loc.none]

theorem runCancelled_move (h : Inv l) (m : Move l l') : l'.x.runCancelled = true → l'.x.cancelRequested = true := by
  have hcancelled := h.runCancelled
  have hthrows := h.throwsCancel
  cases m <;> grind -ring -linarith -order -ac [Loc.none]

theorem endedRun_move (h : Inv l) (m : Move l l') :
    l'.x.phase = .ended → l'.x.runCancelled = false → l'.x.started = true ∨ l'.x.pipelineError = true := by
  have hended := h.endedRun
  cases m <;> grind -ring -linarith -order -ac

/-- the dispatch whose run task is done is called -/
theorem ending_move (h : Inv l) (m : Move l l') : l'.x.phase = .ended → l'.x.dispatch ≠ .ended →
    .runDone ∈ l'.q.handles ∨ .dispatch ∈ l'.q.handles := by
  have hending := h.ending
  cases m <;> grind -ring -linarith -order -ac [ReadyQueue.mem_pop, Loc.none]

theorem joining_move (h : Inv l) (m : Move l l') : l'.x.dispatch = .joining → l'.x.cancelRequested = true := by
  have hjoining := h.joining
  cases m <;> grind -ring -linarith -order -ac [Loc.none]

theorem dispatchEnded_move (h : Inv l) (m : Move l l') : l'.x.dispatch = .ended → l'.x.request.Foldable →
    (l'.x.phase = .ended ∨ l'.x.cancelRequested = true) ∧ l'.x.outcome.isSome = true := by
  have hended := h.dispatchEnded
  have hjoining := h.joining
  cases m <;> grind -ring -linarith -order -ac

/-- **Every end has its cause.** -/
theorem outcome_move (h : Inv l) (m : Move l l') :
    (l'.x.outcome = some .folded → l'.x.claimedBy ≠ []) ∧ (l'.x.outcome = some .completed → l'.x.started = true) ∧
      (l'.x.outcome = some .errorFallback → l'.x.phase = .ended ∧ l'.x.pipelineError = true) ∧
      (l'.x.outcome = some .cancelled → l'.x.cancelled = true) := by
  have hold := And.intro h.folded (And.intro h.completed (And.intro h.errorFallback h.cancelled))
  cases m with
  | finish _ rest f hq hstage =>
    have hmem : .dispatch ∈ l.q.handles := (ReadyQueue.mem_pop hq).2 (Or.inl rfl)
    have hover : l.x.cancelled = true ∨ l.x.phase = .ended := by
      rcases hstage with ⟨_, hended, _⟩ | ⟨hjoining, _⟩
      · exact Or.inr hended
      · exact (h.dispatchJoins hmem hjoining).symm
    have hcause := h.cancelCause
    have hrun := h.runCancelled
    have herror := h.endedRun
    grind -ring -linarith -order -ac
  | claim _ t hreg hlock =>
    exact ⟨fun _ => List.append_ne_nil_of_right_ne_nil _ (List.cons_ne_nil t []), h.completed, h.errorFallback, h.cancelled⟩
  | _ => grind -ring -linarith -order -ac [Loc.none]

/-! ## The race -/

theorem Loc.CancelsWithin.mono {m n : ℕ} (h : l.CancelsWithin m) (hmn : m ≤ n) : l.CancelsWithin n := by
  unfold Loc.CancelsWithin at *
  grind -ring -linarith -order -ac

/-- an iteration brings the cancel closer -/
theorem Loc.CancelsWithin.iterate {n : ℕ} (h : l.CancelsWithin (n + 1)) (hnow : l.q.now = []) :
    ({ l with q := l.q.iterate } : Loc).CancelsWithin n := by
  unfold Loc.CancelsWithin at *
  grind -ring -linarith -order -ac

/-- the wait of a claimed dispatch is over once the run task is cancelled or done -/
theorem Inv.dispatch_waiting (h : Inv l) (hclaimed : l.x.claimedBy ≠ []) (hphase : l.x.phase.Waits ∨ l.x.phase.Reloads)
    (hcancel : l.x.cancelRequested = false) : l.x.dispatch = .waiting := by
  cases hd : l.x.dispatch with
  | waiting => rfl
  | joining => exact absurd (h.joining hd) (ne_true_of_eq_false hcancel)
  | ended =>
    rcases (h.dispatchEnded hd (h.claimed hclaimed).2.2.1).1 with hended | hrequested
    · rcases hphase with (hp | hp) | hp | hp <;> exact absurd (hp.symm.trans hended) (by decide)
    · exact absurd hrequested (ne_true_of_eq_false hcancel)

/-- **The cancel stays on its way.** Until the run task is cancelled or done. -/
theorem cancelsWithin_move (h : Inv l) (m : Move l l') {n : ℕ}
    (hclaimed : l.x.claimedBy ≠ []) (hphase : l'.x.phase.Waits ∨ l'.x.phase.Reloads) (hcancel : l'.x.cancelRequested = false)
    (hn : l.CancelsWithin n) : l'.CancelsWithin n := by
  have hclaim := h.claimed
  have hjoining := h.joining
  have hdispatch := h.dispatchEnded
  cases m with
  | dispatch | dispatchInline => exact absurd rfl hclaimed
  | doneStale _ k rest hq hk hstage _ => exact absurd (h.dispatch_waiting hclaimed hphase hcancel) hstage
  | _ =>
    unfold Loc.CancelsWithin at *
    grind -ring -linarith -order -ac [ReadyQueue.mem_pop, ReadyQueue.now_pop]

/-- a claim puts the cancel on its way -/
theorem race_claim (h : Inv l) (t : ℕ) (hreg : l.registered) (hlock : l.x.phase = .lock → l.x.fut ≠ .result)
    (hcancel : l.x.cancelRequested = false) :
    Race ⟨{ l.x with consumed := true, claimedBy := l.x.claimedBy ++ [t] },
      if l.x.fold = .waiting then l.q.callSoon .fold else l.q, False⟩ := by
  have hphase := h.registered hreg
  have hopen := h.registeredFold hreg hcancel
  refine ⟨fun _ => hopen, fun hl => ?_, fun hu => ?_, fun hs => ?_⟩
  · -- it waits for the lock, and is not woken: its run task is not scheduled
    have hpending : l.x.fut = .pending := by
      cases hfut : l.x.fut with
      | pending => rfl
      | result => exact absurd hfut (hlock hl)
      | cancelled =>
        have hthrows := h.lockCancelled hl hfut
        have hrequested := h.throwsCancel hthrows (Or.inr hl)
        simp [hcancel] at hrequested
    have hrun := (h.lockPending hl hpending).1
    have hfold := h.foldStart
    cases hstage : l.x.fold with
    | ended => exact absurd hstage hopen
    | start => grind -ring -linarith -order -ac [Loc.CancelsWithin]
    | waiting => grind -ring -linarith -order -ac [Loc.CancelsWithin]
  · exact absurd hu (by rcases hphase with (h | h) | h <;> simp [h])
  · exact absurd hs (by rcases hphase with (h | h) | h <;> simp [h])

/-- an iteration brings both callbacks closer -/
theorem race_iterate (h : Race l) (hnow : l.q.now = []) : Race { l with q := l.q.iterate } := by
  have hnone : ∀ k, k ∉ l.q.now := by simp [hnow]
  refine ⟨h.start, fun hl => ?_, fun hu hthrows => ?_, fun hs hthrows => ?_⟩
  · obtain ⟨hthree, _⟩ := h.lock hl
    have htwo := hthree.iterate hnow
    exact ⟨htwo.mono (by omega), fun _ => htwo⟩
  · obtain ⟨htwo, _⟩ := h.user hu hthrows
    have hone := htwo.iterate hnow
    exact ⟨hone.mono (by omega), fun _ => hone⟩
  · obtain ⟨hidle, hrun, hio⟩ := h.session hs hthrows
    have hhandles := ReadyQueue.handles_iterate hnow
    refine ⟨fun hr hi => ?_, fun hr => (hrun (hhandles ▸ hr)).iterate hnow, fun hi => (hio (hhandles ▸ hi)).iterate hnow⟩
    have hone := hidle (hhandles ▸ hr) (hhandles ▸ hi)
    exact (hone.iterate hnow).mono (by omega)

theorem raceStart_move (h : Inv l) (m : Move l l') (hrace : Race l) (hclaimed : l.x.claimedBy ≠ [])
    (hcancel : l'.x.cancelRequested = false) : l'.x.phase = .start → l'.x.fold ≠ .ended := by
  have hstart := hrace.start
  have hfold := h.startFold
  cases m with
  | dispatch | dispatchInline => exact absurd rfl hclaimed
  | foldConsumed _ rest hq hopen hconsumed =>
    -- the callback of the run task comes first
    intro hphase _
    exact (hfold hphase hopen).2.1.head_ne hq rfl
  | _ => grind -ring -linarith -order -ac [h.joining]

theorem raceLock_move (h : Inv l) (m : Move l l') (hrace : Race l)
    (hclaimed : l.x.claimedBy ≠ []) (hcancel : l'.x.cancelRequested = false) (hl : l'.x.phase = .lock) :
    l'.CancelsWithin 3 ∧ (.run ∈ l'.q.now → l'.CancelsWithin 2) := by
  have hstays (n : ℕ) := cancelsWithin_move h m (n := n) hclaimed (Or.inl (Or.inr hl)) hcancel
  have hlock := hrace.lock
  cases m with
  | enqueue _ rest hq hphase hthrows =>
    obtain ⟨hfold, hbefore, hnow⟩ := h.startFold hphase (hrace.start hphase)
    have hmem := h.foldStart hfold
    have hgone : .run ∉ l.q.pop.handles := ReadyQueue.not_mem_pop (h.once .run (by decide)) hq
    grind -ring -linarith -order -ac [Loc.CancelsWithin, ReadyQueue.mem_pop]
  | _ => grind -ring -linarith -order -ac [ReadyQueue.now_pop]

theorem raceUser_move (h : Inv l) (m : Move l l') (hrace : Race l)
    (hclaimed : l.x.claimedBy ≠ []) (hcancel : l'.x.cancelRequested = false) (hu : l'.x.phase = .user)
    (hthrows : l'.x.throws = false) :
    l'.CancelsWithin 2 ∧ (.run ∈ l'.q.now ∨ .ioReady ∈ l'.q.now → l'.CancelsWithin 1) := by
  have hstays (n : ℕ) := cancelsWithin_move h m (n := n) hclaimed (Or.inr (Or.inl hu)) hcancel
  have huser := hrace.user
  cases m with
  | hold _ rest hq hphase hquiet =>
    have hgone : .run ∉ l.q.pop.handles := ReadyQueue.not_mem_pop (h.once .run (by decide)) hq
    have hio := h.ioReady
    have hfold := h.startFold
    have hstart := hrace.start
    have hlock := hrace.lock
    grind -ring -linarith -order -ac [Loc.CancelsWithin, ReadyQueue.mem_pop, ReadyQueue.now_pop]
  | _ => grind -ring -linarith -order -ac [ReadyQueue.now_pop]

theorem raceSession_move (h : Inv l) (m : Move l l') (hrace : Race l)
    (hclaimed : l.x.claimedBy ≠ []) (hcancel : l'.x.cancelRequested = false) (hs : l'.x.phase = .session)
    (hthrows : l'.x.throws = false) :
    (.run ∉ l'.q.handles → .ioReady ∉ l'.q.handles → l'.CancelsWithin 1) ∧
      (.run ∈ l'.q.handles → l'.q.Before .dispatch .run) ∧ (.ioReady ∈ l'.q.handles → l'.q.Before .dispatch .ioReady) := by
  have hstays := cancelsWithin_move h m (n := 1) hclaimed (Or.inr (Or.inr hs)) hcancel
  have hsession := hrace.session
  cases m with
  | reload _ rest hq hphase hquiet =>
    have hmem : .run ∈ l.q.handles := (ReadyQueue.mem_pop hq).2 (Or.inl rfl)
    have hgone : .run ∉ l.q.pop.handles := ReadyQueue.not_mem_pop (h.once .run (by decide)) hq
    have hio := h.oneIo (Or.inl hphase) hquiet
    have huser := hrace.user hphase hquiet
    grind -ring -linarith -order -ac [ReadyQueue.mem_pop]
  | io _ k hnow hphase hrun hio hk =>
    -- the cancel is in the next iteration already
    have hone := (hsession hs hthrows).1 hrun hio
    have hmem : .dispatch ∈ l.q.handles := by grind -ring -linarith -order -ac [Loc.CancelsWithin]
    have hbefore (j : Kind) (hj : j ∉ l.q.handles) (hjk : j ∈ (l.q.callSoon k).handles) :
        (l.q.callSoon k).Before .dispatch j := by
      obtain rfl := (ReadyQueue.mem_callSoon.1 hjk).resolve_left hj
      exact ReadyQueue.before_callSoon_self hmem hj
    exact ⟨fun _ _ => hstays hone, hbefore .run hrun, hbefore .ioReady hio⟩
  | again _ rest hq hcase =>
    rcases hcase with ⟨_, hquiet⟩ | hturn
    · have hmem : .run ∈ l.q.handles := (ReadyQueue.mem_pop hq).2 (Or.inl rfl)
      exact absurd rfl (((hsession hs hquiet).2.1 hmem).head_ne hq)
    · exact absurd (hs.symm.trans hturn) (by decide)
  | ioReady _ rest hq hphase =>
    have hmem : .ioReady ∈ l.q.handles := (ReadyQueue.mem_pop hq).2 (Or.inl rfl)
    exact absurd rfl (((hsession hs hthrows).2.2 hmem).head_ne hq)
  | dispatchStale _ rest hq hended =>
    exact absurd (h.dispatch_waiting hclaimed (Or.inr (Or.inr hs)) hcancel) (by simp [hended])
  | _ =>
    grind -ring -linarith -order -ac [ReadyQueue.mem_pop, ReadyQueue.Before.wake, ReadyQueue.Before.callSoon, ReadyQueue.Before.pop, h.joining]

/-- **The cancel keeps ahead.** -/
theorem race_move (h : Inv l) (m : Move l l') : l'.x.claimedBy ≠ [] → l'.x.cancelRequested = false → Race l' := by
  intro hclaimed' hcancel'
  have hkeep : l.x.cancelRequested = false := by cases m <;> simp_all
  by_cases hclaimed : l.x.claimedBy = []
  · cases m with
    | claim _ t hreg hlock => exact race_claim h t hreg hlock hcancel'
    | dispatch | dispatchInline => exact absurd rfl hclaimed'
    | _ => exact absurd hclaimed hclaimed'
  have hrace := h.race hclaimed hkeep
  exact ⟨raceStart_move h m hrace hclaimed hcancel', raceLock_move h m hrace hclaimed hcancel',
    raceUser_move h m hrace hclaimed hcancel', raceSession_move h m hrace hclaimed hcancel'⟩

/-- **A claimed dispatch never starts its own pipeline.** -/
theorem exclusive_move (h : Inv l) (m : Move l l') : l'.x.claimedBy ≠ [] → l'.x.started = false := by
  have hexclusive := h.exclusive
  cases m with
  | claim _ t hreg hlock => exact fun _ => (h.unclaimed hreg).1
  | begin _ rest hq hphase hquiet =>
    intro hclaimed
    have hcancel : l.x.cancelRequested = false := by
      by_contra hrequested
      have hthrows := h.cancelThrows (eq_true_of_ne_false hrequested) (Or.inr (Or.inr hphase))
      simp [hquiet] at hthrows
    -- the cancel comes before the callback that runs
    have hmem : .run ∈ l.q.handles := (ReadyQueue.mem_pop hq).2 (Or.inl rfl)
    have hbefore := ((h.race hclaimed hcancel).session hphase hquiet).2.1 hmem
    exact absurd rfl (hbefore.head_ne hq)
  | _ => grind -ring -linarith -order -ac [Loc.none]

/-! ## Moves and iterations -/

theorem inv_move (h : Inv l) (m : Move l l') : Inv l' where
  idle := idle_move h m
  once := fun _ hk => once_move h m hk
  ioReady := ioReady_move h m
  oneIo := oneIo_move h m
  start := start_move h m
  lockPending := lockPending_move h m
  lockWoken := lockWoken_move h m
  lockCancelled := lockCancelled_move h m
  foldStart := foldStart_move h m
  startFold := startFold_move h m
  foldDone := foldDone_move h m
  runDone := runDone_move h m
  dispatchWakes := dispatchWakes_move h m
  dispatchJoins := dispatchJoins_move h m
  registered := registered_move h m
  unclaimed := unclaimed_move h m
  registeredFold := registeredFold_move h m
  claimed := claimed_move h m
  consumed := consumed_move h m
  race := race_move h m
  exclusive := exclusive_move h m
  turn := turn_move h m
  started := started_move h m
  cancelThrows := cancelThrows_move h m
  throwsCancel := throwsCancel_move h m
  cancelCause := cancelCause_move h m
  runCancelled := runCancelled_move h m
  endedRun := endedRun_move h m
  ending := ending_move h m
  joining := joining_move h m
  dispatchEnded := dispatchEnded_move h m
  folded := (outcome_move h m).1
  completed := (outcome_move h m).2.1
  errorFallback := (outcome_move h m).2.2.1
  cancelled := (outcome_move h m).2.2.2

/-- the order of the callbacks is that of the last iteration -/
theorem inv_iterate (h : Inv l) (hnow : l.q.now = []) : Inv { l with q := l.q.iterate } := by
  have hhandles := ReadyQueue.handles_iterate hnow
  refine { h with
    idle := fun hphase => ?_
    once := hhandles ▸ h.once
    ioReady := hhandles ▸ h.ioReady
    oneIo := hhandles ▸ h.oneIo
    start := hhandles ▸ h.start
    lockPending := hhandles ▸ h.lockPending
    lockWoken := hhandles ▸ h.lockWoken
    foldStart := hhandles ▸ h.foldStart
    startFold := fun hphase hopen => ?_
    foldDone := hhandles ▸ h.foldDone
    runDone := hhandles ▸ h.runDone
    dispatchWakes := hhandles ▸ h.dispatchWakes
    ending := hhandles ▸ h.ending
    dispatchJoins := hhandles ▸ h.dispatchJoins
    race := fun hclaimed hcancel => race_iterate (h.race hclaimed hcancel) hnow }
  · rw [h.idle hphase]
    rfl
  · obtain ⟨hfold, hbefore, _⟩ := h.startFold hphase hopen
    refine ⟨hfold, hbefore.iterate hnow, fun _ => ?_⟩
    exact (ReadyQueue.mem_handles.1 (h.foldStart hfold)).resolve_left (by simp [hnow])

end Clawbolt.Midturn
