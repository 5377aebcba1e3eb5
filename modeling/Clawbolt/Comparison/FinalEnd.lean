/-
The end of a comparison run is final, while its status has five writers.

- `ends_for_good`: in every run of calm steps, a status that is not active stays, no provider turn starts later than a poll
  interval after a cancel, and nothing is recorded once the run has ended itself;
- `cancel_overwritten`: a run that is cancelled while pending is marked running.

A step is calm when a status write meets an active row, the run ends itself with no turn under way or left to start, a check
of the watcher is acted on within a poll interval, and a row is deleted when the watcher has seen the cancel or nothing of
the run is left.
-/
import Mathlib.Tactic
import Clawbolt.Comparison.Runner

namespace Clawbolt.Comparison

open Endpoints (RunStatus)
open Runs

/-! ## What is claimed, and when -/

/-- a status stays once it is not active, turns start in time, and nothing is recorded after the run's own end -/
structure Proper (s : Sys) (e : Event) : Prop where
  final : ∀ r ∈ s.row, r.status.isActive = false → ∀ r' ∈ (step s e).row, r'.status = r.status
  prompt : ∀ t ∈ (step s e).started, t ∈ s.started ∨ ∀ c ∈ s.cancelTimes, t ≤ c + cancelPoll
  quiet : s.ownEnd = true → ∀ r ∈ s.row, ∀ r' ∈ (step s e).row,
    r'.turns = r.turns ∧ r'.progressCompleted = r.progressCompleted

/-- in `is_cancelled`, past the first look at the flag -/
def Worker.asking : Worker → Bool
  | .lock => true
  | .polling _ => true
  | .polled .. => true
  | _ => false

/-- the chain starts no turn and records none: it has ended, or it is about to see the cancel -/
def Chain.still (w : Watcher) (c : Chain) : Bool := c.ended || w.cancelled && (c.worker = .idle || c.worker = .top)

/-- the main task starts no chain any more -/
def Main.closing : Main → Bool
  | .finish .. => true
  | .done => true
  | _ => false

/-- every chain to come sees the cancel -/
def Sys.Latched (s : Sys) : Prop := s.watcher.cancelled = true ∧ ∀ c ∈ s.chains, c.worker.asking = false

/-- nothing of the run is left to start -/
def Sys.Over (s : Sys) : Prop := s.main.closing = true ∧ ∀ c ∈ s.chains, c.ended = true

/-- the status write meets an active row, or the value it writes; the run ends with nothing left to start -/
def Sys.CalmAt (s : Sys) : Main → Prop
  | .markRunning => ∀ r ∈ s.row, r.status.isActive = true
  | .finish status _ =>
    (∀ r ∈ s.row, r.status.isActive = true ∨ r.status = status) ∧ ∀ c ∈ s.chains, c.still s.watcher = true
  | _ => True

/-- an answer that is no cancel is acted on within a poll interval -/
def Worker.Fresh (now : ℕ) : Worker → Prop
  | .polled _ readAt status => status ≠ some .cancelled → now ≤ readAt + cancelPoll
  | _ => True

def Calm (s : Sys) : Event → Prop
  | .main input => input ≠ .raise → s.CalmAt s.main
  | .chain i _ => ∀ c ∈ s.chains[i]?, c.worker.Fresh s.now
  | .cancelCommit => s.cancels ≠ 0 → ∀ r ∈ s.row, r.status.isActive = true
  | .deleteCommit => s.deletes ≠ 0 → s.Latched ∨ s.Over
  | _ => True

instance decCalmAt (s : Sys) (main : Main) : Decidable (s.CalmAt main) := by
  unfold Sys.CalmAt
  split <;> infer_instance

instance decFresh (now : ℕ) (w : Worker) : Decidable (w.Fresh now) := by
  unfold Worker.Fresh
  split <;> infer_instance

instance decCalm (s : Sys) : (e : Event) → Decidable (Calm s e)
  | .main _ => inferInstanceAs (Decidable (_ → _))
  | .chain i _ => inferInstanceAs (Decidable (∀ c ∈ s.chains[i]?, c.worker.Fresh s.now))
  | .cancelCommit => inferInstanceAs (Decidable (_ → _))
  | .deleteCommit => inferInstanceAs (Decidable (s.deletes ≠ 0 → _ ∧ _ ∨ _ ∧ _))
  | .tick _ => instDecidableTrue
  | .cancelRead => instDecidableTrue
  | .deleteRead => instDecidableTrue
  | .sweep => instDecidableTrue
  | .crash => instDecidableTrue

/-! ## The main task -/

/-- what the main task does: it goes on, starts chains, marks the run running, or ends it -/
theorem mainStep_cases (s : Sys) (input : Input) :
    (∃ main, mainStep s input = { s with main := main } ∧ (s.main.closing = true → main.closing = true)) ∨
    (∃ main, ∃ lefts : List ℕ, mainStep s input = { s with main := main, chains := lefts.map fun left => ⟨left, .idle⟩ } ∧
      s.main.closing = false) ∨
    (s.main = .markRunning ∧ input ≠ .raise ∧ mainStep s input = { s.setStatus .running with main := .fixture }) ∨
    ∃ status guarded, s.main = .finish status guarded ∧ input ≠ .raise ∧
      mainStep s input = { s.setStatus status with main := .done, ownEnd := s.ownEnd || s.row.isSome } := by
  cases hm : s.main with
  | done => exact Or.inl ⟨.done, by simp only [mainStep, hm]; rw [← hm], fun _ => rfl⟩
  | finish status guarded =>
    cases input with
    | raise =>
      cases guarded with
      | true => exact Or.inl ⟨.done, by simp [mainStep, hm], fun _ => rfl⟩
      | false => exact Or.inl ⟨.finish .failed true, by simp [mainStep, hm, Sys.fail], fun _ => rfl⟩
    | ok => exact Or.inr (Or.inr (Or.inr ⟨status, guarded, rfl, nofun, by simp [mainStep, hm]⟩))
    | absent => exact Or.inr (Or.inr (Or.inr ⟨status, guarded, rfl, nofun, by simp [mainStep, hm]⟩))
    | chains lengths => exact Or.inr (Or.inr (Or.inr ⟨status, guarded, rfl, nofun, by simp [mainStep, hm]⟩))
  | first rest =>
    cases hr : s.raisedFirst with
    | some cancelled =>
      exact Or.inl ⟨.finish (raisedStatus cancelled) true, by cases input <;> simp [mainStep, hm, hr, Sys.fail], fun _ => rfl⟩
    | none =>
      by_cases hended : s.chains.all Chain.ended = true
      · refine Or.inr (Or.inl ⟨.gather, rest.filter (· ≠ 0), ?_, rfl⟩)
        cases input <;> simp only [mainStep, hm, hr, if_pos hended]
      · refine Or.inl ⟨s.main, ?_, fun h => by rw [hm]; exact h⟩
        cases input <;> simp only [mainStep, hm, hr, if_neg hended] <;> rw [← hr, ← hm]
  | gather =>
    cases hr : s.raisedFirst with
    | some cancelled =>
      exact Or.inl ⟨.finish (raisedStatus cancelled) true, by cases input <;> simp [mainStep, hm, hr, Sys.fail], fun _ => rfl⟩
    | none =>
      by_cases hended : s.chains.all Chain.ended = true
      · refine Or.inl ⟨.aggregate, ?_, nofun⟩
        cases input <;> simp only [mainStep, hm, hr, if_pos hended]
      · refine Or.inl ⟨s.main, ?_, fun h => by rw [hm]; exact h⟩
        cases input <;> simp only [mainStep, hm, hr, if_neg hended] <;> rw [← hr, ← hm]
  | load =>
    cases input with
    | raise => exact Or.inl ⟨.finish .failed true, by simp [mainStep, hm, Sys.fail], fun _ => rfl⟩
    | _ =>
      simp only [mainStep, hm]
      split_ifs
      · exact Or.inl ⟨.done, rfl, fun _ => rfl⟩
      · exact Or.inl ⟨.user, rfl, nofun⟩
  | user =>
    cases input with
    | raise => exact Or.inl ⟨.finish .failed true, by simp [mainStep, hm, Sys.fail], fun _ => rfl⟩
    | absent => exact Or.inl ⟨.finish .failed false, by simp [mainStep, hm], fun _ => rfl⟩
    | ok => exact Or.inl ⟨.markRunning, by simp [mainStep, hm], nofun⟩
    | chains lengths => exact Or.inl ⟨.markRunning, by simp [mainStep, hm], nofun⟩
  | markRunning =>
    cases input with
    | raise => exact Or.inl ⟨.finish .failed true, by simp [mainStep, hm, Sys.fail], fun _ => rfl⟩
    | ok => exact Or.inr (Or.inr (Or.inl ⟨rfl, nofun, by simp [mainStep, hm]⟩))
    | absent => exact Or.inr (Or.inr (Or.inl ⟨rfl, nofun, by simp [mainStep, hm]⟩))
    | chains lengths => exact Or.inr (Or.inr (Or.inl ⟨rfl, nofun, by simp [mainStep, hm]⟩))
  | fixture =>
    cases input with
    | raise => exact Or.inl ⟨.finish .failed true, by simp [mainStep, hm, Sys.fail], fun _ => rfl⟩
    | chains lengths =>
      simp only [mainStep, hm]
      split_ifs
      · exact Or.inl ⟨.finish .completed false, rfl, fun _ => rfl⟩
      · exact Or.inl ⟨.total (lengths.filter (· ≠ 0)), rfl, nofun⟩
    | ok => exact Or.inl ⟨s.main, by simp only [mainStep, hm]; rw [← hm], fun h => by rw [hm]; exact h⟩
    | absent => exact Or.inl ⟨s.main, by simp only [mainStep, hm]; rw [← hm], fun h => by rw [hm]; exact h⟩
  | total lengths =>
    cases input with
    | raise => exact Or.inl ⟨.finish .failed true, by simp [mainStep, hm, Sys.fail], fun _ => rfl⟩
    | _ => exact Or.inl ⟨.target lengths, by simp [mainStep, hm], nofun⟩
  | target lengths =>
    cases input with
    | raise => exact Or.inl ⟨.finish .failed true, by simp [mainStep, hm, Sys.fail], fun _ => rfl⟩
    | _ => exact Or.inr (Or.inl ⟨.first ((lengths.headD 0 - 1) :: lengths.tail), [1], by simp [mainStep, hm], rfl⟩)
  | aggregate =>
    cases input with
    | raise => exact Or.inl ⟨.finish .failed true, by simp [mainStep, hm, Sys.fail], fun _ => rfl⟩
    | _ => exact Or.inl ⟨.finish (if s.breaker then .failed else .completed) false, by simp [mainStep, hm], fun _ => rfl⟩

/-! ## A chain -/

/-- what only the main task and the requests change -/
structure SameRun (s s' : Sys) : Prop where
  now : s'.now = s.now
  main : s'.main = s.main
  cancels : s'.cancels = s.cancels
  cancelTimes : s'.cancelTimes = s.cancelTimes
  ownEnd : s'.ownEnd = s.ownEnd

/-- an answer of the watcher raises, skips the turn or starts it -/
theorem answer_cases (s : Sys) (i : ℕ) (c : Chain) (cancelled : Bool) :
    SameRun s (s.answer i c cancelled) ∧ (s.answer i c cancelled).row = s.row ∧ (s.answer i c cancelled).watcher = s.watcher ∧
      (∃ c', (s.answer i c cancelled).chains = s.chains.set i c' ∧ c'.worker.asking = false ∧
        (cancelled = true → c'.worker = .raised)) ∧
      ((s.answer i c cancelled).started = s.started ∨
        cancelled = false ∧ (s.answer i c cancelled).started = s.started ++ [s.now]) := by
  unfold Sys.answer
  split_ifs with hc hb
  · exact ⟨⟨rfl, rfl, rfl, rfl, rfl⟩, rfl, rfl, ⟨_, rfl, rfl, fun _ => rfl⟩, Or.inl rfl⟩
  · refine ⟨⟨rfl, rfl, rfl, rfl, rfl⟩, rfl, rfl, ⟨_, rfl, ?_, fun h => absurd h hc⟩, Or.inl rfl⟩
    simp only
    split_ifs <;> rfl
  · exact ⟨⟨rfl, rfl, rfl, rfl, rfl⟩, rfl, rfl, ⟨_, rfl, rfl, fun h => absurd h hc⟩, Or.inr ⟨Bool.eq_false_iff.2 hc, rfl⟩⟩

/-- what a chain does -/
structure ChainMove (s : Sys) (i : ℕ) (c : Chain) (s' : Sys) : Prop where
  same : SameRun s s'
  /-- only the commit of a turn writes the row, and not its status -/
  row : s'.row = s.row ∨ c.worker = .commit ∧ ∃ f : Row → Row, s'.row = s.row.map f ∧ ∀ r, (f r).status = r.status
  /-- only an answer of the database changes what the watcher knows -/
  watcher : (s'.watcher.cancelled = s.watcher.cancelled ∧ s'.watcher.checkedAt = s.watcher.checkedAt) ∨
    ∃ at_ readAt status, c.worker = .polled at_ readAt status ∧ s'.watcher.cancelled = (status == some RunStatus.cancelled) ∧
      s'.watcher.checkedAt = at_
  /-- a turn starts on a recent answer that is no cancel -/
  started : s'.started = s.started ∨ s'.started = s.started ++ [s.now] ∧
    (s.now < s.watcher.checkedAt + cancelPoll ∧ s.watcher.cancelled = false ∨
      ∃ at_ readAt status, c.worker = .polled at_ readAt status ∧ status ≠ some .cancelled)
  chains : s'.chains = s.chains ∨ ∃ c', s'.chains = s.chains.set i c' ∧
    (∀ at_, c'.worker = .polling at_ → at_ = s.now) ∧
    (∀ at_ readAt status, c'.worker = .polled at_ readAt status →
      c.worker = .polling at_ ∧ readAt = s.now ∧ status = s.row.map Row.status) ∧
    (c.still s.watcher = true → c'.still s.watcher = true) ∧
    (s.watcher.cancelled = true → c.worker.asking = false → c'.worker.asking = false)

theorem ChainMove.refl (s : Sys) (i : ℕ) (c : Chain) : ChainMove s i c s :=
  ⟨⟨rfl, rfl, rfl, rfl, rfl⟩, Or.inl rfl, Or.inl ⟨rfl, rfl⟩, Or.inl rfl, Or.inl rfl⟩

theorem not_ended {c : Chain} (h : c.worker ≠ .done ∧ c.worker ≠ .raised) : c.ended = false := by
  simp [Chain.ended, h.1, h.2]

/-- a chain in the middle of a turn or of a question -/
theorem not_still {c : Chain} (w : Watcher) (hended : c.worker ≠ .done ∧ c.worker ≠ .raised)
    (hworker : c.worker ≠ .idle ∧ c.worker ≠ .top) : c.still w = false := by
  simp [Chain.still, not_ended hended, hworker.1, hworker.2]

/-- only an ended chain, or one before the look at the flag, is still -/
theorem still_cases {w : Watcher} {c : Chain} (h : c.still w = true) :
    c.ended = true ∨ w.cancelled = true ∧ (c.worker = .idle ∨ c.worker = .top) := by
  simpa [Chain.still, Chain.ended] using h

/-- a chain in the middle of a question raises -/
theorem move_raised {s : Sys} {i : ℕ} {c : Chain} (hstill : c.still s.watcher = false) :
    ChainMove s i c ({ s with watcher := { s.watcher with locked := false } }.raiseChain i c false) := by
  refine ⟨⟨rfl, rfl, rfl, rfl, rfl⟩, Or.inl rfl, Or.inl ⟨rfl, rfl⟩, Or.inl rfl,
    Or.inr ⟨_, rfl, nofun, nofun, fun h => ?_, fun _ _ => rfl⟩⟩
  rw [hstill] at h
  cases h

theorem chainStep_move (s : Sys) (i : ℕ) (c : Chain) (fails : Bool) : ChainMove s i c (chainStep s i c fails) := by
  cases hw : c.worker with
  | done =>
    rw [show chainStep s i c fails = s by simp [chainStep, hw]]
    exact .refl s i c
  | raised =>
    rw [show chainStep s i c fails = s by simp [chainStep, hw]]
    exact .refl s i c
  | idle =>
    simp only [chainStep, hw]
    split_ifs
    · refine ⟨⟨rfl, rfl, rfl, rfl, rfl⟩, Or.inl rfl, Or.inl ⟨rfl, rfl⟩, Or.inl rfl, Or.inr ⟨_, rfl, nofun, nofun, fun h => ?_, fun _ _ => rfl⟩⟩
      rcases still_cases h with hended | ⟨hcancelled, -⟩
      · rw [not_ended (by rw [hw]; exact ⟨nofun, nofun⟩)] at hended
        cases hended
      · simp [Chain.still, hcancelled]
    · exact .refl s i c
  | top =>
    simp only [chainStep, hw]
    split_ifs with hcancelled
    · obtain ⟨hsame, hrow, hwatcher, ⟨c', hc', hask, hraised⟩, hstarted⟩ := answer_cases s i c true
      have hr := hraised rfl
      refine ⟨hsame, Or.inl hrow, Or.inl ⟨by rw [hwatcher], by rw [hwatcher]⟩, Or.inl (hstarted.resolve_right (by simp)),
        Or.inr ⟨c', hc', fun at_ h => ?_, fun at_ readAt status h => ?_, fun _ => ?_, fun _ _ => hask⟩⟩
      · rw [hr] at h
        cases h
      · rw [hr] at h
        cases h
      · simp [Chain.still, Chain.ended, hr]
    · refine ⟨⟨rfl, rfl, rfl, rfl, rfl⟩, Or.inl rfl, Or.inl ⟨rfl, rfl⟩, Or.inl rfl, Or.inr ⟨_, rfl, nofun, nofun, fun h => ?_, fun h => ?_⟩⟩
      · rcases still_cases h with hended | ⟨hset, -⟩
        · rw [not_ended (by rw [hw]; exact ⟨nofun, nofun⟩)] at hended
          cases hended
        · exact absurd hset hcancelled
      · exact absurd h hcancelled
  | lock =>
    have hstill := not_still s.watcher (c := c) (by rw [hw]; exact ⟨nofun, nofun⟩) (by rw [hw]; exact ⟨nofun, nofun⟩)
    simp only [chainStep, hw]
    split_ifs with hlocked hrecent
    · exact .refl s i c
    · obtain ⟨hsame, hrow, hwatcher, ⟨c', hc', hask, -⟩, hstarted⟩ := answer_cases s i c s.watcher.cancelled
      refine ⟨hsame, Or.inl hrow, Or.inl ⟨by rw [hwatcher], by rw [hwatcher]⟩, ?_,
        Or.inr ⟨c', hc', fun at_ h => ?_, fun at_ readAt status h => ?_, fun h => ?_, fun _ _ => hask⟩⟩
      · refine hstarted.imp_right fun ⟨hno, heq⟩ => ⟨heq, Or.inl ⟨?_, hno⟩⟩
        unfold cancelPoll at *
        omega
      · rw [h] at hask
        cases hask
      · rw [h] at hask
        cases hask
      · rw [hstill] at h
        cases h
    · refine ⟨⟨rfl, rfl, rfl, rfl, rfl⟩, Or.inl rfl, Or.inl ⟨rfl, rfl⟩, Or.inl rfl, Or.inr ⟨_, rfl, fun at_ h => ?_, nofun, fun h => ?_, fun _ h => ?_⟩⟩
      · cases h
        rfl
      · rw [hstill] at h
        cases h
      · rw [hw] at h
        cases h
  | polling at_ =>
    have hstill := not_still s.watcher (c := c) (by rw [hw]; exact ⟨nofun, nofun⟩) (by rw [hw]; exact ⟨nofun, nofun⟩)
    simp only [chainStep, hw]
    split_ifs
    · exact move_raised hstill
    refine ⟨⟨rfl, rfl, rfl, rfl, rfl⟩, Or.inl rfl, Or.inl ⟨rfl, rfl⟩, Or.inl rfl,
      Or.inr ⟨_, rfl, nofun, fun at' readAt status h => ?_, fun h => ?_, fun _ h => ?_⟩⟩
    · cases h
      exact ⟨hw, rfl, rfl⟩
    · rw [hstill] at h
      cases h
    · rw [hw] at h
      cases h
  | polled at_ readAt status =>
    have hstill := not_still s.watcher (c := c) (by rw [hw]; exact ⟨nofun, nofun⟩) (by rw [hw]; exact ⟨nofun, nofun⟩)
    simp only [chainStep, hw]
    split_ifs
    · exact move_raised hstill
    obtain ⟨hsame, hrow, hwatcher, ⟨c', hc', hask, -⟩, hstarted⟩ :=
      answer_cases { s with watcher := ⟨status == some RunStatus.cancelled, at_, false⟩ } i c (status == some RunStatus.cancelled)
    refine ⟨⟨hsame.now, hsame.main, hsame.cancels, hsame.cancelTimes, hsame.ownEnd⟩, Or.inl hrow,
      Or.inr ⟨at_, readAt, status, hw, by rw [hwatcher], by rw [hwatcher]⟩, ?_,
      Or.inr ⟨c', hc', fun at' h => ?_, fun at' readAt' status' h => ?_, fun h => ?_, fun _ h => ?_⟩⟩
    · refine hstarted.imp_right fun ⟨hno, heq⟩ => ⟨heq, Or.inr ⟨at_, readAt, status, hw, fun hcancelled => ?_⟩⟩
      rw [hcancelled] at hno
      cases hno
    · rw [h] at hask
      cases hask
    · rw [h] at hask
      cases hask
    · rw [hstill] at h
      cases h
    · rw [hw] at h
      cases h
  | turn =>
    have hstill := not_still s.watcher (c := c) (by rw [hw]; exact ⟨nofun, nofun⟩) (by rw [hw]; exact ⟨nofun, nofun⟩)
    simp only [chainStep, hw]
    refine ⟨⟨rfl, rfl, rfl, rfl, rfl⟩, Or.inl rfl, Or.inl ⟨rfl, rfl⟩, Or.inl rfl, Or.inr ⟨_, rfl, nofun, nofun, fun h => ?_, fun _ _ => rfl⟩⟩
    rw [hstill] at h
    cases h
  | commit =>
    have hstill := not_still s.watcher (c := c) (by rw [hw]; exact ⟨nofun, nofun⟩) (by rw [hw]; exact ⟨nofun, nofun⟩)
    simp only [chainStep, hw]
    split_ifs
    · refine ⟨⟨rfl, rfl, rfl, rfl, rfl⟩, Or.inl rfl, Or.inl ⟨rfl, rfl⟩, Or.inl rfl, Or.inr ⟨_, rfl, nofun, nofun, fun h => ?_, fun _ _ => rfl⟩⟩
      rw [hstill] at h
      cases h
    · have hnext : ∀ w, (⟨c.left - 1, if c.left ≤ 1 then .done else .top⟩ : Chain).worker = w → w = .done ∨ w = .top := by
        intro w hw'
        rw [← hw']
        simp only
        split_ifs
        · exact Or.inl rfl
        · exact Or.inr rfl
      refine ⟨⟨rfl, rfl, rfl, rfl, rfl⟩, Or.inr ⟨hw, _, rfl, fun _ => rfl⟩, Or.inl ⟨rfl, rfl⟩, Or.inl rfl,
        Or.inr ⟨_, rfl, fun at_ h => ?_, fun at_ readAt status h => ?_, fun h => ?_, fun _ _ => ?_⟩⟩
      · rcases hnext _ h with h | h <;> cases h
      · rcases hnext _ h with h | h <;> cases h
      · rw [hstill] at h
        cases h
      · rcases hnext _ rfl with h | h <;> rw [h] <;> rfl

/-! ## The invariant -/

structure Inv (s : Sys) : Prop where
  clock : s.watcher.checkedAt ≤ s.now
  /-- an answer that is no cancel is older than every cancel -/
  known : s.watcher.cancelled = false → ∀ t ∈ s.cancelTimes, s.watcher.checkedAt ≤ t
  polling : ∀ c ∈ s.chains, ∀ at_, c.worker = .polling at_ → at_ ≤ s.now
  polled : ∀ c ∈ s.chains, ∀ at_ readAt status, c.worker = .polled at_ readAt status →
    at_ ≤ readAt ∧ readAt ≤ s.now ∧ (status ≠ some .cancelled → ∀ t ∈ s.cancelTimes, readAt ≤ t)
  /-- a cancel is in the row, or every chain to come sees it -/
  cancelled : s.cancelTimes ≠ [] → (∃ r ∈ s.row, r.status = .cancelled) ∨ s.Latched ∨ s.Over
  ended : s.ownEnd = true → s.main = .done ∧ ∀ c ∈ s.chains, c.still s.watcher = true

theorem inv_launched (now concurrency : ℕ) : Inv (launched now concurrency) :=
  ⟨Nat.zero_le _, nofun, nofun, nofun, fun h => absurd rfl h, nofun⟩

theorem chainStep_ended {s : Sys} {i : ℕ} {c : Chain} (hended : c.ended = true) (fails : Bool) : chainStep s i c fails = s := by
  have hw : c.worker = .done ∨ c.worker = .raised := by simpa [Chain.ended] using hended
  rcases hw with hw | hw <;> simp [chainStep, hw]

theorem still_congr {w w' : Watcher} (h : w'.cancelled = w.cancelled) (c : Chain) : c.still w' = c.still w := by
  simp [Chain.still, h]

theorem chain_inv {s : Sys} {i : ℕ} {c : Chain} {s' : Sys} (hc : s.chains[i]? = some c) (hopen : c.ended = false)
    (hm : ChainMove s i c s') (h : Inv s) : Inv s' := by
  have hmem : c ∈ s.chains := List.mem_of_getElem? hc
  -- an old chain, or the one that moved
  have hmove : ∀ d ∈ s'.chains, d ∈ s.chains ∨ (∀ at_, d.worker = .polling at_ → at_ = s.now) ∧
      (∀ at_ readAt status, d.worker = .polled at_ readAt status →
        c.worker = .polling at_ ∧ readAt = s.now ∧ status = s.row.map Row.status) ∧
      (c.still s.watcher = true → d.still s.watcher = true) ∧
      (s.watcher.cancelled = true → c.worker.asking = false → d.worker.asking = false) := by
    intro d hd
    rcases hm.chains with heq | ⟨c', heq, hnew⟩
    · rw [heq] at hd
      exact Or.inl hd
    · rw [heq] at hd
      exact (List.mem_or_eq_of_mem_set hd).imp_right fun heq' => by rw [heq']; exact hnew
  have hnotOver : ¬ s.Over := fun hover => by
    have := hover.2 c hmem
    rw [hopen] at this
    cases this
  refine ⟨?_, fun hunset t ht => ?_, fun d hd at_ hw => ?_, fun d hd at_ readAt status hw => ?_, fun hne => ?_, fun hend => ?_⟩
  · rw [hm.same.now]
    rcases hm.watcher with ⟨-, hchecked⟩ | ⟨at_, readAt, status, hw, -, hchecked⟩
    · rw [hchecked]
      exact h.clock
    · obtain ⟨hat, hread, -⟩ := h.polled c hmem at_ readAt status hw
      omega
  · rw [hm.same.cancelTimes] at ht
    rcases hm.watcher with ⟨hcancelled, hchecked⟩ | ⟨at_, readAt, status, hw, hcancelled, hchecked⟩
    · rw [hchecked]
      exact h.known (by rw [← hcancelled]; exact hunset) t ht
    · obtain ⟨hat, -, hold⟩ := h.polled c hmem at_ readAt status hw
      have hne : status ≠ some .cancelled := by
        intro heq
        rw [hcancelled, heq] at hunset
        cases hunset
      have := hold hne t ht
      omega
  · rw [hm.same.now]
    rcases hmove d hd with hd | ⟨hpolling, -⟩
    · exact h.polling d hd at_ hw
    · exact le_of_eq (hpolling at_ hw)
  · rw [hm.same.now, hm.same.cancelTimes]
    rcases hmove d hd with hd | ⟨-, hpolled, -⟩
    · exact h.polled d hd at_ readAt status hw
    · obtain ⟨hcw, hread, hstatus⟩ := hpolled at_ readAt status hw
      refine ⟨by rw [hread]; exact h.polling c hmem at_ hcw, le_of_eq hread, fun hne t ht => ?_⟩
      -- a read after a cancel sees it
      rcases h.cancelled (List.ne_nil_of_mem ht) with ⟨r, hr, hcancelled⟩ | hlatched | hover
      · refine absurd ?_ hne
        rw [hstatus, show s.row = some r from hr, Option.map_some, hcancelled]
      · have := hlatched.2 c hmem
        rw [hcw] at this
        cases this
      · exact absurd hover hnotOver
  · rw [hm.same.cancelTimes] at hne
    rcases h.cancelled hne with ⟨r, hr, hcancelled⟩ | hlatched | hover
    · rcases hm.row with hrow | ⟨-, f, hrow, hf⟩
      · exact Or.inl ⟨r, by rw [hrow]; exact hr, hcancelled⟩
      · exact Or.inl ⟨f r, by rw [hrow]; exact Option.mem_map_of_mem f hr, by rw [hf, hcancelled]⟩
    · have hask := hlatched.2 c hmem
      refine Or.inr (Or.inl ⟨?_, fun d hd => ?_⟩)
      · rcases hm.watcher with ⟨hcancelled, -⟩ | ⟨at_, readAt, status, hw, -⟩
        · rw [hcancelled]
          exact hlatched.1
        · rw [hw] at hask
          cases hask
      · rcases hmove d hd with hd | ⟨-, -, -, hasking⟩
        · exact hlatched.2 d hd
        · exact hasking hlatched.1 hask
    · exact absurd hover hnotOver
  · rw [hm.same.ownEnd] at hend
    obtain ⟨hmain, hstill⟩ := h.ended hend
    refine ⟨by rw [hm.same.main]; exact hmain, fun d hd => ?_⟩
    have hw' : s'.watcher.cancelled = s.watcher.cancelled := by
      rcases hm.watcher with ⟨hcancelled, -⟩ | ⟨at_, readAt, status, hw, -⟩
      · exact hcancelled
      · rcases still_cases (hstill c hmem) with hended | ⟨-, hidle | htop⟩
        · rw [hopen] at hended
          cases hended
        · rw [hw] at hidle
          cases hidle
        · rw [hw] at htop
          cases htop
    rw [still_congr hw']
    rcases hmove d hd with hd | ⟨-, -, hkept, -⟩
    · exact hstill d hd
    · exact hkept (hstill c hmem)

theorem main_inv {s : Sys} {input : Input} (hcalm : Calm s (.main input)) (h : Inv s) : Inv (mainStep s input) := by
  by_cases hdone : s.main = .done
  · rw [show mainStep s input = s by simp [mainStep, hdone]]
    exact h
  have hopen : ¬ s.ownEnd = true := fun hend => hdone (h.ended hend).1
  rcases mainStep_cases s input with ⟨main, heq, hclosing⟩ | ⟨main, lefts, heq, hclosing⟩ | ⟨hmain, hinput, heq⟩ |
    ⟨status, guarded, hmain, hinput, heq⟩
  · rw [heq]
    exact ⟨h.clock, h.known, h.polling, h.polled,
      fun hne => (h.cancelled hne).imp_right fun hseen => hseen.imp_right fun hover => ⟨hclosing hover.1, hover.2⟩,
      fun hend => absurd hend hopen⟩
  · rw [heq]
    refine ⟨h.clock, h.known, fun c hc at_ hw => ?_, fun c hc at_ readAt status hw => ?_, fun hne => ?_,
      fun hend => absurd hend hopen⟩
    · obtain ⟨left, -, rfl⟩ := List.mem_map.1 hc
      cases hw
    · obtain ⟨left, -, rfl⟩ := List.mem_map.1 hc
      cases hw
    · rcases h.cancelled hne with hrow | hlatched | hover
      · exact Or.inl hrow
      · refine Or.inr (Or.inl ⟨hlatched.1, fun c hc => ?_⟩)
        obtain ⟨left, -, rfl⟩ := List.mem_map.1 hc
        rfl
      · rw [hover.1] at hclosing
        cases hclosing
  · rw [heq]
    have hactive : s.CalmAt .markRunning := by
      rw [← hmain]
      exact hcalm hinput
    refine ⟨h.clock, h.known, h.polling, h.polled, fun hne => ?_, fun hend => absurd hend hopen⟩
    rcases h.cancelled hne with ⟨r, hr, hcancelled⟩ | hlatched | hover
    · have := hactive r hr
      rw [hcancelled] at this
      cases this
    · exact Or.inr (Or.inl hlatched)
    · have := hover.1
      rw [hmain] at this
      cases this
  · rw [heq]
    obtain ⟨hrow, hstill⟩ : s.CalmAt (.finish status guarded) := by
      rw [← hmain]
      exact hcalm hinput
    refine ⟨h.clock, h.known, h.polling, h.polled, fun hne => ?_, fun _ => ⟨rfl, hstill⟩⟩
    rcases h.cancelled hne with ⟨r, hr, hcancelled⟩ | hlatched | hover
    · refine Or.inl ⟨{ r with status := status }, Option.mem_map.2 ⟨r, hr, rfl⟩, ?_⟩
      rcases hrow r hr with hactive | hsame
      · rw [hcancelled] at hactive
        cases hactive
      · rw [← hcancelled, hsame]
    · exact Or.inr (Or.inl hlatched)
    · exact Or.inr (Or.inr ⟨rfl, hover.2⟩)

theorem step_inv (s : Sys) (e : Event) (h : Inv s) (hcalm : Calm s e) : Inv (step s e) := by
  cases e with
  | tick ms =>
    refine ⟨Nat.le_add_right_of_le h.clock, h.known, fun c hc at_ hw => Nat.le_add_right_of_le (h.polling c hc at_ hw),
      fun c hc at_ readAt status hw => ?_, h.cancelled, h.ended⟩
    obtain ⟨hat, hread, hold⟩ := h.polled c hc at_ readAt status hw
    exact ⟨hat, Nat.le_add_right_of_le hread, hold⟩
  | main input => exact main_inv hcalm h
  | chain i fails =>
    simp only [step]
    cases hc : s.chains[i]? with
    | none => exact h
    | some c =>
      simp only
      cases hended : c.ended with
      | true =>
        rw [chainStep_ended hended]
        exact h
      | false => exact chain_inv hc hended (chainStep_move s i c fails) h
  | cancelRead =>
    simp only [step]
    split_ifs
    · exact ⟨h.clock, h.known, h.polling, h.polled, h.cancelled, h.ended⟩
    · exact h
  | cancelCommit =>
    simp only [step]
    split_ifs with hnone hgone
    · exact h
    · exact ⟨h.clock, h.known, h.polling, h.polled, h.cancelled, h.ended⟩
    · refine ⟨h.clock, fun hunset t ht => ?_, h.polling, fun c hc at_ readAt status hw => ?_, fun _ => Or.inl ?_, h.ended⟩
      · rcases List.mem_append.1 ht with ht | ht
        · exact h.known hunset t ht
        · rw [List.mem_singleton.1 ht]
          exact h.clock
      · obtain ⟨hat, hread, hold⟩ := h.polled c hc at_ readAt status hw
        refine ⟨hat, hread, fun hne t ht => ?_⟩
        rcases List.mem_append.1 ht with ht | ht
        · exact hold hne t ht
        · rw [List.mem_singleton.1 ht]
          exact hread
      · cases hr : s.row with
        | none => exact absurd (by rw [hr]; rfl) hgone
        | some r => exact ⟨{ r with status := .cancelled }, by simp [Sys.setStatus, hr], rfl⟩
  | deleteRead =>
    simp only [step]
    split_ifs
    · exact ⟨h.clock, h.known, h.polling, h.polled, h.cancelled, h.ended⟩
    · exact h
  | deleteCommit =>
    simp only [step]
    split_ifs with hnone
    · exact h
    · exact ⟨h.clock, h.known, h.polling, h.polled, fun _ => Or.inr (hcalm hnone), h.ended⟩
  | sweep =>
    simp only [step]
    split_ifs with hstale
    · refine ⟨h.clock, h.known, h.polling, h.polled, fun hne => ?_, h.ended⟩
      rcases h.cancelled hne with ⟨r, hr, hcancelled⟩ | hseen
      · rw [show s.row = some r from hr] at hstale
        simp [hcancelled, RunStatus.isActive] at hstale
      · exact Or.inr hseen
    · exact h
  | crash => exact ⟨h.clock, h.known, nofun, nofun, fun _ => Or.inr (Or.inr ⟨rfl, nofun⟩), fun _ => ⟨rfl, nofun⟩⟩

/-! ## A calm step is proper -/

theorem proper_of_same {s : Sys} {e : Event} (hrow : (step s e).row = s.row) (hstarted : (step s e).started = s.started) :
    Proper s e := by
  have hsame : ∀ r ∈ s.row, ∀ r' ∈ (step s e).row, r' = r := by
    intro r hr r' hr'
    rw [hrow] at hr'
    exact Option.mem_unique hr' hr
  refine ⟨fun r hr _ r' hr' => by rw [hsame r hr r' hr'], fun t ht => Or.inl (by rw [← hstarted]; exact ht), fun _ r hr r' hr' => ?_⟩
  rw [hsame r hr r' hr']
  exact ⟨rfl, rfl⟩

/-- a status write on an active row, or one that writes what is there -/
theorem proper_of_setStatus {s : Sys} {e : Event} (status : RunStatus) (hrow : (step s e).row = (s.setStatus status).row)
    (hstarted : (step s e).started = s.started) (h : ∀ r ∈ s.row, r.status.isActive = true ∨ r.status = status) : Proper s e := by
  have hset : ∀ r ∈ s.row, ∀ r' ∈ (step s e).row, r' = { r with status := status } := by
    intro r hr r' hr'
    obtain ⟨r₀, hr₀, rfl⟩ := Option.mem_map.1 (show r' ∈ s.row.map _ by rw [hrow] at hr'; exact hr')
    rw [Option.mem_unique hr₀ hr]
  refine ⟨fun r hr hinactive r' hr' => ?_, fun t ht => Or.inl (by rw [← hstarted]; exact ht), fun _ r hr r' hr' => ?_⟩
  · rw [hset r hr r' hr']
    rcases h r hr with hactive | hstatus
    · rw [hinactive] at hactive
      cases hactive
    · exact hstatus.symm
  · rw [hset r hr r' hr']
    exact ⟨rfl, rfl⟩

/-- the row is gone -/
theorem proper_of_none {s : Sys} {e : Event} (hrow : (step s e).row = none) (hstarted : (step s e).started = s.started) :
    Proper s e := by
  have hnone : ∀ r', r' ∉ (step s e).row := fun r' hr' => by rw [hrow] at hr'; cases hr'
  exact ⟨fun _ _ _ r' hr' => absurd hr' (hnone r'), fun t ht => Or.inl (by rw [← hstarted]; exact ht),
    fun _ _ _ r' hr' => absurd hr' (hnone r')⟩

theorem main_proper {s : Sys} {input : Input} (hcalm : Calm s (.main input)) : Proper s (.main input) := by
  rcases mainStep_cases s input with ⟨main, heq, -⟩ | ⟨main, lefts, heq, -⟩ | ⟨hmain, hinput, heq⟩ |
    ⟨status, guarded, hmain, hinput, heq⟩
  · exact proper_of_same (by simp only [step, heq]) (by simp only [step, heq])
  · exact proper_of_same (by simp only [step, heq]) (by simp only [step, heq])
  · refine proper_of_setStatus .running (by simp only [step, heq]) (by simp only [step, heq, Sys.setStatus])
      fun r hr => Or.inl ?_
    have hwrite : s.CalmAt .markRunning := by
      rw [← hmain]
      exact hcalm hinput
    exact hwrite r hr
  · refine proper_of_setStatus status (by simp only [step, heq]) (by simp only [step, heq, Sys.setStatus])
      fun r hr => ?_
    have hwrite : s.CalmAt (.finish status guarded) := by
      rw [← hmain]
      exact hcalm hinput
    exact hwrite.1 r hr

theorem chain_proper {s : Sys} {i : ℕ} {fails : Bool} (h : Inv s) (hcalm : Calm s (.chain i fails)) : Proper s (.chain i fails) := by
  cases hc : s.chains[i]? with
  | none => exact proper_of_same (by simp only [step, hc]) (by simp only [step, hc])
  | some c =>
    have hmem : c ∈ s.chains := List.mem_of_getElem? hc
    have hm := chainStep_move s i c fails
    have hstep : step s (.chain i fails) = chainStep s i c fails := by simp only [step, hc]
    rw [← hstep] at hm
    refine ⟨fun r hr _ r' hr' => ?_, fun t ht => ?_, fun hend r hr r' hr' => ?_⟩
    · rcases hm.row with hrow | ⟨-, f, hrow, hf⟩
      · rw [hrow] at hr'
        rw [Option.mem_unique hr' hr]
      · rw [hrow] at hr'
        obtain ⟨r₀, hr₀, rfl⟩ := Option.mem_map.1 hr'
        rw [hf, Option.mem_unique hr₀ hr]
    · rcases hm.started with heq | ⟨heq, hwhy⟩
      · rw [heq] at ht
        exact Or.inl ht
      · rw [heq] at ht
        refine (List.mem_append.1 ht).imp_right fun ht => ?_
        rw [List.mem_singleton.1 ht]
        intro cancel hcancel
        rcases hwhy with ⟨hrecent, hunset⟩ | ⟨at_, readAt, status, hw, hne⟩
        · -- the last answer was read before the cancel
          have := h.known hunset cancel hcancel
          omega
        · have hsoon : s.now ≤ readAt + cancelPoll := by
            have := hcalm c hc
            rw [hw] at this
            exact this hne
          have := (h.polled c hmem at_ readAt status hw).2.2 hne cancel hcancel
          omega
    · obtain ⟨-, hstill⟩ := h.ended hend
      rcases hm.row with hrow | ⟨hw, -⟩
      · rw [hrow] at hr'
        rw [Option.mem_unique hr' hr]
        exact ⟨rfl, rfl⟩
      · have := hstill c hmem
        rw [not_still s.watcher (by rw [hw]; exact ⟨nofun, nofun⟩) (by rw [hw]; exact ⟨nofun, nofun⟩)] at this
        cases this

theorem proper_of_calm (s : Sys) (e : Event) (h : Inv s) (hcalm : Calm s e) : Proper s e := by
  cases e with
  | tick ms => exact proper_of_same rfl rfl
  | main input => exact main_proper hcalm
  | chain i fails => exact chain_proper h hcalm
  | cancelRead => exact proper_of_same (by simp only [step]; split_ifs <;> rfl) (by simp only [step]; split_ifs <;> rfl)
  | cancelCommit =>
    by_cases hnone : s.cancels = 0
    · exact proper_of_same (by simp only [step, if_pos hnone]) (by simp only [step, if_pos hnone])
    · by_cases hgone : s.row.isNone = true
      · exact proper_of_same (by simp only [step, if_neg hnone, if_pos hgone]) (by simp only [step, if_neg hnone, if_pos hgone])
      · refine proper_of_setStatus .cancelled ?_ ?_ fun r hr => Or.inl (hcalm hnone r hr)
        · simp only [step, if_neg hnone, if_neg hgone]
        · simp only [step, if_neg hnone, if_neg hgone, Sys.setStatus]
  | deleteRead => exact proper_of_same (by simp only [step]; split_ifs <;> rfl) (by simp only [step]; split_ifs <;> rfl)
  | deleteCommit =>
    by_cases hnone : s.deletes = 0
    · exact proper_of_same (by simp only [step, if_pos hnone]) (by simp only [step, if_pos hnone])
    · exact proper_of_none (by simp only [step, if_neg hnone]) (by simp only [step, if_neg hnone])
  | sweep =>
    by_cases hstale : (s.row.any fun r => r.status.isActive && r.lastSeen + heartbeatStaleAfter < s.now) = true
    · refine proper_of_setStatus .interrupted (by simp only [step, if_pos hstale])
        (by simp only [step, if_pos hstale, Sys.setStatus]) fun r hr => Or.inl ?_
      rw [show s.row = some r from hr] at hstale
      simp only [Option.any_some, Bool.and_eq_true] at hstale
      exact hstale.1
    · exact proper_of_same (by simp only [step, if_neg hstale]) (by simp only [step, if_neg hstale])
  | crash => exact proper_of_same rfl rfl

/-- **A calm run ends for good.** In every run whose steps are all calm, of any chains on any number of slots, a status that
is not active stays, no provider turn starts later than a poll interval after a cancel, and once the run has ended itself no
turn and no progress is recorded for it. -/
theorem ends_for_good (now concurrency : ℕ) (events : List Event) (h : Meets step Calm (launched now concurrency) events) :
    Meets step Proper (launched now concurrency) events :=
  meets_inv step_inv proper_of_calm (inv_launched now concurrency) h

/-- a run that is cancelled while its second chain waits for a slot -/
def cancelledRun : List Event :=
  [.tick 5000, .main .ok, .main .ok, .main .ok, .main (.chains [1, 2]), .main .ok, .main .ok,
    .chain 0 false, .chain 0 false, .chain 0 false, .chain 0 false, .chain 0 false, .chain 0 false, .chain 0 false, .main .ok,
    .cancelRead, .chain 0 false, .chain 0 false, .cancelCommit, .tick 1200, .chain 0 false, .chain 0 false, .chain 0 false,
    .main .ok, .main .ok]

theorem ends_for_good_cancelled : Meets step Proper (launched 0 1) cancelledRun :=
  ends_for_good 0 1 cancelledRun (by decide)

/-- the run's row is cancelled before the task has marked it running -/
theorem cancel_overwritten : ¬ ∀ (now concurrency : ℕ) (events : List Event), Meets step Proper (launched now concurrency) events := by
  intro h
  have hrun := h 0 1 [.cancelRead, .cancelCommit, .main .ok, .main .ok, .main .ok]
  have := hrun.2.2.2.2.1.final ⟨.cancelled, 0, 0, none, 0⟩ rfl rfl ⟨.running, 0, 0, none, 0⟩ rfl
  cases this

end Clawbolt.Comparison
