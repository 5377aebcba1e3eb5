/-
The numbers of one model comparison run (`execute_run` of services/model_comparison/runner.py from its samples on, and
`aggregate` of services/model_comparison/report.py): the chains, their workers and the breaker, split at every await.

The run is neither cancelled nor deleted, and its database calls succeed. What a turn comes to is any reply; a free slot of
the semaphore goes to any chain that waits for one. Tokens, cost, notes and what is only logged are left out.

- `aggregate_covers`: the counts of a summary are those of its turns;
- `sound_run`: no sample is lost while the breaker is closed, and no turn without its row;
- `run_adds_up`: a completed run has one row for each sample, and a failed one stopped after three failures in a row.
-/
import Mathlib.Tactic
import Clawbolt.Core.Runs
import Clawbolt.Comparison.Runner
import Clawbolt.Comparison.Sampling
import Clawbolt.Comparison.Writes

namespace Clawbolt.Comparison.Tally

open Text (Str)
open Checks (Finding Issue Side)
open Endpoints (RunStatus)
open Replay (ModelCallResult)
open Report (TurnOutcome WriteComparison WriteOutcome)
open Sampling (ReplaySample)

/-! ## Model -/

structure TurnReport where
  sample : ReplaySample
  candidate : ModelCallResult
  outcome : TurnOutcome
  issues : List Issue := []
  writes : List WriteComparison := []

/-- `turn.candidate.error` -/
def TurnReport.failed (turn : TurnReport) : Bool := turn.candidate.error ≠ []

/-- `HARD_VIOLATIONS` -/
def hardViolations : List Finding := [.unknownTool, .invalidArgs, .unrequestedWrite, .fabricatedId, .truncated]

def isViolation (issue : Issue) : Bool := issue.finding ∈ hardViolations

structure RunSummary where
  turnsTotal : ℕ := 0
  turnsReplayed : ℕ := 0
  turnsFailed : ℕ := 0
  outcomeCounts : List (TurnOutcome × ℕ) := []
  candidateFindings : List (Finding × ℕ) := []
  productionFindings : List (Finding × ℕ) := []
  candidateViolations : ℕ := 0
  productionViolations : ℕ := 0
  writesTotal : ℕ := 0
  writesMatched : ℕ := 0
  writesSameRecord : ℕ := 0
  writesArgsDiffer : ℕ := 0
  writesMissed : ℕ := 0
  writesNotReached : ℕ := 0
  writesNotReplayed : ℕ := 0

/-- `counts.get(key, 0)` -/
def countOf {α : Type} [DecidableEq α] (counts : List (α × ℕ)) (key : α) : ℕ :=
  match counts with
  | [] => 0
  | (k, n) :: rest => if k = key then n else countOf rest key

/-- `counts[key] = counts.get(key, 0) + 1` -/
def bump {α : Type} [DecidableEq α] (counts : List (α × ℕ)) (key : α) : List (α × ℕ) :=
  match counts with
  | [] => [(key, 1)]
  | (k, n) :: rest => if k = key then (k, n + 1) :: rest else (k, n) :: bump rest key

/-- one issue in the loop of `aggregate` -/
def addIssue (s : RunSummary) (issue : Issue) : RunSummary :=
  match issue.side with
  | .candidate =>
    { s with
      candidateFindings := bump s.candidateFindings issue.finding
      candidateViolations := if isViolation issue then s.candidateViolations + 1 else s.candidateViolations }
  | .production =>
    { s with
      productionFindings := bump s.productionFindings issue.finding
      productionViolations := if isViolation issue then s.productionViolations + 1 else s.productionViolations }

/-- one write in the loop of `aggregate` -/
def addWrite (s : RunSummary) (write : WriteComparison) : RunSummary :=
  let s := { s with writesTotal := s.writesTotal + 1 }
  match write.outcome with
  | .matched => { s with writesMatched := s.writesMatched + 1 }
  | .sameRecordDifferentArgs => { s with writesSameRecord := s.writesSameRecord + 1 }
  | .sameToolDifferentArgs => { s with writesArgsDiffer := s.writesArgsDiffer + 1 }
  | .notReached => { s with writesNotReached := s.writesNotReached + 1 }
  | .notReplayed => { s with writesNotReplayed := s.writesNotReplayed + 1 }
  | .missed => { s with writesMissed := s.writesMissed + 1 }

/-- the turn itself in the loop of `aggregate` -/
def addOutcome (s : RunSummary) (turn : TurnReport) : RunSummary :=
  let s := if turn.failed then { s with turnsFailed := s.turnsFailed + 1 } else { s with turnsReplayed := s.turnsReplayed + 1 }
  { s with outcomeCounts := bump s.outcomeCounts turn.outcome }

/-- one turn in the loop of `aggregate` -/
def addTurn (s : RunSummary) (turn : TurnReport) : RunSummary :=
  turn.writes.foldl addWrite (turn.issues.foldl addIssue (addOutcome s turn))

/-- `aggregate` -/
def aggregate (turns : List TurnReport) : RunSummary := turns.foldl addTurn { turnsTotal := turns.length }

/-- `_turn_row` -/
structure ComparisonTurn where
  messageSeq : ℕ
  candidateError : Str
  outcome : TurnOutcome
  writeResults : List WriteComparison
  findings : List Issue

def turnRow (turn : TurnReport) : ComparisonTurn where
  messageSeq := turn.sample.seq
  candidateError := turn.candidate.error
  outcome := turn.outcome
  writeResults := turn.writes
  findings := turn.issues

/-- what `_replay_turn` comes to: a report, or an exception by its type and text -/
inductive Reply where
  | report (candidate : ModelCallResult) (outcome : TurnOutcome) (issues : List Issue) (writes : List WriteComparison)
  | raised (type text : Str)

/-- the turn of a worker, after its `except` -/
def turnOf (sample : ReplaySample) : Reply → TurnReport
  | .report candidate outcome issues writes => ⟨sample, candidate, outcome, issues, writes⟩
  | .raised type text =>
    let detail := type ++ ": ".toList ++ text
    { sample := sample
      candidate := { error := detail }
      outcome := .notReplayed
      issues := [{ finding := .callFailed, detail := detail, side := .candidate }] }

/-- where `run_chain` stands -/
inductive At where
  /-- before it has a slot -/
  | waiting
  /-- in `is_cancelled`, for this sample -/
  | asking (sample : ReplaySample)
  | replaying (sample : ReplaySample)
  /-- before the commit of the row and the progress -/
  | committing (turn : TurnReport)
  | done

structure Task where
  /-- the samples after this one -/
  left : List ReplaySample
  at_ : At

def Task.isDone (t : Task) : Bool := t.at_ matches .done

/-- it holds a slot of the semaphore -/
def Task.holdsSlot (t : Task) : Bool := !t.isDone && !(t.at_ matches .waiting)

/-- the loop of `run_chain` goes on -/
def Task.next (t : Task) : Task :=
  match t.left with
  | [] => ⟨[], .done⟩
  | sample :: rest => ⟨rest, .asking sample⟩

/-- where `execute_run` stands -/
inductive Stage where
  /-- the first turn runs alone; what follows it -/
  | first (chains : List (List ReplaySample))
  | gather
  | ended

structure Result where
  status : RunStatus
  summary : RunSummary
  error : Str

structure Sys where
  stage : Stage
  tasks : List Task
  turns : List TurnReport := []
  consecutiveFailures : ℕ := 0
  breakerError : Str := []
  rows : List ComparisonTurn := []
  progressCompleted : ℕ := 0
  progressTotal : ℕ := 0
  /-- the samples a replay was started for -/
  started : List ReplaySample := []
  /-- what `_finish` writes -/
  result : Option Result := none

/-- the chains' first turn, and what is left of them -/
def splitFirst : List (List ReplaySample) → List ReplaySample × List (List ReplaySample)
  | [] => ([], [])
  | chain :: chains => (chain.take 1, chain.drop 1 :: chains)

/-- a run with its samples cut into chains -/
def launched (chains : List (List ReplaySample)) : Sys :=
  if chains.flatten = [] then { stage := .ended, tasks := [], result := some ⟨.completed, aggregate [], []⟩ }
  else
    { stage := .first (splitFirst chains).2
      tasks := [⟨(splitFirst chains).1, .waiting⟩]
      progressTotal := chains.flatten.length }

def bySeq (a b : TurnReport) : Bool := a.sample.seq ≤ b.sample.seq

/-- the end of `execute_run` -/
def Sys.report (s : Sys) : Result :=
  let summary := aggregate (Orders.sorted bySeq s.turns)
  if s.breakerError ≠ [] then ⟨.failed, summary, s.breakerError⟩ else ⟨.completed, summary, []⟩

/-- the breaker's text after `n` failures, the last one `failure` -/
def breakerText (n : ℕ) (failure : Str) : Str :=
  "stopped after ".toList ++ n.repr.toList ++ " consecutive provider failures: ".toList ++ failure

/-- what a worker does under the lock -/
def Sys.record (s : Sys) (turn : TurnReport) : Sys :=
  if turn.failed then
    { s with
      turns := s.turns ++ [turn]
      consecutiveFailures := s.consecutiveFailures + 1
      breakerError :=
        if maxConsecutiveCallFailures ≤ s.consecutiveFailures + 1 ∧ s.breakerError = [] then
          breakerText (s.consecutiveFailures + 1) turn.candidate.error
        else s.breakerError }
  else { s with turns := s.turns ++ [turn], consecutiveFailures := 0 }

def Sys.put (s : Sys) (i : ℕ) (t : Task) : Sys := { s with tasks := s.tasks.set i t }

/-- the slots of the semaphore -/
def slots (concurrency : ℤ) : ℕ := (max 1 concurrency).toNat

/-- a chain up to its next await -/
def chainStep (concurrency : ℤ) (s : Sys) (i : ℕ) (t : Task) (reply : Reply) : Sys :=
  match t.at_ with
  | .waiting => if s.tasks.countP Task.holdsSlot < slots concurrency then s.put i t.next else s
  | .asking sample =>
    if s.breakerError ≠ [] then s.put i t.next
    else { s with started := s.started ++ [sample] }.put i ⟨t.left, .replaying sample⟩
  | .replaying sample => (s.record (turnOf sample reply)).put i ⟨t.left, .committing (turnOf sample reply)⟩
  | .committing turn =>
    { s with rows := s.rows ++ [turnRow turn], progressCompleted := s.progressCompleted + 1 }.put i t.next
  | .done => s

/-- `execute_run` goes on when the chains it waits for are done -/
def mainStep (s : Sys) : Sys :=
  if s.tasks.all Task.isDone then
    match s.stage with
    | .first chains =>
      { s with stage := .gather, tasks := (chains.filter (· ≠ [])).map fun chain => ⟨chain, .waiting⟩ }
    | .gather => { s with stage := .ended, result := some s.report }
    | .ended => s
  else s

inductive Event where
  | main
  /-- the chain with this number, and the reply it gets when it waits for one -/
  | chain (i : ℕ) (reply : Reply)

def step (concurrency : ℤ) (s : Sys) : Event → Sys
  | .main => mainStep s
  | .chain i reply => (s.tasks[i]?).elim s fun t => chainStep concurrency s i t reply

/-! ## What is claimed -/

/-- the last three recorded turns all failed -/
def LastThree (turns : List TurnReport) : Prop :=
  ∃ before last, turns = before ++ last ∧ last.length = 3 ∧ ∀ turn ∈ last, turn.failed = true

/-- the bucket of a write -/
def RunSummary.bucket (s : RunSummary) : WriteOutcome → ℕ
  | .matched => s.writesMatched
  | .sameRecordDifferentArgs => s.writesSameRecord
  | .sameToolDifferentArgs => s.writesArgsDiffer
  | .missed => s.writesMissed
  | .notReached => s.writesNotReached
  | .notReplayed => s.writesNotReplayed

def RunSummary.findings (s : RunSummary) : Side → List (Finding × ℕ)
  | .candidate => s.candidateFindings
  | .production => s.productionFindings

def RunSummary.violations (s : RunSummary) : Side → ℕ
  | .candidate => s.candidateViolations
  | .production => s.productionViolations

/-- the counts are those of these turns, issues and writes -/
structure Counted (s : RunSummary) (turns : List TurnReport) (issues : List Issue) (writes : List WriteComparison) : Prop where
  failed : s.turnsFailed = turns.countP TurnReport.failed
  replayed : s.turnsReplayed = turns.countP fun t => !t.failed
  outcomes : ∀ o, countOf s.outcomeCounts o = turns.countP fun t => t.outcome = o
  findings : ∀ side f, countOf (s.findings side) f = issues.countP fun i => i.side = side ∧ i.finding = f
  violations : ∀ side, s.violations side = issues.countP fun i => i.side = side ∧ isViolation i
  total : s.writesTotal = writes.length
  buckets : ∀ o, s.bucket o = writes.countP fun w => w.outcome = o

/-- the summary covers exactly these turns -/
def Covers (s : RunSummary) (turns : List TurnReport) : Prop :=
  s.turnsTotal = turns.length ∧ Counted s turns (turns.flatMap TurnReport.issues) (turns.flatMap TurnReport.writes)

/-- what a completed run comes to -/
structure Complete (chains : List (List ReplaySample)) (s : Sys) (summary : RunSummary) : Prop where
  /-- every sample has one row -/
  once : (s.rows.map ComparisonTurn.messageSeq).Perm (chains.flatten.map ReplaySample.seq)
  progress : s.progressCompleted = s.progressTotal
  total : s.progressTotal = summary.turnsTotal
  rows : summary.turnsTotal = s.rows.length
  turns : summary.turnsReplayed + summary.turnsFailed = summary.turnsTotal
  writes : summary.writesMatched + summary.writesSameRecord + summary.writesArgsDiffer + summary.writesMissed +
    summary.writesNotReached + summary.writesNotReplayed = summary.writesTotal

/-! ## The summary -/

theorem countOf_bump {α : Type} [DecidableEq α] (counts : List (α × ℕ)) (key other : α) :
    countOf (bump counts key) other = countOf counts other + if key = other then 1 else 0 := by
  induction counts with
  | nil => simp [bump, countOf]
  | cons entry rest ih =>
    obtain ⟨k, n⟩ := entry
    by_cases hkey : k = key
    · by_cases hother : k = other
      · subst hkey hother
        simp [bump, countOf]
      · subst hkey
        simp [bump, countOf, hother]
    · by_cases hother : k = other
      · subst hother
        simp [bump, countOf, hkey, Ne.symm hkey]
      · simp [bump, countOf, hkey, hother, ih]

variable {s : RunSummary} {turns : List TurnReport} {issues : List Issue} {writes : List WriteComparison}

theorem Counted.addIssue (h : Counted s turns issues writes) (issue : Issue) :
    Counted (addIssue s issue) turns (issues ++ [issue]) writes := by
  unfold Tally.addIssue
  cases hside : issue.side with
  | candidate =>
    refine { h with findings := ?_, violations := ?_ }
    · intro side f
      have hold := h.findings side f
      cases side with
      | candidate => simp_all [RunSummary.findings, countOf_bump, List.countP_append]
      | production => simp_all [RunSummary.findings, List.countP_append]
    · intro side
      have hold := h.violations side
      cases side with
      | candidate =>
        by_cases hv : isViolation issue = true
        · simp_all [RunSummary.violations, List.countP_append]
        · simp_all [RunSummary.violations, List.countP_append]
      | production => simp_all [RunSummary.violations, List.countP_append]
  | production =>
    refine { h with findings := ?_, violations := ?_ }
    · intro side f
      have hold := h.findings side f
      cases side with
      | candidate => simp_all [RunSummary.findings, List.countP_append]
      | production => simp_all [RunSummary.findings, countOf_bump, List.countP_append]
    · intro side
      have hold := h.violations side
      cases side with
      | candidate => simp_all [RunSummary.violations, List.countP_append]
      | production =>
        by_cases hv : isViolation issue = true
        · simp_all [RunSummary.violations, List.countP_append]
        · simp_all [RunSummary.violations, List.countP_append]

theorem Counted.addWrite (h : Counted s turns issues writes) (write : WriteComparison) :
    Counted (addWrite s write) turns issues (writes ++ [write]) := by
  unfold Tally.addWrite
  have htotal : s.writesTotal + 1 = (writes ++ [write]).length := by rw [List.length_append, h.total]; rfl
  cases hw : write.outcome with
  | matched | sameRecordDifferentArgs | sameToolDifferentArgs | missed | notReached | notReplayed =>
    refine { h with total := htotal, buckets := ?_ }
    intro o
    have hold := h.buckets o
    cases o <;> simp_all [RunSummary.bucket, List.countP_append]

theorem Counted.addOutcome (h : Counted s turns issues writes) (turn : TurnReport) :
    Counted (addOutcome s turn) (turns ++ [turn]) issues writes := by
  unfold Tally.addOutcome
  have houtcomes : ∀ o, countOf (bump s.outcomeCounts turn.outcome) o = (turns ++ [turn]).countP fun t => t.outcome = o := by
    intro o
    rw [countOf_bump, h.outcomes o, List.countP_append, List.countP_singleton]
    simp
  cases hfailed : turn.failed with
  | true =>
    refine { h with failed := ?_, replayed := ?_, outcomes := houtcomes }
    · simp [List.countP_append, hfailed, h.failed]
    · simp [List.countP_append, hfailed, h.replayed]
  | false =>
    refine { h with failed := ?_, replayed := ?_, outcomes := houtcomes }
    · simp [List.countP_append, hfailed, h.failed]
    · simp [List.countP_append, hfailed, h.replayed]

theorem Counted.addIssues (h : Counted s turns issues writes) (more : List Issue) :
    Counted (more.foldl Tally.addIssue s) turns (issues ++ more) writes := by
  induction more generalizing s issues with
  | nil => rwa [List.append_nil]
  | cons issue more ih => simpa using ih (h.addIssue issue)

theorem Counted.addWrites (h : Counted s turns issues writes) (more : List WriteComparison) :
    Counted (more.foldl Tally.addWrite s) turns issues (writes ++ more) := by
  induction more generalizing s writes with
  | nil => rwa [List.append_nil]
  | cons write more ih => simpa using ih (h.addWrite write)

theorem Counted.addTurns (h : Counted s turns (turns.flatMap TurnReport.issues) (turns.flatMap TurnReport.writes))
    (more : List TurnReport) :
    Counted (more.foldl addTurn s) (turns ++ more) ((turns ++ more).flatMap TurnReport.issues)
      ((turns ++ more).flatMap TurnReport.writes) := by
  induction more generalizing s turns with
  | nil => rwa [List.append_nil]
  | cons turn more ih =>
    have hturn : Counted (addTurn s turn) (turns ++ [turn]) ((turns ++ [turn]).flatMap TurnReport.issues)
        ((turns ++ [turn]).flatMap TurnReport.writes) := by
      rw [List.flatMap_append, List.flatMap_append, List.flatMap_singleton, List.flatMap_singleton]
      exact ((h.addOutcome turn).addIssues turn.issues).addWrites turn.writes
    have hrest := ih hturn
    rw [List.append_assoc, List.singleton_append] at hrest
    exact hrest

/-- adding a turn leaves the total that was set before the loop -/
theorem addTurn_turnsTotal (s : RunSummary) (turn : TurnReport) : (addTurn s turn).turnsTotal = s.turnsTotal := by
  have hissues : ∀ (l : List Issue) (s : RunSummary), (l.foldl addIssue s).turnsTotal = s.turnsTotal := by
    intro l
    induction l with
    | nil => exact fun _ => rfl
    | cons issue l ih =>
      intro s
      rw [List.foldl_cons, ih, addIssue]
      split <;> rfl
  have hwrites : ∀ (l : List WriteComparison) (s : RunSummary), (l.foldl addWrite s).turnsTotal = s.turnsTotal := by
    intro l
    induction l with
    | nil => exact fun _ => rfl
    | cons write l ih =>
      intro s
      rw [List.foldl_cons, ih, addWrite]
      dsimp only
      split <;> rfl
  rw [addTurn, hwrites, hissues, addOutcome]
  dsimp only
  split <;> rfl

/-- the counts of a summary are those of its turns -/
theorem aggregate_covers (turns : List TurnReport) : Covers (aggregate turns) turns := by
  constructor
  · have htotal : ∀ (l : List TurnReport) (s : RunSummary), (l.foldl addTurn s).turnsTotal = s.turnsTotal := by
      intro l
      induction l with
      | nil => exact fun _ => rfl
      | cons turn l ih => exact fun s => (ih _).trans (addTurn_turnsTotal s turn)
    exact htotal turns _
  · have hempty : Counted { turnsTotal := turns.length } [] [] [] := by
      constructor
      · rfl
      · rfl
      · exact fun _ => rfl
      · intro side f
        cases side <;> rfl
      · intro side
        cases side <;> rfl
      · rfl
      · intro o
        cases o <;> rfl
    exact hempty.addTurns turns

theorem Covers.perm {turns turns' : List TurnReport} (h : Covers s turns) (hperm : turns.Perm turns') : Covers s turns' := by
  have hissues := hperm.flatMap_right TurnReport.issues
  have hwrites := hperm.flatMap_right TurnReport.writes
  exact ⟨h.1.trans hperm.length_eq,
    { failed := h.2.failed.trans (hperm.countP_eq _)
      replayed := h.2.replayed.trans (hperm.countP_eq _)
      outcomes := fun o => (h.2.outcomes o).trans (hperm.countP_eq _)
      findings := fun side f => (h.2.findings side f).trans (hissues.countP_eq _)
      violations := fun side => (h.2.violations side).trans (hissues.countP_eq _)
      total := h.2.total.trans hwrites.length_eq
      buckets := fun o => (h.2.buckets o).trans (hwrites.countP_eq _) }⟩

/-- every turn failed or was replayed -/
theorem Covers.turns_sum {turns : List TurnReport} (h : Covers s turns) : s.turnsReplayed + s.turnsFailed = s.turnsTotal := by
  have hsplit := turns.length_eq_countP_add_countP TurnReport.failed
  rw [h.1, h.2.failed, h.2.replayed, hsplit, Nat.add_comm]
  simp only [Bool.not_eq_true, Bool.decide_eq_false]

/-- every write is in one bucket -/
theorem Covers.buckets_sum {turns : List TurnReport} (h : Covers s turns) :
    s.writesMatched + s.writesSameRecord + s.writesArgsDiffer + s.writesMissed + s.writesNotReached + s.writesNotReplayed =
      s.writesTotal := by
  have hsum : ∀ l : List WriteComparison, l.countP (fun w => w.outcome = .matched) +
      l.countP (fun w => w.outcome = .sameRecordDifferentArgs) + l.countP (fun w => w.outcome = .sameToolDifferentArgs) +
      l.countP (fun w => w.outcome = .missed) + l.countP (fun w => w.outcome = .notReached) +
      l.countP (fun w => w.outcome = .notReplayed) = l.length := by
    intro l
    induction l with
    | nil => rfl
    | cons w l ih =>
      rw [List.length_cons, ← ih]
      cases hw : w.outcome <;> simp [hw] <;> omega
  rw [h.2.total, ← hsum]
  have hb := h.2.buckets
  rw [← hb .matched, ← hb .sameRecordDifferentArgs, ← hb .sameToolDifferentArgs, ← hb .missed, ← hb .notReached,
    ← hb .notReplayed]
  rfl

/-! ## The breaker -/

/-- the failures at the end of the recorded turns -/
def streak (turns : List TurnReport) : ℕ := (turns.rtakeWhile TurnReport.failed).length

theorem lastThree_iff (turns : List TurnReport) : LastThree turns ↔ 3 ≤ streak turns := by
  constructor
  · rintro ⟨before, last, rfl, hlength, hfailed⟩
    have hall : last.rtakeWhile TurnReport.failed = last := List.rtakeWhile_eq_self_iff.2 hfailed
    have hsuffix : last <:+ (before ++ last).rtakeWhile TurnReport.failed := by
      rw [List.rtakeWhile, List.reverse_append, List.takeWhile_append_of_pos fun t ht => hfailed t (List.mem_reverse.1 ht),
        List.reverse_append, List.reverse_reverse]
      exact List.suffix_append _ _
    exact hlength ▸ hsuffix.length_le
  · intro h
    obtain ⟨before, hbefore⟩ := turns.rtakeWhile_suffix TurnReport.failed
    set failures := turns.rtakeWhile TurnReport.failed with hfailures
    have hle : 3 ≤ failures.length := h
    refine ⟨before ++ failures.take (failures.length - 3), failures.drop (failures.length - 3), ?_, ?_, ?_⟩
    · rw [List.append_assoc, List.take_append_drop, hbefore]
    · rw [List.length_drop]
      omega
    · exact fun t ht => List.mem_rtakeWhile_imp (List.mem_of_mem_drop ht)

theorem streak_concat (turns : List TurnReport) (turn : TurnReport) :
    streak (turns ++ [turn]) = if turn.failed then streak turns + 1 else 0 := by
  rw [streak, List.rtakeWhile_concat]
  split
  · rw [List.length_append]
    rfl
  · rfl

theorem breakerText_ne_nil (n : ℕ) (failure : Str) : breakerText n failure ≠ [] := by
  have hstart : "stopped after ".toList ≠ [] := by decide
  have hcount := List.append_ne_nil_of_left_ne_nil hstart n.repr.toList
  exact List.append_ne_nil_of_left_ne_nil (List.append_ne_nil_of_left_ne_nil hcount _) failure

/-- the counter is the streak, and three failures in a row have opened the breaker -/
structure Watched (s : Sys) : Prop where
  counter : s.consecutiveFailures = streak s.turns
  tripped : LastThree s.turns → s.breakerError ≠ []

/-- a turn opens the breaker when it is the third failure in a row -/
theorem record_breaker {s : Sys} (h : Watched s) (turn : TurnReport) :
    (s.record turn).breakerError ≠ [] ↔ s.breakerError ≠ [] ∨ LastThree (s.record turn).turns := by
  have hmax : maxConsecutiveCallFailures = 3 := rfl
  unfold Sys.record
  split
  next hfailed =>
    dsimp only
    rw [lastThree_iff, streak_concat, if_pos hfailed, h.counter, hmax]
    split
    next hopen => exact ⟨fun _ => .inr hopen.1, fun _ => breakerText_ne_nil _ _⟩
    next hopen =>
      refine ⟨.inl, ?_⟩
      rintro (hold | hthree)
      · exact hold
      · exact fun hnil => hopen ⟨hthree, hnil⟩
  next hfailed =>
    dsimp only
    rw [lastThree_iff, streak_concat, if_neg hfailed]
    simp

theorem record_watched {s : Sys} (h : Watched s) (turn : TurnReport) : Watched (s.record turn) := by
  refine ⟨?_, fun hthree => (record_breaker h turn).2 (.inr hthree)⟩
  unfold Sys.record
  split
  next hfailed =>
    dsimp only
    rw [streak_concat, if_pos hfailed, h.counter]
  next hfailed =>
    dsimp only
    rw [streak_concat, if_neg hfailed]

@[simp] theorem record_turns (s : Sys) (turn : TurnReport) : (s.record turn).turns = s.turns ++ [turn] := by
  unfold Sys.record
  split <;> rfl

@[simp] theorem record_rows (s : Sys) (turn : TurnReport) : (s.record turn).rows = s.rows := by
  unfold Sys.record
  split <;> rfl

@[simp] theorem record_tasks (s : Sys) (turn : TurnReport) : (s.record turn).tasks = s.tasks := by
  unfold Sys.record
  split <;> rfl

@[simp] theorem record_stage (s : Sys) (turn : TurnReport) : (s.record turn).stage = s.stage := by
  unfold Sys.record
  split <;> rfl

@[simp] theorem record_progress (s : Sys) (turn : TurnReport) :
    (s.record turn).progressCompleted = s.progressCompleted ∧ (s.record turn).progressTotal = s.progressTotal := by
  unfold Sys.record
  split <;> exact ⟨rfl, rfl⟩

@[simp] theorem record_started (s : Sys) (turn : TurnReport) :
    (s.record turn).started = s.started ∧ (s.record turn).result = s.result := by
  unfold Sys.record
  split <;> exact ⟨rfl, rfl⟩

/-! ## The run -/

/-- the samples a chain has not recorded -/
def Task.pending (t : Task) : List ReplaySample :=
  match t.at_ with
  | .waiting => t.left
  | .asking sample => sample :: t.left
  | .replaying sample => sample :: t.left
  | .committing _ => t.left
  | .done => []

/-- the turn a chain has recorded and not committed -/
def Task.uncommitted (t : Task) : List TurnReport :=
  match t.at_ with
  | .committing turn => [turn]
  | _ => []

/-- the samples of the chains that wait for the first turn -/
def Stage.later : Stage → List ReplaySample
  | .first chains => chains.flatten
  | .gather => []
  | .ended => []

theorem next_pending (t : Task) : t.next.pending = t.left := by
  unfold Task.next
  split
  next hleft => exact hleft.symm
  next hleft => exact hleft.symm

theorem next_uncommitted (t : Task) : t.next.uncommitted = [] := by
  unfold Task.next
  split <;> rfl

theorem done_pending {t : Task} (h : t.isDone = true) : t.pending = [] ∧ t.uncommitted = [] := by
  obtain ⟨left, at_⟩ := t
  cases at_ with
  | done => exact ⟨rfl, rfl⟩
  | waiting => cases h
  | asking sample => cases h
  | replaying sample => cases h
  | committing turn => cases h

/-- with the breaker closed every sample is recorded or still to come, and every recorded turn has its row or is about to -/
structure Sound (chains : List (List ReplaySample)) (s : Sys) : Prop where
  watched : Watched s
  samples : s.breakerError = [] →
    (s.turns.map TurnReport.sample ++ (s.stage.later ++ s.tasks.flatMap Task.pending)).Perm chains.flatten
  rows : (s.rows ++ (s.tasks.flatMap Task.uncommitted).map turnRow).Perm (s.turns.map turnRow)
  progress : s.progressCompleted = s.rows.length
  total : s.progressTotal = chains.flatten.length
  running : s.stage ≠ .ended → s.result = none
  ended : s.stage = .ended → s.tasks.all Task.isDone = true ∧ s.result = some s.report

variable {chains : List (List ReplaySample)} {concurrency : ℤ} {s : Sys} {i : ℕ} {t : Task}

/-- one chain moved: what it held is as it was, up to what is now recorded or written -/
theorem Sound.moved {s' : Sys} {t' : Task} (h : Sound chains s) (ht : s.tasks[i]? = some t) (hlive : t.isDone = false)
    (htasks : s'.tasks = s.tasks.set i t') (hstage : s'.stage = s.stage) (hresult : s'.result = s.result)
    (hwatched : Watched s')
    (hsamples : s'.breakerError = [] → s.breakerError = [] ∧
      (s'.turns.map TurnReport.sample ++ t'.pending).Perm (s.turns.map TurnReport.sample ++ t.pending))
    (hrows : ((s'.rows ++ t'.uncommitted.map turnRow) ++ s.turns.map turnRow).Perm
      ((s.rows ++ t.uncommitted.map turnRow) ++ s'.turns.map turnRow))
    (hprogress : s'.progressCompleted = s'.rows.length) (htotal : s'.progressTotal = s.progressTotal) : Sound chains s' := by
  classical
  obtain ⟨hi, hget⟩ := List.getElem?_eq_some_iff.1 ht
  have hbefore : s.tasks = s.tasks.take i ++ t :: s.tasks.drop (i + 1) := by
    rw [← hget, ← List.drop_eq_getElem_cons hi, List.take_append_drop]
  have hafter : s'.tasks = s.tasks.take i ++ t' :: s.tasks.drop (i + 1) := by
    rw [htasks, List.set_eq_take_append_cons_drop, if_pos hi]
  have hnot : s.stage ≠ .ended := by
    intro hended
    have hdone := List.all_eq_true.1 (h.ended hended).1 t (List.mem_of_getElem? ht)
    rw [hlive] at hdone
    exact Bool.false_ne_true hdone
  refine ⟨hwatched, ?_, ?_, hprogress, htotal.trans h.total, ?_, ?_⟩
  · intro hclosed
    obtain ⟨hclosed', hpending⟩ := hsamples hclosed
    have hold := h.samples hclosed'
    rw [hbefore] at hold
    rw [hstage, hafter]
    refine List.Perm.trans ?_ hold
    rw [List.perm_iff_count] at hpending ⊢
    intro a
    have hcount := hpending a
    simp only [List.flatMap_append, List.flatMap_cons, List.count_append] at hcount ⊢
    omega
  · have hold := h.rows
    rw [hbefore] at hold
    rw [hafter]
    rw [List.perm_iff_count] at hrows hold ⊢
    intro a
    have hcount := hrows a
    have hcount' := hold a
    simp only [List.flatMap_append, List.flatMap_cons, List.map_append, List.count_append] at hcount hcount' ⊢
    omega
  · intro _
    rw [hresult, h.running hnot]
  · intro hended
    exact absurd (hstage ▸ hended) hnot

theorem chainStep_sound (h : Sound chains s) (ht : s.tasks[i]? = some t) (reply : Reply) :
    Sound chains (chainStep concurrency s i t reply) := by
  unfold chainStep
  split
  next hat =>
    -- waiting: a free slot lets it begin
    split
    · refine h.moved ht (by rw [Task.isDone, hat]) rfl rfl rfl ⟨h.watched.counter, h.watched.tripped⟩ ?_ ?_ h.progress rfl
      · intro hclosed
        rw [next_pending, Task.pending, hat]
        exact ⟨hclosed, .rfl⟩
      · rw [next_uncommitted, Task.uncommitted, hat]
        exact .rfl
    · exact h
  next sample hat =>
    split
    next hopen =>
      -- the breaker is open: the sample is left out
      refine h.moved ht (by rw [Task.isDone, hat]) rfl rfl rfl ⟨h.watched.counter, h.watched.tripped⟩ ?_ ?_ h.progress rfl
      · exact fun hclosed => absurd hclosed hopen
      · rw [next_uncommitted, Task.uncommitted, hat]
        exact .rfl
    next hopen =>
      refine h.moved ht (by rw [Task.isDone, hat]) rfl rfl rfl ⟨h.watched.counter, h.watched.tripped⟩ ?_ ?_ h.progress rfl
      · intro hclosed
        simp only [Task.pending, hat]
        exact ⟨hclosed, .rfl⟩
      · simp only [Task.uncommitted, hat]
        exact .rfl
  next sample hat =>
    -- the turn moves from the chain to the recorded ones
    have hwatched := record_watched h.watched (turnOf sample reply)
    refine h.moved ht (by rw [Task.isDone, hat]) (by rw [Sys.put, record_tasks]) (record_stage _ _) (record_started _ _).2
      ⟨hwatched.counter, hwatched.tripped⟩ ?_ ?_ ?_ (record_progress _ _).2
    · intro hclosed
      have hclosed' : s.breakerError = [] := by
        by_contra hopen
        exact (record_breaker h.watched (turnOf sample reply)).2 (.inl hopen) hclosed
      refine ⟨hclosed', ?_⟩
      have hsample : (turnOf sample reply).sample = sample := by cases reply <;> rfl
      simp only [Sys.put, record_turns, Task.pending, hat, List.map_append, List.map_singleton, hsample, List.append_assoc,
        List.singleton_append, List.Perm.refl]
    · simp only [Sys.put, record_turns, record_rows, Task.uncommitted, hat, List.map_append, List.map_singleton,
        List.map_nil, List.append_nil, List.append_assoc]
      exact List.Perm.append_left _ List.perm_append_comm
    · show ((s.record (turnOf sample reply)).progressCompleted) = (s.record (turnOf sample reply)).rows.length
      rw [(record_progress _ _).1, record_rows, h.progress]
  next turn hat =>
    refine h.moved ht (by rw [Task.isDone, hat]) rfl rfl rfl ⟨h.watched.counter, h.watched.tripped⟩ ?_ ?_ ?_ rfl
    · intro hclosed
      rw [next_pending, Task.pending, hat]
      exact ⟨hclosed, .rfl⟩
    · have hturn : t.uncommitted = [turn] := by rw [Task.uncommitted, hat]
      simp only [Sys.put, next_uncommitted, hturn, List.map_singleton, List.map_nil, List.append_nil, List.Perm.refl]
    · simp only [Sys.put, List.length_append, List.length_singleton, h.progress]
  next => exact h

/-- chains that are done hold nothing -/
theorem all_done {tasks : List Task} (h : tasks.all Task.isDone = true) :
    tasks.flatMap Task.pending = [] ∧ tasks.flatMap Task.uncommitted = [] := by
  have hdone := List.all_eq_true.1 h
  exact ⟨List.flatMap_eq_nil_iff.2 fun t ht => (done_pending (hdone t ht)).1,
    List.flatMap_eq_nil_iff.2 fun t ht => (done_pending (hdone t ht)).2⟩

theorem gathered_pending (chains : List (List ReplaySample)) :
    ((chains.filter (· ≠ [])).map fun chain => (⟨chain, .waiting⟩ : Task)).flatMap Task.pending = chains.flatten ∧
      ((chains.filter (· ≠ [])).map fun chain => (⟨chain, .waiting⟩ : Task)).flatMap Task.uncommitted = [] := by
  induction chains with
  | nil => exact ⟨rfl, rfl⟩
  | cons chain chains ih =>
    by_cases hchain : chain = []
    · subst hchain
      exact ih
    · rw [List.filter_cons_of_pos (by simpa using hchain), List.map_cons, List.flatMap_cons, List.flatMap_cons, ih.1, ih.2]
      exact ⟨rfl, rfl⟩

theorem mainStep_sound (h : Sound chains s) : Sound chains (mainStep s) := by
  unfold mainStep
  split
  next hdone =>
    obtain ⟨hpending, huncommitted⟩ := all_done hdone
    have hrows := h.rows
    rw [huncommitted] at hrows
    split
    next rest hstage =>
      have hgathered := gathered_pending rest
      refine ⟨⟨h.watched.counter, h.watched.tripped⟩, ?_, ?_, h.progress, h.total, ?_, ?_⟩
      · intro hclosed
        have hold := h.samples hclosed
        rw [hpending, List.append_nil, hstage] at hold
        rw [hgathered.1]
        exact hold
      · rw [hgathered.2]
        exact hrows
      · intro _
        exact h.running (by rw [hstage]; exact Stage.noConfusion)
      · intro hended
        cases hended
    next hstage =>
      refine ⟨⟨h.watched.counter, h.watched.tripped⟩, ?_, h.rows, h.progress, h.total, ?_, ?_⟩
      · intro hclosed
        have hold := h.samples hclosed
        rw [hstage] at hold
        exact hold
      · exact fun hnot => absurd rfl hnot
      · exact fun _ => ⟨hdone, rfl⟩
    next => exact h
  next => exact h

theorem splitFirst_flatten (chains : List (List ReplaySample)) :
    (splitFirst chains).1 ++ (splitFirst chains).2.flatten = chains.flatten := by
  cases chains with
  | nil => rfl
  | cons chain chains =>
    rw [splitFirst, List.flatten_cons, ← List.append_assoc, List.take_append_drop, List.flatten_cons]

theorem launched_sound (chains : List (List ReplaySample)) : Sound chains (launched chains) := by
  have hwatched : ∀ stage tasks total result, Watched
      { stage := stage, tasks := tasks, progressTotal := total, result := result } := by
    intro stage tasks total result
    refine ⟨rfl, ?_⟩
    rintro ⟨before, last, hnil, hlength, _⟩
    have hempty : last = [] := (List.append_eq_nil_iff.1 hnil.symm).2
    rw [hempty] at hlength
    cases hlength
  unfold launched
  split
  next hempty =>
    refine ⟨hwatched _ _ _ _, ?_, .rfl, rfl, ?_, ?_, ?_⟩
    · intro _
      rw [hempty]
      exact .rfl
    · rw [hempty]
      rfl
    · exact fun hnot => absurd rfl hnot
    · exact fun _ => ⟨rfl, rfl⟩
  next hempty =>
    refine ⟨hwatched _ _ _ _, ?_, .rfl, rfl, rfl, fun _ => rfl, ?_⟩
    · intro _
      have hflatten := splitFirst_flatten chains
      rw [← hflatten]
      simp only [List.map_nil, List.nil_append, List.flatMap_singleton, Stage.later]
      exact List.perm_append_comm
    · intro hended
      cases hended

theorem step_sound (s : Sys) (event : Event) (h : Sound chains s) : Sound chains (step concurrency s event) := by
  cases event with
  | main => exact mainStep_sound h
  | chain i reply =>
    simp only [step]
    cases ht : s.tasks[i]? with
    | none => exact h
    | some t => exact chainStep_sound h ht reply

theorem sound_run (chains : List (List ReplaySample)) (concurrency : ℤ) (events : List Event) :
    Sound chains (Runs.run (step concurrency) (launched chains) events) :=
  Runs.run_inv_all (fun s e h => step_sound s e h) _ events (launched_sound chains)

/-- a step records a turn, or leaves the turns and the breaker -/
theorem step_turns (concurrency : ℤ) (s : Sys) (event : Event) :
    ((step concurrency s event).turns = s.turns ∧ (step concurrency s event).breakerError = s.breakerError) ∨
      ∃ turn, (step concurrency s event).turns = (s.record turn).turns ∧
        (step concurrency s event).breakerError = (s.record turn).breakerError := by
  cases event with
  | main =>
    refine .inl ?_
    simp only [step, mainStep]
    split
    · split <;> exact ⟨rfl, rfl⟩
    · exact ⟨rfl, rfl⟩
  | chain i reply =>
    simp only [step]
    cases ht : s.tasks[i]? with
    | none => exact .inl ⟨rfl, rfl⟩
    | some t =>
      simp only [Option.elim, chainStep]
      split
      · refine .inl ?_
        split <;> exact ⟨rfl, rfl⟩
      · refine .inl ?_
        split <;> exact ⟨rfl, rfl⟩
      next sample hat => exact .inr ⟨turnOf sample reply, rfl, rfl⟩
      · exact .inl ⟨rfl, rfl⟩
      · exact .inl ⟨rfl, rfl⟩

/-- the breaker opens when the last three turns failed, and stays open -/
theorem step_breaker (concurrency : ℤ) (h : Watched s) (event : Event) :
    (step concurrency s event).breakerError ≠ [] ↔ s.breakerError ≠ [] ∨ LastThree (step concurrency s event).turns := by
  obtain ⟨hturns, hbreaker⟩ | ⟨turn, hturns, hbreaker⟩ := step_turns concurrency s event
  · rw [hturns, hbreaker]
    exact ⟨.inl, fun h' => h'.elim id h.tripped⟩
  · rw [hturns, hbreaker]
    exact record_breaker h turn

/-- no turn is started behind an open breaker -/
theorem step_started (hopen : s.breakerError ≠ []) (event : Event) : (step concurrency s event).started = s.started := by
  cases event with
  | main =>
    simp only [step, mainStep]
    split
    · split <;> rfl
    · rfl
  | chain i reply =>
    simp only [step]
    cases ht : s.tasks[i]? with
    | none => rfl
    | some t =>
      simp only [Option.elim, chainStep]
      split
      · split <;> rfl
      · rw [if_pos hopen]
        rfl
      next sample hat => exact (record_started s (turnOf sample reply)).1
      · rfl
      · rfl

/-- at some point of the run the last three recorded turns all failed -/
def Tripped (chains : List (List ReplaySample)) (concurrency : ℤ) (events : List Event) : Prop :=
  ∃ before after, events = before ++ after ∧ LastThree (Runs.run (step concurrency) (launched chains) before).turns

theorem breaker_tripped (chains : List (List ReplaySample)) (concurrency : ℤ) (events : List Event) :
    (Runs.run (step concurrency) (launched chains) events).breakerError ≠ [] ↔ Tripped chains concurrency events := by
  induction events using List.reverseRecOn with
  | nil =>
    constructor
    · intro h
      refine absurd ?_ h
      rw [Runs.run_nil, launched]
      split <;> rfl
    · rintro ⟨before, after, hnil, hthree⟩
      obtain ⟨rfl, rfl⟩ := List.append_eq_nil_iff.1 hnil.symm
      exact (launched_sound chains).watched.tripped hthree
  | append_singleton events event ih =>
    rw [Runs.run_snoc, step_breaker concurrency (sound_run chains concurrency events).watched, ih]
    constructor
    · rintro (⟨before, after, rfl, hthree⟩ | hthree)
      · exact ⟨before, after ++ [event], by rw [List.append_assoc], hthree⟩
      · exact ⟨events ++ [event], [], by rw [List.append_nil], by rwa [Runs.run_snoc]⟩
    · rintro ⟨before, after, hevents, hthree⟩
      cases after using List.reverseRecOn with
      | nil =>
        rw [List.append_nil] at hevents
        rw [← hevents, Runs.run_snoc] at hthree
        exact .inr hthree
      | append_singleton after last =>
        rw [← List.append_assoc] at hevents
        exact .inl ⟨before, after, (List.append_inj' hevents rfl).1, hthree⟩

theorem run_started (hopen : s.breakerError ≠ []) (h : Sound chains s) (events : List Event) :
    (Runs.run (step concurrency) s events).started = s.started := by
  induction events generalizing s with
  | nil => rfl
  | cons event events ih =>
    have hstill := (step_breaker concurrency h.watched event).2 (.inl hopen)
    rw [Runs.run_cons, ih hstill (step_sound s event h), step_started hopen]

/-! ## What the numbers come to -/

/-- a run as the claim has it -/
structure AddsUp (chains : List (List ReplaySample)) (concurrency : ℤ) (events : List Event) (s : Sys) (r : Result) : Prop where
  /-- the summary covers exactly the recorded turns, and each has its row -/
  covers : Covers r.summary s.turns
  rows : s.rows.Perm (s.turns.map turnRow)
  failed : r.status = .failed ↔ Tripped chains concurrency events
  either : r.status = .failed ∨ r.status = .completed
  complete : r.status = .completed → Complete chains s r.summary

/-- **A run's numbers add up.** -/
theorem run_adds_up (chains : List (List ReplaySample)) (concurrency : ℤ) (events : List Event) :
    (∀ r, (Runs.run (step concurrency) (launched chains) events).result = some r →
      AddsUp chains concurrency events (Runs.run (step concurrency) (launched chains) events) r) ∧
    ∀ before after, events = before ++ after → LastThree (Runs.run (step concurrency) (launched chains) before).turns →
      (Runs.run (step concurrency) (launched chains) events).started =
        (Runs.run (step concurrency) (launched chains) before).started := by
  constructor
  · intro r hresult
    have hsound := sound_run chains concurrency events
    have htripped := breaker_tripped chains concurrency events
    generalize Runs.run (step concurrency) (launched chains) events = s at hresult hsound htripped ⊢
    have hended : s.stage = .ended := by
      by_contra hnot
      rw [hsound.running hnot] at hresult
      cases hresult
    obtain ⟨hdone, hreport⟩ := hsound.ended hended
    obtain ⟨hpending, huncommitted⟩ := all_done hdone
    obtain rfl : s.report = r := Option.some.inj (hreport.symm.trans hresult)
    have hsummary : s.report.summary = aggregate (Orders.sorted bySeq s.turns) := by
      unfold Sys.report
      split <;> rfl
    have hcovers : Covers s.report.summary s.turns := by
      rw [hsummary]
      exact (aggregate_covers _).perm (List.perm_insertionSort _ _)
    have hrows : s.rows.Perm (s.turns.map turnRow) := by
      have hold := hsound.rows
      rw [huncommitted, List.map_nil, List.append_nil] at hold
      exact hold
    have hstatus : (s.breakerError ≠ [] ∧ s.report.status = .failed) ∨ (s.breakerError = [] ∧ s.report.status = .completed) := by
      unfold Sys.report
      split
      next hopen => exact .inl ⟨hopen, rfl⟩
      next hopen => exact .inr ⟨not_not.1 hopen, rfl⟩
    refine ⟨hcovers, hrows, ?_, hstatus.imp And.right And.right, ?_⟩
    · rw [← htripped]
      obtain ⟨hopen, hfailed⟩ | ⟨hclosed, hcompleted⟩ := hstatus
      · exact iff_of_true hfailed hopen
      · exact iff_of_false (by rw [hcompleted]; exact RunStatus.noConfusion) (not_not.2 hclosed)
    · intro hcompleted
      have hclosed : s.breakerError = [] := by
        obtain ⟨_, hfailed⟩ | ⟨hclosed, _⟩ := hstatus
        · rw [hcompleted] at hfailed
          cases hfailed
        · exact hclosed
      have hsamples := hsound.samples hclosed
      rw [hended, hpending, Stage.later, List.append_nil, List.append_nil] at hsamples
      have hlength : s.rows.length = s.turns.length := by rw [hrows.length_eq, List.length_map]
      have htotal : s.turns.length = chains.flatten.length := by rw [← hsamples.length_eq, List.length_map]
      refine ⟨?_, ?_, ?_, ?_, hcovers.turns_sum, hcovers.buckets_sum⟩
      · have hseqs := hrows.map ComparisonTurn.messageSeq
        have hseqs' := hsamples.map ReplaySample.seq
        rw [List.map_map] at hseqs hseqs'
        exact hseqs.trans hseqs'
      · rw [hsound.progress, hsound.total, hlength, htotal]
      · rw [hsound.total, hcovers.1, htotal]
      · rw [hcovers.1, hlength]
  · rintro before after rfl hthree
    have hsound := sound_run chains concurrency before
    rw [Runs.run_append]
    exact run_started (hsound.watched.tripped hthree) hsound after

def sampleAt (seq : ℕ) : ReplaySample := ⟨seq, [], [], [], [], []⟩

/-- a chain of two turns, the first one an exception -/
example : ((Runs.run (step 2) (launched [[sampleAt 1, sampleAt 2]])
    ((List.replicate 4 (.chain 0 (.raised "KeyError".toList []))) ++ .main ::
      List.replicate 4 (.chain 0 (.report {} .noWrite [] [])) ++ [.main])).result.map
        fun r => (r.status, r.summary.turnsReplayed, r.summary.turnsFailed)) = some (.completed, 1, 1) := by decide +kernel

end Clawbolt.Comparison.Tally
