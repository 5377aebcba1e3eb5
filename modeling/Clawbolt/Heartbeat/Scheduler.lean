/-
The heartbeats of one user (`HeartbeatScheduler.tick` and `run_heartbeat_for_user` in agent/heartbeat.py,
`parse_frequency_to_minutes` in agent/heartbeat_frequency.py, `HeartbeatStore` in agent/stores.py).

Ticks follow one another, and a tick awaits the evaluations it starts. What an evaluation meets is data: what each await
comes to, the tools that phase 2 runs, and the clock's reading at each (`TickScript`, in microseconds). An evaluation
starts at its tick's reading, which is what `_last_tick` records.

- `St.rows` are the heartbeat log, `St.history` the replies in the conversation, `St.delivered` the messages that went out.
- Ghost data, read by no step: `St.mutated` (mutating calls so far), `St.evals` and `St.clock`.

Results, for every sequence of ticks:
- `bounded_run`: where the frequency is not zero, the clock does not run back, no evaluation raises or sends two messages,
  and none fails after it has acted, the day's cap, the interval and the trace hold;
- `unbounded`: a frequency of "0h"; a failed log; an agent that fails after a write.
-/
import Mathlib.Tactic
import Clawbolt.Core.Runs
import Clawbolt.Core.Text

namespace Clawbolt.Heartbeat

open Text (Str)

/-! ## Frequencies -/

/-- what is read of characters -/
structure Chars where
  lower : Str → Str
  /-- the value of a decimal digit, of any script -/
  digit : Char → Option ℕ

/-- `_NAMED_FREQUENCIES` -/
def namedFrequencies : List (String × ℕ) := [("daily", 1440), ("weekdays", 1440), ("weekly", 10080)]

/-- the digits that `int` converts at most -/
def maxStrDigits : ℕ := 4300

def unitMinutes (value : ℕ) (unit : Char) : Option ℕ :=
  if unit = 'm' then some (max value 1)
  else if unit = 'h' then some (value * 60)
  else if unit = 'd' then some (value * 1440)
  else none

def parseFrequencyToMinutes (u : Chars) (freq : Str) : Except String (Option ℕ) :=
  let freq := u.lower (Text.strip freq)
  match namedFrequencies.find? fun kv => kv.1.toList = freq with
  | some kv => .ok (some kv.2)
  | none =>
    let digits := (freq.takeWhile fun c => (u.digit c).isSome).filterMap u.digit
    match (freq.dropWhile fun c => (u.digit c).isSome).dropWhile Text.isSpace with
    | [unit] =>
      if digits = [] ∨ unit ∉ ['m', 'h', 'd'] then .ok none
      else if maxStrDigits < digits.length then .error "Exceeds the limit (4300 digits) for integer string conversion"
      else .ok (unitMinutes (digits.foldl (fun n d => n * 10 + d) 0) unit)
    | _ => .ok none

/-! ## Model -/

structure Settings where
  heartbeatIntervalMinutes : ℕ
  heartbeatIntervalMinutes_pos : 1 ≤ heartbeatIntervalMinutes
  heartbeatMaxDailyMessages : ℕ
  heartbeatMaxDailyMessages_pos : 1 ≤ heartbeatMaxDailyMessages

structure User where
  heartbeatFrequency : Str
  heartbeatMaxDaily : ℤ

/-- what the heartbeats of a user go by -/
structure Config where
  chars : Chars
  settings : Settings
  user : User

/-- an error is raised in `tick` -/
def userIntervalMinutes (c : Config) : Except String ℕ :=
  match parseFrequencyToMinutes c.chars c.user.heartbeatFrequency with
  | .ok (some minutes) => .ok minutes
  | .ok none => .ok c.settings.heartbeatIntervalMinutes
  | .error e => .error e

def maxDaily (c : Config) : ℕ :=
  if 0 < c.user.heartbeatMaxDaily then c.user.heartbeatMaxDaily.toNat else c.settings.heartbeatMaxDailyMessages

/-- a call that the agent ran; untagged calls mutate -/
structure ToolCall where
  readOnly : Bool
  sendsReply : Bool
  isError : Bool
  time : ℤ
deriving DecidableEq, Repr

/-- how `execute_heartbeat_tasks` ends -/
inductive Phase2 where
  | raised
  /-- None: the agent raised, or fell back -/
  | failed
  | response (replyText : Str)
deriving DecidableEq, Repr

/-- what a tick meets; an await that raises has no value -/
structure TickScript where
  now : ℤ
  /-- whether a route is resolved -/
  route : Option Bool
  optedIn : Bool
  countedAt : Option ℤ
  /-- the user wrote lately, it is night, or HEARTBEAT.md has no items -/
  quiet : Option Bool
  /-- phase 1 decides to run, and names tasks -/
  decision : Option Bool
  calls : List ToolCall
  phase2 : Phase2
  repliedAt : Option ℤ
  /-- the conversation is found and the reply is stored in it -/
  stored : Bool
  loggedAt : Option ℤ
  endsAt : ℤ
deriving DecidableEq, Repr

inductive ActionType where
  | send
  | skip
  | cleanup
deriving DecidableEq, Repr

structure Eval where
  start : ℤ
  /-- it ran a mutating tool, or delivered a message -/
  acted : Bool
  /-- it left a row of the log, or of the conversation -/
  traced : Bool
deriving DecidableEq, Repr

structure St where
  /-- `_last_tick` of the user -/
  lastTick : Option ℤ
  rows : List (ActionType × ℤ)
  history : ℕ
  delivered : List ℤ
  mutated : ℕ
  evals : List Eval
  clock : ℤ
deriving DecidableEq, Repr

def start (clock : ℤ) : St := ⟨none, [], 0, [], 0, [], clock⟩

def microsecondsPerMinute : ℤ := 60000000

/-- the UTC day of a reading -/
def day (t : ℤ) : ℤ := t / (1440 * microsecondsPerMinute)

def sendsOn (s : St) (d : ℤ) : ℕ := s.rows.countP fun r => r.1 = .send ∧ day r.2 = d

def deliveredOn (s : St) (d : ℤ) : ℕ := s.delivered.countP fun t => day t = d

/-- `get_daily_count` -/
def getDailyCount (s : St) (now : ℤ) : ℕ := sendsOn s (day now)

/-- `log_heartbeat`, and whether it returned -/
def logHeartbeat (s : St) (action : ActionType) : Option ℤ → St × Bool
  | none => (s, false)
  | some t => ({ s with rows := s.rows ++ [(action, t)] }, true)

def TickScript.sends (e : TickScript) : List ToolCall := e.calls.filter fun call => call.sendsReply && !call.isError

def TickScript.mutations (e : TickScript) : List ToolCall := e.calls.filter fun call => !call.readOnly

/-- the reply goes into the conversation and the log -/
def persist (s : St) (e : TickScript) : St × Bool :=
  if e.stored = true then logHeartbeat { s with history := s.history + 1 } .send e.loggedAt else (s, false)

/-- what follows phase 2 -/
def deliverReply (s : St) (e : TickScript) (replyText : Str) : St × Bool :=
  if e.sends ≠ [] then persist s e
  else if replyText = [] then logHeartbeat s .cleanup e.loggedAt
  else
    match e.repliedAt with
    | none => (s, true)
    | some t => persist { s with delivered := s.delivered ++ [t] } e

/-- the tools run -/
def ranCalls (s : St) (e : TickScript) : St :=
  { s with delivered := s.delivered ++ e.sends.map ToolCall.time, mutated := s.mutated + e.mutations.length }

def executeTasks (s : St) (e : TickScript) : St × Bool :=
  match e.phase2 with
  | .raised => (ranCalls s e, false)
  | .failed => (ranCalls s e, true)
  | .response replyText => deliverReply (ranCalls s e) e replyText

/-- `run_heartbeat_for_user`, and whether it returned -/
def runHeartbeatForUser (c : Config) (s : St) (e : TickScript) : St × Bool :=
  if e.optedIn = false then (s, true)
  else
    match e.countedAt with
    | none => (s, false)
    | some t =>
      if maxDaily c ≤ getDailyCount s t then (s, true)
      else
        match e.quiet with
        | none => (s, false)
        | some true => (s, true)
        | some false =>
          match e.decision with
          | none => (s, false)
          | some false => logHeartbeat s .skip e.loggedAt
          | some true => executeTasks s e

def isUserDue (c : Config) (s : St) (now : ℤ) : Bool :=
  match userIntervalMinutes c, s.lastTick with
  | .error _, some _ => false
  | .ok minutes, some last => minutes * microsecondsPerMinute ≤ now - last
  | _, none => true

/-- the evaluation is noted -/
def evaluation (now : ℤ) (s s' : St) : Eval :=
  ⟨now, s.mutated < s'.mutated ∨ s.delivered.length < s'.delivered.length,
    s.rows.length < s'.rows.length ∨ s.history < s'.history⟩

/-- `_process_one` -/
def processOne (c : Config) (s : St) (e : TickScript) : St :=
  match e.route with
  | some true =>
    let (s', returned) := runHeartbeatForUser c s e
    { s' with
      evals := s.evals ++ [evaluation e.now s s']
      lastTick := if returned = true then some e.now else s.lastTick }
  | _ => s

def tick (c : Config) (s : St) (e : TickScript) : St :=
  { (if isUserDue c s e.now = true then processOne c s e else s) with clock := e.endsAt }

/-! ## The claim, and when it holds -/

structure Bounded (c : Config) (s : St) : Prop where
  daily : ∀ d, deliveredOn s d ≤ maxDaily c
  interval : ∀ minutes, userIntervalMinutes c = .ok minutes →
    1 ≤ minutes ∧ s.evals.Pairwise fun a b => a.start + minutes * microsecondsPerMinute ≤ b.start
  trace : ∀ v ∈ s.evals, v.acted = true → v.traced = true

/-- the readings of a tick, in their order -/
def TickScript.times (e : TickScript) : List ℤ :=
  e.now :: (e.countedAt.toList ++ (e.calls.map ToolCall.time ++ (e.repliedAt.toList ++ (e.loggedAt.toList ++ [e.endsAt]))))

/-- the clock does not run back -/
def Forward (s : St) (e : TickScript) : Prop := (s.clock :: e.times).Pairwise (· ≤ ·)

/-- what is stored is stored -/
def Stores (e : TickScript) : Prop := e.stored = true ∧ e.loggedAt.isSome = true

/-- phase 2 acts once, and not unseen -/
def Phase2Fits (e : TickScript) : Prop :=
  match e.phase2 with
  | .raised => False
  | .failed => e.mutations = [] ∧ e.sends = []
  | .response replyText =>
    e.sends.length ≤ 1 ∧
      if e.sends ≠ [] then Stores e
      else if replyText = [] then e.loggedAt.isSome = true
      else if e.repliedAt.isSome = true then Stores e
      else e.mutations = []

/-- the evaluation returns, and acts once, and not unseen -/
def EvalFits (c : Config) (s : St) (e : TickScript) : Prop :=
  e.optedIn = true →
    match e.countedAt with
    | none => False
    | some t =>
      getDailyCount s t < maxDaily c →
        match e.quiet with
        | none => False
        | some true => True
        | some false =>
          match e.decision with
          | none => False
          | some false => e.loggedAt.isSome = true
          | some true => Phase2Fits e

/-- the condition on a tick -/
def Fits (c : Config) (s : St) (e : TickScript) : Prop :=
  Forward s e ∧ (isUserDue c s e.now = true → e.route = some true → EvalFits c s e)

/-! ## An evaluation -/

theorem maxDaily_pos (c : Config) : 1 ≤ maxDaily c := by
  unfold maxDaily
  split_ifs with h
  · omega
  · exact c.settings.heartbeatMaxDailyMessages_pos

/-- the evaluation left something behind -/
def Traced (s s' : St) : Prop := s.rows.length < s'.rows.length ∨ s.history < s'.history

/-- the evaluation acted -/
def Acted (s s' : St) : Prop := s.mutated < s'.mutated ∨ s.delivered.length < s'.delivered.length

/-- what an evaluation does that fits -/
inductive Outcome (c : Config) (s : St) (e : TickScript) (s' : St) : Prop
  | silent (hdelivered : s'.delivered = s.delivered) (hrows : ∀ d, sendsOn s d ≤ sendsOn s' d)
      (htrace : Acted s s' → Traced s s') : Outcome c s e s'
  | sent (counted sent logged : ℤ) (hcounted : e.countedAt = some counted) (hlimit : sendsOn s (day counted) < maxDaily c)
      (horder : e.now ≤ counted ∧ counted ≤ sent ∧ sent ≤ logged ∧ logged ≤ e.endsAt)
      (hdelivered : s'.delivered = s.delivered ++ [sent]) (hrows : s'.rows = s.rows ++ [(.send, logged)]) : Outcome c s e s'

theorem sendsOn_snoc (s : St) (r : ActionType × ℤ) (d : ℤ) :
    sendsOn { s with rows := s.rows ++ [r] } d = sendsOn s d + if r.1 = .send ∧ day r.2 = d then 1 else 0 := by
  simp only [sendsOn, List.countP_append, List.countP_singleton, decide_eq_true_eq]

theorem deliveredOn_snoc (s : St) (t d : ℤ) :
    deliveredOn { s with delivered := s.delivered ++ [t] } d = deliveredOn s d + if day t = d then 1 else 0 := by
  simp only [deliveredOn, List.countP_append, List.countP_singleton, decide_eq_true_eq]

theorem day_mono {a b : ℤ} (h : a ≤ b) : day a ≤ day b :=
  Int.ediv_le_ediv (by decide) h

/-! ## The readings of a tick -/

section

variable {c : Config} {s : St} {e : TickScript}

theorem Forward.clock_le (h : Forward s e) : s.clock ≤ e.now ∧ ∀ t, e.countedAt = some t → e.now ≤ t ∧ t ≤ e.endsAt := by
  obtain ⟨hclock, htimes⟩ := List.pairwise_cons.1 h
  obtain ⟨hnow, hrest⟩ := List.pairwise_cons.1 htimes
  refine ⟨hclock _ List.mem_cons_self, fun t ht => ⟨hnow t ?_, ?_⟩⟩
  · rw [ht]
    exact List.mem_append_left _ (List.mem_singleton_self _)
  · exact (List.pairwise_append.1 hrest).2.2 t (by rw [ht]; exact List.mem_singleton_self _) _ (by simp)

theorem Forward.le_endsAt (h : Forward s e) : s.clock ≤ e.endsAt :=
  (List.pairwise_cons.1 h).1 _ (by simp [TickScript.times])

/-- a message that goes out is sent after the count, and before its row -/
theorem Forward.sent (h : Forward s e) {counted sent logged : ℤ} (hcounted : e.countedAt = some counted)
    (hsent : (∃ call ∈ e.calls, call.time = sent) ∨ e.repliedAt = some sent) (hlogged : e.loggedAt = some logged) :
    counted ≤ sent ∧ sent ≤ logged ∧ logged ≤ e.endsAt := by
  have hrest := (List.pairwise_cons.1 (List.pairwise_cons.1 h).2).2
  obtain ⟨-, hafter, hcount⟩ := List.pairwise_append.1 hrest
  obtain ⟨-, hreplies, hcalls⟩ := List.pairwise_append.1 hafter
  obtain ⟨-, hlogs, hreply⟩ := List.pairwise_append.1 hreplies
  have hmem : logged ∈ e.loggedAt.toList := by rw [hlogged]; exact List.mem_singleton_self _
  have hend := (List.pairwise_append.1 hlogs).2.2 logged hmem e.endsAt (List.mem_singleton_self _)
  have hafterCount := hcount counted (by rw [hcounted]; exact List.mem_singleton_self _)
  obtain ⟨call, hcall, rfl⟩ | hreplied := hsent
  · have htime : call.time ∈ e.calls.map ToolCall.time := List.mem_map_of_mem hcall
    refine ⟨hafterCount _ (List.mem_append_left _ htime), hcalls _ htime logged ?_, hend⟩
    exact List.mem_append_right _ (List.mem_append_left _ hmem)
  · have htime : sent ∈ e.repliedAt.toList := by rw [hreplied]; exact List.mem_singleton_self _
    refine ⟨hafterCount _ (List.mem_append_right _ (List.mem_append_left _ htime)), ?_, hend⟩
    exact hreply _ htime logged (List.mem_append_left _ hmem)

/-! ## What an evaluation does that fits -/

theorem outcome_refl (c : Config) (s : St) (e : TickScript) : Outcome c s e s :=
  .silent rfl (fun _ => le_rfl) fun h => by rcases h with h | h <;> exact absurd h (lt_irrefl _)

/-- a row that is no message -/
theorem outcome_logged {s' : St} (hd : s'.delivered = s.delivered) (hr : s'.rows = s.rows) (a : ActionType) (t : ℤ) :
    Outcome c s e { s' with rows := s'.rows ++ [(a, t)] } := by
  refine .silent hd (fun d => ?_) fun _ => .inl ?_
  · rw [sendsOn_snoc, sendsOn, sendsOn, hr]
    exact Nat.le_add_right _ _
  · rw [hr, List.length_append]
    exact Nat.lt_succ_self _

theorem executeTasks_outcome (h : Forward s e) {counted : ℤ} (hcounted : e.countedAt = some counted)
    (hlimit : sendsOn s (day counted) < maxDaily c) (hC : Phase2Fits e) :
    Outcome c s e (executeTasks s e).1 ∧ (executeTasks s e).2 = true := by
  have hnow := (h.clock_le.2 counted hcounted).1
  unfold Phase2Fits at hC
  unfold executeTasks
  cases hphase : e.phase2 with
  | raised => rw [hphase] at hC; exact hC.elim
  | failed =>
    -- nothing ran that is seen
    rw [hphase] at hC
    obtain ⟨hmut, hsends⟩ := hC
    refine ⟨.silent ?_ (fun d => le_rfl) fun hacted => ?_, rfl⟩
    · simp [ranCalls, hsends]
    · rcases hacted with hacted | hacted <;> simp [ranCalls, hsends, hmut] at hacted
  | response replyText =>
    rw [hphase] at hC
    obtain ⟨hone, hrest⟩ := hC
    simp only
    unfold deliverReply
    split_ifs at hrest ⊢ with hsends hreply hreplied
    · -- a tool sent the reply
      obtain ⟨hstored, hsome⟩ := hrest
      obtain ⟨logged, hlogged⟩ := Option.isSome_iff_exists.1 hsome
      obtain ⟨call, hcall⟩ := List.length_eq_one_iff.1 (le_antisymm hone (List.length_pos_iff.2 hsends))
      have hmem : call ∈ e.calls := List.mem_of_mem_filter (hcall ▸ List.mem_singleton_self call : call ∈ e.sends)
      obtain ⟨h1, h2, h3⟩ := h.sent hcounted (.inl ⟨call, hmem, rfl⟩) hlogged
      rw [persist, if_pos hstored, hlogged]
      refine ⟨.sent counted call.time logged hcounted hlimit ⟨hnow, h1, h2, h3⟩ ?_ rfl, rfl⟩
      simp [logHeartbeat, ranCalls, hcall]
    · -- a cleanup
      obtain ⟨logged, hlogged⟩ := Option.isSome_iff_exists.1 hrest
      have hsame : (ranCalls s e).delivered = s.delivered := by simp [ranCalls, not_not.1 hsends]
      rw [hlogged]
      exact ⟨outcome_logged hsame rfl .cleanup logged, rfl⟩
    · -- the reply is sent
      obtain ⟨hstored, hsome⟩ := hrest
      obtain ⟨logged, hlogged⟩ := Option.isSome_iff_exists.1 hsome
      obtain ⟨sent, hsent⟩ := Option.isSome_iff_exists.1 hreplied
      obtain ⟨h1, h2, h3⟩ := h.sent hcounted (.inr hsent) hlogged
      simp only [hsent]
      rw [persist, if_pos hstored, hlogged]
      refine ⟨.sent counted sent logged hcounted hlimit ⟨hnow, h1, h2, h3⟩ ?_ rfl, rfl⟩
      simp [logHeartbeat, ranCalls, not_not.1 hsends]
    · -- the reply cannot be sent, and nothing mutated
      rw [Option.not_isSome_iff_eq_none.1 hreplied]
      refine ⟨.silent ?_ (fun d => le_rfl) fun hacted => ?_, rfl⟩
      · simp [ranCalls, not_not.1 hsends]
      · rcases hacted with hacted | hacted <;> simp [ranCalls, not_not.1 hsends, hrest] at hacted

theorem run_outcome (h : Forward s e) (hC : EvalFits c s e) :
    Outcome c s e (runHeartbeatForUser c s e).1 ∧ (runHeartbeatForUser c s e).2 = true := by
  unfold runHeartbeatForUser
  by_cases hopted : e.optedIn = false
  · rw [if_pos hopted]
    exact ⟨outcome_refl c s e, rfl⟩
  · rw [if_neg hopted]
    replace hC := hC (by simpa using hopted)
    cases hcounted : e.countedAt with
    | none => rw [hcounted] at hC; exact hC.elim
    | some counted =>
      simp only [hcounted] at hC ⊢
      by_cases hlimit : maxDaily c ≤ getDailyCount s counted
      · rw [if_pos hlimit]
        exact ⟨outcome_refl c s e, rfl⟩
      · rw [if_neg hlimit]
        replace hC := hC (not_le.1 hlimit)
        cases hquiet : e.quiet with
        | none => rw [hquiet] at hC; exact hC.elim
        | some quiet =>
          cases quiet with
          | true => exact ⟨outcome_refl c s e, rfl⟩
          | false =>
            simp only [hquiet] at hC ⊢
            cases hdecision : e.decision with
            | none => rw [hdecision] at hC; exact hC.elim
            | some run =>
              rw [hdecision] at hC
              cases run with
              | false =>
                obtain ⟨logged, hlogged⟩ := Option.isSome_iff_exists.1 hC
                simp only [hlogged]
                exact ⟨outcome_logged rfl rfl _ _, rfl⟩
              | true => exact executeTasks_outcome h hcounted (not_le.1 hlimit) hC

end

/-! ## The invariant -/

/-- the messages of a day -/
structure Counted (c : Config) (s : St) : Prop where
  daily : ∀ d, deliveredOn s d ≤ maxDaily c
  /-- every message of this day or a later one has its row -/
  covered : ∀ d, day s.clock ≤ d → deliveredOn s d ≤ sendsOn s d
  past : ∀ t ∈ s.delivered, t ≤ s.clock

/-- the evaluations so far -/
structure Spaced (c : Config) (s : St) : Prop where
  interval : ∀ minutes : ℕ, userIntervalMinutes c = .ok minutes →
    s.evals.Pairwise fun a b => a.start + minutes * microsecondsPerMinute ≤ b.start
  last : ∀ v ∈ s.evals, ∃ t, s.lastTick = some t ∧ v.start ≤ t
  trace : ∀ v ∈ s.evals, v.acted = true → v.traced = true

variable {c : Config} {s : St} {e : TickScript}

theorem deliveredOn_congr {s' : St} (h : s'.delivered = s.delivered) (d : ℤ) : deliveredOn s' d = deliveredOn s d := by
  rw [deliveredOn, deliveredOn, h]

/-- the clock moves on -/
theorem Counted.later {s' : St} (h : Counted c s) (hd : s'.delivered = s.delivered) (hr : ∀ d, sendsOn s d ≤ sendsOn s' d)
    (hc : s.clock ≤ s'.clock) : Counted c s' := by
  refine ⟨fun d => ?_, fun d hday => ?_, fun t ht => ?_⟩
  · rw [deliveredOn_congr hd]
    exact h.daily d
  · rw [deliveredOn_congr hd]
    exact le_trans (h.covered d (le_trans (day_mono hc) hday)) (hr d)
  · rw [hd] at ht
    exact le_trans (h.past t ht) hc

/-- no message is of a day that has not come -/
theorem deliveredOn_eq_zero (h : ∀ t ∈ s.delivered, t ≤ s.clock) {d : ℤ} (hd : day s.clock < d) : deliveredOn s d = 0 := by
  refine List.countP_eq_zero.2 fun t ht hday => ?_
  rw [decide_eq_true_eq] at hday
  exact absurd (day_mono (h t ht)) (not_le.2 (hday ▸ hd))

theorem Counted.sent {s' : St} (h : Counted c s) {counted sent logged : ℤ} (hlimit : sendsOn s (day counted) < maxDaily c)
    (horder : s.clock ≤ counted ∧ counted ≤ sent ∧ sent ≤ logged ∧ logged ≤ s'.clock)
    (hd : s'.delivered = s.delivered ++ [sent]) (hr : s'.rows = s.rows ++ [(.send, logged)]) : Counted c s' := by
  obtain ⟨hcounted, hsent, hlogged, hclock⟩ := horder
  have hdelivered : ∀ d, deliveredOn s' d = deliveredOn s d + if day sent = d then 1 else 0 := fun d => by
    rw [← deliveredOn_snoc, deliveredOn, hd, deliveredOn]
  have hrows : ∀ d, sendsOn s' d = sendsOn s d + if day logged = d then 1 else 0 := fun d => by
    have hsnoc := sendsOn_snoc s (.send, logged) d
    simp only [true_and] at hsnoc
    rw [← hsnoc, sendsOn, hr, sendsOn]
  refine ⟨fun d => ?_, fun d hday => ?_, fun t ht => ?_⟩
  · rw [hdelivered]
    split_ifs with hd'
    · -- the day of the count, whose rows are below the limit, or a new day
      subst hd'
      rcases (day_mono hsent).eq_or_lt with heq | hlt
      · have hle := h.covered (day sent) (day_mono (le_trans hcounted hsent))
        rw [← heq] at hle ⊢
        exact lt_of_le_of_lt hle hlimit
      · rw [deliveredOn_eq_zero h.past (lt_of_le_of_lt (day_mono hcounted) hlt), Nat.zero_add]
        exact maxDaily_pos c
    · exact h.daily d
  · have hcov := h.covered d (le_trans (day_mono (le_trans hcounted (le_trans hsent (le_trans hlogged hclock)))) hday)
    rw [hdelivered, hrows]
    split_ifs with h1 h2 h2
    · exact Nat.add_le_add_right hcov 1
    · -- the row is of a later day than the message, and no later one than the clock's
      have hbetween := day_mono hlogged
      have hlast := day_mono hclock
      omega
    · omega
    · exact hcov
  · rw [hd, List.mem_append, List.mem_singleton] at ht
    rcases ht with ht | rfl
    · exact le_trans (h.past t ht) (le_trans hcounted (le_trans hsent (le_trans hlogged hclock)))
    · exact le_trans hlogged hclock

theorem Outcome.trace {s' : St} (h : Outcome c s e s') : Acted s s' → Traced s s' := by
  cases h with
  | silent _ _ htrace => exact htrace
  | sent _ _ _ _ _ _ _ hrows =>
    refine fun _ => .inl ?_
    rw [hrows, List.length_append]
    exact Nat.lt_succ_self _

/-- a user who is due was last evaluated an interval ago -/
theorem due_after {minutes : ℕ} (hdue : isUserDue c s e.now = true) (hminutes : userIntervalMinutes c = .ok minutes) {t : ℤ}
    (ht : s.lastTick = some t) : t + minutes * microsecondsPerMinute ≤ e.now := by
  rw [isUserDue, hminutes, ht, decide_eq_true_eq] at hdue
  omega

theorem due_le (hdue : isUserDue c s e.now = true) {t : ℤ} (ht : s.lastTick = some t) : t ≤ e.now := by
  cases hminutes : userIntervalMinutes c with
  | error msg =>
    rw [isUserDue, hminutes, ht] at hdue
    cases hdue
  | ok minutes =>
    have hafter := due_after hdue hminutes ht
    have hpos : 0 ≤ (minutes : ℤ) * microsecondsPerMinute := Int.mul_nonneg (Int.natCast_nonneg _) (by decide)
    omega

theorem processOne_spaced (h : Spaced c s) (hdue : isUserDue c s e.now = true) (s' : St)
    (htrace : Acted s s' → Traced s s') :
    Spaced c { s' with evals := s.evals ++ [evaluation e.now s s'], lastTick := some e.now } := by
  refine ⟨fun minutes hminutes => ?_, fun v hv => ⟨e.now, rfl, ?_⟩, fun v hv hacted => ?_⟩
  · refine List.pairwise_append.2 ⟨h.interval minutes hminutes, List.pairwise_singleton _ _, fun a ha b hb => ?_⟩
    cases List.mem_singleton.1 hb
    obtain ⟨t, ht, hle⟩ := h.last a ha
    exact le_trans (add_le_add_left hle _) (due_after hdue hminutes ht)
  · rcases List.mem_append.1 hv with hv | hv
    · obtain ⟨t, ht, hle⟩ := h.last v hv
      exact le_trans hle (due_le hdue ht)
    · cases List.mem_singleton.1 hv
      exact le_rfl
  · rcases List.mem_append.1 hv with hv | hv
    · exact h.trace v hv hacted
    · cases List.mem_singleton.1 hv
      simp only [evaluation, decide_eq_true_eq] at hacted ⊢
      exact htrace hacted

structure Inv (c : Config) (s : St) : Prop where
  counted : Counted c s
  spaced : Spaced c s

theorem inv_start (c : Config) (clock : ℤ) : Inv c (start clock) := by
  refine ⟨⟨fun d => Nat.zero_le _, fun d _ => le_rfl, fun t ht => ?_⟩, ⟨fun _ _ => .nil, fun v hv => ?_, fun v hv => ?_⟩⟩
  · cases ht
  · cases hv
  · cases hv

theorem inv_processOne (h : Inv c s) (hforward : Forward s e) (hdue : isUserDue c s e.now = true) (hroute : e.route = some true)
    (hC : EvalFits c s e) : Inv c { processOne c s e with clock := e.endsAt } := by
  obtain ⟨hout, hreturned⟩ := run_outcome hforward hC
  unfold processOne
  simp only [hroute, hreturned, if_true]
  generalize (runHeartbeatForUser c s e).1 = s' at hout
  refine ⟨?_, ?_⟩
  · cases hout with
    | silent hdelivered hrows _ => exact h.counted.later hdelivered hrows hforward.le_endsAt
    | sent counted sent logged _ hlimit horder hdelivered hrows =>
      have hclock := le_trans hforward.clock_le.1 horder.1
      exact h.counted.sent hlimit ⟨hclock, horder.2.1, horder.2.2.1, horder.2.2.2⟩ hdelivered hrows
  · obtain ⟨hinterval, hlast, htrace⟩ := processOne_spaced h.spaced hdue s' hout.trace
    exact ⟨hinterval, hlast, htrace⟩

theorem inv_tick (s : St) (e : TickScript) (h : Inv c s) (hC : Fits c s e) : Inv c (tick c s e) := by
  obtain ⟨hforward, hfits⟩ := hC
  have hidle : Inv c { s with clock := e.endsAt } :=
    ⟨h.counted.later rfl (fun _ => le_rfl) hforward.le_endsAt, ⟨h.spaced.interval, h.spaced.last, h.spaced.trace⟩⟩
  unfold tick
  split_ifs with hdue
  · by_cases hroute : e.route = some true
    · exact inv_processOne h hforward hdue hroute (hfits hdue hroute)
    · have hsame : processOne c s e = s := by
        unfold processOne
        split
        · rename_i hsome
          exact absurd hsome hroute
        · rfl
      rw [hsame]
      exact hidle
  · exact hidle

/-! ## Results -/

/-- the frequency does not say zero hours or days -/
def NotZero (c : Config) : Prop := parseFrequencyToMinutes c.chars c.user.heartbeatFrequency ≠ .ok (some 0)

theorem one_le_interval (hfreq : NotZero c) {minutes : ℕ} (h : userIntervalMinutes c = .ok minutes) : 1 ≤ minutes := by
  unfold userIntervalMinutes at h
  unfold NotZero at hfreq
  cases hparse : parseFrequencyToMinutes c.chars c.user.heartbeatFrequency with
  | error msg => rw [hparse] at h; cases h
  | ok parsed =>
    rw [hparse] at h hfreq
    cases parsed with
    | none => cases h; exact c.settings.heartbeatIntervalMinutes_pos
    | some n =>
      cases h
      exact Nat.one_le_iff_ne_zero.2 fun hzero => hfreq (by rw [hzero])

/-- **Heartbeats are bounded, and leave a trace.** For every user whose frequency is not zero, and every run of ticks
that all fit. -/
theorem bounded_run (c : Config) (hfreq : NotZero c) (clock : ℤ) (es : List TickScript)
    (hC : Runs.Meets (tick c) (Fits c) (start clock) es) : Bounded c (Runs.run (tick c) (start clock) es) := by
  have h : Inv c (Runs.run (tick c) (start clock) es) := Runs.run_inv inv_tick hC (inv_start c clock)
  exact ⟨h.counted.daily, fun minutes hminutes => ⟨one_le_interval hfreq hminutes, h.spaced.interval minutes hminutes⟩,
    h.spaced.trace⟩

def asciiChars : Chars := ⟨id, fun c => if c.isDigit then some (c.toNat - 48) else none⟩

/-- a user with a frequency, and at most one message a day -/
def userWith (freq : String) : Config := ⟨asciiChars, ⟨30, by decide, 5, by decide⟩, ⟨freq.toList, 1⟩⟩

/-- an evaluation that sends a reply, all at one reading -/
def replies (now : ℤ) : TickScript :=
  ⟨now, some true, true, some now, some false, some true, [], .response "Invoice 12 is overdue".toList, some now, true,
    some now, now⟩

/-- a reply in the morning, a tick that is too early, and one at the limit -/
def morning : List TickScript :=
  [replies 0, replies (10 * microsecondsPerMinute), replies (40 * microsecondsPerMinute)]

theorem bounded_run_morning : Bounded (userWith "30m") (Runs.run (tick (userWith "30m")) (start 0) morning) := by
  refine bounded_run (userWith "30m") (by unfold NotZero; decide) 0 morning ⟨⟨?_, ?_⟩, ⟨?_, ?_⟩, ⟨?_, ?_⟩, trivial⟩
  · unfold Forward; decide
  · exact fun _ _ _ _ => ⟨by decide, rfl, rfl⟩
  · unfold Forward; decide
  · exact fun hdue => absurd hdue (by decide)
  · unfold Forward; decide
  · exact fun _ _ _ hlimit => absurd hlimit (by decide)

/-- the log of the first reply cannot be written; the next tick comes a minute later -/
def unlogged : List TickScript := [{ replies 0 with loggedAt := none }, replies microsecondsPerMinute]

/-- the agent fails after a write -/
def failsLate : List TickScript :=
  [{ replies 0 with calls := [⟨false, false, false, 0⟩], phase2 := .failed }]

/-- **Unbounded heartbeats.** A frequency of no hours; a reply that is not logged, and is followed by another one a minute
later on a day of one message; an agent that fails after a write, which leaves no trace. -/
theorem unbounded :
    ¬ Bounded (userWith "0h") (start 0) ∧
    ¬ Bounded (userWith "30m") (Runs.run (tick (userWith "30m")) (start 0) unlogged) ∧
    ¬ Bounded (userWith "30m") (Runs.run (tick (userWith "30m")) (start 0) failsLate) := by
  refine ⟨fun h => ?_, fun h => ?_, fun h => ?_⟩
  · exact absurd (h.interval 0 (by decide)).1 (by decide)
  · exact absurd (h.daily 0) (by decide)
  · exact absurd (h.trace ⟨0, true, false⟩ (by decide) rfl) (by decide)

end Clawbolt.Heartbeat
