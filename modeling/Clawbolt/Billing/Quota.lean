/-
The usage quota (billing/quota.py, billing/plans.py, billing/pipeline_steps.py, services/heartbeat_usage.py): one row for each
user and month, with the counters and the limits of the plan.

Turns and heartbeats run as tasks whose database statements interleave. What a transaction writes is seen by the others when
it commits; its statements see what is committed and its own rows. The session of `check_quota_step` is closed without a
commit, so the row that its `get_current_quota` inserts is rolled back; until then it only makes other inserts of the key
wait. The month that a statement reads off the clock comes with the step. Users are provisioned and plans are changed
elsewhere: the subscriptions stand still.

`tracked` and `calls` are history: what the transactions that committed were to count, and the calls of the model.
-/
import Mathlib.Tactic
import Clawbolt.Core.Text

namespace Clawbolt.Billing

open Text (Str)

/-! ## Plans -/

structure PlanLimits where
  messagesPerMonth : ℕ
  tokensPerMonth : ℕ
deriving DecidableEq, Repr

/-- `PLANS` -/
def plans : List (Str × PlanLimits) := [("free".toList, ⟨300, 10000000⟩), ("pro".toList, ⟨600, 20000000⟩)]

/-- `get_plan_limits`: an unknown plan is the free one -/
def getPlanLimits (planName : Str) : PlanLimits := (plans.lookup planName).getD ⟨300, 10000000⟩

structure Subscription where
  userId : Str
  role : Str
  plan : Str
  status : Str
deriving DecidableEq, Repr

structure UsageQuota where
  messagesUsed : ℕ
  messagesLimit : ℕ
  tokensUsed : ℕ
  tokensLimit : ℕ
deriving DecidableEq, Repr

/-- the rows by user and period (`uq_usage_quotas_user_period`) -/
abbrev Rows := Str → ℕ → Option UsageQuota

structure Config where
  /-- one for each user -/
  subscriptions : List Subscription
  freeTierDailyGlobalCap : ℤ

section

variable (c : Config)

def Config.sub? (userId : Str) : Option Subscription := c.subscriptions.find? fun s => s.userId = userId

/-- `_is_admin` -/
def Config.isAdmin (userId : Str) : Bool := (c.sub? userId).any fun s => s.role = "admin".toList

def Config.limits (userId : Str) : PlanLimits := getPlanLimits (((c.sub? userId).map Subscription.plan).getD "free".toList)

/-- `_new_quota_for` -/
def newQuotaFor (userId : Str) : UsageQuota :=
  ⟨0, (c.limits userId).messagesPerMonth, 0, (c.limits userId).tokensPerMonth⟩

/-- `get_current_quota`, as far as its transaction sees it -/
def currentQuota (rows : Rows) (userId : Str) (period : ℕ) : UsageQuota := (rows userId period).getD (newQuotaFor c userId)

/-- `_get_free_tier_daily_message_count` -/
def freeTierCount (rows : Rows) (period : ℕ) : ℕ :=
  ((c.subscriptions.filter fun s => s.plan = "free".toList ∧ s.status = "active".toList).map fun s =>
    ((rows s.userId period).map UsageQuota.messagesUsed).getD 0).sum

/-- `check_free_tier_daily_cap` -/
def checkFreeTierDailyCap (rows : Rows) (userId : Str) (period : ℕ) : Bool :=
  decide (c.freeTierDailyGlobalCap ≤ 0) || (c.sub? userId).any (fun s => s.role = "admin".toList || s.plan ≠ "free".toList) ||
    decide ((freeTierCount c rows period : ℤ) < c.freeTierDailyGlobalCap)

end

/-! ## Tasks -/

inductive Stmt where
  /-- `get_current_quota` of a heartbeat -/
  | ensure
  | messages
  | tokens
deriving DecidableEq, Repr

/-- a transaction that counts a turn or a heartbeat: what is left of it, the row it inserted, and for each increment the
period, and whether the update matched a row -/
structure Tracking where
  userId : Str
  totalTokens : ℕ
  todo : List Stmt
  inserted : Option ℕ
  messages : Option (ℕ × Bool)
  tokens : Option (ℕ × Bool)
deriving DecidableEq, Repr

inductive Phase where
  | idle
  | checking (userId : Str)
  /-- the quota that the session of the check holds; none for an admin -/
  | checkedMessages (userId : Str) (quota : Option (ℕ × UsageQuota))
  | checkedTokens (userId : Str)
  /-- the model is called -/
  | running (userId : Str)
  | tracking (tx : Tracking)
  | over
deriving DecidableEq, Repr

/-- a turn or a heartbeat that was tracked: the period of each increment -/
structure Tracked where
  userId : Str
  totalTokens : ℕ
  messages : Option ℕ
  tokens : Option ℕ
deriving DecidableEq, Repr

structure Sys where
  rows : Rows
  phase : ℕ → Phase
  /-- the rows that are inserted and not committed: another insert of the key waits -/
  inserting : List (Str × ℕ)
  tracked : List Tracked
  /-- the task and the user of each call of the model -/
  calls : List (ℕ × Str)

def Sys.init : Sys := ⟨fun _ _ => none, fun _ => .idle, [], [], []⟩

def Sys.goto (s : Sys) (t : ℕ) (p : Phase) : Sys := { s with phase := Function.update s.phase t p }

inductive Op where
  /-- a turn comes to `check_quota_step` -/
  | start (t : ℕ) (userId : Str)
  | checkMessages (t period : ℕ)
  | checkTokens (t period : ℕ)
  | checkCap (t period : ℕ)
  /-- the run of the model ends with a reply of so many tokens; none for an error fallback and for a pipeline that raises -/
  | respond (t : ℕ) (totalTokens : Option ℕ)
  /-- the usage hook of a heartbeat -/
  | heartbeat (t : ℕ) (userId : Str) (totalTokens : ℕ) (sentReply : Bool)
  /-- the next statement of a tracking transaction -/
  | stmt (t period : ℕ)
  | commit (t : ℕ)
deriving DecidableEq, Repr

/-- the statements of `track_usage_step` -/
def turnStmts (totalTokens : ℕ) : List Stmt := .messages :: if totalTokens > 0 then [.tokens] else []

/-- the statements of `track_heartbeat_usage` -/
def heartbeatStmts (totalTokens : ℕ) (sentReply : Bool) : List Stmt :=
  .ensure :: ((if sentReply then [.messages] else []) ++ if totalTokens > 0 then [.tokens] else [])

/-- an insert of the row waits for another one -/
def Sys.waits (s : Sys) (userId : Str) (period : ℕ) : Bool :=
  (s.rows userId period).isNone && decide ((userId, period) ∈ s.inserting)

/-- an update of the user's row of the period matches one -/
def Tracking.finds (tx : Tracking) (rows : Rows) (period : ℕ) : Bool :=
  (rows tx.userId period).isSome || decide (tx.inserted = some period)

/-- the rows after the commit -/
def Tracking.apply (c : Config) (tx : Tracking) (rows : Rows) : Rows := fun userId period =>
  if userId = tx.userId then
    (if tx.inserted = some period then some (newQuotaFor c userId) else rows userId period).map fun q =>
      { q with
        messagesUsed := q.messagesUsed + if tx.messages = some (period, true) then 1 else 0
        tokensUsed := q.tokensUsed + if tx.tokens = some (period, true) then tx.totalTokens else 0 }
  else rows userId period

section

variable (c : Config)

def Sys.stmt (s : Sys) (t period : ℕ) (tx : Tracking) : Sys :=
  match tx.todo with
  | [] => s
  | .ensure :: todo =>
    if s.waits tx.userId period then s
    else if (s.rows tx.userId period).isSome then s.goto t (.tracking { tx with todo := todo })
    else
      { s.goto t (.tracking { tx with todo := todo, inserted := some period }) with
        inserting := (tx.userId, period) :: s.inserting }
  | .messages :: todo => s.goto t (.tracking { tx with todo := todo, messages := some (period, tx.finds s.rows period) })
  | .tokens :: todo => s.goto t (.tracking { tx with todo := todo, tokens := some (period, tx.finds s.rows period) })

def Sys.commit (s : Sys) (t : ℕ) (tx : Tracking) : Sys :=
  { s.goto t .over with
    rows := tx.apply c s.rows
    inserting := s.inserting.filter fun key => some key ≠ tx.inserted.map fun period => (tx.userId, period)
    tracked := s.tracked ++ [⟨tx.userId, tx.totalTokens, tx.messages.map Prod.fst, tx.tokens.map Prod.fst⟩] }

/-- the quota that the check for the tokens reads: of the same period, the one that its session holds -/
def tokenQuota (rows : Rows) (userId : Str) (held : Option (ℕ × UsageQuota)) (period : ℕ) : UsageQuota :=
  match held with
  | some (p, quota) => if p = period then quota else currentQuota c rows userId period
  | none => currentQuota c rows userId period

def step (s : Sys) : Op → Sys
  | .start t userId =>
    match s.phase t with
    | .idle => s.goto t (.checking userId)
    | _ => s
  | .checkMessages t period =>
    match s.phase t with
    | .checking userId =>
      let quota := currentQuota c s.rows userId period
      if c.isAdmin userId then s.goto t (.checkedMessages userId none)
      else if s.waits userId period then s
      else if quota.messagesUsed < quota.messagesLimit then s.goto t (.checkedMessages userId (some (period, quota)))
      else s.goto t .over
    | _ => s
  | .checkTokens t period =>
    match s.phase t with
    | .checkedMessages userId held =>
      let quota := tokenQuota c s.rows userId held period
      if c.isAdmin userId then s.goto t (.checkedTokens userId)
      else if held.map Prod.fst ≠ some period ∧ s.waits userId period then s
      else if quota.tokensUsed < quota.tokensLimit then s.goto t (.checkedTokens userId)
      else s.goto t .over
    | _ => s
  | .checkCap t period =>
    match s.phase t with
    | .checkedTokens userId =>
      if checkFreeTierDailyCap c s.rows userId period then
        { s.goto t (.running userId) with calls := s.calls ++ [(t, userId)] }
      else s.goto t .over
    | _ => s
  | .respond t response =>
    match s.phase t with
    | .running userId =>
      match response with
      | some totalTokens => s.goto t (.tracking ⟨userId, totalTokens, turnStmts totalTokens, none, none, none⟩)
      | none => s.goto t .over
    | _ => s
  | .heartbeat t userId totalTokens sentReply =>
    match s.phase t with
    | .idle => s.goto t (.tracking ⟨userId, totalTokens, heartbeatStmts totalTokens sentReply, none, none, none⟩)
    | _ => s
  | .stmt t period =>
    match s.phase t with
    | .tracking tx => s.stmt t period tx
    | _ => s
  | .commit t =>
    match s.phase t with
    | .tracking tx => if tx.todo = [] then s.commit c t tx else s
    | _ => s

end

/-! ## What was tracked -/

/-- the turns, and the heartbeats with a reply, whose message was counted in the period -/
def Sys.messages (s : Sys) (userId : Str) (period : ℕ) : ℕ :=
  s.tracked.countP fun e => decide (e.userId = userId ∧ e.messages = some period)

/-- the tokens of the turns and heartbeats whose tokens were counted in the period -/
def Sys.tokens (s : Sys) (userId : Str) (period : ℕ) : ℕ :=
  ((s.tracked.filter fun e => e.userId = userId ∧ e.tokens = some period).map Tracked.totalTokens).sum

end Clawbolt.Billing
