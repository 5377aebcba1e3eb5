/-
Inactive accounts (services/inactive_cleanup.py, services/login_tracker.py): logins and chat messages of the users, changes of
their plan, and the runs of the jobs that warn and that delete.

Time is in seconds and never goes back: an operation comes some seconds after the one before it. A warning is what the code
makes of it, a line in the log and the time in `inactivity_warned_at`; there is no mail.

`logins` and `warnings` are history, and so are the times of the last run of each job.
-/
import Mathlib.Tactic
import Clawbolt.Core.Text

namespace Clawbolt.Accounts

open Text (Str)

def free : Str := "free".toList

def active : Str := "active".toList

/-- the row of a user, the user's subscription, and the times of the messages of the user's session -/
structure Account where
  createdAt : ℕ
  isActive : Bool
  plan : Str
  status : Str
  lastLoginAt : Option ℕ
  inactivityWarnedAt : Option ℕ
  inbound : List ℕ
  outbound : List ℕ
deriving DecidableEq, Repr

def day : ℕ := 24 * 60 * 60

structure Config where
  inactiveWarnMonths : ℕ
  inactiveDeleteMonths : ℕ
deriving DecidableEq, Repr

def Config.warnWindow (c : Config) : ℕ := c.inactiveWarnMonths * 30 * day

def Config.deleteWindow (c : Config) : ℕ := c.inactiveDeleteMonths * 30 * day

/-- `warning_grace` -/
def warningGrace : ℕ := 30 * day

/-! ## One account -/

namespace Account

/-- `_get_last_activity` -/
def getLastActivity (a : Account) : ℕ :=
  match a.lastLoginAt with
  | some t => t
  | none =>
    match a.inbound.max? with
    | some t => t
    | none => (a.outbound.max?).getD a.createdAt

/-- one of `get_inactive_free_users`, for the time `now - window` -/
def inactiveFree (a : Account) (now window : ℕ) : Bool :=
  decide (a.plan = free ∧ a.status = active ∧ a.isActive = true ∧ a.getLastActivity + window < now)

/-- `warn_inactive_users` -/
def warn (c : Config) (now : ℕ) (a : Account) : Account :=
  if a.inactiveFree now c.warnWindow then
    if a.getLastActivity + c.deleteWindow < now then a
    else if a.inactivityWarnedAt.isSome then a
    else { a with inactivityWarnedAt := some now }
  else a

/-- the accounts that `cleanup_inactive_accounts` deletes -/
def cleanable (c : Config) (now : ℕ) (a : Account) : Bool :=
  a.inactiveFree now c.deleteWindow && a.inactivityWarnedAt.any fun warnedAt => decide (warnedAt + warningGrace ≤ now)

/-- `delete_account`, as far as the jobs see it -/
def delete (a : Account) : Account := { a with status := "canceled".toList, isActive := false }

/-- `cleanup_inactive_accounts` -/
def cleanup (c : Config) (now : ℕ) (a : Account) : Account := if a.cleanable c now then a.delete else a

/-- `update_last_login`; a deactivated account cannot sign in -/
def login (now : ℕ) (a : Account) : Account :=
  if a.isActive then { a with lastLoginAt := some now, inactivityWarnedAt := none } else a

end Account

/-! ## Runs -/

structure Sys where
  clock : ℕ
  accounts : Str → Option Account
  logins : Str → List ℕ
  warnings : Str → List ℕ
  lastWarn : ℕ
  lastCleanup : ℕ

def Sys.init : Sys := ⟨0, fun _ => none, fun _ => [], fun _ => [], 0, 0⟩

inductive Action where
  | signUp (id : Str)
  | login (id : Str)
  /-- an inbound row -/
  | message (id : Str)
  /-- an outbound row -/
  | reply (id : Str)
  | setPlan (id plan : Str)
  | warn
  | cleanup
deriving DecidableEq, Repr

structure Op where
  /-- seconds since the operation before -/
  after : ℕ
  action : Action
deriving DecidableEq, Repr

namespace Sys

def now (s : Sys) (op : Op) : ℕ := s.clock + op.after

/-- a write to one account -/
def alter (s : Sys) (id : Str) (f : Account → Account) : Sys :=
  { s with accounts := Function.update s.accounts id ((s.accounts id).map f) }

/-- a write to all accounts -/
def alterAll (s : Sys) (f : Account → Account) : Sys := { s with accounts := fun id => (s.accounts id).map f }

/-- the users that the job warns now -/
def warnedBy (c : Config) (now : ℕ) (a : Account) : Bool :=
  decide (a.inactivityWarnedAt = none ∧ (a.warn c now).inactivityWarnedAt = some now)

end Sys

/-- a new user, on the free plan -/
def newAccount (now : ℕ) : Account := ⟨now, true, free, active, none, none, [], []⟩

def act (c : Config) (s : Sys) : Action → Sys
  | .signUp id =>
    match s.accounts id with
    | some _ => s
    | none => { s with accounts := Function.update s.accounts id (some (newAccount s.clock)) }
  | .login id =>
    { s.alter id (Account.login s.clock) with
      logins := Function.update s.logins id (s.logins id ++ if (s.accounts id).any Account.isActive then [s.clock] else []) }
  | .message id => s.alter id fun a => { a with inbound := a.inbound ++ [s.clock] }
  | .reply id => s.alter id fun a => { a with outbound := a.outbound ++ [s.clock] }
  | .setPlan id plan => s.alter id fun a => { a with plan := plan }
  | .warn =>
    { s.alterAll (Account.warn c s.clock) with
      warnings := fun id => s.warnings id ++ if (s.accounts id).any (Sys.warnedBy c s.clock) then [s.clock] else []
      lastWarn := s.clock }
  | .cleanup => { s.alterAll (Account.cleanup c s.clock) with lastCleanup := s.clock }

def step (c : Config) (s : Sys) (op : Op) : Sys := act c { s with clock := s.now op } op.action

end Clawbolt.Accounts
