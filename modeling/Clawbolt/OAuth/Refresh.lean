/-
The token row of one user and integration (`OAuthService` and `OAuthRefreshScheduler` of services/oauth.py): connects,
disconnects and any number of refreshes, interleaved at their awaits. The database calls succeed.

A SELECT or a write is a step of its own, and so is what a coroutine does with the answer (`resume`). `lock` polls the
advisory lock, `giveUp` is the end of the bounded wait. `connect` is the upsert at the end of `handle_callback`. The token
cache is that of one process; a process that does not have it loads without it. `grant`, `last`, `seen`, `answers`,
`refusals`, `newest`, `notices` and `released` are history: which connect a token comes from, the last connect or
disconnect, the refresh tokens with their grants, what the provider answered, the access token it issued last, the
notices, and what the newest access token was when a task released the lock.

- `step_move`: everything that a step can do, as one case for each transition.
-/
import Mathlib.Tactic
import Clawbolt.Core.Runs
import Clawbolt.Core.Text

namespace Clawbolt.OAuth

open Text (Str)
open Runs

/-! ## Tokens -/

/-- `OAuthTokenData`; an `expires_at` of 0 is none -/
structure Token where
  accessToken : Str
  refreshToken : Str
  expiresAt : ℤ
  realmId : Str
  extra : Str
  grant : ℕ
deriving DecidableEq

structure Row where
  id : ℕ
  token : Token
deriving DecidableEq

/-- `_EXPIRY_BUFFER_SECONDS` -/
def expiryBuffer : ℤ := 300

def Token.isExpired (tok : Token) (now : ℤ) : Bool := 0 < tok.expiresAt && tok.expiresAt - expiryBuffer ≤ now

/-- what the token endpoint answers a refresh with; a field that is absent is 0 -/
structure Data where
  accessToken : Str
  refreshToken : Option Str
  expiresIn : ℤ
  expiresAt : ℤ
deriving DecidableEq

/-- `refused` is a permanent failure, `failed` any other one -/
inductive Answer where
  | granted (data : Data)
  | refused
  | failed
deriving DecidableEq

/-- the token with the response in it -/
def Token.refreshed (tok : Token) (data : Data) (now : ℤ) : Token :=
  { tok with
    accessToken := data.accessToken
    refreshToken := data.refreshToken.getD tok.refreshToken
    expiresAt := if data.expiresIn ≠ 0 then now + data.expiresIn else data.expiresAt }

/-! ## Refreshers -/

/-- `get_valid_token`, the background sweep, and `refresh_rejected_token` -/
inductive Caller where
  | inline
  | sweep
  | midCall (rejected : Str)
deriving DecidableEq

def Caller.rejected : Caller → Str
  | midCall rejected => rejected
  | _ => []

/-- how a refresh ends; `gone` is a `ReconnectRequired` because there is no row -/
inductive Outcome where
  | token (tok : Token)
  | nothing
  | contended
  | refused (tok : Token)
  | failed
  | gone
deriving DecidableEq

inductive Phase where
  | away
  /-- `load_token` of `get_valid_token` -/
  | loading
  | loaded (row : Option Token)
  | locking (c : Caller)
  | locked (c : Caller)
  | read (c : Caller) (row : Option Token)
  | posting (c : Caller) (tok : Token)
  /-- the token with the response in it, and the refresh token that was posted -/
  | granted (c : Caller) (tok : Token) (posted : Str)
  | reread (c : Caller) (tok : Token) (posted : Str) (row : Option Token)
  | saving (c : Caller) (tok : Token) (posted : Str)
  /-- `delete_token` under the lock, of the refused token -/
  | refused (c : Caller) (tok : Token)
  | retiring (c : Caller) (tok : Token) (row : ℕ)
  | unlocking (c : Caller) (o : Outcome)
  | closing (c : Caller) (o : Outcome)
  /-- `delete_token` of `handle_permanent_refresh_failure` -/
  | handling (c : Caller) (tok : Token)
  | removing (c : Caller) (tok : Token) (row : ℕ)
  | notifying (c : Caller) (tok : Token)
  /-- `load_token_uncached` of `refresh_rejected_token` -/
  | checking (c : Caller)
  | checked (c : Caller) (row : Option Token)
  | done (c : Caller) (o : Outcome)
  /-- `delete_token` of a disconnect -/
  | revoking
  | revokingRow (row : ℕ)
deriving DecidableEq

inductive Last where
  | never
  | connected (grant : ℕ)
  | disconnected
deriving DecidableEq

structure Sys where
  row : Option Row
  nextId : ℕ
  lock : Option ℕ
  cache : Option (Option Token)
  now : ℤ
  /-- there is a config or a registered grant for the integration -/
  configured : Bool
  phase : ℕ → Phase
  /-- the `in_flight` of each hook that `build_rejected_token_refresher` made -/
  inFlight : ℕ → Str → Option ℕ
  /-- the refresh that a caller of a hook awaits -/
  waits : ℕ → Option ℕ
  last : Last
  grants : ℕ
  seen : List (Str × ℕ)
  answers : List (Str × Answer)
  refusals : List ℕ
  newest : Str
  notices : List Bool
  released : ℕ → Option Str

namespace Sys

def put (s : Sys) (t : ℕ) (p : Phase) : Sys := { s with phase := Function.update s.phase t p }

/-- the token in the row -/
def stored (s : Sys) : Option Token := s.row.map Row.token

/-- the upsert of `save_token` -/
def upsert (s : Sys) (tok : Token) : Sys :=
  match s.row with
  | some r => { s with row := some { r with token := tok }, cache := none }
  | none => { s with row := some ⟨s.nextId, tok⟩, nextId := s.nextId + 1, cache := none }

/-- the DELETE of the row with the id -/
def deleteRow (s : Sys) (i : ℕ) : Sys :=
  { s with row := if s.row.map Row.id = some i then none else s.row, cache := none }

end Sys

/-! ## What a coroutine does with an answer -/

/-- `get_valid_token` after `load_token` -/
def afterLoad (s : Sys) : Option Token → Phase
  | none => .done .inline .nothing
  | some tok =>
    if tok.isExpired s.now = false then .done .inline (.token tok)
    else if tok.refreshToken = [] then .done .inline .nothing
    else .locking .inline

/-- a peer has refreshed the token that was read under the lock -/
def peerRefreshed (s : Sys) (c : Caller) (tok : Token) : Bool :=
  if c.rejected ≠ [] then tok.accessToken ≠ c.rejected else 0 < tok.expiresAt && !tok.isExpired s.now

/-- `refresh_token` after the read under the lock -/
def afterRead (s : Sys) (c : Caller) : Option Token → Phase
  | none => .unlocking c .nothing
  | some tok =>
    if tok.refreshToken = [] then .unlocking c .nothing
    else if peerRefreshed s c tok then .unlocking c (.token tok)
    else if s.configured = false then .unlocking c .nothing
    else .posting c tok

/-- `refresh_token` after the read that follows the POST -/
def afterReread (c : Caller) (tok : Token) (posted : Str) : Option Token → Phase
  | none => .unlocking c .nothing
  | some current =>
    if current.refreshToken ≠ posted then .unlocking c (.token current)
    else .saving c { tok with extra := current.extra } posted

/-- what the caller of `refresh_token` does with its outcome -/
def afterClose (c : Caller) : Outcome → Phase
  | .refused tok => .handling c tok
  | .nothing =>
    match c with
    | .midCall _ => .checking c
    | _ => .done c .nothing
  | o => .done c o

/-! ## Steps -/

inductive Op where
  | clock (now : ℤ)
  /-- the TTL of the cache entry is over -/
  | expire
  | load (t : ℕ)
  | begin (t : ℕ) (c : Caller)
  /-- a hook is called; a refresh that it starts is `t` -/
  | call (w hook : ℕ) (rejected : Str) (t : ℕ)
  | forget (hook : ℕ) (rejected : Str)
  | lock (t : ℕ)
  | giveUp (t : ℕ)
  | read (t : ℕ)
  | resume (t : ℕ)
  | answer (t : ℕ) (a : Answer)
  | save (t : ℕ)
  | delete (t : ℕ)
  | unlock (t : ℕ)
  | close (t : ℕ)
  /-- `_notify_reauth_needed`, which finds an active route or not -/
  | notify (t : ℕ) (route : Bool)
  | connect (tok : Token)
  | disconnect (t : ℕ)
deriving DecidableEq

/-- the SELECT that the task awaits -/
def readRow (s : Sys) (t : ℕ) : Sys :=
  match s.phase t with
  | .loading => s.put t (.loaded s.stored)
  | .locked c => { s.put t (.read c s.stored) with cache := none }
  | .granted c tok posted => { s.put t (.reread c tok posted s.stored) with cache := none }
  | .checking c => { s.put t (.checked c s.stored) with cache := none }
  | .refused c tok =>
    match s.row with
    | none => { s.put t (.unlocking c (.refused tok)) with cache := none }
    | some r => s.put t (.retiring c tok r.id)
  | .handling c tok =>
    match s.row with
    | none => { s.put t (.notifying c tok) with cache := none }
    | some r => s.put t (.removing c tok r.id)
  | .revoking =>
    match s.row with
    | none => { s.put t .away with cache := none, last := .disconnected }
    | some r => s.put t (.revokingRow r.id)
  | _ => s

def resume (s : Sys) (t : ℕ) : Sys :=
  match s.phase t with
  | .loaded row => { s.put t (afterLoad s row) with cache := some row }
  | .read c row => { s.put t (afterRead s c row) with cache := some row }
  | .reread c tok posted row => { s.put t (afterReread c tok posted row) with cache := some row }
  | .checked c row => { s.put t (.done c (if row = none then .gone else .nothing)) with cache := some row }
  | _ => s

/-- the provider answers the POST -/
def answer (s : Sys) (t : ℕ) (a : Answer) : Sys :=
  match s.phase t with
  | .posting c tok =>
    match a with
    | .granted data =>
      { s.put t (.granted c (tok.refreshed data s.now) tok.refreshToken) with
        answers := s.answers ++ [(tok.refreshToken, a)]
        seen := s.seen ++ [((tok.refreshed data s.now).refreshToken, tok.grant)]
        newest := data.accessToken }
    | .refused =>
      { s.put t (.refused c tok) with
        answers := s.answers ++ [(tok.refreshToken, a)], refusals := s.refusals ++ [tok.grant] }
    | .failed => { s.put t (.unlocking c .failed) with answers := s.answers ++ [(tok.refreshToken, a)] }
  | _ => s

/-- the DELETE commits -/
def delete (s : Sys) (t : ℕ) : Sys :=
  match s.phase t with
  | .retiring c tok i => (s.put t (.unlocking c (.refused tok))).deleteRow i
  | .removing c tok i => (s.put t (.notifying c tok)).deleteRow i
  | .revokingRow i =>
    { (s.put t .away).deleteRow i with last := if s.row.map Row.id = some i then .disconnected else s.last }
  | _ => s

def step (s : Sys) : Op → Sys
  | .clock now => { s with now := now }
  | .expire => { s with cache := none }
  | .load t =>
    match s.phase t with
    | .away =>
      match s.cache with
      | some row => s.put t (afterLoad s row)
      | none => s.put t .loading
    | _ => s
  | .begin t c =>
    match s.phase t with
    | .away => s.put t (.locking c)
    | _ => s
  | .call w hook rejected t =>
    match s.inFlight hook rejected with
    | some j => { s with waits := Function.update s.waits w (some j) }
    | none =>
      match s.phase t with
      | .away =>
        { s.put t (.locking (.midCall rejected)) with
          waits := Function.update s.waits w (some t)
          inFlight := Function.update s.inFlight hook (Function.update (s.inFlight hook) rejected (some t)) }
      | _ => s
  | .forget hook rejected =>
    match s.inFlight hook rejected with
    | some t =>
      match s.phase t with
      | .done _ _ =>
        { s with inFlight := Function.update s.inFlight hook (Function.update (s.inFlight hook) rejected none) }
      | _ => s
    | none => s
  | .lock t =>
    match s.phase t with
    | .locking c => if s.lock = none then { s.put t (.locked c) with lock := some t } else s
    | _ => s
  | .giveUp t =>
    match s.phase t with
    | .locking c => if s.lock = none then s else s.put t (.closing c .contended)
    | _ => s
  | .read t => readRow s t
  | .resume t => resume s t
  | .answer t a => answer s t a
  | .save t =>
    match s.phase t with
    | .saving c tok _ => (s.put t (.unlocking c (.token tok))).upsert tok
    | _ => s
  | .delete t => delete s t
  | .unlock t =>
    match s.phase t with
    | .unlocking c o =>
      { s.put t (.closing c o) with lock := none, released := Function.update s.released t (some s.newest) }
    | _ => s
  | .close t =>
    match s.phase t with
    | .closing c o => s.put t (afterClose c o)
    | _ => s
  | .notify t route =>
    match s.phase t with
    | .notifying c tok => { s.put t (.done c (.refused tok)) with notices := s.notices ++ [route] }
    | _ => s
  | .connect tok =>
    { s.upsert { tok with grant := s.grants } with
      last := .connected s.grants
      grants := s.grants + 1
      seen := s.seen ++ [(tok.refreshToken, s.grants)]
      newest := tok.accessToken }
  | .disconnect t =>
    match s.phase t with
    | .away => s.put t .revoking
    | _ => s

/-- nobody has connected yet -/
def Sys.init (configured : Bool) : Sys where
  row := none
  nextId := 0
  lock := none
  cache := none
  now := 0
  configured := configured
  phase := fun _ => .away
  inFlight := fun _ _ => none
  waits := fun _ => none
  last := .never
  grants := 0
  seen := []
  answers := []
  refusals := []
  newest := []
  notices := []
  released := fun _ => none

/-! ## What a step can do -/

theorem phase_put (s : Sys) (t : ℕ) (p : Phase) (j : ℕ) : (s.put t p).phase j = if j = t then p else s.phase j :=
  Function.update_apply _ _ _ _

@[simp] theorem phase_put_self (s : Sys) (t : ℕ) (p : Phase) : (s.put t p).phase t = p := Function.update_self _ _ _

/-- the states differ in the clock, the cache and the hooks at most -/
structure Same (s s' : Sys) : Prop where
  row : s'.row = s.row
  lock : s'.lock = s.lock
  configured : s'.configured = s.configured
  phase : s'.phase = s.phase
  last : s'.last = s.last
  grants : s'.grants = s.grants
  seen : s'.seen = s.seen
  answers : s'.answers = s.answers
  refusals : s'.refusals = s.refusals
  newest : s'.newest = s.newest
  notices : s'.notices = s.notices
  released : s'.released = s.released

theorem Same.rfl {s : Sys} : Same s s := ⟨.refl _, .refl _, .refl _, .refl _, .refl _, .refl _, .refl _, .refl _, .refl _,
  .refl _, .refl _, .refl _⟩

/-- the transitions of a task that leave the row, the lock and the history alone -/
inductive Walk (s : Sys) : Phase → Phase → Prop where
  | hit (row : Option Token) : Walk s .away (afterLoad s row)
  | load : Walk s .away .loading
  | begin (c : Caller) : Walk s .away (.locking c)
  | loaded : Walk s .loading (.loaded s.stored)
  | afterLoad (row : Option Token) : Walk s (.loaded row) (afterLoad s row)
  | giveUp (c : Caller) : Walk s (.locking c) (.closing c .contended)
  | read (c : Caller) : Walk s (.locked c) (.read c s.stored)
  | afterRead (c : Caller) (row : Option Token) : Walk s (.read c row) (afterRead s c row)
  | reread (c : Caller) (tok : Token) (posted : Str) : Walk s (.granted c tok posted) (.reread c tok posted s.stored)
  | afterReread (c : Caller) (tok : Token) (posted : Str) (row : Option Token) :
      Walk s (.reread c tok posted row) (afterReread c tok posted row)
  | noRow (c : Caller) (tok : Token) (h : s.row = none) : Walk s (.refused c tok) (.unlocking c (.refused tok))
  | retire (c : Caller) (tok : Token) (r : Row) (h : s.row = some r) : Walk s (.refused c tok) (.retiring c tok r.id)
  | noRowLeft (c : Caller) (tok : Token) (h : s.row = none) : Walk s (.handling c tok) (.notifying c tok)
  | remove (c : Caller) (tok : Token) (r : Row) (h : s.row = some r) : Walk s (.handling c tok) (.removing c tok r.id)
  | check (c : Caller) : Walk s (.checking c) (.checked c s.stored)
  | checked (c : Caller) (row : Option Token) :
      Walk s (.checked c row) (.done c (if row = none then .gone else .nothing))
  | close (c : Caller) (o : Outcome) : Walk s (.closing c o) (afterClose c o)

/-- the steps, one case for each transition -/
inductive Move (s : Sys) : Op → Sys → Prop where
  | same {o s'} (h : Same s s') : Move s o s'
  | walk {o t p p' s'} (hp : s.phase t = p) (hw : Walk s p p') (h : Same (s.put t p') s') : Move s o s'
  | lock {t c} (hp : s.phase t = .locking c) (hfree : s.lock = none) :
      Move s (.lock t) { s.put t (.locked c) with lock := some t }
  | granted {t c tok data} (hp : s.phase t = .posting c tok) :
      Move s (.answer t (.granted data)) { s.put t (.granted c (tok.refreshed data s.now) tok.refreshToken) with
        answers := s.answers ++ [(tok.refreshToken, .granted data)]
        seen := s.seen ++ [((tok.refreshed data s.now).refreshToken, tok.grant)]
        newest := data.accessToken }
  | refused {t c tok} (hp : s.phase t = .posting c tok) :
      Move s (.answer t .refused) { s.put t (.refused c tok) with
        answers := s.answers ++ [(tok.refreshToken, .refused)], refusals := s.refusals ++ [tok.grant] }
  | failed {t c tok} (hp : s.phase t = .posting c tok) :
      Move s (.answer t .failed) { s.put t (.unlocking c .failed) with
        answers := s.answers ++ [(tok.refreshToken, .failed)] }
  | saved {t c tok posted} (hp : s.phase t = .saving c tok posted) :
      Move s (.save t) ((s.put t (.unlocking c (.token tok))).upsert tok)
  | retired {t c tok i} (hp : s.phase t = .retiring c tok i) :
      Move s (.delete t) ((s.put t (.unlocking c (.refused tok))).deleteRow i)
  | removed {t c tok i} (hp : s.phase t = .removing c tok i) :
      Move s (.delete t) ((s.put t (.notifying c tok)).deleteRow i)
  | disconnect {t} (hp : s.phase t = .away) : Move s (.disconnect t) (s.put t .revoking)
  | revoke {t r} (hp : s.phase t = .revoking) (hrow : s.row = some r) : Move s (.read t) (s.put t (.revokingRow r.id))
  | revoked {t i} (hp : s.phase t = .revokingRow i) :
      Move s (.delete t)
        { (s.put t .away).deleteRow i with last := if s.row.map Row.id = some i then .disconnected else s.last }
  | absent {t} (hp : s.phase t = .revoking) (hrow : s.row = none) :
      Move s (.read t) { s.put t .away with cache := none, last := .disconnected }
  | unlock {t c o} (hp : s.phase t = .unlocking c o) :
      Move s (.unlock t)
        { s.put t (.closing c o) with lock := none, released := Function.update s.released t (some s.newest) }
  | notify {t c tok route} (hp : s.phase t = .notifying c tok) :
      Move s (.notify t route) { s.put t (.done c (.refused tok)) with notices := s.notices ++ [route] }
  | connect {tok} :
      Move s (.connect tok) { s.upsert { tok with grant := s.grants } with
        last := .connected s.grants
        grants := s.grants + 1
        seen := s.seen ++ [(tok.refreshToken, s.grants)]
        newest := tok.accessToken }

theorem readRow_move (s : Sys) (t : ℕ) : Move s (.read t) (readRow s t) := by
  unfold readRow
  split
  · next h => exact .walk h .loaded .rfl
  · next c h => exact .walk h (.read c) ⟨rfl, rfl, rfl, rfl, rfl, rfl, rfl, rfl, rfl, rfl, rfl, rfl⟩
  · next c tok posted h => exact .walk h (.reread c tok posted) ⟨rfl, rfl, rfl, rfl, rfl, rfl, rfl, rfl, rfl, rfl, rfl, rfl⟩
  · next c h => exact .walk h (.check c) ⟨rfl, rfl, rfl, rfl, rfl, rfl, rfl, rfl, rfl, rfl, rfl, rfl⟩
  · next c tok h =>
    split
    · next hr => exact .walk h (.noRow c tok hr) ⟨rfl, rfl, rfl, rfl, rfl, rfl, rfl, rfl, rfl, rfl, rfl, rfl⟩
    · next r hr => exact .walk h (.retire c tok r hr) .rfl
  · next c tok h =>
    split
    · next hr => exact .walk h (.noRowLeft c tok hr) ⟨rfl, rfl, rfl, rfl, rfl, rfl, rfl, rfl, rfl, rfl, rfl, rfl⟩
    · next r hr => exact .walk h (.remove c tok r hr) .rfl
  · next h =>
    split
    · next hr => exact .absent h hr
    · next r hr => exact .revoke h hr
  · exact .same .rfl

theorem resume_move (s : Sys) (t : ℕ) : Move s (.resume t) (resume s t) := by
  unfold resume
  split
  · next row h => exact .walk h (.afterLoad row) ⟨rfl, rfl, rfl, rfl, rfl, rfl, rfl, rfl, rfl, rfl, rfl, rfl⟩
  · next c row h => exact .walk h (.afterRead c row) ⟨rfl, rfl, rfl, rfl, rfl, rfl, rfl, rfl, rfl, rfl, rfl, rfl⟩
  · next c tok posted row h =>
    exact .walk h (.afterReread c tok posted row) ⟨rfl, rfl, rfl, rfl, rfl, rfl, rfl, rfl, rfl, rfl, rfl, rfl⟩
  · next c row h => exact .walk h (.checked c row) ⟨rfl, rfl, rfl, rfl, rfl, rfl, rfl, rfl, rfl, rfl, rfl, rfl⟩
  · exact .same .rfl

theorem answer_move (s : Sys) (t : ℕ) (a : Answer) : Move s (.answer t a) (answer s t a) := by
  unfold answer
  split
  · next c tok h =>
    cases a with
    | granted data => exact .granted h
    | refused => exact .refused h
    | failed => exact .failed h
  · exact .same .rfl

theorem delete_move (s : Sys) (t : ℕ) : Move s (.delete t) (delete s t) := by
  unfold delete
  split
  · next h => exact .retired h
  · next h => exact .removed h
  · next h => exact .revoked h
  · exact .same .rfl

theorem step_move (s : Sys) (o : Op) : Move s o (step s o) := by
  cases o with
  | clock now => exact .same ⟨rfl, rfl, rfl, rfl, rfl, rfl, rfl, rfl, rfl, rfl, rfl, rfl⟩
  | expire => exact .same ⟨rfl, rfl, rfl, rfl, rfl, rfl, rfl, rfl, rfl, rfl, rfl, rfl⟩
  | load t =>
    simp only [step]
    split
    · next h =>
      split
      · next row hc => exact .walk h (.hit row) .rfl
      · exact .walk h .load .rfl
    · exact .same .rfl
  | begin t c =>
    simp only [step]
    split
    · next h => exact .walk h (.begin c) .rfl
    · exact .same .rfl
  | call w hook rejected t =>
    simp only [step]
    split
    · exact .same ⟨rfl, rfl, rfl, rfl, rfl, rfl, rfl, rfl, rfl, rfl, rfl, rfl⟩
    · split
      · next h => exact .walk h (.begin (.midCall rejected)) ⟨rfl, rfl, rfl, rfl, rfl, rfl, rfl, rfl, rfl, rfl, rfl, rfl⟩
      · exact .same .rfl
  | forget hook rejected =>
    simp only [step]
    split
    · split
      · exact .same ⟨rfl, rfl, rfl, rfl, rfl, rfl, rfl, rfl, rfl, rfl, rfl, rfl⟩
      · exact .same .rfl
    · exact .same .rfl
  | lock t =>
    simp only [step]
    split
    · next c h =>
      split_ifs with hfree
      · exact .lock h hfree
      · exact .same .rfl
    · exact .same .rfl
  | giveUp t =>
    simp only [step]
    split
    · next c h =>
      split_ifs
      · exact .same .rfl
      · exact .walk h (.giveUp c) .rfl
    · exact .same .rfl
  | read t => exact readRow_move s t
  | resume t => exact resume_move s t
  | answer t a => exact answer_move s t a
  | save t =>
    simp only [step]
    split
    · next h => exact .saved h
    · exact .same .rfl
  | delete t => exact delete_move s t
  | unlock t =>
    simp only [step]
    split
    · next h => exact .unlock h
    · exact .same .rfl
  | close t =>
    simp only [step]
    split
    · next c o h => exact .walk h (.close c o) .rfl
    · exact .same .rfl
  | notify t route =>
    simp only [step]
    split
    · next h => exact .notify h
    · exact .same .rfl
  | connect tok => exact .connect
  | disconnect t =>
    simp only [step]
    split
    · next h => exact .disconnect h
    · exact .same .rfl

/-! ## What the writes change -/

theorem upsert_same (s : Sys) (tok : Token) : ∃ i n, s.upsert tok = { s with row := some ⟨i, tok⟩, nextId := n, cache := none } := by
  unfold Sys.upsert
  split
  · next r h => exact ⟨r.id, s.nextId, rfl⟩
  · exact ⟨s.nextId, s.nextId + 1, rfl⟩

end Clawbolt.OAuth
