/-
The named LLM endpoints and what selects them (services/llm_endpoints.py, the routes of routers/user_profile.py and
routers/admin/llm_config.py, `start_run` of routers/admin_model_comparison.py).

A selection is a setting, the override of a user, or the candidate of a comparison run. A request is a phase, and `advance` is
what its task does until it next waits: the reads and the commits of the database are steps of their own. The endpoint cache
is one per process; a load takes its lock, notes the generation, reads the rows and publishes them unless a write reset the
cache meanwhile. Its answer is the rows read, published or not.

Fields of requests that name no endpoint, and the audit log, are left out.
-/
import Mathlib.Tactic
import Clawbolt.Core.Runs
import Clawbolt.Core.Text

namespace Clawbolt.Endpoints

open Text (Str)

/-! ## What is stored -/

/-- the settings that select an endpoint -/
inductive Setting where
  | llmEndpoint
  | visionEndpoint
  | heartbeatEndpoint
  | compactionEndpoint
deriving DecidableEq, Repr

def Setting.all : List Setting := [.llmEndpoint, .visionEndpoint, .heartbeatEndpoint, .compactionEndpoint]

theorem Setting.mem_all (k : Setting) : k ∈ Setting.all := by cases k <;> decide

inductive RunStatus where
  | pending
  | running
  | completed
  | failed
  | cancelled
  | interrupted
deriving DecidableEq, Repr

/-- `ACTIVE_STATUSES` -/
def RunStatus.isActive (status : RunStatus) : Bool := status = .pending || status = .running

/-- a comparison run -/
structure Run where
  id : ℕ
  candidateEndpoint : Str
  status : RunStatus
deriving DecidableEq, Repr

structure Stores where
  /-- the names in `llm_endpoints` -/
  endpoints : List Str
  settings : Setting → Str
  /-- `llm_endpoint_override` of the subscription of a user -/
  overrides : List (ℕ × Str)
  runs : List Run

/-- what a step writes -/
inductive Change where
  | insert (name : Str)
  | remove (name : Str)
  | settings (updates : Setting → Option Str)
  | override (user : ℕ) (value : Str)
  | addRun (id : ℕ) (candidateEndpoint : Str)
  | setStatus (id : ℕ) (status : RunStatus)
  | removeRun (id : ℕ)

def Change.apply (st : Stores) : Change → Stores
  | .insert name => if name ∈ st.endpoints then st else { st with endpoints := st.endpoints ++ [name] }
  | .remove name => { st with endpoints := st.endpoints.filter (· ≠ name) }
  | .settings updates => { st with settings := fun k => (updates k).getD (st.settings k) }
  | .override user value => { st with overrides := st.overrides.map fun o => if o.1 = user then (user, value) else o }
  | .addRun id candidateEndpoint => { st with runs := st.runs ++ [⟨id, candidateEndpoint, .pending⟩] }
  | .setStatus id status => { st with runs := st.runs.map fun r => if r.id = id then { r with status := status } else r }
  | .removeRun id => { st with runs := st.runs.filter fun r => r.id ≠ id }

/-! ## Requests -/

/-- a request that selects endpoints -/
inductive Selecting where
  /-- `update_model_config`, and `update_admin_llm_config`, which only names `llm_endpoint` -/
  | modelConfig (updates : Setting → Option Str)
  /-- with the override as it was loaded -/
  | userOverride (user : ℕ) (value loaded : Str)
  | startRun (id : ℕ) (candidateEndpoint : Str)

/-- the names it asks for; empty ones are not asked for -/
def Selecting.names : Selecting → List Str
  | .modelConfig updates => (Setting.all.map fun k => (updates k).getD []).filter (· ≠ [])
  | .userOverride _ value _ => [value].filter (· ≠ [])
  | .startRun _ candidateEndpoint => [candidateEndpoint].filter (· ≠ [])

def Selecting.change : Selecting → Change
  | .modelConfig updates => .settings updates
  | .userOverride user value _ => .override user value
  | .startRun id candidateEndpoint => .addRun id candidateEndpoint

inductive Request where
  | upsert (name : Str)
  | delete (name : Str)
  | modelConfig (updates : Setting → Option Str)
  | userOverride (user : ℕ) (value : Str)
  | startRun (id : ℕ) (candidateEndpoint : Str)

/-- where a request stands -/
inductive Phase where
  /-- `upsert_endpoint` before its commit, and after it -/
  | upsert (name : Str)
  | upserted
  /-- `endpoint_delete_blockers` before each of its reads, with what it has found -/
  | selectors (name : Str)
  | pins (name : Str) (blocked : Bool)
  | queued (name : Str) (blocked : Bool)
  /-- `delete_endpoint` before it reads the row, before its commit and after it -/
  | selectRow (name : Str)
  | remove (name : Str)
  | removed
  /-- `update_user_llm_config` before it reads the subscription -/
  | subscription (user : ℕ) (value : Str)
  /-- `missing_endpoints` or `resolve_target` before the next name, with what is missing so far -/
  | ask (w : Selecting) (names missing : List Str)
  /-- `_load_endpoints` before it has the lock, before it reads and before it publishes -/
  | lock (w : Selecting) (names missing : List Str)
  | read (w : Selecting) (names missing : List Str) (generation : ℕ)
  | publish (w : Selecting) (names missing : List Str) (generation : ℕ) (rows : List Str)
  /-- before the commit of an override or a run -/
  | commit (w : Selecting)
  /-- the settings object is updated, the store is not saved -/
  | save

inductive Outcome where
  | ok
  | refused
  | notFound
  | failed
deriving DecidableEq, Repr

/-- the endpoint cache -/
structure Cache where
  rows : Option (List Str)
  generation : ℕ
  locked : Bool
deriving DecidableEq, Repr

/-- `reset_llm_endpoint_cache` -/
def Cache.reset (c : Cache) : Cache := { c with rows := none, generation := c.generation + 1 }

/-- what a task does until it next waits -/
structure Move where
  change : Option Change
  cache : Cache
  next : Phase ⊕ Outcome

def Request.begin : Request → Phase
  | .upsert name => .upsert name
  | .delete name => .selectors name
  | .modelConfig updates => .ask (.modelConfig updates) (Selecting.modelConfig updates).names []
  | .userOverride user value => .subscription user value
  | .startRun id candidateEndpoint =>
    .ask (.startRun id candidateEndpoint) (Selecting.startRun id candidateEndpoint).names []

/-- `endpoint_selectors` is not empty -/
def Stores.isSelected (st : Stores) (name : Str) : Bool := Setting.all.any fun k => st.settings k = name

/-- a run that is not finished names it -/
def Stores.isQueued (st : Stores) (name : Str) : Bool := st.runs.any fun r => r.status.isActive && r.candidateEndpoint = name

/-- all names are asked for: a refusal, or the write. The settings object is written without waiting, an override only when
it differs from the loaded one. -/
def conclude (cache : Cache) (w : Selecting) (missing : List Str) : Move :=
  if missing ≠ [] then ⟨none, cache, .inr .refused⟩
  else
    match w with
    | .modelConfig updates => ⟨some (.settings updates), cache, .inl .save⟩
    | .userOverride user value loaded =>
      if value = loaded then ⟨none, cache, .inr .ok⟩ else ⟨none, cache, .inl (.commit (.userOverride user value loaded))⟩
    | .startRun id candidateEndpoint => ⟨none, cache, .inl (.commit (.startRun id candidateEndpoint))⟩

/-- the names that are not in the rows -/
def absent (rows names : List Str) : List Str := names.filter (· ∉ rows)

/-- the names left, when the next one needs no load or there is none -/
def askOn (cache : Cache) (w : Selecting) (names missing : List Str) : Move :=
  match names, cache.rows with
  | [], _ => conclude cache w missing
  | _, some rows => conclude cache w (missing ++ absent rows names)
  | _, none => ⟨none, cache, .inl (.lock w names missing)⟩

/-- `count_endpoint_pins` is not zero -/
def Stores.isPinned (st : Stores) (name : Str) : Bool := st.overrides.any fun o => o.2 = name

def advance (st : Stores) (cache : Cache) : Phase → Move
  | .upsert name => ⟨some (.insert name), cache, .inl .upserted⟩
  | .upserted => ⟨none, cache.reset, .inr .ok⟩
  | .selectors name => ⟨none, cache, .inl (.pins name (st.isSelected name))⟩
  | .pins name blocked => ⟨none, cache, .inl (.queued name (blocked || st.isPinned name))⟩
  | .queued name blocked =>
    if blocked || st.isQueued name then ⟨none, cache, .inr .refused⟩ else ⟨none, cache, .inl (.selectRow name)⟩
  | .selectRow name => if name ∈ st.endpoints then ⟨none, cache, .inl (.remove name)⟩ else ⟨none, cache, .inr .notFound⟩
  | .remove name =>
    if name ∈ st.endpoints then ⟨some (.remove name), cache, .inl .removed⟩ else ⟨none, cache, .inr .failed⟩
  | .removed => ⟨none, cache.reset, .inr .ok⟩
  | .subscription user value =>
    match st.overrides.lookup user with
    | none => ⟨none, cache, .inr .notFound⟩
    | some loaded =>
      ⟨none, cache, .inl (.ask (.userOverride user value loaded) (Selecting.userOverride user value loaded).names [])⟩
  | .ask w names missing => askOn cache w names missing
  | .lock w names missing =>
    if cache.locked then ⟨none, cache, .inl (.lock w names missing)⟩
    else
      match cache.rows with
      | some rows => conclude cache w (missing ++ absent rows names)
      | none => ⟨none, { cache with locked := true }, .inl (.read w names missing cache.generation)⟩
  | .read w names missing generation => ⟨none, cache, .inl (.publish w names missing generation st.endpoints)⟩
  | .publish w names missing generation rows =>
    askOn ⟨if generation = cache.generation then some rows else cache.rows, cache.generation, false⟩ w (names.drop 1)
      (missing ++ absent rows (names.take 1))
  | .commit w => ⟨some w.change, cache, .inr .ok⟩
  | .save => ⟨none, cache, .inr .ok⟩

/-! ## The process -/

structure Sys where
  stores : Stores
  cache : Cache
  requests : List (ℕ × Phase)
  nextId : ℕ
  outcomes : List (ℕ × Outcome)
  /-- the requests that wrote something -/
  changed : List ℕ

inductive Event where
  | start (r : Request)
  /-- the task of a request runs until it next waits -/
  | proceed (i : ℕ)
  /-- the runner, a cancel or the sweep writes the status of a run -/
  | setStatus (id : ℕ) (status : RunStatus)
  | deleteRun (id : ℕ)

/-- what an event writes -/
def change? (s : Sys) : Event → Option Change
  | .start _ => none
  | .proceed i => (s.requests.lookup i).bind fun p => (advance s.stores s.cache p).change
  | .setStatus id status => some (.setStatus id status)
  | .deleteRun id => some (.removeRun id)

def Sys.write (s : Sys) (c : Option Change) : Stores := c.elim s.stores fun c => c.apply s.stores

def step (s : Sys) (e : Event) : Sys :=
  match e with
  | .start r => { s with requests := s.requests ++ [(s.nextId, r.begin)], nextId := s.nextId + 1 }
  | .proceed i =>
    match s.requests.lookup i with
    | none => s
    | some p =>
      let m := advance s.stores s.cache p
      { s with
        stores := s.write (change? s e)
        cache := m.cache
        requests :=
          match m.next with
          | .inl p' => s.requests.map fun q => if q.1 = i then (i, p') else q
          | .inr _ => s.requests.filter fun q => q.1 ≠ i
        outcomes :=
          match m.next with
          | .inl _ => s.outcomes
          | .inr o => s.outcomes ++ [(i, o)]
        changed := if m.change.isSome then s.changed ++ [i] else s.changed }
  | .setStatus _ _ => { s with stores := s.write (change? s e) }
  | .deleteRun _ => { s with stores := s.write (change? s e) }

theorem step_stores (s : Sys) (e : Event) : (step s e).stores = s.write (change? s e) := by
  cases e with
  | start r => rfl
  | setStatus id status => rfl
  | deleteRun id => rfl
  | proceed i =>
    cases h : s.requests.lookup i with
    | none => simp [step, change?, h, Sys.write]
    | some p => simp [step, h]

end Clawbolt.Endpoints
