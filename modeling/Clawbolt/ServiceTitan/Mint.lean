/-
The ServiceTitan credential of one user (integrations/servicetitan/auth.py): mints, connects and disconnects, interleaved at
their awaits. The database calls succeed.

A SELECT, a commit, an answer of the token endpoint and a step of the advisory lock are operations of their own. A process
may answer `load_token` from its cache, so that answer is free; the read under the lock is one of the row. `last` and
`minted` are history: what the connects and disconnects have come to, in the order in which they landed, and the bearers with
the client id and secret they were minted with. A DELETE that finds its row gone lands nowhere: the disconnect that removed
the row did.

- `mint_stands`: the row follows the last connect or disconnect in exactly the runs in which each mint saves over the
  credential that it had read; and a stored bearer is always one of the stored id and secret;
- `mint_undoes`: a mint brings back what a reconnect or a disconnect has replaced.
-/
import Mathlib.Tactic
import Clawbolt.Core.Runs
import Clawbolt.Core.Text

namespace Clawbolt.ServiceTitan

open Text (Str strip)
open Runs

/-! ## Credentials -/

/-- `ServiceTitanCredential` -/
structure Credential where
  tenantId : Str
  clientId : Str
  clientSecret : Str
  appKey : Str
  accessToken : Str
  expiresAt : ℤ
deriving DecidableEq

/-- `extra_json` -/
structure Extra where
  tenantId : Str
  clientId : Str
  appKey : Str
deriving DecidableEq

/-- `OAuthTokenData`; the client secret is in the `refresh_token` -/
structure TokenData where
  accessToken : Str
  refreshToken : Str
  expiresAt : ℤ
  realmId : Str
  extra : Extra
deriving DecidableEq

structure Row where
  id : ℕ
  token : TokenData
deriving DecidableEq

def serializeExtra (c : Credential) : Extra := ⟨c.tenantId, c.clientId, c.appKey⟩

/-- the token that `save_credentials` writes -/
def saveCredentials (c : Credential) : TokenData :=
  ⟨c.accessToken, c.clientSecret, c.expiresAt, c.tenantId, serializeExtra c⟩

def credentialFromToken (tok : TokenData) : Credential :=
  ⟨tok.extra.tenantId, tok.extra.clientId, tok.refreshToken, tok.extra.appKey, tok.accessToken, tok.expiresAt⟩

/-- a partial row is none -/
def buildCredentialFromToken (tok : Option TokenData) : Option Credential :=
  (tok.map credentialFromToken).filter fun c => c.tenantId ≠ [] ∧ c.clientId ≠ [] ∧ c.clientSecret ≠ []

/-- `_TOKEN_EXPIRY_BUFFER_SECONDS` -/
def expiryBuffer : ℤ := 30

def Credential.isTokenExpired (c : Credential) (now : ℤ) : Bool :=
  c.accessToken = [] || c.expiresAt ≤ 0 || c.expiresAt - expiryBuffer ≤ now

@[simp] theorem credentialFromToken_saveCredentials (c : Credential) : credentialFromToken (saveCredentials c) = c := rfl

/-- what a user has pasted -/
structure Pasted where
  tenantId : Str
  clientId : Str
  clientSecret : Str
deriving DecidableEq

def Credential.pasted (c : Credential) : Pasted := ⟨c.tenantId, c.clientId, c.clientSecret⟩

/-! ## The code -/

/-- what the token endpoint answers; a 2xx without a token has the empty one -/
inductive Answer where
  | issued (accessToken : Str) (expiresAt : ℤ)
  | failed
deriving DecidableEq

inductive Outcome where
  | credential (c : Credential)
  | nothing
  | failed
  | cleared
deriving DecidableEq

/-- where a coroutine is -/
inductive Phase where
  | away
  /-- `get_valid_token` awaits `load_token` -/
  | loading (force : Bool)
  | locking (force : Bool)
  /-- it awaits the SELECT under the lock -/
  | locked (force : Bool)
  | minting (c : Credential)
  /-- the credential with the new bearer in it -/
  | saving (c : Credential)
  | unlocking (o : Outcome)
  /-- `connect_credentials` awaits the token endpoint -/
  | validating (c : Credential)
  | connecting (c : Credential)
  /-- `delete_token` awaits its SELECT -/
  | clearing
  | clearingRow (row : ℕ)
  | done (o : Outcome)
deriving DecidableEq

structure Sys where
  row : Option Row
  nextId : ℕ
  lock : Option ℕ
  /-- `servicetitan_app_key` -/
  appKey : Str
  phase : ℕ → Phase
  /-- the credential of the last connect, none after a disconnect -/
  last : Option Pasted
  minted : List (Str × Str × Str)

inductive Op where
  | getValidToken (t : ℕ) (force : Bool)
  | load (t : ℕ) (tok : Option TokenData) (now : ℤ)
  | lock (t : ℕ)
  | giveUp (t : ℕ)
  | reread (t : ℕ) (now : ℤ)
  | connect (t : ℕ) (tenantId clientId clientSecret : Str)
  | mint (t : ℕ) (a : Answer)
  | save (t : ℕ)
  | unlock (t : ℕ)
  | disconnect (t : ℕ)
  | select (t : ℕ)
  | delete (t : ℕ)
deriving DecidableEq

namespace Sys

def put (s : Sys) (t : ℕ) (p : Phase) : Sys := { s with phase := Function.update s.phase t p }

/-- `save_token`: the upsert keeps the id of a row -/
def saveToken (s : Sys) (tok : TokenData) : Sys :=
  { s with row := some ⟨(s.row.map Row.id).getD s.nextId, tok⟩, nextId := s.nextId + 1 }

/-- the bearer that was minted for a credential -/
def withBearer (s : Sys) (c : Credential) (accessToken : Str) : Sys :=
  { s with minted := s.minted ++ [(accessToken, c.clientId, c.clientSecret)] }

def init (appKey : Str) : Sys where
  row := none
  nextId := 0
  lock := none
  appKey := appKey
  phase := fun _ => .away
  last := none
  minted := []

/-- what the row holds of a user's input -/
def stored (s : Sys) : Option Pasted := s.row.map fun r => (credentialFromToken r.token).pasted

end Sys

/-- `connect_credentials` up to the token endpoint -/
def connectCredentials (s : Sys) (t : ℕ) (tenantId clientId clientSecret : Str) : Sys :=
  let tenantId := strip tenantId
  let clientId := strip clientId
  let clientSecret := strip clientSecret
  if tenantId = [] ∨ clientId = [] ∨ clientSecret = [] then s.put t (.done .failed)
  else if s.appKey = [] then s.put t (.done .failed)
  else s.put t (.validating ⟨tenantId, clientId, clientSecret, s.appKey, [], 0⟩)

def step (s : Sys) : Op → Sys
  | .getValidToken t force =>
    match s.phase t with
    | .away => s.put t (.loading force)
    | _ => s
  | .load t tok now =>
    match s.phase t with
    | .loading force =>
      match buildCredentialFromToken tok with
      | none => s.put t (.done .nothing)
      | some c => if !force && !c.isTokenExpired now then s.put t (.done (.credential c)) else s.put t (.locking force)
    | _ => s
  | .lock t =>
    match s.phase t with
    | .locking force => if s.lock = none then { s.put t (.locked force) with lock := some t } else s
    | _ => s
  | .giveUp t =>
    match s.phase t with
    | .locking _ => s.put t (.done .nothing)
    | _ => s
  | .reread t now =>
    match s.phase t with
    | .locked force =>
      match buildCredentialFromToken (s.row.map Row.token) with
      | none => s.put t (.unlocking .nothing)
      | some c => if !force && !c.isTokenExpired now then s.put t (.unlocking (.credential c)) else s.put t (.minting c)
    | _ => s
  | .connect t tenantId clientId clientSecret =>
    match s.phase t with
    | .away => connectCredentials s t tenantId clientId clientSecret
    | _ => s
  | .mint t .failed =>
    match s.phase t with
    | .minting _ => s.put t (.unlocking .failed)
    | .validating _ => s.put t (.done .failed)
    | _ => s
  | .mint t (.issued accessToken expiresAt) =>
    match s.phase t with
    | .minting c =>
      if accessToken = [] then s.put t (.unlocking .failed)
      else (s.withBearer c accessToken).put t (.saving { c with accessToken := accessToken, expiresAt := expiresAt })
    | .validating c =>
      if accessToken = [] then s.put t (.done .failed)
      else (s.withBearer c accessToken).put t (.connecting { c with accessToken := accessToken, expiresAt := expiresAt })
    | _ => s
  | .save t =>
    match s.phase t with
    | .saving c => (s.saveToken (saveCredentials c)).put t (.unlocking (.credential c))
    | .connecting c =>
      { (s.saveToken (saveCredentials c)).put t (.done (.credential c)) with last := some c.pasted }
    | _ => s
  | .unlock t =>
    match s.phase t with
    | .unlocking o => { s.put t (.done o) with lock := none }
    | _ => s
  | .disconnect t =>
    match s.phase t with
    | .away => s.put t .clearing
    | _ => s
  | .select t =>
    match s.phase t with
    | .clearing =>
      match s.row with
      | none => { s.put t (.done .cleared) with last := none }
      | some r => s.put t (.clearingRow r.id)
    | _ => s
  | .delete t =>
    match s.phase t with
    | .clearingRow i =>
      if s.row.map Row.id = some i then { s.put t (.done .cleared) with row := none, last := none }
      else s.put t (.done .cleared)
    | _ => s

/-! ## The property and the condition -/

/-- the row holds what the last connect pasted, and there is none after a disconnect -/
def Stands (s : Sys) : Prop := s.stored = s.last

/-- the stored bearer was minted with the stored id and secret -/
def Own (s : Sys) : Prop :=
  ∀ r ∈ s.row, (r.token.accessToken, (credentialFromToken r.token).clientId, (credentialFromToken r.token).clientSecret) ∈ s.minted

/-- when a mint saves, the row still holds the tenant, client id and secret that the mint has read -/
def Undisturbed (s : Sys) : Op → Prop
  | .save t => ∀ c, s.phase t = .saving c → s.stored = some c.pasted
  | _ => True

/-! ## What a step does -/

/-- the credential that a coroutine is about to store -/
def Phase.bears : Phase → Option Credential
  | .saving c | .connecting c => some c
  | _ => none

/-- a credential has a bearer of its own -/
def Sys.Issued (s : Sys) (c : Credential) : Prop := (c.accessToken, c.clientId, c.clientSecret) ∈ s.minted

/-- what a step does to the row and to what the user last asked for -/
inductive Landing (s : Sys) (o : Op) (s' : Sys) : Prop
  | none (hrow : s'.row = s.row) (hlast : s'.last = s.last)
  | minted (t : ℕ) (c : Credential) (i : ℕ) (ho : o = .save t) (hphase : s.phase t = .saving c)
      (hrow : s'.row = some ⟨i, saveCredentials c⟩) (hlast : s'.last = s.last)
  | connected (t : ℕ) (c : Credential) (i : ℕ) (hphase : s.phase t = .connecting c)
      (hrow : s'.row = some ⟨i, saveCredentials c⟩) (hlast : s'.last = some c.pasted)
  | cleared (hrow : s'.row = Option.none) (hlast : s'.last = Option.none)

structure Moved (s : Sys) (o : Op) (s' : Sys) : Prop where
  minted : s.minted ⊆ s'.minted
  bears : ∀ t c, (s'.phase t).bears = some c → (s.phase t).bears = some c ∨ s'.Issued c
  landing : Landing s o s'

variable {s : Sys} {o : Op} {t : ℕ}

@[simp] theorem Sys.put_phase (s : Sys) (t : ℕ) (p : Phase) : (s.put t p).phase = Function.update s.phase t p := rfl

/-- a coroutine goes on, with nothing to store -/
theorem bears_put {p : Phase} (hp : p.bears = none) {t' : ℕ} {c : Credential} (h : ((s.put t p).phase t').bears = some c) :
    (s.phase t').bears = some c := by
  by_cases ht : t' = t
  · rw [ht, Sys.put_phase, Function.update_self, hp] at h
    exact absurd h (by simp)
  · rwa [Sys.put_phase, Function.update_of_ne ht] at h

theorem moved_self : Moved s o s := ⟨List.Subset.refl _, fun _ _ h => .inl h, .none rfl rfl⟩

theorem moved_put {p : Phase} (hp : p.bears = none) : Moved s o (s.put t p) :=
  ⟨List.Subset.refl _, fun _ _ h => .inl (bears_put hp h), .none rfl rfl⟩

/-- the token endpoint gives a bearer -/
theorem moved_issued {c : Credential} {accessToken : Str} {expiresAt : ℤ} {p : Phase}
    (hp : p.bears = some { c with accessToken := accessToken, expiresAt := expiresAt }) :
    Moved s o ((s.withBearer c accessToken).put t p) := by
  refine ⟨List.subset_append_left _ _, ?_, .none rfl rfl⟩
  intro t' c' h
  by_cases ht : t' = t
  · rw [ht, Sys.put_phase, Function.update_self, hp] at h
    obtain rfl := Option.some.inj h
    exact .inr (List.mem_append_right _ (List.mem_singleton.2 rfl))
  · rw [Sys.put_phase, Function.update_of_ne ht] at h
    exact .inl h

theorem moved_connectCredentials (tenantId clientId clientSecret : Str) :
    Moved s o (connectCredentials s t tenantId clientId clientSecret) := by
  rw [connectCredentials]
  split_ifs
  · exact moved_put rfl
  · exact moved_put rfl
  · exact moved_put rfl

theorem step_moved (s : Sys) (o : Op) : Moved s o (step s o) := by
  cases o with
  | getValidToken t force =>
    rw [step]
    split
    · exact moved_put rfl
    · exact moved_self
  | load t tok now =>
    rw [step]
    split
    · split
      · exact moved_put rfl
      · split_ifs
        · exact moved_put rfl
        · exact moved_put rfl
    · exact moved_self
  | lock t =>
    rw [step]
    split
    · split_ifs
      · exact ⟨List.Subset.refl _, fun _ _ h => .inl (bears_put (s := s) rfl h), .none rfl rfl⟩
      · exact moved_self
    · exact moved_self
  | giveUp t =>
    rw [step]
    split
    · exact moved_put rfl
    · exact moved_self
  | reread t now =>
    rw [step]
    split
    · split
      · exact moved_put rfl
      · split_ifs
        · exact moved_put rfl
        · exact moved_put rfl
    · exact moved_self
  | connect t tenantId clientId clientSecret =>
    rw [step]
    split
    · exact moved_connectCredentials tenantId clientId clientSecret
    · exact moved_self
  | mint t a =>
    cases a with
    | failed =>
      rw [step]
      split
      · exact moved_put rfl
      · exact moved_put rfl
      · exact moved_self
    | issued accessToken expiresAt =>
      rw [step]
      split
      · split_ifs
        · exact moved_put rfl
        · exact moved_issued rfl
      · split_ifs
        · exact moved_put rfl
        · exact moved_issued rfl
      · exact moved_self
  | save t =>
    rw [step]
    split
    · rename_i c hphase
      exact ⟨List.Subset.refl _, fun _ _ h => .inl (bears_put (s := s) rfl h), .minted t c _ rfl hphase rfl rfl⟩
    · rename_i c hphase
      exact ⟨List.Subset.refl _, fun _ _ h => .inl (bears_put (s := s) rfl h), .connected t c _ hphase rfl rfl⟩
    · exact moved_self
  | unlock t =>
    rw [step]
    split
    · exact ⟨List.Subset.refl _, fun _ _ h => .inl (bears_put (s := s) rfl h), .none rfl rfl⟩
    · exact moved_self
  | disconnect t =>
    rw [step]
    split
    · exact moved_put rfl
    · exact moved_self
  | select t =>
    rw [step]
    split
    · split
      · rename_i hrow
        exact ⟨List.Subset.refl _, fun _ _ h => .inl (bears_put (s := s) rfl h), .cleared hrow rfl⟩
      · exact moved_put rfl
    · exact moved_self
  | delete t =>
    rw [step]
    split
    · split_ifs
      · exact ⟨List.Subset.refl _, fun _ _ h => .inl (bears_put (s := s) rfl h), .cleared rfl rfl⟩
      · exact moved_put rfl
    · exact moved_self

/-! ## Runs -/

structure Inv (s : Sys) : Prop where
  bears : ∀ t c, (s.phase t).bears = some c → s.Issued c
  own : Own s

theorem inv_init (appKey : Str) : Inv (Sys.init appKey) :=
  ⟨fun t c h => absurd h (by simp [Sys.init, Phase.bears]), fun r hr => absurd hr (by simp [Sys.init])⟩

theorem inv_step (h : Inv s) : Inv (step s o) := by
  obtain ⟨hminted, hbears, hlanding⟩ := step_moved s o
  have hstored : ∀ {c : Credential} {i : ℕ}, s.Issued c → (step s o).row = some ⟨i, saveCredentials c⟩ → Own (step s o) := by
    intro c i hc hrow r hr
    obtain rfl := Option.some.inj (hrow.symm.trans hr)
    exact hminted hc
  refine ⟨fun t c hc => ?_, ?_⟩
  · obtain hc | hc := hbears t c hc
    · exact hminted (h.bears t c hc)
    · exact hc
  · cases hlanding with
    | none hrow _ => exact fun r hr => hminted (h.own r (hrow ▸ hr))
    | minted t c i _ hphase hrow _ => exact hstored (h.bears t c (by rw [hphase]; rfl)) hrow
    | connected t c i hphase hrow _ => exact hstored (h.bears t c (by rw [hphase]; rfl)) hrow
    | cleared hrow _ => exact fun r hr => absurd (hrow.symm.trans hr) (by simp)

/-- a mint that saves leaves what the user asked for as it is, and stores what it had read -/
theorem stored_save {c : Credential} (hphase : s.phase t = .saving c) :
    (step s (.save t)).stored = some c.pasted ∧ (step s (.save t)).last = s.last := by
  rw [step]
  simp only [hphase]
  exact ⟨rfl, rfl⟩

/-- where the row follows the user, it does so after a step exactly if the step meets the condition -/
theorem stands_step (h : Stands s) : Stands (step s o) ↔ Undisturbed s o := by
  by_cases hsave : ∃ t c, o = .save t ∧ s.phase t = .saving c
  · obtain ⟨t, c, rfl, hphase⟩ := hsave
    obtain ⟨hstored, hlast⟩ := stored_save hphase
    rw [Stands, hstored, hlast, ← h]
    constructor
    · intro hc c' hphase'
      obtain rfl := Phase.saving.inj (hphase.symm.trans hphase')
      exact hc.symm
    · intro hun
      exact (hun c hphase).symm
  · have hun : Undisturbed s o := by
      cases o with
      | save t => exact fun c hphase => absurd ⟨t, c, rfl, hphase⟩ hsave
      | _ => trivial
    refine iff_of_true ?_ hun
    cases (step_moved s o).landing with
    | none hrow hlast => rwa [Stands, Sys.stored, hrow, hlast]
    | minted t c i ho hphase _ _ => exact absurd ⟨t, c, ho, hphase⟩ hsave
    | connected t c i _ hrow hlast => rw [Stands, Sys.stored, hrow, hlast]; rfl
    | cleared hrow hlast => rw [Stands, Sys.stored, hrow, hlast]; rfl

theorem own_run (appKey : Str) (ops : List Op) : Own (run step (Sys.init appKey) ops) :=
  (run_inv_all (fun _ _ h => inv_step h) (Sys.init appKey) ops (inv_init appKey)).own

/-- **What the user asked for last stands.** In every run of mints, connects and disconnects, the row follows the last connect
or disconnect after each step if and only if no mint saves over another credential than the one it had read; and a stored
bearer was minted with the stored id and secret in any run. -/
theorem mint_stands (appKey : Str) (ops : List Op) :
    (Meets step (fun s o => Stands (step s o)) (Sys.init appKey) ops ↔ Meets step Undisturbed (Sys.init appKey) ops) ∧
      Own (run step (Sys.init appKey) ops) := by
  have hstep : ∀ s o, Stands s → Undisturbed s o → Stands (step s o) := fun s o h hun => (stands_step h).2 hun
  have hinit : Stands (Sys.init appKey) := rfl
  have hiff : ∀ s o, Stands s → (Stands (step s o) ↔ Undisturbed s o) := fun s o h => stands_step h
  exact ⟨meets_iff hiff hstep hinit, own_run appKey ops⟩

/-- a connect, and a forced mint that awaits the token endpoint -/
def midMint : List Op :=
  [.connect 0 ['1'] ['A'] ['s'], .mint 0 (.issued ['x'] 100), .save 0, .getValidToken 1 true,
    .load 1 (some (saveCredentials ⟨['1'], ['A'], ['s'], ['k'], ['x'], 100⟩)) 0, .lock 1, .reread 1 0]

/-- the user reconnects with other credentials, and the mint ends after it -/
def reconnected : List Op := [.connect 2 ['2'] ['B'] ['t'], .mint 2 (.issued ['y'] 100), .save 2, .mint 1 (.issued ['z'] 100), .save 1]

/-- the user disconnects, and the mint ends after it -/
def disconnected : List Op := [.disconnect 2, .select 2, .delete 2, .mint 1 (.issued ['z'] 100), .save 1]

/-- a mint undoes a reconnect, and a disconnect -/
theorem mint_undoes :
    (run step (Sys.init ['k']) (midMint ++ reconnected)).stored = some ⟨['1'], ['A'], ['s']⟩ ∧
      (run step (Sys.init ['k']) (midMint ++ reconnected)).last = some ⟨['2'], ['B'], ['t']⟩ ∧
      (run step (Sys.init ['k']) (midMint ++ disconnected)).stored = some ⟨['1'], ['A'], ['s']⟩ ∧
      (run step (Sys.init ['k']) (midMint ++ disconnected)).last = none := by
  decide +kernel

end Clawbolt.ServiceTitan
