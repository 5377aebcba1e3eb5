/-
The guard of the platform settings and the authenticator behind it (`AdminConfigGuardMiddleware` of
middleware/admin_config_guard.py, `resolve_multi_user` of auth/session_auth.py, `authenticate_api_key` of
services/admin_api_keys.py).

Both read the Authorization header, the guard from the raw bytes. The guard knows one family of tokens, the JSON web tokens of
sessions; the authenticator knows the API keys of admins too.

Results:
- `framework_header`: both read the same token;
- `role_of_authenticated`: an API key that authenticates is one of an admin;
- `guard_agrees`: the guard agrees with the authenticator if and only if no API key authenticates;
- `admin_locked_out`: an admin with an API key.
-/
import Mathlib.Tactic
import Clawbolt.Core.Text

namespace Clawbolt.Auth

open Text (Str)

/-! ## Model -/

structure User where
  id : Str
  isActive : Bool
deriving DecidableEq, Repr

structure Subscription where
  userId : Str
  role : Str
deriving DecidableEq, Repr

structure AdminApiKey where
  userId : Str
  keyHash : Str
  revoked : Bool
deriving DecidableEq, Repr

structure Db where
  users : List User
  subscriptions : List Subscription
  keys : List AdminApiKey

/-- `is_api_key_token` -/
def isApiKeyToken (token : Str) : Bool := Text.startsWith "ck_".toList token

/-- the tokens: the `sub` of an access token that is valid, and the hash of a key -/
structure Tokens where
  decodeAccessToken : Str → Option (Option Str)
  hashToken : Str → Str
  /-- a JSON web token starts with its header, in base64 -/
  decode_nil : decodeAccessToken [] = none
  decode_key : ∀ token, isApiKeyToken token = true → decodeAccessToken token = none

/-- an HTTP request, with the raw headers of its scope, names in lower case -/
structure Request where
  method : Str
  path : Str
  headers : List (List UInt8 × List UInt8)

variable (tokens : Tokens) (db : Db)

def userById (id : Str) : Option User := db.users.find? fun u => u.id = id

/-- `Subscription.role` of a user is admin -/
def IsAdminRole (id : Str) : Prop := ∃ sub, (db.subscriptions.find? fun sub => sub.userId = id) = some sub ∧ sub.role = "admin".toList

def hasAdminRole (id : Str) : Bool :=
  match db.subscriptions.find? fun sub => sub.userId = id with
  | some sub => sub.role = "admin".toList
  | none => false

def latin1 (bytes : List UInt8) : Str := bytes.map fun b => Char.ofNat b.toNat

/-- a header name as bytes -/
def encodeLatin1 (name : Str) : List UInt8 := name.map fun c => UInt8.ofNat c.toNat

def bearer : Str := "Bearer ".toList

/-! ### The authenticator -/

/-- `Headers.get` of the framework -/
def headersGet (r : Request) (name : Str) : Option Str :=
  (r.headers.find? fun h => h.1 = encodeLatin1 (name.map Char.toLower)).map fun h => latin1 h.2

/-- `authenticate_api_key` -/
def authenticateApiKey (token : Str) : Option User :=
  if isApiKeyToken token then
    match db.keys.find? fun key => key.keyHash = tokens.hashToken token with
    | none => none
    | some key =>
      if key.revoked then none
      else
        match userById db key.userId with
        | none => none
        | some user => if user.isActive && hasAdminRole db user.id then some user else none
  else none

/-- `resolve_multi_user`: none where it raises -/
def resolveMultiUser (r : Request) : Option User :=
  match headersGet r "Authorization".toList with
  | none => none
  | some authorization =>
    if Text.startsWith bearer authorization then
      let token := authorization.drop bearer.length
      if isApiKeyToken token then authenticateApiKey tokens db token
      else
        match tokens.decodeAccessToken token with
        | some (some userId) => if userId = [] then none else (userById db userId).filter User.isActive
        | _ => none
    else none

/-! ### The guard -/

/-- `_PUT_PROTECTED_PATHS` -/
def putProtectedPaths : List Str := ["/api/user/model/config".toList, "/api/user/channels/config".toList]

/-- `_GET_PROTECTED_PATHS` -/
def getProtectedPaths : List Str := ["/api/user/model/config".toList, "/api/user/conversation/system-prompt".toList]

/-- `_PROTECTED_PREFIXES` -/
def protectedStart : Str := "/api/user/model/endpoints".toList

def isProtected (r : Request) : Bool :=
  (r.method = "PUT".toList ∧ r.path ∈ putProtectedPaths) ∨ (r.method = "GET".toList ∧ r.path ∈ getProtectedPaths) ∨
    Text.startsWith protectedStart r.path = true

/-- the token that the guard reads -/
def guardToken (r : Request) : Option Str :=
  match r.headers.find? fun h => h.1 = encodeLatin1 "authorization".toList with
  | none => none
  | some h =>
    let value := latin1 h.2
    if Text.startsWith bearer value then some (value.drop bearer.length) else none

/-- `_is_admin` -/
def isAdmin (token : Str) : Bool :=
  match tokens.decodeAccessToken token with
  | some (some userId) => userId ≠ [] && hasAdminRole db userId
  | _ => false

/-- the guard, and the handler behind it, which depends on the authenticator: the handler runs -/
def handlerRuns (r : Request) : Bool :=
  let app := (resolveMultiUser tokens db r).isSome
  if isProtected r then
    match guardToken r with
    | none => app
    | some token => if token = [] then app else isAdmin tokens db token && app
  else app

/-! ## Both read one token -/

section
variable {tokens} {db}

theorem hasAdminRole_iff {id : Str} : hasAdminRole db id = true ↔ IsAdminRole db id := by
  rw [hasAdminRole, IsAdminRole]
  cases db.subscriptions.find? fun sub => sub.userId = id with
  | none => simp
  | some sub => simp

theorem framework_header (r : Request) : guardToken r = (headersGet r "Authorization".toList).bind fun authorization =>
    if Text.startsWith bearer authorization then some (authorization.drop bearer.length) else none := by
  have hname : "authorization".toList = "Authorization".toList.map Char.toLower := by decide
  rw [guardToken, headersGet, hname]
  cases r.headers.find? fun h => h.1 = encodeLatin1 ("Authorization".toList.map Char.toLower) with
  | none => rfl
  | some h => rfl

/-- the authenticator, by the token of the guard -/
theorem resolveMultiUser_eq (r : Request) : resolveMultiUser tokens db r = (guardToken r).bind fun token =>
    if isApiKeyToken token then authenticateApiKey tokens db token
    else
      match tokens.decodeAccessToken token with
      | some (some userId) => if userId = [] then none else (userById db userId).filter User.isActive
      | _ => none := by
  rw [framework_header, resolveMultiUser]
  cases headersGet r "Authorization".toList with
  | none => rfl
  | some authorization =>
    dsimp only [Option.bind_some]
    by_cases hbearer : Text.startsWith bearer authorization = true
    · rw [if_pos hbearer, if_pos hbearer, Option.bind_some]
    · rw [if_neg hbearer, if_neg hbearer, Option.bind_none]

theorem id_of_userById {id : Str} {user : User} (h : userById db id = some user) : user.id = id :=
  of_decide_eq_true (List.find?_some (p := fun u : User => decide (u.id = id)) h)

/-- **Keys are of admins.** -/
theorem role_of_authenticated {token : Str} {user : User} (h : authenticateApiKey tokens db token = some user) :
    IsAdminRole db user.id := by
  unfold authenticateApiKey at h
  split_ifs at h
  split at h
  next => cases h
  next key _ =>
    split_ifs at h
    split at h
    next => cases h
    next found _ =>
      split_ifs at h with hadmin
      obtain rfl := Option.some.inj h
      rw [Bool.and_eq_true] at hadmin
      exact hasAdminRole_iff.1 hadmin.2

end

/-- the claim, for a request -/
def Agrees (r : Request) : Prop :=
  handlerRuns tokens db r = true ↔ ∃ user, resolveMultiUser tokens db r = some user ∧ IsAdminRole db user.id

/-- the request carries an API key that authenticates -/
def CarriesKey (r : Request) : Prop :=
  ∃ token, guardToken r = some token ∧ isApiKeyToken token = true ∧ authenticateApiKey tokens db token ≠ none

/-- **The guard.** For every request, tokens and state: on a guarded path the handler runs for exactly the admins among the
users that the authenticator returns, if and only if the request carries no API key that authenticates. -/
theorem guard_agrees (tokens : Tokens) (db : Db) (r : Request) :
    (isProtected r = true → Agrees tokens db r) ↔ (isProtected r = true → ¬CarriesKey tokens db r) := by
  refine imp_congr_right fun hprotected => ?_
  rw [Agrees, CarriesKey, handlerRuns, if_pos hprotected, resolveMultiUser_eq]
  cases htoken : guardToken r with
  | none =>
    refine iff_of_true ?_ (by rintro ⟨token, h, -⟩; cases h)
    simp
  | some token =>
    simp only [Option.bind_some, Option.some.injEq]
    by_cases hkey : isApiKeyToken token = true
    · -- the guard takes a key for a token that is not valid
      have hne : token ≠ [] := by
        rintro rfl
        exact absurd hkey (by decide)
      have hadmin : isAdmin tokens db token = false := by rw [isAdmin, tokens.decode_key token hkey]
      rw [if_pos hkey, if_neg hne, hadmin, Bool.false_and]
      cases hauth : authenticateApiKey tokens db token with
      | none => exact iff_of_true (by simp) (by rintro ⟨_, rfl, -, h⟩; exact h hauth)
      | some user =>
        refine iff_of_false (fun h => ?_) fun h => h ⟨token, rfl, hkey, by rw [hauth]; exact Option.some_ne_none user⟩
        exact absurd (h.2 ⟨user, rfl, role_of_authenticated hauth⟩) Bool.false_ne_true
    · refine iff_of_true ?_ (by rintro ⟨_, rfl, h, -⟩; exact hkey h)
      rw [if_neg hkey]
      by_cases hnil : token = []
      · subst hnil
        rw [tokens.decode_nil]
        simp
      · rw [if_neg hnil, isAdmin]
        split
        next userId _ =>
          by_cases hid : userId = []
          · simp [hid]
          · rw [if_neg hid, Bool.and_eq_true, Bool.and_eq_true, decide_eq_true_eq, Option.isSome_iff_exists]
            constructor
            · rintro ⟨⟨-, hrole⟩, user, huser⟩
              refine ⟨user, huser, ?_⟩
              rw [id_of_userById (Option.filter_eq_some_iff.1 huser).1]
              exact hasAdminRole_iff.1 hrole
            · rintro ⟨user, huser, hrole⟩
              rw [id_of_userById (Option.filter_eq_some_iff.1 huser).1] at hrole
              exact ⟨⟨hid, hasAdminRole_iff.2 hrole⟩, user, huser⟩
        next => simp

/-- a session of the admin, and no hash at all -/
def oneSession : Tokens where
  decodeAccessToken token := if token = "eyJ".toList then some (some ['a']) else none
  hashToken := id
  decode_nil := by decide
  decode_key := by
    intro token h
    rw [if_neg]
    rintro rfl
    exact absurd h (by decide)

/-- an admin with an API key -/
def withKey : Db := ⟨[⟨['a'], true⟩], [⟨['a'], "admin".toList⟩], [⟨['a'], "ck_1".toList, false⟩]⟩

def readConfig (token : String) : Request :=
  ⟨"GET".toList, "/api/user/model/config".toList,
    [(encodeLatin1 "authorization".toList, encodeLatin1 ("Bearer ".toList ++ token.toList))]⟩

/-- **An admin who is locked out.** The authenticator accepts the key of an admin, and the guard does not let it pass; with a
session the same admin reads the settings. -/
theorem admin_locked_out :
    resolveMultiUser oneSession withKey (readConfig "ck_1") = some ⟨['a'], true⟩ ∧ hasAdminRole withKey ['a'] = true ∧
      handlerRuns oneSession withKey (readConfig "ck_1") = false ∧ handlerRuns oneSession withKey (readConfig "eyJ") = true := by
  refine ⟨?_, ?_, ?_, ?_⟩
  · decide +kernel
  · decide +kernel
  · decide +kernel
  · decide +kernel

end Clawbolt.Auth
