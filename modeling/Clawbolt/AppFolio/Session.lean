/-
The requests of one AppFolio service (integrations/appfolio_vendor/service.py): calls that run in parallel, a token that one of
them may renew while others wait, and the verdict on a 401.

A call is suspended at its first request, at the refresher and at its second request; opening a client suspends nothing, and a
response counts as seen when its client has been closed.

- `requests_told_apart`: what is called an expired session, when the refresher is called and with what, and how often a
  request is sent, in every interleaving;
- `renewed_twice`: calls that were rejected together may each have the token renewed.
-/
import Mathlib.Tactic
import Clawbolt.Core.Runs
import Clawbolt.Core.Text

namespace Clawbolt.AppFolio

open Text (Str)
open Runs

/-! ## Model -/

/-- a response: its status, and the `login_url` in its body (`_extract_login_url`) -/
structure Response where
  status : ℕ
  loginUrl : Str
deriving DecidableEq

inductive Answer where
  | networkFailure
  | response (r : Response)

/-- how the refresher ends -/
inductive Refreshed where
  | token (newJwt : Option Str)
  | reconnectRequired
  | refreshRefused
  | lockContended
  | failed

/-- how a call ends -/
inductive Exit where
  | answered
  | networkFailure
  | authScope
  | unavailable
  | authExpired
  | httpError (status : ℕ)
deriving DecidableEq

inductive Phase where
  | first
  | refreshing (rejected : Response)
  | second
  | done (exit : Exit)
deriving DecidableEq

structure Call where
  sentJwt : Str
  phase : Phase
  /-- the tokens that its requests carried -/
  sent : List Str
  responses : List Response
  /-- the tokens that it handed to the refresher -/
  handed : List Str
deriving DecidableEq

structure Service where
  jwt : Str
  refreshToken : Str
  hasRefresher : Bool
  sawSuccess : Bool
  refreshSucceeded : Bool
  calls : List Call
  /-- the statuses of all responses -/
  statuses : List ℕ
  /-- the tokens that the refresher has returned -/
  honoured : List Str

inductive Op where
  | begin
  | first (i : ℕ) (a : Answer)
  | refreshed (i : ℕ) (r : Refreshed)
  | second (i : ℕ) (a : Answer)

def Service.put (s : Service) (i : ℕ) (c : Call) : Service := { s with calls := s.calls.set i c }

def Service.exit (s : Service) (i : ℕ) (c : Call) (e : Exit) : Service := s.put i { c with phase := .done e }

/-- a response has come -/
def Service.heard (s : Service) (r : Response) : Service := { s with statuses := s.statuses ++ [r.status] }

def Call.heard (c : Call) (r : Response) : Call := { c with responses := c.responses ++ [r] }

/-- the end of `_request`, with the response that stands -/
def settle (s : Service) (i : ℕ) (c : Call) (r : Response) : Service :=
  if r.status = 401 then
    if r.loginUrl = [] then s.exit i c .authScope
    else if s.sawSuccess || s.refreshSucceeded then s.exit i c .authScope
    else s.exit i c .authExpired
  else if 400 ≤ r.status then s.exit i c (.httpError r.status)
  else { s.exit i c .answered with sawSuccess := true }

/-- the second request, with the token of the moment -/
def resend (s : Service) (i : ℕ) (c : Call) : Service := s.put i { c with phase := .second, sent := c.sent ++ [s.jwt] }

/-- `_renew_rejected_jwt`, up to the refresher -/
def renewRejectedJwt (s : Service) (i : ℕ) (c : Call) (r : Response) : Service :=
  if s.jwt ≠ c.sentJwt then resend s i c
  else if s.refreshSucceeded then settle s i c r
  else if s.hasRefresher = false ∨ s.refreshToken = [] then settle s i c r
  else s.put i { c with phase := .refreshing r, handed := c.handed ++ [c.sentJwt] }

/-- the first request has been answered -/
def onFirst (s : Service) (i : ℕ) (c : Call) : Answer → Service
  | .networkFailure => s.exit i c .networkFailure
  | .response r =>
    if r.status = 401 then
      if r.loginUrl = [] then (s.heard r).exit i (c.heard r) .authScope
      else renewRejectedJwt (s.heard r) i (c.heard r) r
    else settle (s.heard r) i (c.heard r) r

/-- the refresher has ended -/
def onRefreshed (s : Service) (i : ℕ) (c : Call) (r : Response) : Refreshed → Service
  | .reconnectRequired => s.exit i c .authExpired
  | .refreshRefused => s.exit i c .authExpired
  | .lockContended => s.exit i c .unavailable
  | .failed => s.exit i c .unavailable
  | .token none => settle s i c r
  | .token (some newJwt) =>
    if newJwt = [] then settle s i c r
    else resend { s with jwt := newJwt, refreshSucceeded := true, honoured := s.honoured ++ [newJwt] } i c

/-- the second request has been answered -/
def onSecond (s : Service) (i : ℕ) (c : Call) : Answer → Service
  | .networkFailure => s.exit i c .networkFailure
  | .response r => settle (s.heard r) i (c.heard r) r

def step (s : Service) : Op → Service
  | .begin => { s with calls := s.calls ++ [⟨s.jwt, .first, [s.jwt], [], []⟩] }
  | .first i a =>
    match s.calls[i]? with
    | some c =>
      match c.phase with
      | .first => onFirst s i c a
      | _ => s
    | none => s
  | .refreshed i a =>
    match s.calls[i]? with
    | some c =>
      match c.phase with
      | .refreshing r => onRefreshed s i c r a
      | _ => s
    | none => s
  | .second i a =>
    match s.calls[i]? with
    | some c =>
      match c.phase with
      | .second => onSecond s i c a
      | _ => s
    | none => s

/-- a service with its credential -/
def launch (jwt refreshToken : Str) (hasRefresher : Bool) : Service :=
  ⟨jwt, refreshToken, hasRefresher, false, false, [], [], []⟩

/-! ## What is claimed -/

/-- the refresher returns a token other than the one that was rejected -/
def Fresh (s : Service) : Op → Prop
  | .refreshed i (.token (some newJwt)) => ∀ c ∈ s.calls[i]?, newJwt ≠ c.sentJwt
  | _ => True

/-- a 401 that carries a `login_url` -/
def Response.Rejects (r : Response) : Prop := r.status = 401 ∧ r.loginUrl ≠ []

/-- nothing has shown that the credential is live -/
def Service.Unproven (s : Service) : Prop := (∀ status ∈ s.statuses, ¬(200 ≤ status ∧ status < 300)) ∧ s.honoured = []

/-- what a step may do to a call -/
structure Proper (s : Service) (o : Op) : Prop where
  /-- a session is called expired by the refresher, or where nothing has shown it to be live -/
  expired : ∀ i c c', s.calls[i]? = some c → (step s o).calls[i]? = some c' → c.phase ≠ .done .authExpired →
    c'.phase = .done .authExpired →
      o = .refreshed i .reconnectRequired ∨ o = .refreshed i .refreshRefused ∨ (step s o).Unproven
  /-- the refresher is handed the token that the call has sent and that is still the current one, and only as long as it has
  returned none -/
  handed : ∀ i c c', s.calls[i]? = some c → (step s o).calls[i]? = some c' → c'.handed ≠ c.handed →
    c'.handed = c.handed ++ [s.jwt] ∧ c.sent = [s.jwt] ∧ (step s o).jwt = s.jwt ∧ s.honoured = [] ∧
      ∃ r, o = .first i (.response r) ∧ r.Rejects

/-- what holds of a call at any time: it sends its request at most twice, the second time after a rejection and with another
token, and it calls the refresher at most once, after a rejection -/
structure Call.Ok (c : Call) : Prop where
  sent : c.sent = [c.sentJwt] ∨ ∃ t r, c.sent = [c.sentJwt, t] ∧ t ≠ c.sentJwt ∧ c.responses.head? = some r ∧ r.Rejects
  handed : c.handed = [] ∨ c.handed = [c.sentJwt] ∧ ∃ r, c.responses.head? = some r ∧ r.Rejects

/-! ## One step -/

/-- what its phase says of a call -/
def Call.InPhase (c : Call) : Prop :=
  match c.phase with
  | .first => c.sent = [c.sentJwt] ∧ c.responses = [] ∧ c.handed = []
  | .refreshing r => c.sent = [c.sentJwt] ∧ c.responses = [r] ∧ r.Rejects
  | .second => c.responses ≠ []
  | .done _ => True

/-- a call of a service whose first token is `j` -/
structure Call.Sound (j : Str) (c : Call) : Prop where
  ok : c.Ok
  handed : ∀ t ∈ c.handed, t = j

structure Call.Good (j : Str) (c : Call) : Prop extends c.Sound j where
  phase : c.InPhase

/-- the flags of a service whose first token is `j`, apart from `sawSuccess` -/
structure Service.Renewed (j : Str) (s : Service) : Prop where
  renewed : s.refreshSucceeded = true ↔ s.honoured ≠ []
  current : s.jwt = s.honoured.getLast?.getD j

/-- a 2xx has been noted -/
def Service.Noted (s : Service) : Prop := ∀ status ∈ s.statuses, 200 ≤ status ∧ status < 300 → s.sawSuccess = true

structure Inv (j : Str) (s : Service) : Prop where
  renewed : s.Renewed j
  noted : s.Noted
  calls : ∀ c ∈ s.calls, c.Good j

/-- a step of one call: `declared` says that the refresher called the session dead, `rejected` that the first request was
refused with a `login_url` -/
structure Moved (j : Str) (s : Service) (i : ℕ) (c : Call) (s' : Service) (declared rejected : Prop) : Prop where
  renewed : s'.Renewed j
  noted : s'.Noted
  call : ∃ c', s'.calls = s.calls.set i c' ∧ c'.Good j ∧ (c'.phase = .done .authExpired → declared ∨ s'.Unproven) ∧
    (c'.handed = c.handed ∨
      c'.handed = c.handed ++ [s.jwt] ∧ c.sent = [s.jwt] ∧ s'.jwt = s.jwt ∧ s.honoured = [] ∧ rejected)

variable {j : Str} {s : Service} {i : ℕ} {c : Call} {declared rejected : Prop}

theorem Call.Sound.done (h : c.Sound j) (e : Exit) : Call.Good j { c with phase := .done e } :=
  ⟨⟨⟨h.ok.sent, h.ok.handed⟩, h.handed⟩, trivial⟩

/-- a response more -/
theorem Call.Sound.heard (h : c.Sound j) (r : Response) : (c.heard r).Sound j := by
  have hhead : ∀ r', c.responses.head? = some r' → (c.responses ++ [r]).head? = some r' := by
    intro r' hr
    rw [List.head?_append, hr]
    rfl
  refine ⟨⟨h.ok.sent.imp id ?_, h.ok.handed.imp id ?_⟩, h.handed⟩
  · rintro ⟨t, r', hsent, hne, hr, hrej⟩
    exact ⟨t, r', hsent, hne, hhead r' hr, hrej⟩
  · rintro ⟨hhanded, r', hr, hrej⟩
    exact ⟨hhanded, r', hhead r' hr, hrej⟩

/-- a call that ends with the flags as they are -/
theorem moved_exit (hrenewed : s.Renewed j) (hnoted : s.Noted) (hc : c.Sound j) {e : Exit}
    (he : e = .authExpired → declared ∨ s.Unproven) : Moved j s i c (s.exit i c e) declared rejected :=
  ⟨⟨hrenewed.renewed, hrenewed.current⟩, hnoted, _, rfl, hc.done e, fun h => he (Phase.done.inj h), .inl rfl⟩

/-- where no flag is up, nothing has shown the credential to be live -/
theorem unproven_of_flags (hrenewed : s.Renewed j) (hnoted : s.Noted) (h : ¬(s.sawSuccess || s.refreshSucceeded) = true) :
    s.Unproven := by
  rw [Bool.or_eq_true, not_or] at h
  refine ⟨fun status hstatus hok => h.1 (hnoted status hstatus hok), ?_⟩
  by_contra hne
  exact h.2 (hrenewed.renewed.2 hne)

theorem moved_settle (hrenewed : s.Renewed j) {r : Response}
    (hnoted : ∀ status ∈ s.statuses, 200 ≤ status ∧ status < 300 → s.sawSuccess = true ∨ status = r.status)
    (hc : c.Sound j) : Moved j s i c (settle s i c r) declared rejected := by
  have hnoted' : ¬(200 ≤ r.status ∧ r.status < 300) → s.Noted := by
    intro hno status hstatus hok
    obtain h | rfl := hnoted status hstatus hok
    · exact h
    · exact absurd hok hno
  rw [settle]
  split_ifs with h401 hlogin hlive hbad
  · exact moved_exit hrenewed (hnoted' (by omega)) hc fun h => absurd h Exit.noConfusion
  · exact moved_exit hrenewed (hnoted' (by omega)) hc fun h => absurd h Exit.noConfusion
  · have hall := hnoted' (by omega)
    exact moved_exit hrenewed hall hc fun _ => .inr (unproven_of_flags hrenewed hall hlive)
  · exact moved_exit hrenewed (hnoted' (by omega)) hc fun h => absurd h Exit.noConfusion
  · exact ⟨⟨hrenewed.renewed, hrenewed.current⟩, fun _ _ _ => rfl, _, rfl, hc.done _,
      fun h => absurd (Phase.done.inj h) Exit.noConfusion, .inl rfl⟩

/-- a request that is sent again, with another token -/
theorem moved_resend (hrenewed : s.Renewed j) (hnoted : s.Noted) (hsent : c.sent = [c.sentJwt]) (hjwt : s.jwt ≠ c.sentJwt)
    (hrejects : ∃ r, c.responses.head? = some r ∧ r.Rejects) (hc : c.Sound j) :
    Moved j s i c (resend s i c) declared rejected := by
  obtain ⟨r, hr, hrej⟩ := hrejects
  refine ⟨⟨hrenewed.renewed, hrenewed.current⟩, hnoted, _, rfl, ⟨⟨⟨.inr ⟨s.jwt, r, ?_, hjwt, hr, hrej⟩, hc.ok.handed⟩, hc.handed⟩, ?_⟩,
    fun h => absurd h Phase.noConfusion, .inl rfl⟩
  · simp only [hsent]
    rfl
  · intro hnil
    simp only at hnil
    rw [hnil] at hr
    exact absurd hr (by simp)

theorem Service.Renewed.heard (h : s.Renewed j) (r : Response) : (s.heard r).Renewed j := ⟨h.renewed, h.current⟩

theorem Service.Noted.heard (h : s.Noted) {r : Response} (hr : ¬(200 ≤ r.status ∧ r.status < 300)) : (s.heard r).Noted := by
  intro status hstatus hok
  obtain hstatus | hstatus := List.mem_append.1 hstatus
  · exact h status hstatus hok
  · rw [List.mem_singleton.1 hstatus] at hok
    exact absurd hok hr

/-- what is noted of all responses but the last -/
theorem Service.Noted.heard_last (h : s.Noted) (r : Response) : ∀ status ∈ (s.heard r).statuses, 200 ≤ status ∧ status < 300 →
    (s.heard r).sawSuccess = true ∨ status = r.status := by
  intro status hstatus hok
  obtain hstatus | hstatus := List.mem_append.1 hstatus
  · exact .inl (h status hstatus hok)
  · exact .inr (List.mem_singleton.1 hstatus)

/-- the calls and the token are those of before the response -/
theorem Moved.of_heard {r : Response} {s' : Service} (h : Moved j (s.heard r) i (c.heard r) s' declared rejected) :
    Moved j s i c s' declared rejected :=
  ⟨h.renewed, h.noted, h.call⟩

theorem not_ok_of_401 {r : Response} (h : r.status = 401) : ¬(200 ≤ r.status ∧ r.status < 300) := by omega

/-- a rejected token: another one is there, nothing more can be done, or the refresher is called -/
theorem moved_renew (hrenewed : s.Renewed j) (hnoted : s.Noted) {r : Response} (hsent : c.sent = [c.sentJwt])
    (hresponses : c.responses = [r]) (hhanded : c.handed = []) (hrejects : r.Rejects) (hc : c.Sound j) :
    Moved j s i c (renewRejectedJwt s i c r) declared r.Rejects := by
  have hhead : ∃ r', c.responses.head? = some r' ∧ r'.Rejects := ⟨r, by rw [hresponses]; rfl, hrejects⟩
  rw [renewRejectedJwt]
  split_ifs with hother hsucceeded hnone
  · exact moved_resend hrenewed hnoted hsent hother hhead hc
  · exact moved_settle hrenewed (fun status hstatus hok => .inl (hnoted status hstatus hok)) hc
  · exact moved_settle hrenewed (fun status hstatus hok => .inl (hnoted status hstatus hok)) hc
  · have hhonoured : s.honoured = [] := by
      by_contra hne
      exact hsucceeded (hrenewed.renewed.2 hne)
    have hsame : s.jwt = c.sentJwt := not_not.1 hother
    have hfirst : c.sentJwt = j := by
      rw [← hsame, hrenewed.current, hhonoured]
      rfl
    refine ⟨⟨hrenewed.renewed, hrenewed.current⟩, hnoted, _, rfl, ⟨⟨⟨hc.ok.sent, .inr ⟨?_, hhead⟩⟩, ?_⟩, ?_⟩,
      fun h => absurd h Phase.noConfusion, .inr ⟨?_, ?_, rfl, hhonoured, hrejects⟩⟩
    · simp [hhanded]
    · intro t ht
      simp only [hhanded, List.nil_append, List.mem_singleton] at ht
      exact ht.trans hfirst
    · exact ⟨hsent, hresponses, hrejects⟩
    · simp [hsame]
    · rw [hsent, hsame]

theorem moved_first (h : Inv j s) (hc : c.Good j) (hphase : c.phase = .first) (a : Answer) :
    Moved j s i c (onFirst s i c a) declared (∃ r, a = .response r ∧ r.Rejects) := by
  have hin := hc.phase
  rw [Call.InPhase, hphase] at hin
  obtain ⟨hsent, hresponses, hhanded⟩ := hin
  cases a with
  | networkFailure => exact moved_exit h.renewed h.noted hc.toSound fun he => absurd he Exit.noConfusion
  | response r =>
    rw [onFirst]
    split_ifs with h401 hlogin
    · exact (moved_exit (h.renewed.heard r) (h.noted.heard (not_ok_of_401 h401)) (hc.toSound.heard r)
        fun he => absurd he Exit.noConfusion).of_heard
    · have hmoved : Moved j (s.heard r) i (c.heard r) (renewRejectedJwt (s.heard r) i (c.heard r) r) declared r.Rejects :=
        moved_renew (h.renewed.heard r) (h.noted.heard (not_ok_of_401 h401)) hsent (by rw [Call.heard, hresponses]; rfl) hhanded
          ⟨h401, hlogin⟩ (hc.toSound.heard r)
      obtain ⟨hrenewed, hnoted, c', hcalls, hgood, hexpired, hhand⟩ := hmoved.of_heard
      exact ⟨hrenewed, hnoted, c', hcalls, hgood, hexpired,
        hhand.imp id fun ⟨h1, h2, h3, h4, h5⟩ => ⟨h1, h2, h3, h4, r, rfl, h5⟩⟩
    · exact (moved_settle (h.renewed.heard r) (h.noted.heard_last r) (hc.toSound.heard r)).of_heard

theorem moved_refreshed (h : Inv j s) (hc : c.Good j) {r : Response} (hphase : c.phase = .refreshing r) (a : Refreshed)
    (hfresh : ∀ newJwt, a = .token (some newJwt) → newJwt ≠ c.sentJwt) :
    Moved j s i c (onRefreshed s i c r a) (a = .reconnectRequired ∨ a = .refreshRefused) rejected := by
  have hin := hc.phase
  rw [Call.InPhase, hphase] at hin
  obtain ⟨hsent, hresponses, hrejects⟩ := hin
  have hsettle : Moved j s i c (settle s i c r) (a = .reconnectRequired ∨ a = .refreshRefused) rejected :=
    moved_settle h.renewed (fun status hstatus hok => .inl (h.noted status hstatus hok)) hc.toSound
  cases a with
  | reconnectRequired => exact moved_exit h.renewed h.noted hc.toSound fun _ => .inl (.inl rfl)
  | refreshRefused => exact moved_exit h.renewed h.noted hc.toSound fun _ => .inl (.inr rfl)
  | lockContended => exact moved_exit h.renewed h.noted hc.toSound fun he => absurd he Exit.noConfusion
  | failed => exact moved_exit h.renewed h.noted hc.toSound fun he => absurd he Exit.noConfusion
  | token newJwt =>
    cases newJwt with
    | none => exact hsettle
    | some newJwt =>
      rw [onRefreshed]
      by_cases hempty : newJwt = []
      · rw [if_pos hempty]
        exact hsettle
      · rw [if_neg hempty]
        have hrenewed : Service.Renewed j
            { s with jwt := newJwt, refreshSucceeded := true, honoured := s.honoured ++ [newJwt] } :=
          ⟨iff_of_true rfl (List.concat_ne_nil _ _), by rw [List.getLast?_concat]; rfl⟩
        have hmoved := @moved_resend j _ i c (Refreshed.token (some newJwt) = .reconnectRequired ∨
          Refreshed.token (some newJwt) = .refreshRefused) False hrenewed h.noted hsent (hfresh newJwt rfl)
          ⟨r, by rw [hresponses]; rfl, hrejects⟩ hc.toSound
        obtain ⟨c', hcalls, hgood, hexpired, hhand⟩ := hmoved.call
        exact ⟨hmoved.renewed, hmoved.noted, c', hcalls, hgood, hexpired, .inl (hhand.resolve_right fun h => h.2.2.2.2)⟩

theorem moved_second (h : Inv j s) (hc : c.Good j) (a : Answer) : Moved j s i c (onSecond s i c a) declared rejected := by
  cases a with
  | networkFailure => exact moved_exit h.renewed h.noted hc.toSound fun he => absurd he Exit.noConfusion
  | response r => exact (moved_settle (h.renewed.heard r) (h.noted.heard_last r) (hc.toSound.heard r)).of_heard

/-- the refresher that was called for call `i` calls the session dead -/
def Declares (o : Op) (i : ℕ) : Prop := o = .refreshed i .reconnectRequired ∨ o = .refreshed i .refreshRefused

/-- the first request of call `i` is refused with a `login_url` -/
def Refuses (o : Op) (i : ℕ) : Prop := ∃ r, o = .first i (.response r) ∧ r.Rejects

/-- a step begins a call, moves one, or does nothing -/
theorem step_cases (h : Inv j s) {o : Op} (hfresh : Fresh s o) :
    o = .begin ∨ step s o = s ∨ ∃ i c, s.calls[i]? = some c ∧ Moved j s i c (step s o) (Declares o i) (Refuses o i) := by
  have hgood : ∀ {i : ℕ} {c : Call}, s.calls[i]? = some c → c.Good j := fun hc => h.calls _ (List.mem_of_getElem? hc)
  cases o with
  | begin => exact .inl rfl
  | first i a =>
    cases hc : s.calls[i]? with
    | none => exact .inr (.inl (by simp only [step, hc]))
    | some c =>
      cases hphase : c.phase with
      | first =>
        have hstep : step s (.first i a) = onFirst s i c a := by simp only [step, hc, hphase]
        have hmoved := @moved_first j s i c (Declares (.first i a) i) h (hgood hc) hphase a
        refine .inr (.inr ⟨i, c, hc, ?_⟩)
        rw [hstep]
        simpa only [Refuses, Op.first.injEq, true_and] using hmoved
      | refreshing r => exact .inr (.inl (by simp only [step, hc, hphase]))
      | second => exact .inr (.inl (by simp only [step, hc, hphase]))
      | done e => exact .inr (.inl (by simp only [step, hc, hphase]))
  | refreshed i a =>
    cases hc : s.calls[i]? with
    | none => exact .inr (.inl (by simp only [step, hc]))
    | some c =>
      cases hphase : c.phase with
      | refreshing r =>
        have hstep : step s (.refreshed i a) = onRefreshed s i c r a := by simp only [step, hc, hphase]
        have hnew : ∀ newJwt, a = .token (some newJwt) → newJwt ≠ c.sentJwt := by
          rintro newJwt rfl
          exact hfresh c hc
        have hmoved := @moved_refreshed j s i c (Refuses (.refreshed i a) i) h (hgood hc) r hphase a hnew
        refine .inr (.inr ⟨i, c, hc, ?_⟩)
        rw [hstep]
        simpa only [Declares, Op.refreshed.injEq, true_and] using hmoved
      | first => exact .inr (.inl (by simp only [step, hc, hphase]))
      | second => exact .inr (.inl (by simp only [step, hc, hphase]))
      | done e => exact .inr (.inl (by simp only [step, hc, hphase]))
  | second i a =>
    cases hc : s.calls[i]? with
    | none => exact .inr (.inl (by simp only [step, hc]))
    | some c =>
      cases hphase : c.phase with
      | second =>
        have hstep : step s (.second i a) = onSecond s i c a := by simp only [step, hc, hphase]
        refine .inr (.inr ⟨i, c, hc, ?_⟩)
        rw [hstep]
        exact moved_second h (hgood hc) a
      | first => exact .inr (.inl (by simp only [step, hc, hphase]))
      | refreshing r => exact .inr (.inl (by simp only [step, hc, hphase]))
      | done e => exact .inr (.inl (by simp only [step, hc, hphase]))

theorem inv_step (h : Inv j s) {o : Op} (hfresh : Fresh s o) : Inv j (step s o) := by
  obtain rfl | hsame | ⟨i, c, hc, hmoved⟩ := step_cases h hfresh
  · refine ⟨⟨h.renewed.renewed, h.renewed.current⟩, h.noted, ?_⟩
    intro c hc
    obtain hc | hc := List.mem_append.1 hc
    · exact h.calls c hc
    · rw [List.mem_singleton.1 hc]
      exact ⟨⟨⟨.inl rfl, .inl rfl⟩, by simp⟩, rfl, rfl, rfl⟩
  · rw [hsame]
    exact h
  · obtain ⟨c', hcalls, hgood, -, -⟩ := hmoved.call
    refine ⟨hmoved.renewed, hmoved.noted, ?_⟩
    intro c₁ hc₁
    rw [hcalls] at hc₁
    obtain hc₁ | rfl := List.mem_or_eq_of_mem_set hc₁
    · exact h.calls c₁ hc₁
    · exact hgood

/-- the other calls stay as they are -/
theorem Moved.other {s' : Service} (h : Moved j s i c s' declared rejected) (hc : s.calls[i]? = some c) {i' : ℕ} {d d' : Call}
    (hd : s.calls[i']? = some d) (hd' : s'.calls[i']? = some d') : d' = d ∨ i' = i ∧ d = c := by
  obtain ⟨c', hcalls, -⟩ := h.call
  by_cases hi : i' = i
  · subst hi
    have hlt := (List.getElem?_eq_some_iff.1 hc).1
    rw [hcalls, List.getElem?_set_self hlt] at hd'
    obtain rfl := Option.some.inj hd'
    exact .inr ⟨rfl, Option.some.inj (hd.symm.trans hc)⟩
  · rw [hcalls, List.getElem?_set_ne (Ne.symm hi), hd] at hd'
    exact .inl (Option.some.inj hd').symm

theorem proper_of_unmoved {o : Op}
    (h : ∀ (i : ℕ) (c c' : Call), s.calls[i]? = some c → (step s o).calls[i]? = some c' → c' = c) : Proper s o := by
  refine ⟨fun i c c' hc hc' hne he => ?_, fun i c c' hc hc' hne => ?_⟩
  · exact absurd (h i c c' hc hc' ▸ he) hne
  · exact absurd (congrArg Call.handed (h i c c' hc hc')) hne

theorem proper_step (h : Inv j s) {o : Op} (hfresh : Fresh s o) : Proper s o := by
  obtain rfl | hsame | ⟨i, c, hc, hmoved⟩ := step_cases h hfresh
  · apply proper_of_unmoved
    intro i c c' hc hc'
    have hlt := (List.getElem?_eq_some_iff.1 hc).1
    rw [step, List.getElem?_append_left hlt, hc] at hc'
    exact (Option.some.inj hc').symm
  · apply proper_of_unmoved
    intro i c c' hc hc'
    rw [hsame, hc] at hc'
    exact (Option.some.inj hc').symm
  · obtain ⟨c', hcalls, -, hexpired, hhanded⟩ := hmoved.call
    have hlt := (List.getElem?_eq_some_iff.1 hc).1
    have hat : (step s o).calls[i]? = some c' := by rw [hcalls, List.getElem?_set_self hlt]
    refine ⟨fun i' d d' hd hd' hne he => ?_, fun i' d d' hd hd' hne => ?_⟩
    · obtain rfl | ⟨rfl, rfl⟩ := hmoved.other hc hd hd'
      · exact absurd he hne
      · obtain rfl := Option.some.inj (hat.symm.trans hd')
        obtain (hdead | hrefused) | hunproven := hexpired he
        · exact .inl hdead
        · exact .inr (.inl hrefused)
        · exact .inr (.inr hunproven)
    · obtain rfl | ⟨rfl, rfl⟩ := hmoved.other hc hd hd'
      · exact absurd rfl hne
      · obtain rfl := Option.some.inj (hat.symm.trans hd')
        exact hhanded.resolve_left hne

/-! ## Runs -/

theorem inv_launch (jwt refreshToken : Str) (hasRefresher : Bool) : Inv jwt (launch jwt refreshToken hasRefresher) :=
  ⟨⟨by simp [launch], rfl⟩, by simp [Service.Noted, launch], by simp [launch]⟩

/-- **A dead session and a refused route.** In every interleaving of the calls of a service, whatever its requests and its
refresher answer: a session is called expired only by the refresher, or where the service has seen neither a 2xx nor a token
from the refresher. The refresher is called for a call whose one request was refused with a `login_url`, at most once, with
the token which that request carried and which is still the current one, and only as long as no token has been returned: each
time with the first token of the service. A request is sent at most twice, the second time after such a refusal and with
another token. -/
theorem requests_told_apart (jwt refreshToken : Str) (hasRefresher : Bool) (ops : List Op)
    (hfresh : Meets step Fresh (launch jwt refreshToken hasRefresher) ops) :
    Meets step Proper (launch jwt refreshToken hasRefresher) ops ∧
      ∀ c ∈ (run step (launch jwt refreshToken hasRefresher) ops).calls, c.Ok ∧ ∀ t ∈ c.handed, t = jwt := by
  have hstep : ∀ s o, Inv jwt s → Fresh s o → Inv jwt (step s o) := fun s o h hfresh => inv_step h hfresh
  have hproper : ∀ s o, Inv jwt s → Fresh s o → Proper s o := fun s o h hfresh => proper_step h hfresh
  have hinit := inv_launch jwt refreshToken hasRefresher
  refine ⟨meets_inv hstep hproper hinit hfresh, ?_⟩
  intro c hc
  have hgood := (run_inv hstep hfresh hinit).calls c hc
  exact ⟨hgood.ok, hgood.handed⟩

/-- a refusal with a `login_url` -/
def refusal : Answer := .response ⟨401, ['u']⟩

/-- two calls are refused, the refresher answers both, and the second one refuses the first token too -/
def twoRefused : List Op :=
  [.begin, .begin, .first 0 refusal, .first 1 refusal, .refreshed 0 (.token (some ['B'])), .refreshed 1 (.token (some ['C']))]

theorem requests_told_apart_refused : Meets step Proper (launch ['A'] ['R'] true) (twoRefused.take 5) ∧
    ∀ c ∈ (run step (launch ['A'] ['R'] true) (twoRefused.take 5)).calls, c.Ok ∧ ∀ t ∈ c.handed, t = ['A'] := by
  refine requests_told_apart ['A'] ['R'] true (twoRefused.take 5) ⟨trivial, trivial, trivial, trivial, ?_, trivial⟩
  intro c hc
  obtain rfl := Option.mem_some_iff.1 hc
  decide

/-- two calls that were refused together each have the token renewed -/
theorem renewed_twice : Meets step Fresh (launch ['A'] ['R'] true) twoRefused ∧
    (run step (launch ['A'] ['R'] true) twoRefused).honoured = [['B'], ['C']] := by
  refine ⟨⟨trivial, trivial, trivial, trivial, ?_, ?_, trivial⟩, rfl⟩
  · intro c hc
    obtain rfl := Option.mem_some_iff.1 hc
    decide
  · intro c hc
    obtain rfl := Option.mem_some_iff.1 hc
    decide

end Clawbolt.AppFolio
