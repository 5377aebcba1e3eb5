/-
Alerts about failed tool calls (services/tool_failure_alerts.py), with the consent cache and the tasks that warm it.

`handle_tool_failure` and `_warm_consent` are split at their awaits, of which each `async with` is one; the database reads a
row somewhere between a query and its answer. The clock of `time.monotonic` never goes back, and the tasks are not cancelled.
The reads are ghost data: each is one session of `_warm_consent`, from its query until it is closed.

- `inv_step`: what every step keeps;
- `failure_samples`: detail is recorded only shortly after a read that returned true, and a user is warming while the one warm
  of it runs; in runs whose detailed failures are clear, no sample shows a match;
- `card_cut`: clipping cuts a card number, and seven of its digits are recorded.
-/
import Mathlib.Tactic
import Clawbolt.Core.Runs
import Clawbolt.Core.Json
import Clawbolt.Alerts.FailureSample

namespace Clawbolt.FailureAlerts

open Text (Str)
open SharedData (Unicode)

/-! ## Model -/

/-- `ALERTING_KINDS` -/
def alertingKinds : List Str := ["internal".toList, "service".toList, "auth".toList]

/-- `_CONSENT_TTL_SECONDS` -/
def consentTtlSeconds : ℚ := 60

/-- `_MAX_CONSENT_ENTRIES` -/
def maxConsentEntries : ℕ := 2000

/-- where a `_warm_consent` is -/
inductive Phase where
  | created
  /-- it awaits `execute`; the database has read the row when a value is there -/
  | reading (startedAt : ℚ) (row : Option Bool)
  /-- it awaits `close`, with what was answered and when, or with an exception -/
  | closing (startedAt : ℚ) (answer : Option (Bool × ℚ))
  /-- it awaits the lock -/
  | finishing
  | done
deriving DecidableEq, Repr

structure Warm where
  userId : Str
  phase : Phase
deriving DecidableEq, Repr

/-- a read of `_warm_consent` -/
structure Read where
  userId : Str
  consented : Bool
  startedAt : ℚ
  answeredAt : ℚ
  closedAt : ℚ
deriving DecidableEq, Repr

/-- a call of `record_tool_failure` -/
structure Record where
  time : ℚ
  payload : Payload
  sample : Option Str
deriving DecidableEq, Repr

structure State where
  now : ℚ
  /-- the users whose row holds their consent -/
  consenting : List Str
  cache : Dict (Bool × ℚ)
  warming : List Str
  /-- the tasks, in the order of their creation -/
  warms : List Warm
  /-- the handlers that await the lock -/
  waiting : List Payload
  reads : List Read
  recorded : List Record

def init : State := ⟨0, [], [], [], [], [], [], []⟩

inductive Event where
  | clock (time : ℚ)
  | setConsent (userId : Str) (consented : Bool)
  /-- `handle_tool_failure` until its first await, with what `is_enabled` answers -/
  | fail (payload : Payload) (enabled : Bool)
  /-- a handler that awaits the lock has it -/
  | locked (i : ℕ)
  /-- the database reads the row of a query -/
  | readRow (i : ℕ)
  /-- a warm goes on until its next await, where it goes on with an exception or without -/
  | warm (i : ℕ) (raises : Bool)

variable (u : Unicode)

/-- `_cached_consent`: the answer, and the cache after it -/
def cachedConsent (s : State) (userId : Str) : Option Bool × Dict (Bool × ℚ) :=
  match s.cache.lookup userId with
  | none => (none, s.cache)
  | some (consented, expiresAt) =>
    if expiresAt ≤ s.now then (none, Dict.erase userId s.cache) else (some consented, s.cache)

/-- `_store_consent` -/
def storeConsent (s : State) (userId : Str) (consented : Bool) : Dict (Bool × ℚ) :=
  Dict.set userId (consented, s.now + consentTtlSeconds) (if maxConsentEntries ≤ s.cache.length then [] else s.cache)

/-- the end of `handle_tool_failure`, with the cut of `record_tool_failure` -/
def record (s : State) (p : Payload) (consented : Bool) : State :=
  { s with recorded := s.recorded ++ [⟨s.now, p, if consented then some ((formatSample u p).take maxSampleChars) else none⟩] }

def fail (s : State) (p : Payload) (enabled : Bool) : State :=
  if !alertingKinds.contains p.errorKind then s
  else if !enabled then s
  else
    match cachedConsent s p.userId with
    | (none, cache) => { s with cache := cache, waiting := s.waiting ++ [p] }
    | (some consented, cache) => record u { s with cache := cache } p consented

/-- the locked part of `handle_tool_failure`, and its end -/
def locked (s : State) (i : ℕ) : State :=
  match s.waiting[i]? with
  | none => s
  | some p =>
    let s := { s with waiting := s.waiting.eraseIdx i }
    let s := if s.warming.contains p.userId then s
      else { s with warming := s.warming ++ [p.userId], warms := s.warms ++ [⟨p.userId, .created⟩] }
    record u s p false

def readRow (s : State) (i : ℕ) : State :=
  match s.warms[i]? with
  | some ⟨userId, .reading startedAt none⟩ =>
    { s with warms := s.warms.set i ⟨userId, .reading startedAt (some (s.consenting.contains userId))⟩ }
  | _ => s

/-- a part of `_warm_consent`: a session that cannot be opened, a query or a close that raises, or none of these -/
def warm (s : State) (i : ℕ) (raises : Bool) : State :=
  match s.warms[i]? with
  | none => s
  | some w =>
    match w.phase, raises with
    | .created, false => { s with warms := s.warms.set i { w with phase := .reading s.now none } }
    | .created, true => { s with warms := s.warms.set i { w with phase := .finishing } }
    | .reading startedAt (some row), false =>
      { s with warms := s.warms.set i { w with phase := .closing startedAt (some (row, s.now)) } }
    | .reading _ none, false => s
    | .reading startedAt _, true => { s with warms := s.warms.set i { w with phase := .closing startedAt none } }
    | .closing startedAt (some (consented, answeredAt)), false =>
      { s with
        cache := storeConsent s w.userId consented
        warms := s.warms.set i { w with phase := .finishing }
        reads := s.reads ++ [⟨w.userId, consented, startedAt, answeredAt, s.now⟩] }
    | .closing .., _ => { s with warms := s.warms.set i { w with phase := .finishing } }
    | .finishing, _ =>
      { s with warming := s.warming.filter (· ≠ w.userId), warms := s.warms.set i { w with phase := .done } }
    | .done, _ => s

def step (s : State) : Event → State
  | .clock time => { s with now := max s.now time }
  | .setConsent userId consented =>
    { s with consenting := if consented then userId :: s.consenting else s.consenting.filter (· ≠ userId) }
  | .fail payload enabled => fail u s payload enabled
  | .locked i => locked u s i
  | .readRow i => readRow s i
  | .warm i raises => warm s i raises

abbrev run (events : List Event) : State := Runs.run (step u) init events

/-! ## What is claimed -/

/-- how long a read took -/
def Read.duration (r : Read) : ℚ := r.closedAt - r.startedAt

/-- detail follows a read of the user's consent that returned true, by the lifetime of the cache and the read's own duration -/
def Consented (s : State) : Prop :=
  ∀ x ∈ s.recorded, x.sample.isSome = true → ∃ r ∈ s.reads, r.userId = x.payload.userId ∧ r.consented = true ∧
    r.answeredAt ≤ x.time ∧ x.time - (consentTtlSeconds + r.duration) ≤ r.answeredAt

def Warm.inFlight (w : Warm) : Bool := w.phase ≠ .done

/-- no two warms of a user are in flight, and a user is marked as warming while one is -/
structure WarmedOnce (s : State) : Prop where
  nodup : ((s.warms.filter Warm.inFlight).map Warm.userId).Nodup
  marked : ∀ userId, userId ∈ s.warming ↔ userId ∈ (s.warms.filter Warm.inFlight).map Warm.userId

/-- a sample is that of its failure, cut, and no match comes through -/
def Hidden (s : State) : Prop :=
  ∀ x ∈ s.recorded, ∀ sample ∈ x.sample, sample = (formatSample u x.payload).take maxSampleChars ∧ Hides u x.payload

/-- a failure of which the detail is recorded is clear -/
def ClearStep (s : State) : Event → Prop
  | .fail p _ => (cachedConsent s p.userId).1 = some true → Clear u p
  | _ => True

/-! ## The invariant -/

variable {u} {s : State}

/-- a session that is open was opened before, and an answer came between -/
def Timely (now : ℚ) : Phase → Prop
  | .reading startedAt _ => startedAt ≤ now
  | .closing startedAt (some (_, answeredAt)) => startedAt ≤ answeredAt ∧ answeredAt ≤ now
  | _ => True

structure Inv (s : State) : Prop where
  cached : ∀ userId consented expiresAt, s.cache.lookup userId = some (consented, expiresAt) →
    ∃ r ∈ s.reads, r.userId = userId ∧ r.consented = consented ∧ expiresAt = r.closedAt + consentTtlSeconds ∧
      r.startedAt ≤ r.answeredAt ∧ r.answeredAt ≤ r.closedAt ∧ r.closedAt ≤ s.now
  timely : ∀ w ∈ s.warms, Timely s.now w.phase
  consented : Consented s
  once : WarmedOnce s

theorem Timely.mono {now now' : ℚ} (hle : now ≤ now') {phase : Phase} (h : Timely now phase) : Timely now' phase := by
  cases phase with
  | reading startedAt row => exact le_trans h hle
  | closing startedAt answer =>
    cases answer with
    | none => trivial
    | some answer => exact ⟨h.1, h.2.trans hle⟩
  | created => trivial
  | finishing => trivial
  | done => trivial

/-- a consent that is found is in the cache, and has not expired -/
theorem cachedConsent_some {userId : Str} {consented : Bool} (h : (cachedConsent s userId).1 = some consented) :
    (cachedConsent s userId).2 = s.cache ∧ ∃ expiresAt, s.cache.lookup userId = some (consented, expiresAt) ∧ s.now < expiresAt := by
  rw [cachedConsent] at h ⊢
  cases hlookup : s.cache.lookup userId with
  | none =>
    rw [hlookup] at h
    cases h
  | some entry =>
    obtain ⟨consented', expiresAt⟩ := entry
    simp only [hlookup] at h ⊢
    split_ifs at h ⊢ with hexpired
    obtain rfl := Option.some.inj h
    exact ⟨rfl, expiresAt, rfl, not_le.1 hexpired⟩

/-- looking a consent up adds nothing to the cache -/
theorem cachedConsent_lookup {userId key : Str} {entry : Bool × ℚ} (h : (cachedConsent s userId).2.lookup key = some entry) :
    s.cache.lookup key = some entry := by
  rw [cachedConsent] at h
  split at h
  · exact h
  · split_ifs at h with hexpired
    · rw [Dict.lookup_erase] at h
      split_ifs at h
      exact h
    · exact h

/-! ### Recording -/

/-- a failure with detail is recorded while its consent is in the cache -/
theorem Inv.record (h : Inv s) (p : Payload) {consented : Bool} (hconsented : consented = true →
    ∃ expiresAt, s.cache.lookup p.userId = some (true, expiresAt) ∧ s.now < expiresAt) : Inv (record u s p consented) := by
  refine ⟨h.cached, h.timely, ?_, ⟨h.once.nodup, h.once.marked⟩⟩
  intro x hx hdetail
  rcases List.mem_append.1 hx with hx | hx
  · exact h.consented x hx hdetail
  · obtain rfl := List.mem_singleton.1 hx
    have htrue : consented = true := by
      cases consented with
      | true => rfl
      | false => cases hdetail
    obtain ⟨expiresAt, hlookup, hfresh⟩ := hconsented htrue
    obtain ⟨r, hr, huser, hanswer, rfl, hstarted, hanswered, hclosed⟩ := h.cached _ _ _ hlookup
    refine ⟨r, hr, huser, hanswer, hanswered.trans hclosed, ?_⟩
    rw [Read.duration]
    linarith

/-- an entry is dropped from the cache -/
theorem Inv.drop (h : Inv s) {cache : Dict (Bool × ℚ)}
    (hcache : ∀ key entry, cache.lookup key = some entry → s.cache.lookup key = some entry) : Inv { s with cache := cache } :=
  ⟨fun userId consented expiresAt hlookup => h.cached userId consented expiresAt (hcache _ _ hlookup), h.timely,
    h.consented, ⟨h.once.nodup, h.once.marked⟩⟩

theorem Inv.fail (h : Inv s) (p : Payload) (enabled : Bool) : Inv (fail u s p enabled) := by
  rw [FailureAlerts.fail]
  split
  · exact h
  · split
    · exact h
    · have hdrop : Inv { s with cache := (cachedConsent s p.userId).2 } :=
        h.drop fun key entry hlookup => cachedConsent_lookup hlookup
      cases hcached : cachedConsent s p.userId with
      | mk answer cache =>
        rw [hcached] at hdrop
        cases answer with
        | none => exact ⟨hdrop.cached, hdrop.timely, hdrop.consented, ⟨hdrop.once.nodup, hdrop.once.marked⟩⟩
        | some consented =>
          refine hdrop.record p fun htrue => ?_
          obtain ⟨hsame, expiresAt, hlookup, hfresh⟩ := cachedConsent_some (congrArg Prod.fst hcached)
          rw [hcached] at hsame
          obtain rfl : cache = s.cache := hsame
          rw [htrue] at hlookup
          exact ⟨expiresAt, hlookup, hfresh⟩

/-! ### Warms -/

/-- the users of the warms in flight -/
def flying (warms : List Warm) : List Str := (warms.filter Warm.inFlight).map Warm.userId

/-- the warm that changes, and the others -/
theorem flying_set {warms : List Warm} {i : ℕ} {w : Warm} (hw : warms[i]? = some w) (hflight : w.inFlight = true) (w' : Warm) :
    ∃ a b, flying warms = a ++ w.userId :: b ∧
      flying (warms.set i w') = a ++ (if w'.inFlight = true then [w'.userId] else []) ++ b := by
  obtain ⟨hlt, hget⟩ := List.getElem?_eq_some_iff.1 hw
  refine ⟨flying (warms.take i), flying (warms.drop (i + 1)), ?_, ?_⟩
  · have hsplit : warms = warms.take i ++ w :: warms.drop (i + 1) := by
      rw [← hget, List.cons_getElem_drop_succ, List.take_append_drop]
    conv_lhs => rw [hsplit]
    simp [flying, hflight]
  · rw [List.set_eq_take_append_cons_drop, if_pos hlt]
    cases hw' : w'.inFlight <;> simp [flying, hw']

/-- one warm that goes on in time, among others that are -/
theorem timely_set {now : ℚ} {warms : List Warm} (h : ∀ x ∈ warms, Timely now x.phase) (i : ℕ) {w : Warm}
    (hw : Timely now w.phase) : ∀ x ∈ warms.set i w, Timely now x.phase := by
  intro x hx
  rcases List.mem_or_eq_of_mem_set hx with hx | rfl
  · exact h x hx
  · exact hw

/-- a warm in flight goes on, with the clock where it is -/
theorem Inv.setWarm (h : Inv s) {i : ℕ} {w : Warm} (hw : s.warms[i]? = some w) (hflight : w.phase ≠ .done) {phase : Phase}
    (hphase : phase ≠ .done) (htimely : Timely s.now phase) :
    Inv { s with warms := s.warms.set i { w with phase := phase } } := by
  have hw' : w.inFlight = true := decide_eq_true hflight
  have hsame : flying (s.warms.set i { w with phase := phase }) = flying s.warms := by
    obtain ⟨a, b, hbefore, hafter⟩ := flying_set hw hw' { w with phase := phase }
    have hgoes : ({ w with phase := phase } : Warm).inFlight = true := decide_eq_true hphase
    rw [hbefore, hafter, if_pos hgoes, List.append_assoc, List.singleton_append]
  refine ⟨h.cached, timely_set h.timely i htimely, h.consented, ?_, ?_⟩
  · have hnodup := h.once.nodup
    rw [← flying, ← hsame] at hnodup
    exact hnodup
  · intro userId
    rw [h.once.marked userId, ← flying, ← flying, hsame]

theorem mem_warms {i : ℕ} {w : Warm} (hw : s.warms[i]? = some w) : w ∈ s.warms := List.mem_of_getElem? hw

theorem Inv.readRow (h : Inv s) (i : ℕ) : Inv (readRow s i) := by
  rw [FailureAlerts.readRow]
  split
  · rename_i userId startedAt hw
    exact h.setWarm hw (by nofun) (by nofun) (h.timely _ (mem_warms hw))
  · exact h

/-- the answer of a session is stored, and the session is a read -/
theorem Inv.store (h : Inv s) {userId : Str} {consented : Bool} {startedAt answeredAt : ℚ}
    (htimely : startedAt ≤ answeredAt ∧ answeredAt ≤ s.now) :
    Inv { s with
      cache := storeConsent s userId consented
      reads := s.reads ++ [⟨userId, consented, startedAt, answeredAt, s.now⟩] } := by
  refine ⟨?_, h.timely, ?_, ⟨h.once.nodup, h.once.marked⟩⟩
  · intro key value expiresAt hlookup
    have hlookup : (storeConsent s userId consented).lookup key = some (value, expiresAt) := hlookup
    rw [storeConsent, Dict.lookup_set] at hlookup
    by_cases hkey : key = userId
    · rw [if_pos hkey] at hlookup
      obtain ⟨rfl, rfl⟩ := Prod.mk.inj (Option.some.inj hlookup)
      exact ⟨_, List.mem_append_right _ (List.mem_singleton_self _), hkey.symm, rfl, rfl, htimely.1, htimely.2, le_rfl⟩
    · rw [if_neg hkey] at hlookup
      have hold : s.cache.lookup key = some (value, expiresAt) := by
        split_ifs at hlookup with hfull
        · cases hlookup
        · exact hlookup
      obtain ⟨r, hr, hread⟩ := h.cached _ _ _ hold
      exact ⟨r, List.mem_append_left _ hr, hread⟩
  · intro x hx hdetail
    obtain ⟨r, hr, hread⟩ := h.consented x hx hdetail
    exact ⟨r, List.mem_append_left _ hr, hread⟩

/-- the last part of a warm unmarks its user -/
theorem Inv.finish (h : Inv s) {i : ℕ} {w : Warm} (hw : s.warms[i]? = some w) (hflight : w.phase ≠ .done) :
    Inv { s with warming := s.warming.filter (· ≠ w.userId), warms := s.warms.set i { w with phase := .done } } := by
  have hw' : w.inFlight = true := decide_eq_true hflight
  obtain ⟨a, b, hbefore, hafter⟩ := flying_set hw hw' { w with phase := .done }
  have hnodup := h.once.nodup
  rw [← flying, hbefore] at hnodup
  have hafter : flying (s.warms.set i { w with phase := .done }) = a ++ b := by
    rw [hafter, if_neg (by simp [Warm.inFlight]), List.append_nil]
  obtain ⟨hnot, hrest⟩ := List.nodup_cons.1 (List.nodup_middle.1 hnodup)
  refine ⟨h.cached, timely_set h.timely i trivial, h.consented, ?_, ?_⟩
  · rw [← flying, hafter]
    exact hrest
  · intro userId
    rw [← flying, hafter, List.mem_filter, h.once.marked userId, ← flying, hbefore, decide_eq_true_eq]
    simp only [List.mem_append, List.mem_cons]
    constructor
    · rintro ⟨ha | rfl | hb, hne⟩
      · exact Or.inl ha
      · exact absurd rfl hne
      · exact Or.inr hb
    · intro hmem
      refine ⟨hmem.imp_right Or.inr, ?_⟩
      rintro rfl
      exact hnot (List.mem_append.2 hmem)

theorem Inv.warm (h : Inv s) (i : ℕ) (raises : Bool) : Inv (warm s i raises) := by
  rw [FailureAlerts.warm]
  cases hw : s.warms[i]? with
  | none => exact h
  | some w =>
    have htimely := h.timely w (mem_warms hw)
    obtain ⟨userId, phase⟩ := w
    cases phase with
    | created =>
      cases raises with
      | true => exact h.setWarm hw (by nofun) (by nofun) trivial
      | false => exact h.setWarm hw (by nofun) (by nofun) le_rfl
    | reading startedAt row =>
      cases raises with
      | true => cases row <;> exact h.setWarm hw (by nofun) (by nofun) trivial
      | false =>
        cases row with
        | none => exact h
        | some row => exact h.setWarm hw (by nofun) (by nofun) ⟨htimely, le_rfl⟩
    | closing startedAt answer =>
      cases answer with
      | none => cases raises <;> exact h.setWarm hw (by nofun) (by nofun) trivial
      | some answer =>
        cases raises with
        | true => exact h.setWarm hw (by nofun) (by nofun) trivial
        | false =>
          have hstored := @Inv.store s h userId answer.1 _ _ htimely
          exact hstored.setWarm hw (by nofun) (by nofun) trivial
    | finishing => cases raises <;> exact h.finish hw (by nofun)
    | done => cases raises <;> exact h

theorem Inv.locked (h : Inv s) (i : ℕ) : Inv (locked u s i) := by
  rw [FailureAlerts.locked]
  cases hp : s.waiting[i]? with
  | none => exact h
  | some p =>
    simp only
    refine Inv.record ?_ p (by nofun)
    split
    · exact ⟨h.cached, h.timely, h.consented, ⟨h.once.nodup, h.once.marked⟩⟩
    · rename_i hnew
      simp only [List.contains_eq_mem, decide_eq_true_eq] at hnew
      have hflying : flying (s.warms ++ [⟨p.userId, .created⟩]) = flying s.warms ++ [p.userId] := by
        simp [flying, Warm.inFlight]
      refine ⟨h.cached, ?_, h.consented, ?_, ?_⟩
      · intro w hw
        rcases List.mem_append.1 hw with hw | hw
        · exact h.timely w hw
        · rw [List.mem_singleton.1 hw]
          trivial
      · have hfresh : p.userId ∉ flying s.warms := fun hmem => hnew ((h.once.marked _).2 hmem)
        have hnodup : (flying s.warms ++ [p.userId]).Nodup :=
          List.nodup_append_comm.1 (List.nodup_cons.2 ⟨hfresh, h.once.nodup⟩)
        rw [← hflying] at hnodup
        exact hnodup
      · intro userId
        have hmarked := h.once.marked userId
        rw [← flying] at hmarked
        rw [← flying, hflying, List.mem_append, List.mem_append, hmarked]

/-- **Every step.** -/
theorem inv_step (s : State) (e : Event) (h : Inv s) : Inv (step u s e) := by
  cases e with
  | clock time =>
    have hle : s.now ≤ max s.now time := le_max_left _ _
    refine ⟨?_, fun w hw => (h.timely w hw).mono hle, h.consented, ⟨h.once.nodup, h.once.marked⟩⟩
    intro userId consented expiresAt hlookup
    obtain ⟨r, hr, huser, hanswer, hexpires, hstarted, hanswered, hclosed⟩ := h.cached _ _ _ hlookup
    exact ⟨r, hr, huser, hanswer, hexpires, hstarted, hanswered, hclosed.trans hle⟩
  | setConsent userId consented => exact ⟨h.cached, h.timely, h.consented, ⟨h.once.nodup, h.once.marked⟩⟩
  | fail p enabled => exact h.fail p enabled
  | locked i => exact h.locked i
  | readRow i => exact h.readRow i
  | warm i raises => exact h.warm i raises

theorem inv_init : Inv init := by
  refine ⟨by nofun, by nofun, by nofun, ⟨List.nodup_nil, ?_⟩⟩
  intro userId
  rfl

/-! ## Samples -/

/-- what a step records: nothing, a failure without detail, or one whose consent is in the cache -/
theorem recorded_step (s : State) (e : Event) : (step u s e).recorded = s.recorded ∨
    (∃ p, (step u s e).recorded = s.recorded ++ [⟨s.now, p, none⟩]) ∨
    ∃ p enabled, e = .fail p enabled ∧ (cachedConsent s p.userId).1 = some true ∧
      (step u s e).recorded = s.recorded ++ [⟨s.now, p, some ((formatSample u p).take maxSampleChars)⟩] := by
  cases e with
  | clock time => exact Or.inl rfl
  | setConsent userId consented => exact Or.inl rfl
  | fail p enabled =>
    rw [step, FailureAlerts.fail]
    split
    · exact Or.inl rfl
    · split
      · exact Or.inl rfl
      · cases hcached : cachedConsent s p.userId with
        | mk answer cache =>
          cases answer with
          | none => exact Or.inl rfl
          | some consented =>
            cases consented with
            | false => exact Or.inr (Or.inl ⟨p, rfl⟩)
            | true => exact Or.inr (Or.inr ⟨p, enabled, rfl, congrArg Prod.fst hcached, rfl⟩)
  | locked i =>
    rw [step, FailureAlerts.locked]
    cases s.waiting[i]? with
    | none => exact Or.inl rfl
    | some p =>
      simp only
      split
      · exact Or.inr (Or.inl ⟨p, rfl⟩)
      · exact Or.inr (Or.inl ⟨p, rfl⟩)
  | readRow i =>
    rw [step, FailureAlerts.readRow]
    split
    · exact Or.inl rfl
    · exact Or.inl rfl
  | warm i raises =>
    rw [step, FailureAlerts.warm]
    cases s.warms[i]? with
    | none => exact Or.inl rfl
    | some w =>
      simp only
      split <;> exact Or.inl rfl

theorem hidden_step (s : State) (e : Event) (h : Hidden u s) (hclear : ClearStep u s e) : Hidden u (step u s e) := by
  rw [Hidden]
  rcases recorded_step s e with heq | ⟨p, heq⟩ | ⟨p, enabled, rfl, hcached, heq⟩
  · rw [heq]
    exact h
  · rw [heq]
    intro x hx sample hsample
    rcases List.mem_append.1 hx with hx | hx
    · exact h x hx sample hsample
    · rw [List.mem_singleton.1 hx] at hsample
      cases hsample
  · rw [heq]
    intro x hx sample hsample
    rcases List.mem_append.1 hx with hx | hx
    · exact h x hx sample hsample
    · obtain rfl := List.mem_singleton.1 hx
      obtain rfl := Option.some.inj hsample
      exact ⟨rfl, sample_hides u (hclear hcached)⟩

/-- **Samples of failures.** Over every run, detail is recorded for a user no later than the lifetime of the cache and the
read's own duration after a read of the user's consent that returned true; no two warms of a user are in flight, and a user is
marked as warming while one is. In a run whose failures with detail are clear, no match comes through in a sample. -/
theorem failure_samples (u : Unicode) (events : List Event) : Consented (run u events) ∧ WarmedOnce (run u events) ∧
    (Runs.Meets (step u) (ClearStep u) init events → Hidden u (run u events)) := by
  have hinv : Inv (run u events) := Runs.run_inv_all inv_step init events inv_init
  refine ⟨hinv.consented, hinv.once, ?_⟩
  intro hclear
  exact Runs.run_inv hidden_step hclear (by nofun)

/-! ## Two failures -/

/-- the digits of ASCII and the Arabic-Indic ones -/
def twoScripts : Unicode where
  isDecimal c := c.isDigit || (0x660 ≤ c.toNat && c.toNat ≤ 0x669)
  ascii c hc := by
    have hlow : ¬0x660 ≤ c.toNat := by omega
    simp [hlow]

/-- a failure, the warm that it starts, and the failure again -/
def failTwice (p : Payload) : List Event :=
  [.setConsent p.userId true, .fail p true, .locked 0, .warm 0 false, .readRow 0, .warm 0 false, .warm 0 false, .warm 0 false,
    .fail p true]

/-- a card number at the place where a value is clipped, and one in front of what makes it a token -/
def cardPayload : Payload where
  userId := "u".toList
  toolName := "add_note".toList
  errorKind := "service".toList
  args := [("note".toList, List.replicate 113 ' ' ++ "4111 1111 1111 1111".toList)]
  resultText := "4111111111111111ABCDEFGH".toList

/-- seven digits of the card are recorded, and so is the end of the token -/
theorem card_cut : ((run twoScripts (failTwice cardPayload)).recorded.map Record.sample =
      [none, some ("args=\x7bnote=".toList ++ List.replicate 113 ' ' ++ "4111 11...\x7d -> [CARD]ABCDEFGH".toList)]) ∧
    ¬Hidden twoScripts (run twoScripts (failTwice cardPayload)) := by
  have hrecorded : (run twoScripts (failTwice cardPayload)).recorded =
      [⟨0, cardPayload, none⟩, ⟨0, cardPayload, some ((formatSample twoScripts cardPayload).take maxSampleChars)⟩] := by
    decide +kernel
  have hsample : (formatSample twoScripts cardPayload).take maxSampleChars =
      "args=\x7bnote=".toList ++ List.replicate 113 ' ' ++ "4111 11...\x7d -> [CARD]ABCDEFGH".toList := by decide +kernel
  have hshown : (taggedSample twoScripts cardPayload).any Prod.snd = true := by decide +kernel
  rw [Hidden, hrecorded, ← hsample]
  refine ⟨rfl, fun h => ?_⟩
  obtain ⟨c, hc, hmarked⟩ := List.any_eq_true.1 hshown
  have hhides := (h _ (List.mem_cons_of_mem _ (List.mem_singleton_self _)) _ rfl).2
  rw [hhides c hc] at hmarked
  cases hmarked

/-- a failure without a match -/
def plainPayload : Payload where
  userId := "u".toList
  toolName := "add_note".toList
  errorKind := "service".toList
  args := [("note".toList, "call a@example.com".toList)]
  resultText := "down".toList

theorem failure_samples_plain : Hidden twoScripts (run twoScripts (failTwice plainPayload)) := by
  have hclear : Clear twoScripts plainPayload :=
    clear_of_short twoScripts (by decide) (by decide +kernel) (by decide +kernel)
  refine (failure_samples twoScripts (failTwice plainPayload)).2.2 (Runs.meets_of_forall ?_ init)
  simp only [failTwice, List.forall_mem_cons, ClearStep]
  simp [hclear]

end Clawbolt.FailureAlerts
