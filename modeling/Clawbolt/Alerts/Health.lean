/-
The health monitor's transitions (`HealthMonitor._apply` of services/health_monitor.py).

Every observation is folded into the state of its key. A key is down after `threshold` failures in a row, and up with the
next success; a change of that kind is emitted, but not the first failing baseline of a key that is silent there.

- `state_spec`: the state of a key is what its trailing failures make of it;
- `emits_down_iff`, `emits_up_iff`: when a transition is emitted;
- `transitions_mean`: the transitions of a key alternate, and an UP follows a DOWN or ends a silent baseline.
-/
import Mathlib.Tactic
import Clawbolt.Core.Json

namespace Clawbolt.Health

open Text (Str)

/-! ## Model -/

inductive Status where
  | unknown
  | up
  | down
deriving DecidableEq, Repr

structure Observation where
  key : Str
  label : Str
  ok : Bool
  detail : Str
  alertOnFirstObservation : Bool
  userId : Str
  userLabel : Str
  integration : Str
deriving DecidableEq

structure HealthTransition where
  key : Str
  label : Str
  status : Status
  detail : Str
  since : ℕ
  consecutiveFailures : ℕ
deriving DecidableEq

/-- `_ProbeState` -/
structure ProbeState where
  label : Str
  status : Status := .unknown
  consecutiveFailures : ℕ := 0
  detail : Str := []
  /-- when the status changed; none since the state was made -/
  since : Option ℕ := none
  lastChecked : Option ℕ := none
  everUp : Bool := false
  baselineSilent : Bool := false
  userId : Str := []
  userLabel : Str := []
  integration : Str := []
deriving DecidableEq

/-- what every observation writes, before its outcome is looked at -/
def ProbeState.noted (s : ProbeState) (now : ℕ) (obs : Observation) : ProbeState :=
  { s with
    label := obs.label
    detail := obs.detail
    lastChecked := some now
    baselineSilent := !obs.alertOnFirstObservation
    userId := obs.userId
    userLabel := obs.userLabel
    integration := obs.integration }

/-- one observation of a key in the loop of `_apply` -/
def ProbeState.observe (threshold now : ℕ) (s : ProbeState) (obs : Observation) : ProbeState × Option HealthTransition :=
  let state := s.noted now obs
  if obs.ok then
    let recovered := state.status = .down
    let state := { state with consecutiveFailures := 0, everUp := true }
    let state := if state.status ≠ .up then { state with status := .up, since := some now } else state
    (state, if recovered then some ⟨obs.key, obs.label, .up, obs.detail, now, 0⟩ else none)
  else
    let firstObservation := state.status = .unknown
    let state := { state with consecutiveFailures := state.consecutiveFailures + 1 }
    if state.status = .down then (state, none)
    else if state.consecutiveFailures < threshold then (state, none)
    else
      let failed := { state with status := .down, since := some now }
      if firstObservation ∧ obs.alertOnFirstObservation = false then (failed, none)
      else (failed, some ⟨obs.key, obs.label, .down, obs.detail, now, state.consecutiveFailures⟩)

/-- `self._states`, and the transitions so far -/
structure Monitor where
  states : Dict ProbeState := []
  transitions : List HealthTransition := []

def Monitor.stateOf (m : Monitor) (key label : Str) : ProbeState := (m.states.lookup key).getD { label := label }

def Monitor.add (threshold now : ℕ) (m : Monitor) (obs : Observation) : Monitor :=
  let (state, transition) := (m.stateOf obs.key obs.label).observe threshold now obs
  { states := Dict.set obs.key state m.states, transitions := m.transitions ++ transition.toList }

/-- `_apply` at a time; the threshold of the settings is at least one -/
def Monitor.apply (healthFailureThreshold : ℕ) (m : Monitor) (batch : ℕ × List Observation) : Monitor :=
  batch.2.foldl (Monitor.add (max 1 healthFailureThreshold) batch.1) m

/-- the monitor after a sequence of batches -/
def monitorAfter (healthFailureThreshold : ℕ) (batches : List (ℕ × List Observation)) : Monitor :=
  batches.foldl (Monitor.apply healthFailureThreshold) {}

/-! ## One observation after the other -/

/-- an observation and its time -/
abbrev Event := ℕ × Observation

def timeline (batches : List (ℕ × List Observation)) : List Event := batches.flatMap fun b => b.2.map fun obs => (b.1, obs)

/-- the monitor after single observations -/
def after (threshold : ℕ) (events : List Event) : Monitor :=
  events.foldl (fun m e => m.add threshold e.1 e.2) {}

/-- batches are folded one observation after the other -/
theorem monitorAfter_eq (healthFailureThreshold : ℕ) (batches : List (ℕ × List Observation)) :
    monitorAfter healthFailureThreshold batches = after (max 1 healthFailureThreshold) (timeline batches) := by
  have hfold : ∀ m : Monitor, batches.foldl (Monitor.apply healthFailureThreshold) m =
      (timeline batches).foldl (fun m e => m.add (max 1 healthFailureThreshold) e.1 e.2) m := by
    intro m
    induction batches generalizing m with
    | nil => rfl
    | cons b batches ih =>
      have hcons : timeline (b :: batches) = (b.2.map fun obs => (b.1, obs)) ++ timeline batches := List.flatMap_cons
      rw [List.foldl_cons, hcons, List.foldl_append, ih, List.foldl_map]
      rfl
  exact hfold {}

/-- the observations of a key -/
def ofKey (key : Str) (events : List Event) : List Observation := (events.map Prod.snd).filter fun obs => obs.key = key

/-- the failures in a row at the end -/
def failures (l : List Observation) : ℕ := (l.reverse.takeWhile fun obs => !obs.ok).length

def healthy (l : List Observation) : Bool := l.any Observation.ok

/-- the status that observations come to -/
def statusOf (threshold : ℕ) (l : List Observation) : Status :=
  if threshold ≤ failures l then .down else if healthy l then .up else .unknown

/-- what an observation emits after others -/
def emission (threshold : ℕ) (before : List Event) (e : Event) : Option HealthTransition :=
  (((after threshold before).stateOf e.2.key e.2.label).observe threshold e.1 e.2).2

/-- what was told of a key -/
def told (threshold : ℕ) (events : List Event) (key : Str) : List HealthTransition :=
  (after threshold events).transitions.filter fun t => t.key = key

theorem ofKey_snoc (key : Str) (events : List Event) (e : Event) :
    ofKey key (events ++ [e]) = if e.2.key = key then ofKey key events ++ [e.2] else ofKey key events := by
  rw [ofKey, List.map_append, List.filter_append]
  split
  · rename_i h
    simp [ofKey, h]
  · rename_i h
    simp [ofKey, h]

theorem failures_snoc (l : List Observation) (obs : Observation) :
    failures (l ++ [obs]) = if obs.ok then 0 else failures l + 1 := by
  rw [failures, List.reverse_append, List.reverse_singleton, List.singleton_append, List.takeWhile_cons]
  cases obs.ok <;> simp [failures]

theorem healthy_snoc (l : List Observation) (obs : Observation) : healthy (l ++ [obs]) = (healthy l || obs.ok) := by
  simp [healthy]

theorem after_snoc (threshold : ℕ) (events : List Event) (e : Event) :
    after threshold (events ++ [e]) = (after threshold events).add threshold e.1 e.2 := by
  rw [after, List.foldl_append]
  rfl

theorem transitions_snoc (threshold : ℕ) (events : List Event) (e : Event) :
    (after threshold (events ++ [e])).transitions =
      (after threshold events).transitions ++ (emission threshold events e).toList := by
  rw [after_snoc]
  rfl

/-- nothing that was told is taken back -/
theorem transitions_append (threshold : ℕ) (events later : List Event) :
    ∃ l, (after threshold (events ++ later)).transitions = (after threshold events).transitions ++ l := by
  induction later using List.reverseRecOn with
  | nil => exact ⟨[], by rw [List.append_nil, List.append_nil]⟩
  | append_singleton later e ih =>
    obtain ⟨l, hl⟩ := ih
    refine ⟨l ++ (emission threshold (events ++ later) e).toList, ?_⟩
    rw [← List.append_assoc, transitions_snoc, hl, List.append_assoc]

/-- an observation changes the state of its key only -/
theorem stateOf_add (threshold now : ℕ) (m : Monitor) (obs : Observation) (key label : Str) :
    (m.add threshold now obs).stateOf key label =
      if key = obs.key then ((m.stateOf obs.key obs.label).observe threshold now obs).1 else m.stateOf key label := by
  simp only [Monitor.stateOf, Monitor.add, Dict.lookup_set]
  split <;> rfl

/-- what observations come to for a key: its failures in a row, and the status they make -/
structure Reflects (threshold : ℕ) (s : ProbeState) (l : List Observation) : Prop where
  count : s.consecutiveFailures = failures l
  status : s.status = statusOf threshold l

theorem status_down_iff {threshold : ℕ} {s : ProbeState} {l : List Observation} (h : Reflects threshold s l) :
    s.status = .down ↔ threshold ≤ failures l := by
  rw [h.status, statusOf]
  split_ifs with hle hhealthy
  · exact iff_of_true rfl hle
  · exact iff_of_false (by decide) hle
  · exact iff_of_false (by decide) hle

theorem status_unknown_iff {threshold : ℕ} {s : ProbeState} {l : List Observation} (h : Reflects threshold s l)
    (hdown : ¬s.status = .down) : s.status = .unknown ↔ healthy l = false := by
  have hle := (status_down_iff h).not.1 hdown
  rw [h.status, statusOf, if_neg hle]
  cases healthy l <;> simp

/-- a success: up, and told when the key was down -/
theorem observe_success {threshold : ℕ} (hpos : 1 ≤ threshold) (now : ℕ) {s : ProbeState} {l : List Observation}
    (h : Reflects threshold s l) {obs : Observation} (hok : obs.ok = true) :
    Reflects threshold (s.observe threshold now obs).1 (l ++ [obs]) ∧
    (s.observe threshold now obs).2 =
      if threshold ≤ failures l then some ⟨obs.key, obs.label, .up, obs.detail, now, 0⟩ else none := by
  have hnoted : (s.noted now obs).status = s.status := rfl
  simp only [ProbeState.observe, hok, if_true, hnoted, status_down_iff h]
  refine ⟨⟨?_, ?_⟩, trivial⟩
  · rw [failures_snoc, if_pos hok]
    split <;> rfl
  · have hnot : ¬threshold ≤ failures (l ++ [obs]) := by
      rw [failures_snoc, if_pos hok]
      omega
    have hup : statusOf threshold (l ++ [obs]) = .up := by
      rw [statusOf, if_neg hnot, healthy_snoc, hok, Bool.or_true, if_pos rfl]
    rw [hup]
    by_cases hs : s.status = .up
    · rw [if_neg (not_not.2 hs)]
      exact hs
    · rw [if_pos hs]

/-- a failure: told when it is the one that completes the row, but for a first baseline that is silent -/
theorem observe_failure {threshold : ℕ} (now : ℕ) {s : ProbeState} {l : List Observation}
    (h : Reflects threshold s l) {obs : Observation} (hok : obs.ok = false) :
    Reflects threshold (s.observe threshold now obs).1 (l ++ [obs]) ∧
    (s.observe threshold now obs).2 =
      if failures l + 1 = threshold ∧ (obs.alertOnFirstObservation = true ∨ healthy l = true) then
        some ⟨obs.key, obs.label, .down, obs.detail, now, failures l + 1⟩ else none := by
  have hcount : (s.noted now obs).consecutiveFailures = failures l := h.count
  have hsnoc : failures (l ++ [obs]) = failures l + 1 := by rw [failures_snoc, if_neg (Bool.eq_false_iff.1 hok)]
  have hhealthy : healthy (l ++ [obs]) = healthy l := by rw [healthy_snoc, hok, Bool.or_false]
  have hnoted : (s.noted now obs).status = s.status := rfl
  simp only [ProbeState.observe, hok, Bool.false_eq_true, if_false, hnoted, hcount]
  by_cases hdown : s.status = .down
  · have hle := (status_down_iff h).1 hdown
    rw [if_pos hdown, if_neg (by omega)]
    refine ⟨⟨hsnoc.symm, ?_⟩, rfl⟩
    rw [statusOf, hsnoc, if_pos (by omega)]
    exact hdown
  · have hle := (status_down_iff h).not.1 hdown
    rw [if_neg hdown]
    by_cases hlt : failures l + 1 < threshold
    · rw [if_pos hlt, if_neg (by omega)]
      refine ⟨⟨hsnoc.symm, ?_⟩, rfl⟩
      have hstatus : s.status = if healthy l = true then .up else .unknown := by
        rw [h.status, statusOf, if_neg hle]
      rw [statusOf, hsnoc, if_neg (by omega), hhealthy]
      exact hstatus
    · have heq : failures l + 1 = threshold := by omega
      rw [if_neg hlt]
      have hdownAfter : statusOf threshold (l ++ [obs]) = .down := by rw [statusOf, hsnoc, if_pos heq.ge]
      by_cases hsilent : s.status = .unknown ∧ obs.alertOnFirstObservation = false
      · have hnever := (status_unknown_iff h hdown).1 hsilent.1
        rw [if_pos hsilent, if_neg (by simp [hnever, hsilent.2])]
        exact ⟨⟨hsnoc.symm, hdownAfter.symm⟩, rfl⟩
      · have htell : obs.alertOnFirstObservation = true ∨ healthy l = true := by
          by_contra hno
          rw [not_or, Bool.not_eq_true, Bool.not_eq_true] at hno
          exact hsilent ⟨(status_unknown_iff h hdown).2 hno.2, hno.1⟩
        rw [if_neg hsilent, if_pos ⟨heq, htell⟩]
        exact ⟨⟨hsnoc.symm, hdownAfter.symm⟩, rfl⟩

/-- **The state of a key is what its trailing failures make of it.** -/
theorem state_spec {threshold : ℕ} (hpos : 1 ≤ threshold) (events : List Event) (key label : Str) :
    Reflects threshold ((after threshold events).stateOf key label) (ofKey key events) := by
  induction events using List.reverseRecOn generalizing key label with
  | nil => exact ⟨rfl, by simp [statusOf, failures, healthy, ofKey, after, Monitor.stateOf]; omega⟩
  | append_singleton events e ih =>
    rw [after_snoc, stateOf_add, ofKey_snoc]
    by_cases hkey : key = e.2.key
    · rw [if_pos hkey, if_pos hkey.symm, hkey]
      cases hok : e.2.ok with
      | true => exact (observe_success hpos e.1 (ih _ _) hok).1
      | false => exact (observe_failure e.1 (ih _ _) hok).1
    · rw [if_neg hkey, if_neg (Ne.symm hkey)]
      exact ih key label

/-! ## What is told -/

/-- **What an observation emits.** -/
theorem emission_eq {threshold : ℕ} (hpos : 1 ≤ threshold) (before : List Event) (e : Event) :
    emission threshold before e =
      if e.2.ok = true then
        if threshold ≤ failures (ofKey e.2.key before) then some ⟨e.2.key, e.2.label, .up, e.2.detail, e.1, 0⟩ else none
      else
        if failures (ofKey e.2.key before) + 1 = threshold ∧
            (e.2.alertOnFirstObservation = true ∨ healthy (ofKey e.2.key before) = true) then
          some ⟨e.2.key, e.2.label, .down, e.2.detail, e.1, failures (ofKey e.2.key before) + 1⟩
        else none := by
  have hstate := state_spec hpos before e.2.key e.2.label
  rw [emission]
  split_ifs with hok hdown htell
  · rw [(observe_success hpos e.1 hstate hok).2, if_pos hdown]
  · rw [(observe_success hpos e.1 hstate hok).2, if_neg hdown]
  · rw [(observe_failure e.1 hstate (Bool.eq_false_iff.2 hok)).2, if_pos htell]
  · rw [(observe_failure e.1 hstate (Bool.eq_false_iff.2 hok)).2, if_neg htell]

theorem emission_key {threshold : ℕ} (hpos : 1 ≤ threshold) {before : List Event} {e : Event} {t : HealthTransition}
    (h : emission threshold before e = some t) : t.key = e.2.key := by
  rw [emission_eq hpos] at h
  split_ifs at h
  · rw [← Option.some.inj h]
  · rw [← Option.some.inj h]

theorem told_snoc {threshold : ℕ} (hpos : 1 ≤ threshold) (before : List Event) (e : Event) (key : Str) :
    told threshold (before ++ [e]) key =
      told threshold before key ++ if e.2.key = key then (emission threshold before e).toList else [] := by
  rw [told, transitions_snoc, List.filter_append, ← told]
  cases h : emission threshold before e with
  | none => simp
  | some t =>
    have hkey := emission_key hpos h
    split_ifs with he
    · simp [hkey, he]
    · simp [hkey, he]

/-- **When a DOWN is emitted.** -/
theorem emits_down_iff {threshold : ℕ} (hpos : 1 ≤ threshold) (before : List Event) (e : Event) :
    (emission threshold before e).map HealthTransition.status = some .down ↔
      e.2.ok = false ∧ failures (ofKey e.2.key before) + 1 = threshold ∧
        (e.2.alertOnFirstObservation = true ∨ healthy (ofKey e.2.key before) = true) := by
  rw [emission_eq hpos]
  split_ifs with hok hdown htell
  · simp [hok]
  · simp [hok]
  · exact iff_of_true rfl ⟨Bool.eq_false_iff.2 hok, htell⟩
  · refine iff_of_false (by simp) ?_
    intro h
    exact htell h.2

/-- **When an UP is emitted.** -/
theorem emits_up_iff {threshold : ℕ} (hpos : 1 ≤ threshold) (before : List Event) (e : Event) :
    (emission threshold before e).map HealthTransition.status = some .up ↔
      e.2.ok = true ∧ threshold ≤ failures (ofKey e.2.key before) := by
  rw [emission_eq hpos]
  split_ifs with hok hdown htell
  · exact iff_of_true rfl ⟨hok, hdown⟩
  · simp [hdown]
  · simp [hok]
  · simp [hok]

/-- what was told of a key, and what its observations come to -/
structure Told (threshold : ℕ) (events : List Event) (key : Str) : Prop where
  alternate : ((told threshold events key).map HealthTransition.status).IsChain (· ≠ ·)
  down : threshold ≤ failures (ofKey key events) →
    (told threshold events key).getLast?.map HealthTransition.status = some .down ∨
      told threshold events key = [] ∧ healthy (ofKey key events) = false
  notDown : ¬threshold ≤ failures (ofKey key events) →
    (told threshold events key).getLast?.map HealthTransition.status ≠ some .down
  fresh : healthy (ofKey key events) = false → ¬threshold ≤ failures (ofKey key events) → told threshold events key = []
  silent : (∀ obs ∈ ofKey key events, obs.alertOnFirstObservation = false) → healthy (ofKey key events) = false →
    told threshold events key = []

/-- an observation of another key tells nothing of this one -/
theorem Told.other {threshold : ℕ} (hpos : 1 ≤ threshold) {before : List Event} {e : Event} {key : Str}
    (h : Told threshold before key) (hkey : ¬e.2.key = key) : Told threshold (before ++ [e]) key := by
  have htold : told threshold (before ++ [e]) key = told threshold before key := by
    rw [told_snoc hpos, if_neg hkey, List.append_nil]
  have hown : ofKey key (before ++ [e]) = ofKey key before := by rw [ofKey_snoc, if_neg hkey]
  refine ⟨?_, ?_, ?_, ?_, ?_⟩
  · rw [htold]
    exact h.alternate
  · rw [htold, hown]
    exact h.down
  · rw [htold, hown]
    exact h.notDown
  · rw [htold, hown]
    exact h.fresh
  · rw [htold, hown]
    exact h.silent

/-- nothing more is told of a key whose status stays -/
theorem Told.stay {threshold : ℕ} {before events : List Event} {key : Str} (h : Told threshold before key)
    (htold : told threshold events key = told threshold before key) {obs : Observation}
    (hown : ofKey key events = ofKey key before ++ [obs])
    (hstay : threshold ≤ failures (ofKey key events) ↔ threshold ≤ failures (ofKey key before))
    (hnever : threshold ≤ failures (ofKey key events) → obs.ok = false) : Told threshold events key := by
  have hhealthy : healthy (ofKey key events) = (healthy (ofKey key before) || obs.ok) := by rw [hown, healthy_snoc]
  refine ⟨?_, ?_, ?_, ?_, ?_⟩
  · rw [htold]
    exact h.alternate
  · intro hle
    rw [htold, hhealthy, hnever hle, Bool.or_false]
    exact h.down (hstay.1 hle)
  · intro hle
    rw [htold]
    exact h.notDown (hstay.not.1 hle)
  · intro hno hle
    rw [hhealthy, Bool.or_eq_false_iff] at hno
    rw [htold]
    exact h.fresh hno.1 (hstay.not.1 hle)
  · intro hall hno
    rw [hhealthy, Bool.or_eq_false_iff] at hno
    rw [hown] at hall
    rw [htold]
    exact h.silent (fun x hx => hall x (List.mem_append_left _ hx)) hno.1

/-- a status told after another one -/
theorem Told.chain_snoc {threshold : ℕ} {before : List Event} {key : Str} (h : Told threshold before key)
    {t : HealthTransition} (hlast : (told threshold before key).getLast?.map HealthTransition.status ≠ some t.status) :
    ((told threshold before key ++ [t]).map HealthTransition.status).IsChain (· ≠ ·) := by
  rw [List.map_append, List.isChain_append]
  refine ⟨h.alternate, List.isChain_singleton _, ?_⟩
  intro last hmem first hfirst heq
  have hfirst : t.status = first := Option.some.inj hfirst
  rw [List.getLast?_map] at hmem
  apply hlast
  rw [Option.mem_def.1 hmem, heq, hfirst]

/-- a success after the row: an UP is told -/
theorem Told.recover {threshold : ℕ} (hpos : 1 ≤ threshold) {before : List Event} {e : Event}
    (h : Told threshold before e.2.key) (hok : e.2.ok = true) (hle : threshold ≤ failures (ofKey e.2.key before)) :
    Told threshold (before ++ [e]) e.2.key := by
  have hemit : emission threshold before e = some ⟨e.2.key, e.2.label, .up, e.2.detail, e.1, 0⟩ := by
    rw [emission_eq hpos, if_pos hok, if_pos hle]
  have htold : told threshold (before ++ [e]) e.2.key =
      told threshold before e.2.key ++ [⟨e.2.key, e.2.label, .up, e.2.detail, e.1, 0⟩] := by
    rw [told_snoc hpos, if_pos rfl, hemit]
    rfl
  have hown : ofKey e.2.key (before ++ [e]) = ofKey e.2.key before ++ [e.2] := by rw [ofKey_snoc, if_pos rfl]
  have hzero : ¬threshold ≤ failures (ofKey e.2.key (before ++ [e])) := by
    rw [hown, failures_snoc, if_pos hok]
    omega
  have hhealthy : healthy (ofKey e.2.key (before ++ [e])) = true := by rw [hown, healthy_snoc, hok, Bool.or_true]
  refine ⟨?_, ?_, ?_, ?_, ?_⟩
  · rw [htold]
    apply h.chain_snoc
    obtain hdown | hnothing := h.down hle
    · rw [hdown]
      exact fun heq => Status.noConfusion (Option.some.inj heq)
    · rw [hnothing.1]
      exact (Option.some_ne_none _).symm
  · intro hdown
    exact absurd hdown hzero
  · intro _
    rw [htold, List.getLast?_concat]
    exact fun heq => Status.noConfusion (Option.some.inj heq)
  · intro hno
    exact absurd hhealthy (Bool.eq_false_iff.1 hno)
  · intro _ hno
    exact absurd hhealthy (Bool.eq_false_iff.1 hno)

/-- a failure that completes the row: a DOWN is told, or the baseline is silent -/
theorem Told.complete {threshold : ℕ} (hpos : 1 ≤ threshold) {before : List Event} {e : Event}
    (h : Told threshold before e.2.key) (hok : e.2.ok = false)
    (heq : failures (ofKey e.2.key before) + 1 = threshold) : Told threshold (before ++ [e]) e.2.key := by
  have hnot : ¬threshold ≤ failures (ofKey e.2.key before) := by omega
  have hown : ofKey e.2.key (before ++ [e]) = ofKey e.2.key before ++ [e.2] := by rw [ofKey_snoc, if_pos rfl]
  have hnow : threshold ≤ failures (ofKey e.2.key (before ++ [e])) := by
    rw [hown, failures_snoc, if_neg (Bool.eq_false_iff.1 hok)]
    omega
  have hhealthy : healthy (ofKey e.2.key (before ++ [e])) = healthy (ofKey e.2.key before) := by
    rw [hown, healthy_snoc, hok, Bool.or_false]
  by_cases htell : e.2.alertOnFirstObservation = true ∨ healthy (ofKey e.2.key before) = true
  · have htold : told threshold (before ++ [e]) e.2.key = told threshold before e.2.key ++
        [⟨e.2.key, e.2.label, .down, e.2.detail, e.1, failures (ofKey e.2.key before) + 1⟩] := by
      rw [told_snoc hpos, if_pos rfl, emission_eq hpos, if_neg (Bool.eq_false_iff.1 hok), if_pos ⟨heq, htell⟩]
      rfl
    refine ⟨?_, ?_, ?_, ?_, ?_⟩
    · rw [htold]
      exact h.chain_snoc (h.notDown hnot)
    · intro _
      rw [htold, List.getLast?_concat]
      exact .inl rfl
    · intro hle
      exact absurd hnow hle
    · intro _ hle
      exact absurd hnow hle
    · intro hall hno
      rw [hhealthy] at hno
      have hsilent : e.2.alertOnFirstObservation = false := by
        apply hall
        rw [hown]
        exact List.mem_concat_self
      exact absurd htell (by simp [hsilent, hno])
  · rw [not_or, Bool.not_eq_true, Bool.not_eq_true] at htell
    have hnothing : told threshold before e.2.key = [] := h.fresh htell.2 hnot
    have htold : told threshold (before ++ [e]) e.2.key = [] := by
      rw [told_snoc hpos, if_pos rfl, emission_eq hpos, if_neg (Bool.eq_false_iff.1 hok), if_neg, hnothing]
      · rfl
      · simp [htell.1, htell.2]
    refine ⟨?_, ?_, ?_, ?_, ?_⟩
    · rw [htold]
      exact List.isChain_nil
    · intro _
      exact .inr ⟨htold, hhealthy.trans htell.2⟩
    · intro hle
      exact absurd hnow hle
    · intro _ _
      exact htold
    · intro _ _
      exact htold

theorem told_step {threshold : ℕ} (hpos : 1 ≤ threshold) {before : List Event} {e : Event} {key : Str}
    (h : Told threshold before key) : Told threshold (before ++ [e]) key := by
  by_cases hkey : e.2.key = key
  · subst hkey
    have hown : ofKey e.2.key (before ++ [e]) = ofKey e.2.key before ++ [e.2] := by rw [ofKey_snoc, if_pos rfl]
    have hquiet : emission threshold before e = none → told threshold (before ++ [e]) e.2.key = told threshold before e.2.key := by
      intro hnone
      rw [told_snoc hpos, if_pos rfl, hnone]
      exact List.append_nil _
    cases hok : e.2.ok with
    | true =>
      by_cases hle : threshold ≤ failures (ofKey e.2.key before)
      · exact h.recover hpos hok hle
      · have hzero : ¬threshold ≤ failures (ofKey e.2.key (before ++ [e])) := by
          rw [hown, failures_snoc, if_pos hok]
          omega
        apply h.stay (hquiet _) hown (iff_of_false hzero hle)
        · intro hdown
          exact absurd hdown hzero
        · rw [emission_eq hpos, if_pos hok, if_neg hle]
    | false =>
      have hcount : failures (ofKey e.2.key (before ++ [e])) = failures (ofKey e.2.key before) + 1 := by
        rw [hown, failures_snoc, if_neg (Bool.eq_false_iff.1 hok)]
      by_cases heq : failures (ofKey e.2.key before) + 1 = threshold
      · exact h.complete hpos hok heq
      · apply h.stay (hquiet _) hown _ (fun _ => hok)
        · rw [emission_eq hpos, if_neg (Bool.eq_false_iff.1 hok), if_neg (fun hand => heq hand.1)]
        · rw [hcount]
          omega
  · exact h.other hpos hkey

/-- what was told of every key, after any observations -/
theorem told_run {threshold : ℕ} (hpos : 1 ≤ threshold) (events : List Event) (key : Str) : Told threshold events key := by
  induction events using List.reverseRecOn with
  | nil =>
    refine ⟨List.isChain_nil, ?_, ?_, fun _ _ => rfl, fun _ _ => rfl⟩
    · intro _
      exact .inr ⟨rfl, rfl⟩
    · intro _
      exact (Option.some_ne_none _).symm
  | append_singleton events e ih => exact told_step hpos ih

/-- **Transitions alternate and mean what they say.** A DOWN is the observation that completes the row of failures, and is
kept back from a silent baseline only; an UP ends a row, and follows a DOWN or such a baseline. -/
theorem transitions_mean (healthFailureThreshold : ℕ) (batches : List (ℕ × List Observation)) :
    (∀ key, ((((monitorAfter healthFailureThreshold batches).transitions.filter fun t => t.key = key).map
      HealthTransition.status).IsChain (· ≠ ·))) ∧
    ∀ before e rest, timeline batches = before ++ e :: rest →
      let threshold := max 1 healthFailureThreshold
      let earlier := ofKey e.2.key before
      (∃ later, (monitorAfter healthFailureThreshold batches).transitions =
        (after threshold before).transitions ++ (emission threshold before e).toList ++ later) ∧
      ((emission threshold before e).map HealthTransition.status = some .down ↔
        e.2.ok = false ∧ failures earlier + 1 = threshold ∧
          (e.2.alertOnFirstObservation = true ∨ healthy earlier = true)) ∧
      ((emission threshold before e).map HealthTransition.status = some .up ↔
        e.2.ok = true ∧ threshold ≤ failures earlier) ∧
      ((emission threshold before e).map HealthTransition.status = some .up →
        (told threshold before e.2.key).getLast?.map HealthTransition.status = some .down ∨
          told threshold before e.2.key = [] ∧ healthy earlier = false) ∧
      ((∀ obs ∈ ofKey e.2.key (before ++ [e]), obs.alertOnFirstObservation = false) →
        healthy (ofKey e.2.key (before ++ [e])) = false → told threshold (before ++ [e]) e.2.key = []) := by
  have hpos : 1 ≤ max 1 healthFailureThreshold := le_max_left _ _
  refine ⟨?_, ?_⟩
  · intro key
    rw [monitorAfter_eq]
    exact (told_run hpos _ key).alternate
  · intro before e rest hsplit
    refine ⟨?_, emits_down_iff hpos before e, emits_up_iff hpos before e, ?_, (told_run hpos _ _).silent⟩
    · have hcons : before ++ e :: rest = (before ++ [e]) ++ rest := List.append_cons before e rest
      rw [monitorAfter_eq, hsplit, hcons, ← transitions_snoc]
      exact transitions_append _ _ rest
    · intro hup
      exact (told_run hpos before e.2.key).down ((emits_up_iff hpos before e).1 hup).2

/-- a key that is silent, failing and then connected -/
def connects : List (ℕ × List Observation) :=
  [(0, [⟨"hcp".toList, "hcp".toList, false, [], false, [], [], []⟩]),
    (1, [⟨"hcp".toList, "hcp".toList, true, [], false, [], [], []⟩])]

/-- an UP can be the first that is told of a key: it ends a baseline that was silent -/
theorem silent_baseline_ends :
    ((monitorAfter 1 connects).transitions.map fun t => (t.key, t.status)) = [("hcp".toList, .up)] ∧
      (∀ b ∈ connects, ∀ obs ∈ b.2, obs.alertOnFirstObservation = false) := by
  decide +kernel

end Clawbolt.Health
