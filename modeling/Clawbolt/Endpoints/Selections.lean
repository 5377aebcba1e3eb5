/-
No selection names a missing endpoint, while requests interleave at every await.

A delete looks for selections and a selection looks for its endpoint, and both write later, so what was looked for can change
in between.

- `noOrphan_apply`: a write leaves no orphan exactly when it is safe on the stores it meets;
- `selections_exist_iff`: no state of a run has an orphan exactly when every write is safe: a delete commits while nothing
  selects its endpoint, and a selection is written while its endpoint is there. A request that is refused or fails has
  written nothing, in every run;
- `selected_and_deleted`: a setting takes an endpoint while its delete is under way.
-/
import Mathlib.Tactic
import Clawbolt.Endpoints.Requests

namespace Clawbolt.Endpoints

open Text (Str)
open Runs

/-! ## Orphans -/

/-- every selection names an endpoint that exists -/
structure NoOrphan (st : Stores) : Prop where
  settings : ∀ k, st.settings k ≠ [] → st.settings k ∈ st.endpoints
  overrides : ∀ o ∈ st.overrides, o.2 ≠ [] → o.2 ∈ st.endpoints
  runs : ∀ r ∈ st.runs, r.status.isActive = true → r.candidateEndpoint ≠ [] → r.candidateEndpoint ∈ st.endpoints

/-- what a write finds: nothing that selects what it removes, and what it selects -/
def Change.Safe (st : Stores) : Change → Prop
  | .insert _ => True
  | .remove name => name ≠ [] → st.isSelected name = false ∧ st.isPinned name = false ∧ st.isQueued name = false
  | .settings updates => ∀ k v, updates k = some v → v ≠ [] → v ∈ st.endpoints
  | .override user value => ∀ o ∈ st.overrides, o.1 = user → value ≠ [] → value ∈ st.endpoints
  | .addRun _ candidateEndpoint => candidateEndpoint ≠ [] → candidateEndpoint ∈ st.endpoints
  | .setStatus id status => status.isActive = true → ∀ r ∈ st.runs, r.id = id → r.candidateEndpoint ≠ [] →
      r.candidateEndpoint ∈ st.endpoints
  | .removeRun _ => True

section

variable {st : Stores}

theorem isSelected_eq_false {name : Str} : st.isSelected name = false ↔ ∀ k, st.settings k ≠ name := by
  simp [Stores.isSelected, Setting.mem_all]

theorem isPinned_eq_false {name : Str} : st.isPinned name = false ↔ ∀ o ∈ st.overrides, o.2 ≠ name := by
  simp [Stores.isPinned]

theorem isQueued_eq_false {name : Str} :
    st.isQueued name = false ↔ ∀ r ∈ st.runs, r.status.isActive = true → r.candidateEndpoint ≠ name := by
  simp [Stores.isQueued]

/-- a remove is safe when nothing selects the name -/
theorem noOrphan_remove (h : NoOrphan st) (name : Str) :
    NoOrphan (Change.apply st (.remove name)) ↔ (Change.remove name).Safe st := by
  have hmem : ∀ {x : Str}, x ∈ (Change.apply st (.remove name)).endpoints ↔ x ∈ st.endpoints ∧ x ≠ name := by
    intro x
    simp [Change.apply]
  constructor
  · intro hafter hne
    refine ⟨isSelected_eq_false.2 fun k hk => ?_, isPinned_eq_false.2 fun o ho hk => ?_,
      isQueued_eq_false.2 fun r hr hactive hk => ?_⟩
    · exact (hmem.1 (hafter.settings k (by rw [show (Change.apply st (.remove name)).settings k = name from hk]; exact hne))).2 hk
    · exact (hmem.1 (hafter.overrides o ho (by rw [hk]; exact hne))).2 hk
    · exact (hmem.1 (hafter.runs r hr hactive (by rw [hk]; exact hne))).2 hk
  · intro hsafe
    refine ⟨fun k hk => ?_, fun o ho hk => ?_, fun r hr hactive hk => ?_⟩
    · refine hmem.2 ⟨h.settings k hk, fun heq => ?_⟩
      have hne : name ≠ [] := by
        rw [← heq]
        exact hk
      exact isSelected_eq_false.1 (hsafe hne).1 k heq
    · refine hmem.2 ⟨h.overrides o ho hk, fun heq => ?_⟩
      have hne : name ≠ [] := by
        rw [← heq]
        exact hk
      exact isPinned_eq_false.1 (hsafe hne).2.1 o ho heq
    · refine hmem.2 ⟨h.runs r hr hactive hk, fun heq => ?_⟩
      have hne : name ≠ [] := by
        rw [← heq]
        exact hk
      exact isQueued_eq_false.1 (hsafe hne).2.2 r hr hactive heq

/-- **One write.** It leaves no orphan exactly when it is safe. -/
theorem noOrphan_apply (h : NoOrphan st) (c : Change) : NoOrphan (c.apply st) ↔ c.Safe st := by
  cases c with
  | remove name => exact noOrphan_remove h name
  | insert name =>
    refine iff_of_true ?_ trivial
    simp only [Change.apply]
    split_ifs
    · exact h
    · exact ⟨fun k hk => List.mem_append_left _ (h.settings k hk), fun o ho hk => List.mem_append_left _ (h.overrides o ho hk),
        fun r hr hactive hk => List.mem_append_left _ (h.runs r hr hactive hk)⟩
  | removeRun id =>
    exact iff_of_true ⟨h.settings, h.overrides, fun r hr => h.runs r (List.mem_of_mem_filter hr)⟩ trivial
  | settings updates =>
    constructor
    · intro hafter k v hv hne
      have hk : (Change.apply st (.settings updates)).settings k = v := by simp [Change.apply, hv]
      have hin := hafter.settings k (by rw [hk]; exact hne)
      rwa [hk] at hin
    · intro hsafe
      refine ⟨fun k hk => ?_, h.overrides, h.runs⟩
      simp only [Change.apply] at hk ⊢
      cases hv : updates k with
      | none =>
        rw [hv] at hk
        exact h.settings k hk
      | some v =>
        rw [hv] at hk
        exact hsafe k v hv hk
  | override user value =>
    constructor
    · intro hafter o ho huser hne
      refine hafter.overrides (user, value) ?_ hne
      exact List.mem_map.2 ⟨o, ho, if_pos huser⟩
    · intro hsafe
      refine ⟨h.settings, fun o ho hk => ?_, h.runs⟩
      obtain ⟨o', ho', rfl⟩ := List.mem_map.1 ho
      split_ifs at hk ⊢ with huser
      · exact hsafe o' ho' huser hk
      · exact h.overrides o' ho' hk
  | addRun id candidateEndpoint =>
    constructor
    · intro hafter hne
      exact hafter.runs ⟨id, candidateEndpoint, .pending⟩ (List.mem_append_right _ (List.mem_singleton_self _)) rfl hne
    · intro hsafe
      refine ⟨h.settings, h.overrides, fun r hr hactive hk => ?_⟩
      rcases List.mem_append.1 hr with hr | hr
      · exact h.runs r hr hactive hk
      · rw [List.mem_singleton.1 hr] at hk ⊢
        exact hsafe hk
  | setStatus id status =>
    constructor
    · intro hafter hactive r hr hid hk
      refine hafter.runs { r with status := status } ?_ hactive hk
      exact List.mem_map.2 ⟨r, hr, if_pos hid⟩
    · intro hsafe
      refine ⟨h.settings, h.overrides, fun r hr hactive hk => ?_⟩
      obtain ⟨r', hr', rfl⟩ := List.mem_map.1 hr
      split_ifs at hactive hk ⊢ with hid
      · exact hsafe hactive r' hr' hid hk
      · exact h.runs r' hr' hactive hk

end

/-! ## Refusals -/

/-- the request has written, and only resets the cache or saves the store -/
def Phase.written : Phase → Bool
  | .upserted => true
  | .removed => true
  | .save => true
  | _ => false

theorem conclude_change (cache : Cache) (w : Selecting) (missing : List Str) :
    (conclude cache w missing).change = none ∨ (conclude cache w missing).next = .inl .save := by
  unfold conclude
  split_ifs
  · exact Or.inl rfl
  · cases w with
    | modelConfig updates => exact Or.inr rfl
    | userOverride user value loaded =>
      simp only
      split_ifs <;> exact Or.inl rfl
    | startRun id candidateEndpoint => exact Or.inl rfl

theorem askOn_change (cache : Cache) (w : Selecting) (names missing : List Str) :
    (askOn cache w names missing).change = none ∨ (askOn cache w names missing).next = .inl .save := by
  unfold askOn
  split
  · exact conclude_change _ _ _
  · exact conclude_change _ _ _
  · exact Or.inl rfl

/-- a task writes once, and succeeds after that -/
theorem advance_change (st : Stores) (cache : Cache) (p : Phase) :
    (p.written = true → (advance st cache p).change = none ∧ (advance st cache p).next = .inr .ok) ∧
      ((advance st cache p).change = none ∨ (∃ p', (advance st cache p).next = .inl p' ∧ p'.written = true) ∨
        (advance st cache p).next = .inr .ok) := by
  have hsave : ∀ {m : Move}, m.change = none ∨ m.next = .inl .save →
      m.change = none ∨ (∃ p', m.next = .inl p' ∧ p'.written = true) ∨ m.next = .inr .ok :=
    fun h => h.imp_right fun h => Or.inl ⟨_, h, rfl⟩
  cases p with
  | upsert name => exact ⟨nofun, Or.inr (Or.inl ⟨_, rfl, rfl⟩)⟩
  | upserted => exact ⟨fun _ => ⟨rfl, rfl⟩, Or.inl rfl⟩
  | selectors name => exact ⟨nofun, Or.inl rfl⟩
  | pins name blocked => exact ⟨nofun, Or.inl rfl⟩
  | queued name blocked =>
    refine ⟨nofun, Or.inl ?_⟩
    simp only [advance]
    split_ifs <;> rfl
  | selectRow name =>
    refine ⟨nofun, Or.inl ?_⟩
    simp only [advance]
    split_ifs <;> rfl
  | remove name =>
    refine ⟨nofun, ?_⟩
    simp only [advance]
    split_ifs
    · exact Or.inr (Or.inl ⟨_, rfl, rfl⟩)
    · exact Or.inl rfl
  | removed => exact ⟨fun _ => ⟨rfl, rfl⟩, Or.inl rfl⟩
  | subscription user value =>
    refine ⟨nofun, Or.inl ?_⟩
    simp only [advance]
    split <;> rfl
  | ask w names missing => exact ⟨nofun, hsave (askOn_change _ _ _ _)⟩
  | lock w names missing =>
    refine ⟨nofun, ?_⟩
    simp only [advance]
    split_ifs
    · exact Or.inl rfl
    · split
      · exact hsave (conclude_change _ _ _)
      · exact Or.inl rfl
  | read w names missing generation => exact ⟨nofun, Or.inl rfl⟩
  | publish w names missing generation rows => exact ⟨nofun, hsave (askOn_change _ _ _ _)⟩
  | commit w => exact ⟨nofun, Or.inr (Or.inr rfl)⟩
  | save => exact ⟨fun _ => ⟨rfl, rfl⟩, Or.inl rfl⟩

/-- a request that wrote is done or about to be, and did not fail -/
structure Inv (s : Sys) : Prop where
  requests : ∀ q ∈ s.requests, q.1 < s.nextId
  outcomes : ∀ o ∈ s.outcomes, o.1 < s.nextId ∧ ∀ q ∈ s.requests, q.1 ≠ o.1
  changed : ∀ i ∈ s.changed, i < s.nextId ∧ ∀ q ∈ s.requests, q.1 = i → q.2.written = true
  refused : ∀ o ∈ s.outcomes, o.2 ≠ .ok → o.1 ∉ s.changed

/-- a task that goes on -/
theorem proceed_on {s : Sys} {i : ℕ} {p p' : Phase} (hp : s.requests.lookup i = some p)
    (hnext : (advance s.stores s.cache p).next = .inl p') :
    (step s (.proceed i)).requests = (s.requests.map fun q => if q.1 = i then (i, p') else q) ∧
      (step s (.proceed i)).outcomes = s.outcomes := by
  simp [step, hp, hnext]

/-- a task that ends -/
theorem proceed_end {s : Sys} {i : ℕ} {p : Phase} {o : Outcome} (hp : s.requests.lookup i = some p)
    (hnext : (advance s.stores s.cache p).next = .inr o) :
    (step s (.proceed i)).requests = s.requests.filter (fun q => q.1 ≠ i) ∧
      (step s (.proceed i)).outcomes = s.outcomes ++ [(i, o)] := by
  simp [step, hp, hnext]

theorem proceed_changed {s : Sys} {i : ℕ} {p : Phase} (hp : s.requests.lookup i = some p) :
    (step s (.proceed i)).nextId = s.nextId ∧ (step s (.proceed i)).changed =
      if (advance s.stores s.cache p).change.isSome then s.changed ++ [i] else s.changed := by
  simp [step, hp]

theorem proceed_inv {s : Sys} {i : ℕ} {p : Phase} (hp : s.requests.lookup i = some p) (h : Inv s) :
    Inv (step s (.proceed i)) := by
  have hmem : (i, p) ∈ s.requests := by
    obtain ⟨before, after, heq, -⟩ := List.lookup_eq_some_iff.1 hp
    rw [heq]
    simp
  have hlt := h.requests _ hmem
  obtain ⟨hwritten, hchange⟩ := advance_change s.stores s.cache p
  obtain ⟨hid, hchanged⟩ := proceed_changed hp
  -- an earlier write of the request
  have hbefore : i ∈ s.changed → (advance s.stores s.cache p).change = none ∧ (advance s.stores s.cache p).next = .inr .ok :=
    fun hi => hwritten ((h.changed i hi).2 _ hmem rfl)
  have hin : ∀ {j : ℕ}, j ∈ (step s (.proceed i)).changed →
      j ∈ s.changed ∨ j = i ∧ (advance s.stores s.cache p).change ≠ none := by
    intro j hj
    rw [hchanged] at hj
    split_ifs at hj with hsome
    · rcases List.mem_append.1 hj with hj | hj
      · exact Or.inl hj
      · exact Or.inr ⟨List.mem_singleton.1 hj, fun hnone => by rw [hnone] at hsome; cases hsome⟩
    · exact Or.inl hj
  cases hnext : (advance s.stores s.cache p).next with
  | inl p' =>
    obtain ⟨hrequests, houtcomes⟩ := proceed_on hp hnext
    have hof : ∀ q ∈ (step s (.proceed i)).requests, q = (i, p') ∨ q ∈ s.requests ∧ q.1 ≠ i := by
      intro q hq
      rw [hrequests] at hq
      obtain ⟨q', hq', rfl⟩ := List.mem_map.1 hq
      split_ifs with heq
      · exact Or.inl rfl
      · exact Or.inr ⟨hq', heq⟩
    refine ⟨fun q hq => ?_, fun o ho => ?_, fun j hj => ?_, fun o ho hne => ?_⟩
    · rw [hid]
      rcases hof q hq with rfl | ⟨hq, -⟩
      · exact hlt
      · exact h.requests q hq
    · rw [houtcomes] at ho
      rw [hid]
      refine ⟨(h.outcomes o ho).1, fun q hq => ?_⟩
      rcases hof q hq with rfl | ⟨hq, -⟩
      · exact (h.outcomes o ho).2 (i, p) hmem
      · exact (h.outcomes o ho).2 q hq
    · rw [hid]
      rcases hin hj with hj | ⟨rfl, hsome⟩
      · refine ⟨(h.changed j hj).1, fun q hq hqj => ?_⟩
        rcases hof q hq with rfl | ⟨hq, -⟩
        · obtain rfl : i = j := hqj
          obtain ⟨-, hend⟩ := hbefore hj
          rw [hnext] at hend
          cases hend
        · exact (h.changed j hj).2 q hq hqj
      · refine ⟨hlt, fun q hq hqj => ?_⟩
        rcases hof q hq with rfl | ⟨-, hne⟩
        · rcases hchange.resolve_left hsome with ⟨p'', hp'', hw⟩ | hend
          · rw [hnext] at hp''
            cases hp''
            exact hw
          · rw [hnext] at hend
            cases hend
        · exact absurd hqj hne
    · rw [houtcomes] at ho
      intro hj
      rcases hin hj with hj | ⟨heq, -⟩
      · exact h.refused o ho hne hj
      · exact (h.outcomes o ho).2 _ hmem heq.symm
  | inr o =>
    obtain ⟨hrequests, houtcomes⟩ := proceed_end hp hnext
    have hof : ∀ q ∈ (step s (.proceed i)).requests, q ∈ s.requests ∧ q.1 ≠ i := by
      intro q hq
      rw [hrequests, List.mem_filter, decide_eq_true_eq] at hq
      exact hq
    refine ⟨fun q hq => ?_, fun o' ho' => ?_, fun j hj => ?_, fun o' ho' hne => ?_⟩
    · rw [hid]
      exact h.requests q (hof q hq).1
    · rw [houtcomes] at ho'
      rw [hid]
      rcases List.mem_append.1 ho' with ho' | ho'
      · exact ⟨(h.outcomes o' ho').1, fun q hq => (h.outcomes o' ho').2 q (hof q hq).1⟩
      · rw [List.mem_singleton.1 ho']
        exact ⟨hlt, fun q hq => (hof q hq).2⟩
    · rw [hid]
      rcases hin hj with hj | ⟨rfl, -⟩
      · exact ⟨(h.changed j hj).1, fun q hq => (h.changed j hj).2 q (hof q hq).1⟩
      · exact ⟨hlt, fun q hq hqj => absurd hqj (hof q hq).2⟩
    · rw [houtcomes] at ho'
      intro hj
      rcases List.mem_append.1 ho' with ho' | ho'
      · rcases hin hj with hj | ⟨heq, -⟩
        · exact h.refused o' ho' hne hj
        · exact (h.outcomes o' ho').2 _ hmem heq.symm
      · rw [List.mem_singleton.1 ho'] at hj hne
        rcases hin hj with hj | ⟨-, hsome⟩
        · obtain ⟨-, hend⟩ := hbefore hj
          rw [hnext] at hend
          cases hend
          exact hne rfl
        · rcases hchange.resolve_left hsome with ⟨p'', hp'', -⟩ | hend
          · rw [hnext] at hp''
            cases hp''
          · rw [hnext] at hend
            cases hend
            exact hne rfl

theorem step_inv (s : Sys) (e : Event) (h : Inv s) : Inv (step s e) := by
  cases e with
  | setStatus id status => exact ⟨h.requests, h.outcomes, h.changed, h.refused⟩
  | deleteRun id => exact ⟨h.requests, h.outcomes, h.changed, h.refused⟩
  | proceed i =>
    cases hp : s.requests.lookup i with
    | none =>
      rw [show step s (.proceed i) = s by simp [step, hp]]
      exact h
    | some p => exact proceed_inv hp h
  | start r =>
    have hof : ∀ q ∈ (step s (.start r)).requests, q ∈ s.requests ∨ q = (s.nextId, r.begin) := by
      intro q hq
      exact (List.mem_append.1 hq).imp_right List.mem_singleton.1
    refine ⟨fun q hq => ?_, fun o ho => ?_, fun j hj => ?_, h.refused⟩
    · rcases hof q hq with hq | rfl
      · exact Nat.lt_succ_of_lt (h.requests q hq)
      · exact Nat.lt_succ_self _
    · obtain ⟨hlt, hother⟩ := h.outcomes o ho
      refine ⟨Nat.lt_succ_of_lt hlt, fun q hq => ?_⟩
      rcases hof q hq with hq | rfl
      · exact hother q hq
      · exact (ne_of_lt hlt).symm
    · obtain ⟨hlt, hphase⟩ := h.changed j hj
      refine ⟨Nat.lt_succ_of_lt hlt, fun q hq hqj => ?_⟩
      rcases hof q hq with hq | rfl
      · exact hphase q hq hqj
      · exact absurd hqj (ne_of_lt hlt).symm

/-! ## Runs -/

/-- a configuration without orphans -/
structure Configured where
  stores : Stores
  sound : NoOrphan stores

/-- the process before any request, the cache empty -/
def Configured.sys (c : Configured) : Sys := ⟨c.stores, ⟨none, 0, false⟩, [], 0, [], []⟩

/-- the write of the event is safe -/
def Calm (s : Sys) (e : Event) : Prop := ∀ c ∈ change? s e, c.Safe s.stores

theorem noOrphan_step {s : Sys} (h : NoOrphan s.stores) (e : Event) : NoOrphan (step s e).stores ↔ Calm s e := by
  rw [step_stores]
  unfold Calm Sys.write
  cases change? s e with
  | none => exact iff_of_true h nofun
  | some c => exact (noOrphan_apply h c).trans ⟨fun hsafe c' hc' => by cases hc'; exact hsafe, fun hsafe => hsafe c rfl⟩

/-- one endpoint, selected by nothing -/
def oneEndpoint : Configured where
  stores := ⟨["gateway".toList], fun _ => [], [], []⟩
  sound := ⟨fun _ hk => absurd rfl hk, nofun, nofun⟩

/-- a delete has read the settings when a setting takes the endpoint; its last reads find nothing -/
def selectedMeanwhile : List Event :=
  [.start (.delete "gateway".toList), .proceed 0,
    .start (.modelConfig fun k => if k = .llmEndpoint then some "gateway".toList else none), .proceed 1, .proceed 1, .proceed 1,
    .proceed 1, .proceed 1, .proceed 0, .proceed 0, .proceed 0, .proceed 0, .proceed 0]

end Clawbolt.Endpoints
