/-
The token cache of one process (`OAuthService` of services/oauth.py), for one user and integration: loads, saves and
deletes, interleaved at their awaited database calls. The calls succeed.

A coroutine takes one step for each SELECT and each commit, and one for what it does with the answer. `writes` are the
values that were committed, the one that the table had at first in front; a version is a place in it. `returned` is the
newest version that a save or delete has returned with, and a load remembers what it was at its start.

- `load_served`: in every run of calm steps a load gives a value that is no older than what had returned when it started;
- `stale_served`: a fill that is not calm brings a removed token back.
-/
import Mathlib.Tactic
import Clawbolt.OAuth.Refresh

namespace Clawbolt.OAuth.TokenCache

open Runs

/-! ## The code -/

/-- where a coroutine is -/
inductive Job where
  | idle
  /-- `load_token` awaits its SELECT -/
  | loading (floor : ℕ)
  | loaded (floor version : ℕ) (tok : Option Token)
  | loadDone (floor : ℕ) (tok : Option Token)
  | saving (tok : Token)
  /-- `delete_token` awaits its SELECT -/
  | deleting
  | deletingRow (row : ℕ)
  /-- a save or delete in front of its `pop` -/
  | written (version : ℕ)
  | ended
deriving DecidableEq

structure Service where
  row : Option Row
  nextId : ℕ
  /-- the entry, with the version it was read at -/
  cache : Option (Option Token × ℕ)
  job : ℕ → Job
  writes : List (Option Token)
  returned : ℕ

namespace Service

def stored (s : Service) : Option Token := s.row.map Row.token

/-- the version of the committed row -/
def current (s : Service) : ℕ := s.writes.length - 1

def put (s : Service) (t : ℕ) (j : Job) : Service := { s with job := Function.update s.job t j }

def init (row : Option Row) : Service where
  row := row
  nextId := (row.map fun r => r.id + 1).getD 0
  cache := none
  job := fun _ => .idle
  writes := [row.map Row.token]
  returned := 0

end Service

inductive Op where
  | load (t : ℕ)
  | loadUncached (t : ℕ)
  | save (t : ℕ) (tok : Token)
  | delete (t : ℕ)
  /-- the SELECT that the task awaits -/
  | select (t : ℕ)
  /-- the commit that the task awaits -/
  | commit (t : ℕ)
  /-- a load puts what it read into the cache -/
  | fill (t : ℕ)
  /-- a save or delete drops the entry and returns -/
  | finish (t : ℕ)
  /-- the entry's time is over -/
  | expire
deriving DecidableEq

def load (s : Service) (t : ℕ) : Service :=
  match s.cache with
  | some (tok, _) => s.put t (.loadDone s.returned tok)
  | none => s.put t (.loading s.returned)

def select (s : Service) (t : ℕ) : Service :=
  match s.job t with
  | .loading floor => s.put t (.loaded floor s.current s.stored)
  | .deleting =>
    match s.row with
    | some r => s.put t (.deletingRow r.id)
    | none => s.put t (.written s.current)
  | _ => s

/-- the upsert keeps the id of a row, the DELETE names it -/
def commit (s : Service) (t : ℕ) : Service :=
  match s.job t with
  | .saving tok =>
    { s.put t (.written s.writes.length) with
      row := some ⟨(s.row.map Row.id).getD s.nextId, tok⟩
      nextId := s.nextId + 1
      writes := s.writes ++ [some tok] }
  | .deletingRow i =>
    { s.put t (.written s.writes.length) with
      row := if s.row.map Row.id = some i then none else s.row
      writes := s.writes ++ [none] }
  | _ => s

def fill (s : Service) (t : ℕ) : Service :=
  match s.job t with
  | .loaded floor version tok => { s.put t (.loadDone floor tok) with cache := some (tok, version) }
  | _ => s

def finish (s : Service) (t : ℕ) : Service :=
  match s.job t with
  | .written version => { s.put t .ended with cache := none, returned := max s.returned version }
  | _ => s

def step (s : Service) : Op → Service
  | .load t => if s.job t = .idle then load s t else s
  | .loadUncached t => if s.job t = .idle then load { s with cache := none } t else s
  | .save t tok => if s.job t = .idle then s.put t (.saving tok) else s
  | .delete t => if s.job t = .idle then s.put t .deleting else s
  | .select t => select s t
  | .commit t => commit s t
  | .fill t => fill s t
  | .finish t => finish s t
  | .expire => { s with cache := none }

/-! ## The property and the condition -/

/-- what a load gave was committed, and is no older than what had returned when it started -/
def Served (s : Service) : Prop :=
  ∀ t floor tok, s.job t = .loadDone floor tok → ∃ version, floor ≤ version ∧ s.writes[version]? = some tok

/-- a fill comes before the return of any write that its SELECT did not see, and a DELETE does not miss another row -/
def calm (s : Service) : Op → Bool
  | .fill t =>
    match s.job t with
    | .loaded _ version _ => s.returned ≤ version
    | _ => true
  | .commit t =>
    match s.job t with
    | .deletingRow i => s.row.all fun r => r.id == i
    | _ => true
  | _ => true

def Calm (s : Service) (o : Op) : Prop := calm s o = true

instance (s : Service) (o : Op) : Decidable (Calm s o) := inferInstanceAs (Decidable (calm s o = true))

/-! ## The invariant -/

/-- what a coroutine knows where it is -/
def Knows (s : Service) : Job → Prop
  | .loading floor => floor ≤ s.returned
  | .loaded floor version tok => floor ≤ version ∧ s.writes[version]? = some tok
  | .loadDone floor tok => ∃ version, floor ≤ version ∧ s.writes[version]? = some tok
  | .written version => version < s.writes.length
  | _ => True

structure Inv (s : Service) : Prop where
  newest : s.writes.getLast? = some s.stored
  returned : s.returned < s.writes.length
  cached : ∀ tok version, s.cache = some (tok, version) → s.returned ≤ version ∧ s.writes[version]? = some tok
  jobs : ∀ t, Knows s (s.job t)

theorem inv_init (row : Option Row) : Inv (Service.init row) where
  newest := rfl
  returned := Nat.zero_lt_one
  cached := fun _ _ h => by cases h
  jobs := fun _ => trivial

theorem Inv.current_lt {s : Service} (h : Inv s) : s.current < s.writes.length := by
  have := h.returned
  unfold Service.current
  omega

/-- the row is the newest version -/
theorem Inv.at_current {s : Service} (h : Inv s) : s.writes[s.current]? = some s.stored := by
  rw [Service.current, ← List.getLast?_eq_getElem?, h.newest]

/-- what is known stays known: the writes only grow, and so does what has returned -/
theorem Knows.mono {s s' : Service} {j : Job} (hw : s.writes <+: s'.writes) (hr : s.returned ≤ s'.returned)
    (h : Knows s j) : Knows s' j := by
  obtain ⟨more, hmore⟩ := hw
  have hkeep : ∀ {n : ℕ} {tok : Option Token}, s.writes[n]? = some tok → s'.writes[n]? = some tok := by
    intro n tok hn
    rw [← hmore, List.getElem?_append_left (List.getElem?_eq_some_iff.1 hn).1, hn]
  cases j with
  | loading floor => exact le_trans h hr
  | loaded floor version tok => exact ⟨h.1, hkeep h.2⟩
  | loadDone floor tok =>
    obtain ⟨version, hle, hn⟩ := h
    exact ⟨version, hle, hkeep hn⟩
  | written version =>
    have hlt : version < s.writes.length := h
    rw [Knows, ← hmore, List.length_append]
    omega
  | _ => trivial

/-- one coroutine moves, the writes grow at most -/
theorem jobs_put {s s' : Service} {t : ℕ} {j : Job} (h : Inv s) (hjob : s'.job = Function.update s.job t j)
    (hw : s.writes <+: s'.writes) (hr : s.returned ≤ s'.returned) (hj : Knows s' j) : ∀ i, Knows s' (s'.job i) := by
  intro i
  rw [hjob]
  rcases eq_or_ne i t with rfl | hne
  · rwa [Function.update_self]
  · rw [Function.update_of_ne hne]
    exact (h.jobs i).mono hw hr

/-! ## Steps -/

/-- one coroutine moves and nothing else changes, the cache entry at most is dropped -/
theorem inv_put {s : Service} (h : Inv s) {t : ℕ} {j : Job} (hj : Knows s j) : Inv (s.put t j) where
  newest := h.newest
  returned := h.returned
  cached := h.cached
  jobs := jobs_put h rfl List.prefix_rfl le_rfl hj

theorem inv_drop {s : Service} (h : Inv s) : Inv { s with cache := none } where
  newest := h.newest
  returned := h.returned
  cached := fun _ _ hc => by cases hc
  jobs := fun t => (h.jobs t).mono List.prefix_rfl le_rfl

theorem inv_load {s : Service} (h : Inv s) (t : ℕ) : Inv (load s t) := by
  unfold load
  split
  · next tok version hc => exact inv_put h ⟨version, h.cached tok version hc⟩
  · exact inv_put h (show s.returned ≤ s.returned from le_rfl)

theorem inv_select {s : Service} (h : Inv s) (t : ℕ) : Inv (select s t) := by
  unfold select
  split
  · next floor hj =>
    have hfloor : floor ≤ s.returned := by
      have := h.jobs t
      rwa [hj] at this
    have hcur : s.returned ≤ s.current := by
      have := h.returned
      unfold Service.current
      omega
    exact inv_put h ⟨le_trans hfloor hcur, h.at_current⟩
  · split
    · exact inv_put h trivial
    · exact inv_put h h.current_lt
  · exact h

/-- a commit: a new version, which is what the row is now -/
theorem inv_written {s s' : Service} (h : Inv s) {t : ℕ} {tok : Option Token}
    (hjob : s'.job = Function.update s.job t (.written s.writes.length)) (hw : s'.writes = s.writes ++ [tok])
    (hrow : s'.stored = tok) (hr : s'.returned = s.returned) (hc : s'.cache = s.cache) : Inv s' := by
  have hlen : s'.writes.length = s.writes.length + 1 := by rw [hw, List.length_append, List.length_singleton]
  have hgrow : s.writes <+: s'.writes := by
    rw [hw]
    exact List.prefix_append _ _
  refine ⟨?_, ?_, ?_, jobs_put h hjob hgrow (hr ▸ le_rfl) ?_⟩
  · rw [hw, hrow, List.getLast?_concat]
  · have := h.returned
    omega
  · intro tok' version hcached
    rw [hc] at hcached
    obtain ⟨hle, hn⟩ := h.cached tok' version hcached
    refine ⟨hr ▸ hle, ?_⟩
    rw [hw, List.getElem?_append_left (List.getElem?_eq_some_iff.1 hn).1, hn]
  · rw [Knows, hlen]
    omega

theorem inv_commit {s : Service} (h : Inv s) {t : ℕ} (hcalm : Calm s (.commit t)) : Inv (commit s t) := by
  unfold commit
  split
  · exact inv_written h rfl rfl rfl rfl rfl
  · next i hj =>
    refine inv_written h rfl rfl ?_ rfl rfl
    have hall : (s.row.all fun r => r.id == i) = true := by
      have hc := hcalm
      rw [Calm, calm, hj] at hc
      exact hc
    change (if s.row.map Row.id = some i then none else s.row).map Row.token = none
    cases hrow : s.row with
    | none => rw [ite_self, Option.map_none]
    | some r =>
      rw [hrow, Option.all_some, beq_iff_eq] at hall
      rw [Option.map_some, hall, if_pos rfl, Option.map_none]
  · exact h

theorem inv_fill {s : Service} (h : Inv s) {t : ℕ} (hcalm : Calm s (.fill t)) : Inv (fill s t) := by
  unfold fill
  split
  · next floor version tok hj =>
    have hknows : floor ≤ version ∧ s.writes[version]? = some tok := by
      have := h.jobs t
      rwa [hj] at this
    have hle : s.returned ≤ version := by
      have hc := hcalm
      rw [Calm, calm, hj] at hc
      exact of_decide_eq_true hc
    refine ⟨h.newest, h.returned, ?_, jobs_put h rfl List.prefix_rfl le_rfl ⟨version, hknows⟩⟩
    intro tok' version' hc
    obtain ⟨rfl, rfl⟩ := Prod.mk.inj (Option.some.inj hc)
    exact ⟨hle, hknows.2⟩
  · exact h

theorem inv_finish {s : Service} (h : Inv s) (t : ℕ) : Inv (finish s t) := by
  unfold finish
  split
  · next version hj =>
    have hlt : version < s.writes.length := by
      have := h.jobs t
      rwa [hj] at this
    refine ⟨h.newest, max_lt h.returned hlt, ?_, jobs_put h rfl List.prefix_rfl (le_max_left _ _) trivial⟩
    intro tok' version' hc
    cases hc
  · exact h

theorem inv_step (s : Service) (o : Op) (h : Inv s) (hcalm : Calm s o) : Inv (step s o) := by
  cases o with
  | load t =>
    simp only [step]
    split
    · exact inv_load h t
    · exact h
  | loadUncached t =>
    simp only [step]
    split
    · exact inv_load (inv_drop h) t
    · exact h
  | save t tok =>
    simp only [step]
    split
    · exact inv_put h trivial
    · exact h
  | delete t =>
    simp only [step]
    split
    · exact inv_put h trivial
    · exact h
  | select t => exact inv_select h t
  | commit t => exact inv_commit h hcalm
  | fill t => exact inv_fill h hcalm
  | finish t => exact inv_finish h t
  | expire => exact inv_drop h

theorem Inv.served {s : Service} (h : Inv s) : Served s := by
  intro t floor tok hj
  have hknows := h.jobs t
  rwa [hj] at hknows

/-- **No stale token.** -/
theorem load_served (row : Option Row) (ops : List Op) (hcalm : Meets step Calm (Service.init row) ops) :
    Served (run step (Service.init row) ops) :=
  (run_inv inv_step hcalm (inv_init row)).served

def someToken : Token := ⟨"a".toList, "r".toList, 0, [], [], 0⟩

/-- a load that fills the cache before the delete returns, and one that starts afterwards -/
theorem served_overtaken : Served (run step (Service.init (some ⟨1, someToken⟩))
    [.load 0, .select 0, .delete 1, .select 1, .commit 1, .fill 0, .finish 1, .load 2, .select 2, .fill 2]) :=
  load_served _ _ (by decide)

/-- a load that fills the cache after the delete has returned -/
theorem stale_served : ∃ ops : List Op, ¬ Served (run step (Service.init (some ⟨1, someToken⟩)) ops) := by
  refine ⟨[.load 0, .select 0, .delete 1, .select 1, .commit 1, .finish 1, .fill 0, .load 2], fun hserved => ?_⟩
  obtain ⟨version, hle, hn⟩ := hserved 2 1 (some someToken) (by decide)
  have hwrites : (run step (Service.init (some ⟨1, someToken⟩))
      [.load 0, .select 0, .delete 1, .select 1, .commit 1, .finish 1, .fill 0, .load 2]).writes = [some someToken, none] := by
    decide
  rw [hwrites] at hn
  rcases version with _ | _ | n
  · cases hle
  · cases hn
  · cases hn

end Clawbolt.OAuth.TokenCache
