/-
The cache of the endpoint rows in one process (`_load_endpoints`, `upsert_endpoint` and `delete_endpoint` of
services/llm_endpoints.py).

Reads and writes are split at their awaits. A load reads the generation, selects, and publishes what it got if no write has
dropped the cache since; a write drops the cache after its commit, with awaits between the two. A query sees the rows of the
last commit. A read or a write can fail or be cancelled at every await.

A version is the number of commits before; `since` is ghost data: the versions of the writes that had returned when a read
started.

Results:
- `inv_step`: a cached version is as new as every write that returned, and so is what a load of this generation got;
- `reads_current`: every read of a run returns the rows of one commit, as new as every write that returned before it started.
-/
import Mathlib.Tactic
import Clawbolt.Core.Json
import Clawbolt.Core.Runs

namespace Clawbolt.Endpoints.Cache

open Text (Str)

/-! ## Model -/

/-- the columns of an `LLMEndpoint` after its name -/
structure Endpoint where
  dialect : Str
  baseUrl : Str
  apiKey : Str
  cacheControl : Str
  reasoning : Str
  pricing : Str
  notes : Str
deriving DecidableEq, Repr

abbrev Rows := Dict Endpoint

/-- a new row -/
def Endpoint.blank : Endpoint := ⟨[], [], [], [], [], [], []⟩

/-- the columns that a session changed since it loaded the row, on the row that is there now -/
def Endpoint.update (loaded new current : Endpoint) : Endpoint :=
  let column := fun f : Endpoint → Str => if f new = f loaded then f current else f new
  ⟨column Endpoint.dialect, column Endpoint.baseUrl, column Endpoint.apiKey, column Endpoint.cacheControl,
    column Endpoint.reasoning, column Endpoint.pricing, column Endpoint.notes⟩

/-- `MASK` -/
def mask : Str := "****".toList

inductive Write where
  /-- `upsert_endpoint`, with the API key of the form apart -/
  | upsert (name : Str) (fields : Endpoint) (apiKey : Option Str)
  | delete (name : Str)
deriving DecidableEq, Repr

def Write.name : Write → Str
  | .upsert name _ _ => name
  | .delete name => name

/-- the rows that a write commits, after it loaded its row; none where the commit fails, or there is nothing to write -/
def Write.commit (w : Write) (loaded : Option Endpoint) (rows : Rows) : Option Rows :=
  match w, loaded with
  | .upsert name fields apiKey, loaded =>
    let row := loaded.getD Endpoint.blank
    let new := { fields with apiKey := if apiKey = some mask then row.apiKey else apiKey.getD row.apiKey }
    match loaded, rows.lookup name with
    | none, none => some (Dict.set name new rows)
    | some row, some current => some (Dict.set name (row.update new current) rows)
    | _, _ => none
  | .delete _, none => none
  | .delete name, some _ => some (Dict.erase name rows)

/-- what a read of the cache answers -/
inductive Query where
  | get (name : Str)
  | list
deriving DecidableEq, Repr

/-- `get_endpoint` and `list_endpoints` on loaded rows -/
def Query.answer (q : Query) (rows : Rows) : List (Str × Endpoint) :=
  match q with
  | .get name => (rows.lookup name).toList.map fun e => (name, e)
  | .list => rows.insertionSort fun x y => x.1.map Char.toNat ≤ y.1.map Char.toNat

/-- rows, and the version they are of -/
structure Loaded where
  version : ℕ
  rows : Rows
deriving DecidableEq, Repr

inductive ReadPhase where
  /-- for the lock -/
  | waiting
  | selecting (generation : ℕ)
  | selected (generation : ℕ) (loaded : Loaded)
  | answered (loaded : Loaded) (answer : List (Str × Endpoint))
  | failed
deriving DecidableEq, Repr

structure Read where
  query : Query
  phase : ReadPhase
  since : List ℕ
deriving DecidableEq, Repr

inductive WritePhase where
  | selecting
  | selected (loaded : Option Endpoint)
  /-- between its commit and the drop of the cache -/
  | committed (version : ℕ)
  | returned (version : ℕ)
  | failed
deriving DecidableEq, Repr

structure Writing where
  write : Write
  phase : WritePhase
deriving DecidableEq, Repr

structure St where
  /-- the rows after each commit -/
  commits : List Rows
  cache : Option Loaded
  generation : ℕ
  /-- the read that holds `_cache_lock` -/
  lock : Option ℕ
  reads : List Read
  writes : List Writing

def init (rows : Rows) : St := ⟨[rows], none, 0, none, [], []⟩

/-- what a query sees -/
def St.current (s : St) : Loaded := ⟨s.commits.length - 1, (s.commits.getLast?).getD []⟩

/-- the versions of the writes that have returned -/
def St.returned (s : St) : List ℕ :=
  s.writes.filterMap fun w => match w.phase with
    | .returned version => some version
    | _ => none

def St.setRead (s : St) (i : ℕ) (r : Read) (phase : ReadPhase) : St := { s with reads := s.reads.set i { r with phase := phase } }

def St.setWrite (s : St) (i : ℕ) (w : Writing) (phase : WritePhase) : St :=
  { s with writes := s.writes.set i { w with phase := phase } }

/-- `reset_llm_endpoint_cache` -/
def St.reset (s : St) : St := { s with cache := none, generation := s.generation + 1 }

inductive Op where
  /-- `get_endpoint` with a name, or `list_endpoints` -/
  | read (q : Query)
  /-- a read goes on to its next await, where its query may fail -/
  | goRead (i : ℕ) (fails : Bool)
  | write (w : Write)
  /-- and a write -/
  | goWrite (i : ℕ) (fails : Bool)
deriving DecidableEq, Repr

/-- `_load_endpoints` between two awaits -/
def goRead (s : St) (i : ℕ) (r : Read) (fails : Bool) : St :=
  match r.phase with
  | .waiting =>
    if fails then s.setRead i r .failed
    else if s.lock = none then
      match s.cache with
      | some loaded => s.setRead i r (.answered loaded (r.query.answer loaded.rows))
      | none => { s.setRead i r (.selecting s.generation) with lock := some i }
    else s
  | .selecting generation =>
    if fails then { s.setRead i r .failed with lock := none }
    else s.setRead i r (.selected generation s.current)
  | .selected generation loaded =>
    -- the session is closed
    if fails then { s.setRead i r .failed with lock := none }
    else
      { s.setRead i r (.answered loaded (r.query.answer loaded.rows)) with
        lock := none
        cache := if generation = s.generation then some loaded else s.cache }
  | _ => s

/-- a write between two awaits -/
def goWrite (s : St) (i : ℕ) (w : Writing) (fails : Bool) : St :=
  match w.phase with
  | .selecting => s.setWrite i w (if fails then .failed else .selected (s.current.rows.lookup w.write.name))
  | .selected loaded =>
    if fails then s.setWrite i w .failed
    else match w.write.commit loaded s.current.rows with
      | some rows => { s.setWrite i w (.committed s.commits.length) with commits := s.commits ++ [rows] }
      | none => s.setWrite i w .failed
  -- an upsert refreshes its row first
  | .committed version => if fails then s.setWrite i w .failed else (s.setWrite i w (.returned version)).reset
  | _ => s

def step (s : St) : Op → St
  | .read q =>
    let phase := match s.cache with
      | some loaded => .answered loaded (q.answer loaded.rows)
      | none => .waiting
    { s with reads := s.reads ++ [⟨q, phase, s.returned⟩] }
  | .goRead i fails =>
    match s.reads[i]? with
    | some r => goRead s i r fails
    | none => s
  | .write w => { s with writes := s.writes ++ [⟨w, .selecting⟩] }
  | .goWrite i fails =>
    match s.writes[i]? with
    | some w => goWrite s i w fails
    | none => s

abbrev run (s : St) (ops : List Op) : St := Runs.run step s ops

/-! ## What is claimed -/

/-- a read has the rows of a commit, as new as the writes before it -/
def Read.Current (commits : List Rows) (r : Read) : Prop :=
  ∀ loaded answer, r.phase = .answered loaded answer → commits[loaded.version]? = some loaded.rows ∧
    (∀ version ∈ r.since, version ≤ loaded.version) ∧ answer = r.query.answer loaded.rows

/-- every read has -/
def St.ReadsCurrent (s : St) : Prop := ∀ r ∈ s.reads, r.Current s.commits

/-! ## The invariant -/

/-- rows of a commit that is as new as some others -/
def Loaded.Fresh (commits : List Rows) (versions : List ℕ) (loaded : Loaded) : Prop :=
  commits[loaded.version]? = some loaded.rows ∧ ∀ version ∈ versions, version ≤ loaded.version

structure Read.Ok (commits : List Rows) (generation : ℕ) (returned : List ℕ) (r : Read) : Prop where
  since : r.since ⊆ returned
  selecting : ∀ g, r.phase = .selecting g → g ≤ generation
  /-- a load of this generation got what no write has made old -/
  selected : ∀ g loaded, r.phase = .selected g loaded → g ≤ generation ∧ loaded.Fresh commits r.since ∧
    (g = generation → loaded.Fresh commits returned)
  answered : ∀ loaded answer, r.phase = .answered loaded answer → loaded.Fresh commits r.since ∧ answer = r.query.answer loaded.rows

structure Inv (s : St) : Prop where
  nonempty : s.commits ≠ []
  cache : ∀ loaded, s.cache = some loaded → loaded.Fresh s.commits s.returned
  reads : ∀ r ∈ s.reads, r.Ok s.commits s.generation s.returned
  writes : ∀ w ∈ s.writes, ∀ version, w.phase = .committed version ∨ w.phase = .returned version → version < s.commits.length

section
variable {s : St} {r : Read} {w : Writing} {i : ℕ}

theorem inv_init (rows : Rows) : Inv (init rows) where
  nonempty := List.cons_ne_nil _ _
  cache := fun loaded h => by cases h
  reads := fun r hr => by cases hr
  writes := fun w hw => by cases hw

theorem mem_returned {version : ℕ} : version ∈ s.returned ↔ ∃ w ∈ s.writes, w.phase = .returned version := by
  rw [St.returned, List.mem_filterMap]
  refine exists_congr fun w => and_congr_right fun _ => ?_
  split
  next v heq => rw [heq, Option.some.injEq, WritePhase.returned.injEq]
  next hne => exact iff_of_false (by simp) (hne version)

/-- what a query sees is as new as every write that has returned -/
theorem Inv.current (h : Inv s) : s.current.Fresh s.commits s.returned := by
  have hpos := List.length_pos_of_ne_nil h.nonempty
  constructor
  · have hlast := List.getLast?_eq_getElem? (l := s.commits)
    obtain ⟨rows, hrows⟩ := List.getLast?_isSome.2 h.nonempty |> Option.isSome_iff_exists.1
    dsimp only [St.current]
    rw [← hlast, hrows, Option.getD_some]
  · intro version hversion
    obtain ⟨w, hw, hphase⟩ := mem_returned.1 hversion
    have := h.writes w hw version (.inr hphase)
    dsimp only [St.current]
    omega

theorem Loaded.Fresh.mono {commits : List Rows} {versions : List ℕ} {loaded : Loaded} (h : loaded.Fresh commits versions)
    {more : List Rows} {fewer : List ℕ} (hsub : fewer ⊆ versions) : loaded.Fresh (commits ++ more) fewer := by
  refine ⟨?_, fun version hversion => h.2 version (hsub hversion)⟩
  obtain ⟨hlt, -⟩ := List.getElem?_eq_some_iff.1 h.1
  rw [List.getElem?_append_left hlt]
  exact h.1

theorem Loaded.Fresh.sub {commits : List Rows} {versions : List ℕ} {loaded : Loaded} (h : loaded.Fresh commits versions)
    {fewer : List ℕ} (hsub : fewer ⊆ versions) : loaded.Fresh commits fewer :=
  ⟨h.1, fun version hversion => h.2 version (hsub hversion)⟩

/-- a read goes on, and the cache with it -/
theorem Inv.setRead (h : Inv s) {phase : ReadPhase} (lock : Option ℕ) (cache : Option Loaded)
    (hok : Read.Ok s.commits s.generation s.returned { r with phase := phase })
    (hcache : ∀ loaded, cache = some loaded → loaded.Fresh s.commits s.returned) :
    Inv { s.setRead i r phase with lock := lock, cache := cache } where
  nonempty := h.nonempty
  cache := hcache
  reads := by
    intro r' hr'
    obtain hr' | rfl := List.mem_or_eq_of_mem_set hr'
    · exact h.reads r' hr'
    · exact hok
  writes := h.writes

theorem Read.Ok.failed {commits : List Rows} {generation : ℕ} {returned : List ℕ} (h : r.Ok commits generation returned) :
    Read.Ok commits generation returned { r with phase := .failed } :=
  ⟨h.since, fun _ hp => (by cases hp), fun _ _ hp => (by cases hp), fun _ _ hp => (by cases hp)⟩

theorem inv_goRead (h : Inv s) (hr : s.reads[i]? = some r) (fails : Bool) : Inv (goRead s i r fails) := by
  have hok := h.reads r (List.mem_of_getElem? hr)
  unfold goRead
  split
  next hphase =>
    split_ifs
    · exact h.setRead s.lock s.cache hok.failed h.cache
    · split
      next loaded hcache =>
        refine h.setRead s.lock s.cache ⟨hok.since, fun _ hp => (by cases hp), fun _ _ hp => (by cases hp), ?_⟩ h.cache
        intro loaded' answer hp
        cases hp
        exact ⟨(h.cache loaded hcache).sub hok.since, rfl⟩
      next =>
        refine h.setRead (some i) s.cache ⟨hok.since, ?_, fun _ _ hp => (by cases hp), fun _ _ hp => (by cases hp)⟩ h.cache
        intro g hp
        cases hp
        exact le_rfl
    · exact h
  next generation hphase =>
    split_ifs
    · exact h.setRead none s.cache hok.failed h.cache
    · refine h.setRead s.lock s.cache ⟨hok.since, fun _ hp => (by cases hp), ?_, fun _ _ hp => (by cases hp)⟩ h.cache
      intro g loaded hp
      cases hp
      exact ⟨hok.selecting _ hphase, h.current.sub hok.since, fun _ => h.current⟩
  next generation loaded hphase =>
    obtain ⟨-, hsince, hreturned⟩ := hok.selected _ _ hphase
    split_ifs with _ hgeneration
    · exact h.setRead none s.cache hok.failed h.cache
    · refine h.setRead none (some loaded) ⟨hok.since, fun _ hp => (by cases hp), fun _ _ hp => (by cases hp), ?_⟩ ?_
      · intro loaded' answer hp
        cases hp
        exact ⟨hsince, rfl⟩
      · intro loaded' hloaded
        obtain rfl := Option.some.inj hloaded
        exact hreturned hgeneration
    · refine h.setRead none s.cache ⟨hok.since, fun _ hp => (by cases hp), fun _ _ hp => (by cases hp), ?_⟩ h.cache
      intro loaded' answer hp
      cases hp
      exact ⟨hsince, rfl⟩
  next => exact h

/-- what has returned stays so while another write goes on -/
theorem returned_setWrite (hw : s.writes[i]? = some w) (hbefore : ∀ version, w.phase ≠ .returned version) (phase : WritePhase) :
    s.returned ⊆ (s.setWrite i w phase).returned := by
  intro version hversion
  obtain ⟨w', hw', hphase⟩ := mem_returned.1 hversion
  obtain ⟨j, hj⟩ := List.getElem?_of_mem hw'
  have hne : i ≠ j := by
    rintro rfl
    obtain rfl := Option.some.inj (hw.symm.trans hj)
    exact hbefore version hphase
  refine mem_returned.2 ⟨w', List.mem_of_getElem? (i := j) ?_, hphase⟩
  rw [St.setWrite, List.getElem?_set_ne hne]
  exact hj

/-- a write goes on, without returning -/
theorem Inv.setWrite (h : Inv s) (hw : s.writes[i]? = some w) {phase : WritePhase} (more : List Rows)
    (hbefore : ∀ version, w.phase ≠ .returned version) (hafter : ∀ version, phase ≠ .returned version)
    (hversion : ∀ version, phase = .committed version → version < (s.commits ++ more).length) :
    Inv { s.setWrite i w phase with commits := s.commits ++ more } := by
  have hsame : St.returned { s.setWrite i w phase with commits := s.commits ++ more } ⊆ s.returned := by
    intro version hversion
    obtain ⟨w', hw', hphase⟩ := mem_returned.1 hversion
    obtain hw' | rfl := List.mem_or_eq_of_mem_set hw'
    · exact mem_returned.2 ⟨w', hw', hphase⟩
    · exact absurd hphase (hafter version)
  have hlate : s.returned ⊆ St.returned { s.setWrite i w phase with commits := s.commits ++ more } :=
    returned_setWrite hw hbefore phase
  refine ⟨List.append_ne_nil_of_left_ne_nil h.nonempty _, fun loaded hl => (h.cache loaded hl).mono hsame, fun r hr => ?_, ?_⟩
  · have hok := h.reads r hr
    refine ⟨fun v hv => hlate (hok.since hv), hok.selecting, fun g loaded hp => ?_, fun loaded answer hp => ?_⟩
    · obtain ⟨hle, hsince, hreturned⟩ := hok.selected g loaded hp
      exact ⟨hle, hsince.mono (List.Subset.refl _), fun hg => (hreturned hg).mono hsame⟩
    · obtain ⟨hsince, hanswer⟩ := hok.answered loaded answer hp
      exact ⟨hsince.mono (List.Subset.refl _), hanswer⟩
  · intro w' hw' version hp
    obtain hw' | rfl := List.mem_or_eq_of_mem_set hw'
    · have := h.writes w' hw' version hp
      dsimp only
      rw [List.length_append]
      omega
    · exact hp.elim (hversion version) fun hp => absurd hp (hafter version)

/-- **A write returns.** The cache is dropped, and no load that is under way publishes. -/
theorem Inv.returns (h : Inv s) (hw : s.writes[i]? = some w) {version : ℕ} (hphase : w.phase = .committed version) :
    Inv (s.setWrite i w (.returned version)).reset := by
  have hlate : s.returned ⊆ (s.setWrite i w (.returned version)).reset.returned := by
    refine returned_setWrite hw ?_ _
    intro v hv
    rw [hphase] at hv
    cases hv
  refine ⟨h.nonempty, fun loaded hl => (by cases hl), fun r hr => ?_, ?_⟩
  · have hok := h.reads r hr
    refine ⟨fun v hv => hlate (hok.since hv), fun g hp => (hok.selecting g hp).trans (Nat.le_succ _), fun g loaded hp => ?_, hok.answered⟩
    obtain ⟨hle, hsince, -⟩ := hok.selected g loaded hp
    exact ⟨hle.trans (Nat.le_succ _), hsince, fun hg => absurd hg (Nat.ne_of_lt (Nat.lt_succ_of_le hle))⟩
  · intro w' hw' v hp
    obtain hw' | rfl := List.mem_or_eq_of_mem_set hw'
    · exact h.writes w' hw' v hp
    · obtain hp | hp := hp
      · cases hp
      · cases hp
        exact h.writes w (List.mem_of_getElem? hw) version (.inl hphase)

theorem inv_goWrite (h : Inv s) (hw : s.writes[i]? = some w) (fails : Bool) : Inv (goWrite s i w fails) := by
  have hsame : ∀ phase : WritePhase, (∀ version, w.phase ≠ .returned version) → (∀ version, phase ≠ .returned version) →
      (∀ version, phase ≠ .committed version) → Inv (s.setWrite i w phase) := by
    intro phase hbefore hreturned hcommitted
    have hinv := h.setWrite hw [] hbefore hreturned fun version hp => absurd hp (hcommitted version)
    rwa [List.append_nil] at hinv
  unfold goWrite
  split
  next hphase =>
    refine hsame _ (fun version hp => ?_) (fun version hp => ?_) fun version hp => ?_
    · rw [hphase] at hp
      cases hp
    · split_ifs at hp
    · split_ifs at hp
  next loaded hphase =>
    have hbefore : ∀ version, w.phase ≠ .returned version := by
      intro version hp
      rw [hphase] at hp
      cases hp
    split_ifs
    · exact hsame _ hbefore (fun _ hp => by cases hp) fun _ hp => by cases hp
    · split
      next rows _ =>
        refine h.setWrite hw [rows] hbefore (fun _ hp => by cases hp) fun version hp => ?_
        cases hp
        rw [List.length_append, List.length_singleton]
        exact Nat.lt_succ_self _
      next => exact hsame _ hbefore (fun _ hp => by cases hp) fun _ hp => by cases hp
  next version hphase =>
    split_ifs
    · refine hsame _ (fun version' hp => ?_) (fun _ hp => by cases hp) fun _ hp => by cases hp
      rw [hphase] at hp
      cases hp
    · exact h.returns hw hphase
  next => exact h

/-- **One step.** -/
theorem inv_step (h : Inv s) (o : Op) : Inv (step s o) := by
  cases o with
  | read q =>
    refine ⟨h.nonempty, h.cache, fun r hr => ?_, h.writes⟩
    obtain hr | hr := List.mem_append.1 hr
    · exact h.reads r hr
    · obtain rfl := List.mem_singleton.1 hr
      refine ⟨List.Subset.refl _, fun g hp => ?_, fun g loaded hp => ?_, fun loaded answer hp => ?_⟩
      · dsimp only at hp
        split at hp
        · cases hp
        · cases hp
      · dsimp only at hp
        split at hp
        · cases hp
        · cases hp
      · dsimp only at hp
        split at hp
        next loaded' hcache =>
          cases hp
          exact ⟨h.cache _ hcache, rfl⟩
        next => cases hp
  | goRead i fails =>
    simp only [step]
    split
    next r hr => exact inv_goRead h hr fails
    next => exact h
  | write w =>
    have hsame : (step s (.write w)).returned = s.returned := by
      simp only [step]
      rw [St.returned, List.filterMap_append]
      exact List.append_nil _
    refine ⟨h.nonempty, ?_, ?_, fun w' hw' version hp => ?_⟩
    · rw [hsame]
      exact h.cache
    · rw [hsame]
      exact h.reads
    · obtain hw' | hw' := List.mem_append.1 hw'
      · exact h.writes w' hw' version hp
      · obtain rfl := List.mem_singleton.1 hw'
        obtain hp | hp := hp
        · cases hp
        · cases hp
  | goWrite i fails =>
    simp only [step]
    split
    next w hw => exact inv_goWrite h hw fails
    next => exact h

end

/-- **Reads are current.** For every run of reads and writes, split at every await and failing anywhere, over any rows: what
a read answers is read off the rows of one commit, and this one is as new as every write that had returned when it started. -/
theorem reads_current (rows : Rows) (ops : List Op) : (run (init rows) ops).ReadsCurrent := by
  have hstep : ∀ (s : St) (o : Op), Inv s → Inv (step s o) := fun s o h => inv_step h o
  have hinv : Inv (run (init rows) ops) := Runs.run_inv_all hstep (init rows) ops (inv_init rows)
  intro r hr loaded answer hphase
  obtain ⟨⟨hrows, hsince⟩, hanswer⟩ := (hinv.reads r hr).answered loaded answer hphase
  exact ⟨hrows, hsince, hanswer⟩

end Clawbolt.Endpoints.Cache
