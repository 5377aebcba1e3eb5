/-
The boot-time clean-up of orphaned approvals (`cleanup_orphaned_approvals` of agent/approval.py), beside the requests and
replies of every worker (`request_approval`, `resolve`, `_persist_pending_row` and `_delete_pending_row`).

Workers boot with a clean-up each and die with all that runs on them; the rows and the advisory lock are the database's.
Each call is split at its awaits, database calls succeed, and publishing may fail. A row carries no owner and is keyed by
its user; here it carries the request that wrote it, which no step reads.

- `inv_step`: what an orderly step preserves, one lemma a kind of step;
- `orphans_only`: in every run whose steps are orderly, the clean-ups touch orphans only, each is announced once, and a
  request that waits on a live worker keeps its row;
- `draining_worker`: a worker that boots while another one waits tells the user that the request was lost.
-/
import Mathlib.Tactic
import Clawbolt.Core.Runs
import Clawbolt.Core.Text

namespace Clawbolt.Approval.Orphans

open Text (Str)

/-! ## Model -/

/-- where a `request_approval` is suspended -/
inductive Phase where
  /-- not called yet -/
  | idle
  | logRequested
  | persistRow
  | register
  | publishing
  | waiting
  | deleteRow
  | ended
deriving DecidableEq

structure Request where
  userId : Str
  worker : ℕ
  /-- it has a channel and a chat -/
  address : Bool
  phase : Phase
  /-- `pending.decision` is set -/
  decided : Bool
  event : Bool

/-- where a `resolve` is suspended -/
inductive Resolving where
  | deleteRow
  | logDecided
  | ended
deriving DecidableEq

structure Resolve where
  request : ℕ
  phase : Resolving

/-- a row of `pending_approvals` -/
structure Row where
  userId : Str
  address : Bool
  createdAt : ℕ
  request : ℕ

/-- what a clean-up does about an orphan -/
inductive Stage where
  | publishing
  | clearing
  | logging
  /-- a row without an address, or an expired one that could not be announced -/
  | dropping
deriving DecidableEq

inductive Cleanup where
  | locking
  | loading
  /-- at this row of its snapshot, with these to come; `now` is when it was taken -/
  | item (stage : Stage) (now : ℕ) (snap : Row) (rest : List Row)
  | unlocking
  | ended

structure St where
  now : ℕ
  booted : ℕ
  alive : ℕ → Bool
  /-- the clean-up of each worker -/
  clean : ℕ → Cleanup
  calls : ℕ
  request : ℕ → Request
  replies : ℕ
  resolve : ℕ → Resolve
  /-- `_pending` of each worker -/
  pending : ℕ → Str → Option ℕ
  rows : List Row
  /-- who has the advisory lock -/
  lock : Option ℕ
  /-- the requests for which a recovery message was sent -/
  announced : List ℕ
  /-- the requests whose rows a clean-up deleted -/
  dropped : List ℕ
  /-- the requests of the snapshots that a clean-up is done with -/
  settled : List ℕ

inductive Op where
  | tick
  | boot
  | die (worker : ℕ)
  | call (user : Str) (worker : ℕ) (address : Bool)
  | goRequest (i : ℕ) (published : Bool)
  | timeout (i : ℕ)
  | reply (worker : ℕ) (user : Str)
  | goResolve (j : ℕ)
  | goCleanup (worker : ℕ) (published : Bool)

/-- `_ORPHAN_MAX_AGE`, in seconds -/
def orphanMaxAge : ℕ := 3600

def St.setRequest (s : St) (i : ℕ) (r : Request) : St := { s with request := Function.update s.request i r }

def St.setClean (s : St) (w : ℕ) (c : Cleanup) : St := { s with clean := Function.update s.clean w c }

def St.setResolve (s : St) (j : ℕ) (r : Resolve) : St := { s with resolve := Function.update s.resolve j r }

/-- the slot of a user on a worker -/
def St.setPending (s : St) (w : ℕ) (user : Str) (p : Option ℕ) : St :=
  { s with pending := Function.update s.pending w (Function.update (s.pending w) user p) }

/-- `_delete_pending_row` -/
def St.deletePendingRow (s : St) (user : Str) : St := { s with rows := s.rows.filter fun row => row.userId ≠ user }

/-- the upsert of `_persist_pending_row` -/
def St.persistPendingRow (s : St) (i : ℕ) (r : Request) : St :=
  { s with rows := (s.rows.filter fun row => row.userId ≠ r.userId) ++ [⟨r.userId, r.address, s.now, i⟩] }

/-- the request leaves `wait_for`, or its prompt could not be sent: `_pending.pop`, up to the delete -/
def St.leave (s : St) (i : ℕ) : St :=
  (s.setRequest i { s.request i with phase := .deleteRow }).setPending (s.request i).worker (s.request i).userId none

/-- the next step of a request -/
def St.goRequest (s : St) (i : ℕ) (published : Bool) : St :=
  let r := s.request i
  match r.phase with
  | .idle => s
  | .logRequested => s.setRequest i { r with phase := .persistRow }
  | .persistRow => (s.setRequest i { r with phase := .register }).persistPendingRow i r
  | .register => (s.setRequest i { r with phase := .publishing }).setPending r.worker r.userId (some i)
  | .publishing => if published then s.setRequest i { r with phase := .waiting } else s.leave i
  | .waiting => if r.event then s.leave i else s
  | .deleteRow => (s.deletePendingRow r.userId).setRequest i { r with phase := .ended }
  | .ended => s

/-- `resolve`, up to its first await -/
def St.resolves (s : St) (i : ℕ) : St :=
  { s.setRequest i { s.request i with decided := true } with
    replies := s.replies + 1
    resolve := Function.update s.resolve s.replies ⟨i, .deleteRow⟩ }

/-- the next step of a `resolve` -/
def St.goResolve (s : St) (j : ℕ) : St :=
  let i := (s.resolve j).request
  match (s.resolve j).phase with
  | .deleteRow => (s.deletePendingRow (s.request i).userId).setResolve j ⟨i, .logDecided⟩
  | .logDecided => (s.setRequest i { s.request i with event := true }).setResolve j ⟨i, .ended⟩
  | .ended => s

/-- the clean-up goes on to these rows -/
def Cleanup.next (now : ℕ) : List Row → Cleanup
  | [] => .unlocking
  | snap :: rest => .item (if snap.address then .publishing else .dropping) now snap rest

/-- a clean-up deletes the row of a user -/
def St.dropRow (s : St) (snap : Row) : St :=
  { s.deletePendingRow snap.userId with
    dropped := s.dropped ++ (s.rows.filter fun row => row.userId = snap.userId).map Row.request
    settled := s.settled ++ [snap.request] }

/-- the next step of a clean-up -/
def St.goCleanup (s : St) (w : ℕ) (published : Bool) : St :=
  match s.clean w with
  | .locking => if s.lock = none then { s.setClean w .loading with lock := some w } else s.setClean w .ended
  | .loading => s.setClean w (Cleanup.next s.now s.rows)
  | .item .publishing now snap rest =>
    if published then { s.setClean w (.item .clearing now snap rest) with announced := s.announced ++ [snap.request] }
    else if orphanMaxAge < now - snap.createdAt then s.setClean w (.item .dropping now snap rest)
    else s.setClean w (Cleanup.next now rest)
  | .item .clearing now snap rest => (s.dropRow snap).setClean w (.item .logging now snap rest)
  | .item .logging now _ rest => s.setClean w (Cleanup.next now rest)
  | .item .dropping now snap rest => (s.dropRow snap).setClean w (Cleanup.next now rest)
  | .unlocking => { s.setClean w .ended with lock := none }
  | .ended => s

def step (s : St) : Op → St
  | .tick => { s with now := s.now + 1 }
  | .boot =>
    { s.setClean s.booted .locking with
      booted := s.booted + 1
      alive := Function.update s.alive s.booted true }
  | .die w =>
    -- the session's lock goes with it
    { s with
      alive := Function.update s.alive w false
      lock := if s.lock = some w then none else s.lock }
  | .call user w address =>
    if s.alive w then
      { s.setRequest s.calls ⟨user, w, address, .logRequested, false, false⟩ with calls := s.calls + 1 }
    else s
  | .goRequest i published => if s.alive (s.request i).worker then s.goRequest i published else s
  | .timeout i => if s.alive (s.request i).worker ∧ (s.request i).phase = .waiting then s.leave i else s
  | .reply w user =>
    if s.alive w then
      match s.pending w user with
      | some i => s.resolves i
      | none => s
    else s
  | .goResolve j => if j < s.replies ∧ s.alive (s.request (s.resolve j).request).worker then s.goResolve j else s
  | .goCleanup w published => if s.alive w then s.goCleanup w published else s

abbrev run (s : St) (ops : List Op) : St := Runs.run step s ops

def init : St where
  now := 0
  booted := 0
  alive := fun _ => false
  clean := fun _ => .ended
  calls := 0
  request := fun _ => ⟨[], 0, false, .idle, false, false⟩
  replies := 0
  resolve := fun _ => ⟨0, .ended⟩
  pending := fun _ _ => none
  rows := []
  lock := none
  announced := []
  dropped := []
  settled := []

/-! ## The claim -/

/-- the worker of a request is gone -/
def Gone (s : St) (i : ℕ) : Prop := s.alive (s.request i).worker = false

instance (s : St) (i : ℕ) : Decidable (Gone s i) := by unfold Gone; infer_instance

/-- the phases in which a request has its row and no end yet -/
def Phase.waits : Phase → Bool
  | .register | .publishing | .waiting => true
  | _ => false

/-- the request waits on a live worker, and nobody has decided it -/
structure Waits (s : St) (i : ℕ) : Prop where
  live : s.alive (s.request i).worker = true
  waits : (s.request i).phase.waits = true
  undecided : (s.request i).decided = false

/-- the clean-up of a live worker has announced the request and is about to delete its row -/
def Clearing (s : St) (i : ℕ) : Prop :=
  ∃ w now snap rest, s.alive w = true ∧ s.clean w = .item .clearing now snap rest ∧ snap.request = i

structure OrphansOnly (s : St) : Prop where
  announced : ∀ i ∈ s.announced, Gone s i
  dropped : ∀ i ∈ s.dropped, Gone s i
  once : s.announced.Nodup
  /-- once it is announced, its row is gone or about to be -/
  cleared : ∀ row ∈ s.rows, row.request ∈ s.announced → Clearing s row.request
  /-- a clean-up is done with an orphan that it announced, and with one that expired, when its row is gone -/
  settled : ∀ row ∈ s.rows, row.request ∉ s.settled
  survives : ∀ i, Waits s i → ∃ row ∈ s.rows, row.request = i

/-! ## Orderly steps -/

def Phase.unfinished : Phase → Bool
  | .idle | .ended => false
  | _ => true

/-- the request, or a reply to it that has not deleted the row yet, runs on a live worker -/
def Busy (s : St) (i : ℕ) : Prop :=
  s.alive (s.request i).worker = true ∧
    ((s.request i).phase.unfinished = true ∨
      ∃ j < s.replies, (s.resolve j).request = i ∧ (s.resolve j).phase = .deleteRow)

instance (s : St) (i : ℕ) : Decidable (Busy s i) := by unfold Busy; infer_instance

/-- the rows that a clean-up has not settled -/
def Cleanup.ahead : Cleanup → List Row
  | .item _ _ snap rest => snap :: rest
  | _ => []

/-- the clean-up is about to take its snapshot -/
def Cleanup.loads : Cleanup → Bool
  | .loading => true
  | _ => false

/-- the clean-up has sent a recovery message and is about to delete the row -/
def Cleanup.clears : Cleanup → Bool
  | .item .clearing _ _ _ => true
  | _ => false

/-- the snapshot finds no row of a live worker, no row is written for a user whom a clean-up has ahead of it, a user has one
request at a time, and no worker dies between a recovery message and the delete -/
def Orderly (s : St) : Op → Prop
  | .goCleanup w _ => (s.clean w).loads = true → ∀ row ∈ s.rows, Gone s row.request
  | .goRequest i _ => (s.request i).phase = .persistRow → ∀ w < s.booted, s.alive w = true →
      ∀ snap ∈ (s.clean w).ahead, snap.userId ≠ (s.request i).userId
  | .call user _ _ => ∀ i < s.calls, Busy s i → (s.request i).userId ≠ user
  | .die w => (s.clean w).clears = false
  | _ => True

instance (s : St) (o : Op) : Decidable (Orderly s o) := by cases o <;> unfold Orderly <;> infer_instance

/-! ## The invariant -/

/-- the request has written its row -/
def Phase.persisted : Phase → Bool
  | .idle | .logRequested | .persistRow => false
  | _ => true

/-- the request may be in the slot of its user -/
def Phase.slotted : Phase → Bool
  | .publishing | .waiting => true
  | _ => false

/-- the clean-up holds the lock -/
def Cleanup.active : Cleanup → Bool
  | .locking | .ended => false
  | _ => true

/-- the rows that a clean-up has not announced -/
def Cleanup.unannounced : Cleanup → List Row
  | .item .clearing _ _ rest | .item .logging _ _ rest => rest
  | .item _ _ snap rest => snap :: rest
  | _ => []

structure RowOk (s : St) (row : Row) : Prop where
  user : (s.request row.request).userId = row.userId
  persisted : (s.request row.request).phase.persisted = true

/-- a row of a snapshot is that of an orphan, and nobody has written another one -/
structure SnapOk (s : St) (snap : Row) : Prop where
  row : RowOk s snap
  gone : Gone s snap.request
  same : ∀ row ∈ s.rows, row.userId = snap.userId → row.request = snap.request

structure Slotted (s : St) (w : ℕ) (user : Str) (i : ℕ) : Prop where
  worker : (s.request i).worker = w
  user : (s.request i).userId = user
  phase : (s.request i).phase.slotted = true

structure Inv (s : St) : Prop where
  fresh : ∀ i, s.calls ≤ i → (s.request i).phase = .idle
  workers : ∀ i < s.calls, (s.request i).worker < s.booted
  resolves : ∀ j < s.replies, (s.resolve j).request < s.calls ∧ (s.request (s.resolve j).request).decided = true
  slots : ∀ w user i, s.pending w user = some i → Slotted s w user i
  users : (s.rows.map Row.userId).Nodup
  rows : ∀ row ∈ s.rows, RowOk s row
  single : ∀ i k, Busy s i → Busy s k → (s.request i).userId = (s.request k).userId → i = k
  survives : ∀ i, Waits s i → ∃ row ∈ s.rows, row.request = i
  booted : ∀ w, s.alive w = true → w < s.booted
  locked : ∀ w, s.alive w = true → (s.clean w).active = true → s.lock = some w
  snaps : ∀ w, s.alive w = true → ∀ snap ∈ (s.clean w).ahead, SnapOk s snap
  distinct : ∀ w, s.alive w = true → ((s.clean w).ahead.map Row.request).Nodup
  unannounced : ∀ w, s.alive w = true → ∀ snap ∈ (s.clean w).unannounced, snap.request ∉ s.announced
  once : s.announced.Nodup
  announced : ∀ i ∈ s.announced, Gone s i ∧ (s.request i).phase.persisted = true
  dropped : ∀ i ∈ s.dropped, Gone s i ∧ (s.request i).phase.persisted = true
  cleared : ∀ row ∈ s.rows, row.request ∈ s.announced → Clearing s row.request
  settled : ∀ i ∈ s.settled, (s.request i).phase.persisted = true ∧ ∀ row ∈ s.rows, row.request ≠ i

theorem Inv.orphansOnly {s : St} (h : Inv s) : OrphansOnly s where
  announced := fun i hi => (h.announced i hi).1
  dropped := fun i hi => (h.dropped i hi).1
  once := h.once
  cleared := h.cleared
  settled := fun row hrow hmem => (h.settled _ hmem).2 row hrow rfl
  survives := h.survives

theorem inv_init : Inv init where
  fresh := fun _ _ => rfl
  workers := fun i hi => absurd hi (Nat.not_lt_zero i)
  resolves := fun j hj => absurd hj (Nat.not_lt_zero j)
  slots := fun _ _ _ h => by cases h
  users := List.nodup_nil
  rows := fun _ h => (List.not_mem_nil h).elim
  single := fun i k h => absurd h.1 Bool.false_ne_true
  survives := fun i h => absurd h.live Bool.false_ne_true
  booted := fun w h => absurd h Bool.false_ne_true
  locked := fun w h => absurd h Bool.false_ne_true
  snaps := fun w h => absurd h Bool.false_ne_true
  distinct := fun w h => absurd h Bool.false_ne_true
  unannounced := fun w h => absurd h Bool.false_ne_true
  once := List.nodup_nil
  announced := fun _ h => (List.not_mem_nil h).elim
  dropped := fun _ h => (List.not_mem_nil h).elim
  cleared := fun _ h => (List.not_mem_nil h).elim
  settled := fun _ h => (List.not_mem_nil h).elim

section

variable {s : St}

theorem lt_calls (h : Inv s) {i : ℕ} (hphase : (s.request i).phase ≠ .idle) : i < s.calls :=
  Nat.lt_of_not_le fun hle => hphase (h.fresh i hle)

theorem Waits.busy {i : ℕ} (h : Waits s i) : Busy s i := by
  refine ⟨h.live, Or.inl ?_⟩
  have hwaits := h.waits
  cases hp : (s.request i).phase with
  | register | publishing | waiting => rfl
  | _ => rw [hp] at hwaits; cases hwaits

/-! ## Requests -/

theorem setRequest_self (s : St) (i : ℕ) (r : Request) : (s.setRequest i r).request i = r := by
  simp only [St.setRequest, Function.update_self]

theorem setRequest_ne (s : St) {i k : ℕ} (r : Request) (h : k ≠ i) : (s.setRequest i r).request k = s.request k := by
  simp only [St.setRequest, Function.update_of_ne h]

/-- a request goes on: what it may newly be -/
structure Advances (r r' : Request) : Prop where
  userId : r'.userId = r.userId
  worker : r'.worker = r.worker
  idle : r.phase = .idle → r'.phase = .idle
  persisted : r.phase.persisted = true → r'.phase.persisted = true
  unfinished : r'.phase.unfinished = true → r.phase.unfinished = true
  decided : r.decided = true → r'.decided = true

/-- every request has gone on, or is as it was -/
structure Onward (s s' : St) : Prop where
  userId : ∀ k, (s'.request k).userId = (s.request k).userId
  worker : ∀ k, (s'.request k).worker = (s.request k).worker
  idle : ∀ k, (s.request k).phase = .idle → (s'.request k).phase = .idle
  persisted : ∀ k, (s.request k).phase.persisted = true → (s'.request k).phase.persisted = true
  unfinished : ∀ k, (s'.request k).phase.unfinished = true → (s.request k).phase.unfinished = true
  decided : ∀ k, (s.request k).decided = true → (s'.request k).decided = true

theorem onward_same {s' : St} (h : s'.request = s.request) : Onward s s' :=
  ⟨fun k => by rw [h], fun k => by rw [h], fun k => by rw [h]; exact id, fun k => by rw [h]; exact id,
    fun k => by rw [h]; exact id, fun k => by rw [h]; exact id⟩

theorem Slotted.same {s' : St} {w : ℕ} {user : Str} {i : ℕ} (h : Slotted s w user i) (hr : s'.request = s.request) :
    Slotted s' w user i := ⟨by rw [hr]; exact h.worker, by rw [hr]; exact h.user, by rw [hr]; exact h.phase⟩

theorem onward_setRequest {i : ℕ} {r' : Request} (ha : Advances (s.request i) r') : Onward s (s.setRequest i r') := by
  have hself := setRequest_self s i r'
  have hother : ∀ k, k ≠ i → (s.setRequest i r').request k = s.request k := fun k hk => setRequest_ne s r' hk
  constructor
  all_goals intro k
  all_goals by_cases hk : k = i
  all_goals first | subst hk | skip
  all_goals first | rw [hself] | rw [hother k hk]
  · exact ha.userId
  · exact ha.worker
  · exact ha.idle
  · exact id
  · exact ha.persisted
  · exact id
  · exact ha.unfinished
  · exact id
  · exact ha.decided
  · exact id

/-- a phase that a request may go on to -/
structure Phase.Follows (p p' : Phase) : Prop where
  notIdle : p ≠ .idle
  persisted : p.persisted = true → p'.persisted = true
  unfinished : p'.unfinished = true → p.unfinished = true

theorem advances_phase {r : Request} {p p' : Phase} (hphase : r.phase = p) (h : p.Follows p') :
    Advances r { r with phase := p' } :=
  ⟨rfl, rfl, fun hidle => absurd (hphase.symm.trans hidle) h.notIdle, hphase ▸ h.persisted, hphase ▸ h.unfinished, id⟩

/-- a row that a request writes for a user whom no clean-up has ahead of it -/
structure NewRow (s s' : St) (row : Row) : Prop where
  ok : RowOk s' row
  unwritten : (s.request row.request).phase.persisted = false
  ahead : ∀ w, s.alive w = true → ∀ snap ∈ (s.clean w).ahead, snap.userId ≠ row.userId

/-- what a step of a request or of a reply leaves alone -/
structure Aside (s s' : St) : Prop where
  calls : s'.calls = s.calls
  booted : s'.booted = s.booted
  alive : s'.alive = s.alive
  clean : s'.clean = s.clean
  lock : s'.lock = s.lock
  announced : s'.announced = s.announced
  dropped : s'.dropped = s.dropped
  settled : s'.settled = s.settled

theorem busy_onward {s' : St} (ho : Onward s s') (haside : Aside s s')
    (hresolve : ∀ j < s'.replies, (s'.resolve j).phase = .deleteRow →
      j < s.replies ∧ (s.resolve j).phase = .deleteRow ∧ (s.resolve j).request = (s'.resolve j).request)
    {i : ℕ} (hb : Busy s' i) : Busy s i := by
  obtain ⟨hlive, hrun⟩ := hb
  refine ⟨by rw [← haside.alive, ← ho.worker]; exact hlive, ?_⟩
  obtain hrun | ⟨j, hj, hi, hp⟩ := hrun
  · exact Or.inl (ho.unfinished i hrun)
  · obtain ⟨hj', hp', hr'⟩ := hresolve j hj hp
    exact Or.inr ⟨j, hj', hr'.trans hi, hp'⟩

/-- **A step of a request or of a reply.** No clean-up is touched, and rows are deleted or newly written. -/
theorem Inv.onward {s' : St} (h : Inv s) (ho : Onward s s') (ha : Aside s s')
    (hslots : ∀ w user i, s'.pending w user = some i → Slotted s' w user i)
    (hresolves : ∀ j < s'.replies, (s'.resolve j).request < s.calls ∧ (s'.request (s'.resolve j).request).decided = true)
    (hbusy : ∀ i, Busy s' i → Busy s i) (husers : (s'.rows.map Row.userId).Nodup)
    (hrows : ∀ row ∈ s'.rows, row ∈ s.rows ∨ NewRow s s' row)
    (hsurvives : ∀ i, Waits s' i → ∃ row ∈ s'.rows, row.request = i) : Inv s' := by
  have hgone : ∀ i, Gone s i → Gone s' i := fun i hi => by rw [Gone, ha.alive, ho.worker]; exact hi
  have hrow : ∀ row, RowOk s row → RowOk s' row := fun row hr => ⟨(ho.userId _).trans hr.user, ho.persisted _ hr.persisted⟩
  have hclearing : ∀ i, Clearing s i → Clearing s' i := by
    rintro i ⟨w, now, snap, rest, hw, hitem, hi⟩
    exact ⟨w, now, snap, rest, by rw [ha.alive]; exact hw, by rw [ha.clean]; exact hitem, hi⟩
  -- what has a row already was written before
  have hold : ∀ row, NewRow s s' row → ∀ {i}, (s.request i).phase.persisted = true → row.request ≠ i := by
    rintro row hnew i hp rfl
    rw [hnew.unwritten] at hp
    cases hp
  exact {
    fresh := fun i hi => ho.idle i (h.fresh i (ha.calls ▸ hi))
    workers := fun i hi => by rw [ho.worker, ha.booted]; exact h.workers i (ha.calls ▸ hi)
    resolves := fun j hj => ha.calls ▸ hresolves j hj
    slots := hslots
    users := husers
    rows := fun row hr => (hrows row hr).elim (fun hr => hrow row (h.rows row hr)) fun hnew => hnew.ok
    single := fun i k hi hk hu => h.single i k (hbusy i hi) (hbusy k hk) ((ho.userId i).symm.trans (hu.trans (ho.userId k)))
    survives := hsurvives
    booted := fun w hw => ha.booted ▸ h.booted w (ha.alive ▸ hw)
    locked := fun w hw hact => by rw [ha.lock]; exact h.locked w (ha.alive ▸ hw) (ha.clean ▸ hact)
    snaps := fun w hw snap hs => by
      have hok := h.snaps w (ha.alive ▸ hw) snap (ha.clean ▸ hs)
      refine ⟨hrow snap hok.row, hgone _ hok.gone, fun row hr hu => ?_⟩
      obtain hr | hnew := hrows row hr
      · exact hok.same row hr hu
      · exact absurd hu.symm (hnew.ahead w (ha.alive ▸ hw) snap (ha.clean ▸ hs))
    distinct := fun w hw => ha.clean ▸ h.distinct w (ha.alive ▸ hw)
    unannounced := fun w hw snap hs => by rw [ha.announced]; exact h.unannounced w (ha.alive ▸ hw) snap (ha.clean ▸ hs)
    once := ha.announced ▸ h.once
    announced := fun i hi => by
      obtain ⟨hg, hp⟩ := h.announced i (ha.announced ▸ hi)
      exact ⟨hgone i hg, ho.persisted i hp⟩
    dropped := fun i hi => by
      obtain ⟨hg, hp⟩ := h.dropped i (ha.dropped ▸ hi)
      exact ⟨hgone i hg, ho.persisted i hp⟩
    cleared := fun row hr hann => by
      rw [ha.announced] at hann
      obtain hr | hnew := hrows row hr
      · exact hclearing _ (h.cleared row hr hann)
      · exact absurd rfl (hold row hnew (h.announced _ hann).2)
    settled := fun i hi => by
      obtain ⟨hp, hr⟩ := h.settled i (ha.settled ▸ hi)
      refine ⟨ho.persisted i hp, fun row hrow' => ?_⟩
      obtain hrow' | hnew := hrows row hrow'
      · exact hr row hrow'
      · exact hold row hnew hp }

theorem waits_onward {s' : St} (ho : Onward s s') (ha : Aside s s') {i : ℕ} (hw : Waits s' i)
    (hold : (s.request i).phase.waits = true ∧ (s.request i).decided = false) : Waits s i :=
  ⟨by rw [← ha.alive, ← ho.worker]; exact hw.live, hold.1, hold.2⟩

/-- the request `i` goes on -/
theorem inv_setRequest (h : Inv s) {i : ℕ} (r' : Request) (ha : Advances (s.request i) r')
    (hwaits : r'.phase.waits = true → r'.decided = false → (s.request i).phase.waits = true ∧ (s.request i).decided = false)
    (hslot : ∀ w user, s.pending w user = some i → r'.phase.slotted = true) : Inv (s.setRequest i r') := by
  have ho := onward_setRequest ha
  have haside : Aside s (s.setRequest i r') := ⟨rfl, rfl, rfl, rfl, rfl, rfl, rfl, rfl⟩
  refine h.onward ho haside (fun w user k hk => ?_) (fun j hj => ?_) (fun k hk => ?_) h.users (fun row hr => Or.inl hr)
    (fun k hk => ?_)
  · have hold := h.slots w user k hk
    refine ⟨(ho.worker k).trans hold.worker, (ho.userId k).trans hold.user, ?_⟩
    by_cases hki : k = i
    · subst hki
      rw [setRequest_self]
      exact hslot w user hk
    · rw [setRequest_ne s r' hki]
      exact hold.phase
  · obtain ⟨hlt, hdecided⟩ := h.resolves j hj
    exact ⟨hlt, ho.decided _ hdecided⟩
  · exact busy_onward ho haside (fun j hj hp => ⟨hj, hp, rfl⟩) hk
  · refine h.survives k (waits_onward ho haside hk ?_)
    by_cases hki : k = i
    · subst hki
      have hw := hk.waits
      have hd := hk.undecided
      rw [setRequest_self] at hw hd
      exact hwaits hw hd
    · have hw := hk.waits
      have hd := hk.undecided
      rw [setRequest_ne s r' hki] at hw hd
      exact ⟨hw, hd⟩

theorem inv_setPending (h : Inv s) (w : ℕ) (user : Str) {p : Option ℕ} (hp : ∀ i, p = some i → Slotted s w user i) :
    Inv (s.setPending w user p) := by
  have haside : Aside s (s.setPending w user p) := ⟨rfl, rfl, rfl, rfl, rfl, rfl, rfl, rfl⟩
  refine h.onward (onward_same rfl) haside (fun w' user' k hk => ?_) h.resolves (fun k hk => hk) h.users
    (fun row hr => Or.inl hr) fun k hk => h.survives k ⟨hk.live, hk.waits, hk.undecided⟩
  by_cases hw : w' = w
  · subst hw
    by_cases hu : user' = user
    · subst hu
      simp only [St.setPending, Function.update_self] at hk
      exact (hp k hk).same rfl
    · simp only [St.setPending, Function.update_self, Function.update_of_ne hu] at hk
      exact (h.slots w' user' k hk).same rfl
  · simp only [St.setPending, Function.update_of_ne hw] at hk
    exact (h.slots w' user' k hk).same rfl

/-- the row of a user is deleted while none of the user's requests waits -/
theorem inv_deletePendingRow (h : Inv s) (user : Str) (hnone : ∀ i, Waits s i → (s.request i).userId ≠ user) :
    Inv (s.deletePendingRow user) := by
  have haside : Aside s (s.deletePendingRow user) := ⟨rfl, rfl, rfl, rfl, rfl, rfl, rfl, rfl⟩
  refine h.onward (onward_same rfl) haside (fun w u k hk => (h.slots w u k hk).same rfl) h.resolves (fun k hk => hk) ?_
    (fun row hr => ?_) (fun k hk => ?_)
  · exact (h.users.sublist (List.filter_sublist.map _))
  · exact Or.inl (List.mem_filter.1 hr).1
  · have hk : Waits s k := ⟨hk.live, hk.waits, hk.undecided⟩
    obtain ⟨row, hrow, rfl⟩ := h.survives k hk
    refine ⟨row, List.mem_filter.2 ⟨hrow, decide_eq_true ?_⟩, rfl⟩
    rw [← (h.rows row hrow).user]
    exact hnone _ hk

/-- a request goes on to a phase in which it has no more to lose -/
theorem inv_phase (h : Inv s) {i : ℕ} {p : Phase} (p' : Phase) (hphase : (s.request i).phase = p) (hf : p.Follows p')
    (hwaits : p'.waits = true → p.waits = true) (hslot : ∀ w user, s.pending w user = some i → p'.slotted = true) :
    Inv (s.setRequest i { s.request i with phase := p' }) :=
  inv_setRequest h _ (advances_phase hphase hf) (fun hw hd => ⟨hphase ▸ hwaits hw, hd⟩) hslot

/-- the request leaves `wait_for` -/
theorem inv_leave (h : Inv s) {i : ℕ} (hphase : (s.request i).phase.slotted = true) : Inv (s.leave i) := by
  have hpopped := inv_setPending h (s.request i).worker (s.request i).userId (p := none) fun k hk => by cases hk
  have hslot : ∀ w user, (s.setPending (s.request i).worker (s.request i).userId none).pending w user ≠ some i := by
    intro w user hk
    have hslotted := hpopped.slots w user i hk
    obtain rfl : (s.request i).worker = w := hslotted.worker
    obtain rfl : (s.request i).userId = user := hslotted.user
    simp only [St.setPending, Function.update_self] at hk
    cases hk
  have hfollows : (s.request i).phase.Follows .deleteRow := by
    cases hp : (s.request i).phase with
    | publishing | waiting => exact ⟨by decide, fun _ => rfl, fun _ => rfl⟩
    | _ => rw [hp] at hphase; cases hphase
  exact inv_phase hpopped (i := i) .deleteRow rfl hfollows (fun hw => absurd hw Bool.false_ne_true)
    fun w user hk => absurd hk (hslot w user)

/-- the row of a request is written -/
theorem inv_persist (h : Inv s) {i : ℕ} (hphase : (s.request i).phase = .persistRow)
    (hlive : s.alive (s.request i).worker = true)
    (hahead : ∀ w, s.alive w = true → ∀ snap ∈ (s.clean w).ahead, snap.userId ≠ (s.request i).userId) :
    Inv ((s.setRequest i { s.request i with phase := .register }).persistPendingRow i (s.request i)) := by
  have hadvances : Advances (s.request i) { s.request i with phase := .register } :=
    advances_phase hphase ⟨by decide, by decide, by decide⟩
  have ho := onward_setRequest hadvances
  have haside : Aside s ((s.setRequest i { s.request i with phase := .register }).persistPendingRow i (s.request i)) :=
    ⟨rfl, rfl, rfl, rfl, rfl, rfl, rfl, rfl⟩
  have hself := setRequest_self s i { s.request i with phase := .register }
  have ho' : Onward s ((s.setRequest i { s.request i with phase := .register }).persistPendingRow i (s.request i)) :=
    ⟨ho.userId, ho.worker, ho.idle, ho.persisted, ho.unfinished, ho.decided⟩
  refine h.onward ho' haside (fun w user k hk => ?_) (fun j hj => ?_) (fun k hk => ?_) ?_ (fun row hr => ?_) (fun k hk => ?_)
  · have hold := h.slots w user k hk
    refine ⟨(ho.worker k).trans hold.worker, (ho.userId k).trans hold.user, ?_⟩
    have hki : k ≠ i := by
      rintro rfl
      have hno := hold.phase
      rw [hphase] at hno
      cases hno
    exact (congrArg (fun r : Request => r.phase.slotted) (setRequest_ne s _ hki)).trans hold.phase
  · obtain ⟨hlt, hdecided⟩ := h.resolves j hj
    exact ⟨hlt, ho.decided _ hdecided⟩
  · exact busy_onward ho' haside (fun j hj hp => ⟨hj, hp, rfl⟩) hk
  · simp only [St.persistPendingRow, List.map_append, List.map_cons, List.map_nil]
    refine List.Nodup.append (h.users.sublist (List.filter_sublist.map _)) (List.nodup_singleton _) ?_
    intro user hmem huser
    obtain rfl := List.mem_singleton.1 huser
    obtain ⟨row, hrow, hu⟩ := List.mem_map.1 hmem
    exact of_decide_eq_true (List.mem_filter.1 hrow).2 hu
  · obtain hr | hr := List.mem_append.1 hr
    · exact Or.inl (List.mem_filter.1 hr).1
    · obtain rfl := List.mem_singleton.1 hr
      refine Or.inr ⟨⟨ho.userId i, ?_⟩, by rw [hphase]; rfl, hahead⟩
      exact congrArg (fun r : Request => r.phase.persisted) hself
  · by_cases hki : k = i
    · exact ⟨_, List.mem_append_right _ (List.mem_singleton_self _), hki.symm⟩
    · have hsame := setRequest_ne s { s.request i with phase := .register } hki
      have hw : Waits s k := by
        refine waits_onward ho' haside hk ⟨?_, ?_⟩
        · exact (congrArg (fun r : Request => r.phase.waits) hsame).symm.trans hk.waits
        · exact (congrArg (fun r : Request => r.decided) hsame).symm.trans hk.undecided
      obtain ⟨row, hrow, hreq⟩ := h.survives k hw
      refine ⟨row, List.mem_append_left _ (List.mem_filter.2 ⟨hrow, decide_eq_true fun hu => hki ?_⟩), hreq⟩
      -- the user has one request at a time
      have hbusy : Busy s i := ⟨hlive, Or.inl (by rw [hphase]; rfl)⟩
      refine h.single k i hw.busy hbusy ?_
      rw [← hu, ← (h.rows row hrow).user, hreq]

/-- **A request goes on.** -/
theorem inv_goRequest (h : Inv s) {i : ℕ} (published : Bool) (hlive : s.alive (s.request i).worker = true)
    (horderly : Orderly s (.goRequest i published)) : Inv (s.goRequest i published) := by
  have hslots : ∀ w user, s.pending w user = some i → (s.request i).phase.slotted = true :=
    fun w user hk => (h.slots w user i hk).phase
  unfold St.goRequest
  dsimp only
  cases hphase : (s.request i).phase with
  | idle => exact h
  | logRequested =>
    rw [hphase] at hslots
    exact inv_phase h .persistRow hphase ⟨by decide, by decide, by decide⟩ (by decide) hslots
  | persistRow => exact inv_persist h hphase hlive fun w hw => horderly hphase w (h.booted w hw) hw
  | register =>
    have hadvanced := inv_phase h .publishing hphase ⟨by decide, by decide, by decide⟩ (by decide) fun _ _ _ => rfl
    refine inv_setPending hadvanced _ _ fun k hk => ?_
    obtain rfl := Option.some.inj hk
    have hself := setRequest_self s i { s.request i with phase := .publishing }
    exact ⟨by rw [hself], by rw [hself], by rw [hself]; rfl⟩
  | publishing =>
    dsimp only
    split_ifs
    · exact inv_phase h .waiting hphase ⟨by decide, by decide, by decide⟩ (by decide) fun _ _ _ => rfl
    · exact inv_leave h (by rw [hphase]; rfl)
  | waiting =>
    dsimp only
    split_ifs
    · exact inv_leave h (by rw [hphase]; rfl)
    · exact h
  | deleteRow =>
    have hbusy : Busy s i := ⟨hlive, Or.inl (by rw [hphase]; rfl)⟩
    have hdeleted := inv_deletePendingRow h (s.request i).userId fun k hk hu => by
      obtain rfl := h.single k i hk.busy hbusy hu
      have hwaits := hk.waits
      rw [hphase] at hwaits
      cases hwaits
    rw [hphase] at hslots
    exact inv_phase hdeleted .ended hphase ⟨by decide, by decide, by decide⟩ (by decide)
      fun w user hk => absurd (hslots w user hk) Bool.false_ne_true
  | ended => exact h

/-! ## Replies -/

/-- a reply finds the request in the slot -/
theorem inv_resolves (h : Inv s) {w i : ℕ} {user : Str} (hslot : s.pending w user = some i) :
    Inv (s.resolves i) := by
  have hslotted := h.slots w user i hslot
  have hunfinished : (s.request i).phase.unfinished = true ∧ (s.request i).phase ≠ .idle := by
    have hphase := hslotted.phase
    cases hp : (s.request i).phase with
    | publishing | waiting => exact ⟨rfl, by decide⟩
    | _ => rw [hp] at hphase; cases hphase
  have hdecides := inv_setRequest h (i := i) { s.request i with decided := true }
    ⟨rfl, rfl, id, id, id, fun _ => rfl⟩ (fun _ hd => by cases hd) fun w user hk => (h.slots w user i hk).phase
  have hself := setRequest_self s i { s.request i with decided := true }
  have haside : Aside (s.setRequest i { s.request i with decided := true }) (s.resolves i) :=
    ⟨rfl, rfl, rfl, rfl, rfl, rfl, rfl, rfl⟩
  refine hdecides.onward (onward_same rfl) haside (fun w u k hk => (hdecides.slots w u k hk).same rfl) (fun j hj => ?_)
    (fun k hk => ?_) hdecides.users (fun row hr => Or.inl hr) fun k hk => hdecides.survives k ⟨hk.live, hk.waits, hk.undecided⟩
  · by_cases hjr : j = s.replies
    · subst hjr
      simp only [St.resolves, Function.update_self]
      exact ⟨lt_calls h hunfinished.2, by rw [hself]⟩
    · simp only [St.resolves, Function.update_of_ne hjr]
      exact hdecides.resolves j (by simp only [St.resolves] at hj; exact lt_of_le_of_ne (Nat.le_of_lt_succ hj) hjr)
  · -- the request was busy before the reply
    obtain ⟨hlive, hrun⟩ := hk
    refine ⟨hlive, ?_⟩
    obtain hrun | ⟨j, hj, hreq, hp⟩ := hrun
    · exact Or.inl hrun
    · by_cases hjr : j = s.replies
      · subst hjr
        simp only [St.resolves, Function.update_self] at hreq
        subst hreq
        exact Or.inl (by rw [hself]; exact hunfinished.1)
      · simp only [St.resolves, Function.update_of_ne hjr] at hreq hp
        exact Or.inr ⟨j, lt_of_le_of_ne (Nat.le_of_lt_succ hj) hjr, hreq, hp⟩

/-- a `resolve` comes further -/
theorem inv_setResolve (phase : Resolving) (h : Inv s) {j : ℕ} (hphase : phase ≠ .deleteRow) :
    Inv (s.setResolve j ⟨(s.resolve j).request, phase⟩) := by
  have hother : ∀ k, k ≠ j → (s.setResolve j ⟨(s.resolve j).request, phase⟩).resolve k = s.resolve k := by
    intro k hk
    simp only [St.setResolve, Function.update_of_ne hk]
  have hrequest : ∀ k, ((s.setResolve j ⟨(s.resolve j).request, phase⟩).resolve k).request = (s.resolve k).request := by
    intro k
    by_cases hk : k = j
    · rw [hk]
      simp only [St.setResolve, Function.update_self]
    · rw [hother k hk]
  have haside : Aside s (s.setResolve j ⟨(s.resolve j).request, phase⟩) := ⟨rfl, rfl, rfl, rfl, rfl, rfl, rfl, rfl⟩
  refine h.onward (onward_same rfl) haside (fun w u k hk => (h.slots w u k hk).same rfl) (fun k hk => ?_) (fun k hk => ?_)
    h.users (fun row hr => Or.inl hr) fun k hk => h.survives k ⟨hk.live, hk.waits, hk.undecided⟩
  · rw [hrequest]
    exact h.resolves k hk
  · have ho : Onward s (s.setResolve j ⟨(s.resolve j).request, phase⟩) := onward_same rfl
    refine busy_onward ho haside (fun l hl hp => ?_) hk
    have hlj : l ≠ j := by
      rintro rfl
      simp only [St.setResolve, Function.update_self] at hp
      exact hphase hp
    rw [hother l hlj] at hp
    exact ⟨hl, hp, (hrequest l).symm⟩

/-- **A reply goes on.** -/
theorem inv_goResolve (h : Inv s) {j : ℕ} (hj : j < s.replies)
    (hlive : s.alive (s.request (s.resolve j).request).worker = true) : Inv (s.goResolve j) := by
  obtain ⟨hlt, hdecided⟩ := h.resolves j hj
  unfold St.goResolve
  dsimp only
  cases hphase : (s.resolve j).phase with
  | deleteRow =>
    have hbusy : Busy s (s.resolve j).request := ⟨hlive, Or.inr ⟨j, hj, rfl, hphase⟩⟩
    have hdeleted := inv_deletePendingRow h (s.request (s.resolve j).request).userId fun k hk hu => by
      obtain rfl := h.single k _ hk.busy hbusy hu
      have hundecided := hk.undecided
      rw [hdecided] at hundecided
      cases hundecided
    exact inv_setResolve .logDecided hdeleted (j := j) (by decide)
  | logDecided =>
    have hwoken := inv_setRequest h (i := (s.resolve j).request)
      { s.request (s.resolve j).request with event := true } ⟨rfl, rfl, id, id, id, id⟩
      (fun hw hd => ⟨hw, hd⟩) fun w user hk => (h.slots w user _ hk).phase
    exact inv_setResolve .ended hwoken (j := j) (by decide)
  | ended => exact h

/-! ## Clean-ups -/

/-- the clean-up of a live worker has the lock to itself -/
theorem alone (h : Inv s) {w w' : ℕ} (hw : s.alive w = true) (hw' : s.alive w' = true) (ha : (s.clean w).active = true)
    (ha' : (s.clean w').active = true) : w' = w :=
  Option.some.inj ((h.locked w' hw' ha').symm.trans (h.locked w hw ha))

theorem setClean_self (s : St) (w : ℕ) (c : Cleanup) : (s.setClean w c).clean w = c := by
  simp only [St.setClean, Function.update_self]

theorem setClean_ne (s : St) {w k : ℕ} (c : Cleanup) (h : k ≠ w) : (s.setClean w c).clean k = s.clean k := by
  simp only [St.setClean, Function.update_of_ne h]

/-- what the clean-up of a live worker may go on to -/
structure Continues (s : St) (w : ℕ) (c : Cleanup) : Prop where
  locked : c.active = true → s.lock = some w
  snaps : ∀ snap ∈ c.ahead, SnapOk s snap
  distinct : (c.ahead.map Row.request).Nodup
  unannounced : ∀ snap ∈ c.unannounced, snap.request ∉ s.announced
  cleared : ∀ row ∈ s.rows, row.request ∈ s.announced → Clearing (s.setClean w c) row.request

/-- **A clean-up goes on.** -/
theorem inv_setClean (h : Inv s) {w : ℕ} {c : Cleanup} (hc : Continues s w c) : Inv (s.setClean w c) := by
  have hok : ∀ snap, SnapOk s snap → SnapOk (s.setClean w c) snap :=
    fun snap hs => ⟨⟨hs.row.user, hs.row.persisted⟩, hs.gone, hs.same⟩
  exact {
    fresh := h.fresh
    workers := h.workers
    resolves := h.resolves
    slots := fun w' u k hk => (h.slots w' u k hk).same rfl
    users := h.users
    rows := fun row hr => ⟨(h.rows row hr).user, (h.rows row hr).persisted⟩
    single := h.single
    survives := fun k hk => h.survives k ⟨hk.live, hk.waits, hk.undecided⟩
    booted := h.booted
    locked := fun w' hw' ha => by
      by_cases hk : w' = w
      · subst hk
        rw [setClean_self] at ha
        exact hc.locked ha
      · rw [setClean_ne s c hk] at ha
        exact h.locked w' hw' ha
    snaps := fun w' hw' snap hs => by
      by_cases hk : w' = w
      · subst hk
        rw [setClean_self] at hs
        exact hok snap (hc.snaps snap hs)
      · rw [setClean_ne s c hk] at hs
        exact hok snap (h.snaps w' hw' snap hs)
    distinct := fun w' hw' => by
      by_cases hk : w' = w
      · subst hk
        rw [setClean_self]
        exact hc.distinct
      · rw [setClean_ne s c hk]
        exact h.distinct w' hw'
    unannounced := fun w' hw' snap hs => by
      by_cases hk : w' = w
      · subst hk
        rw [setClean_self] at hs
        exact hc.unannounced snap hs
      · rw [setClean_ne s c hk] at hs
        exact h.unannounced w' hw' snap hs
    once := h.once
    announced := h.announced
    dropped := h.dropped
    cleared := hc.cleared
    settled := h.settled }

/-- a clean-up that is not about to delete a row leaves those of the others -/
theorem clearing_setClean {w : ℕ} {c : Cleanup} {i : ℕ} (hnot : ∀ now snap rest, s.clean w ≠ .item .clearing now snap rest)
    (hi : Clearing s i) : Clearing (s.setClean w c) i := by
  obtain ⟨w', now, snap, rest, hw', hitem, hreq⟩ := hi
  have hne : w' ≠ w := by
    rintro rfl
    exact hnot now snap rest hitem
  exact ⟨w', now, snap, rest, hw', (setClean_ne s c hne).trans hitem, hreq⟩

/-- no row is announced while the clean-up that holds the lock is not about to delete one -/
theorem none_announced (h : Inv s) {w : ℕ} (hw : s.alive w = true) (ha : (s.clean w).active = true)
    (hnot : ∀ now snap rest, s.clean w ≠ .item .clearing now snap rest) :
    ∀ row ∈ s.rows, row.request ∉ s.announced := by
  intro row hr hann
  obtain ⟨w', now, snap, rest, hw', hitem, -⟩ := h.cleared row hr hann
  obtain rfl := alone h hw hw' ha (by rw [hitem]; rfl)
  exact hnot now snap rest hitem

/-- the clean-up goes on to the rest of its snapshot -/
theorem continues_next {w now : ℕ} {rest : List Row} (hlock : s.lock = some w)
    (hsnaps : ∀ snap ∈ rest, SnapOk s snap) (hdistinct : (rest.map Row.request).Nodup)
    (hun : ∀ snap ∈ rest, snap.request ∉ s.announced) (hnone : ∀ row ∈ s.rows, row.request ∉ s.announced) :
    Continues s w (Cleanup.next now rest) := by
  cases rest with
  | nil =>
    exact ⟨fun _ => hlock, fun _ hs => (List.not_mem_nil hs).elim, List.nodup_nil, fun _ hs => (List.not_mem_nil hs).elim,
      fun row hr hann => absurd hann (hnone row hr)⟩
  | cons snap rest =>
    refine ⟨fun _ => hlock, hsnaps, hdistinct, fun snap' hs => hun snap' ?_, fun row hr hann => absurd hann (hnone row hr)⟩
    cases ha : snap.address with
    | true =>
      simp only [Cleanup.next, ha, if_true] at hs
      exact hs
    | false =>
      simp only [Cleanup.next, ha] at hs
      exact hs

/-- the row of an orphan is deleted -/
theorem inv_dropRow (h : Inv s) {snap : Row} (hs : SnapOk s snap) :
    Inv (s.dropRow snap) ∧ ∀ row ∈ (s.dropRow snap).rows, row.request ≠ snap.request := by
  have hdeleted := inv_deletePendingRow h snap.userId fun k hk hu => by
    obtain ⟨row, hr, rfl⟩ := h.survives k hk
    have hsame := hs.same row hr ((h.rows row hr).user.symm.trans hu)
    have hgone := hs.gone
    rw [Gone, ← hsame, hk.live] at hgone
    cases hgone
  have hleft : ∀ row ∈ (s.deletePendingRow snap.userId).rows, row.request ≠ snap.request := by
    intro row hr hreq
    have hne := of_decide_eq_true (List.mem_filter.1 hr).2
    refine hne ?_
    rw [← (h.rows row (List.mem_filter.1 hr).1).user, hreq, hs.row.user]
  refine ⟨?_, hleft⟩
  exact {
    fresh := hdeleted.fresh
    workers := hdeleted.workers
    resolves := hdeleted.resolves
    slots := fun w u k hk => (hdeleted.slots w u k hk).same rfl
    users := hdeleted.users
    rows := fun row hr => ⟨(hdeleted.rows row hr).user, (hdeleted.rows row hr).persisted⟩
    single := hdeleted.single
    survives := fun k hk => hdeleted.survives k ⟨hk.live, hk.waits, hk.undecided⟩
    booted := hdeleted.booted
    locked := hdeleted.locked
    snaps := fun w hw snap' hs' => by
      have hok := hdeleted.snaps w hw snap' hs'
      exact ⟨⟨hok.row.user, hok.row.persisted⟩, hok.gone, hok.same⟩
    distinct := hdeleted.distinct
    unannounced := hdeleted.unannounced
    once := hdeleted.once
    announced := hdeleted.announced
    dropped := fun i hi => by
      obtain hi | hi := List.mem_append.1 hi
      · exact hdeleted.dropped i hi
      · obtain ⟨row, hr, rfl⟩ := List.mem_map.1 hi
        obtain ⟨hr, hu⟩ := List.mem_filter.1 hr
        have hsame := hs.same row hr (of_decide_eq_true hu)
        rw [hsame]
        exact ⟨hs.gone, hs.row.persisted⟩
    cleared := hdeleted.cleared
    settled := fun i hi => by
      obtain hi | hi := List.mem_append.1 hi
      · exact hdeleted.settled i hi
      · obtain rfl := List.mem_singleton.1 hi
        exact ⟨hs.row.persisted, hleft⟩ }

/-- the rows of a table have their own requests -/
theorem nodup_requests (h : Inv s) : (s.rows.map Row.request).Nodup := by
  refine List.Nodup.of_map (fun i => (s.request i).userId) ?_
  rw [List.map_map]
  have hmap : s.rows.map ((fun i => (s.request i).userId) ∘ Row.request) = s.rows.map Row.userId :=
    List.map_congr_left fun row hr => (h.rows row hr).user
  rw [hmap]
  exact h.users

/-- the lock goes to whoever holds it -/
theorem inv_setLock (h : Inv s) (lock : Option ℕ)
    (hlock : ∀ w, s.alive w = true → (s.clean w).active = true → lock = some w) : Inv { s with lock := lock } := by
  exact {
    fresh := h.fresh
    workers := h.workers
    resolves := h.resolves
    slots := fun w u k hk => (h.slots w u k hk).same rfl
    users := h.users
    rows := fun row hr => ⟨(h.rows row hr).user, (h.rows row hr).persisted⟩
    single := h.single
    survives := fun k hk => h.survives k ⟨hk.live, hk.waits, hk.undecided⟩
    booted := h.booted
    locked := hlock
    snaps := fun w hw snap hs => by
      have hok := h.snaps w hw snap hs
      exact ⟨⟨hok.row.user, hok.row.persisted⟩, hok.gone, hok.same⟩
    distinct := h.distinct
    unannounced := h.unannounced
    once := h.once
    announced := h.announced
    dropped := h.dropped
    cleared := h.cleared
    settled := h.settled }

/-- the lock is taken -/
theorem inv_lock (h : Inv s) {w : ℕ} (hfree : s.lock = none) : Inv { s.setClean w .loading with lock := some w } := by
  have hidle : ∀ w', s.alive w' = true → (s.clean w').active = true → False := by
    intro w' hw' ha
    have hlock := h.locked w' hw' ha
    rw [hfree] at hlock
    cases hlock
  have hlocked := inv_setLock h (some w) fun w' hw' ha => (hidle w' hw' ha).elim
  refine inv_setClean hlocked ⟨fun _ => rfl, fun _ hs => (List.not_mem_nil hs).elim, List.nodup_nil,
    fun _ hs => (List.not_mem_nil hs).elim, fun row hr hann => ?_⟩
  obtain ⟨w', now, snap, rest, hw', hitem, -⟩ := h.cleared row hr hann
  exact (hidle w' hw' (by rw [hitem]; rfl)).elim

/-- the lock is given back -/
theorem inv_unlock (h : Inv s) {w : ℕ} (hw : s.alive w = true) (hclean : s.clean w = .unlocking) :
    Inv { s.setClean w .ended with lock := none } := by
  have hactive : (s.clean w).active = true := by rw [hclean]; rfl
  have hended : Inv (s.setClean w .ended) := by
    refine inv_setClean h ⟨fun ha => absurd ha Bool.false_ne_true, fun _ hs => (List.not_mem_nil hs).elim, List.nodup_nil,
      fun _ hs => (List.not_mem_nil hs).elim, fun row hr hann => ?_⟩
    refine clearing_setClean (fun now snap rest hitem => ?_) (h.cleared row hr hann)
    rw [hclean] at hitem
    cases hitem
  refine inv_setLock hended none fun w' hw' ha => ?_
  by_cases hk : w' = w
  · rw [hk, setClean_self] at ha
    cases ha
  · rw [setClean_ne s _ hk] at ha
    exact absurd (alone h hw hw' hactive ha) hk

theorem active_of_unannounced {c : Cleanup} {snap : Row} (h : snap ∈ c.unannounced) : c.active = true := by
  cases c with
  | item stage now snap' rest => rfl
  | _ => cases h

/-- a recovery message is sent -/
theorem inv_announce (h : Inv s) {w now : ℕ} {snap : Row} {rest : List Row} (hw : s.alive w = true)
    (hclean : s.clean w = .item .clearing now snap rest) (hnew : snap.request ∉ s.announced) :
    Inv { s with announced := s.announced ++ [snap.request] } := by
  have hactive : (s.clean w).active = true := by rw [hclean]; rfl
  have hsnap : SnapOk s snap := h.snaps w hw snap (by rw [hclean]; exact List.mem_cons_self)
  exact {
    fresh := h.fresh
    workers := h.workers
    resolves := h.resolves
    slots := fun w u k hk => (h.slots w u k hk).same rfl
    users := h.users
    rows := fun row hr => ⟨(h.rows row hr).user, (h.rows row hr).persisted⟩
    single := h.single
    survives := fun k hk => h.survives k ⟨hk.live, hk.waits, hk.undecided⟩
    booted := h.booted
    locked := h.locked
    snaps := fun w hw snap hs => by
      have hok := h.snaps w hw snap hs
      exact ⟨⟨hok.row.user, hok.row.persisted⟩, hok.gone, hok.same⟩
    distinct := h.distinct
    unannounced := fun w' hw' snap' hs hann => by
      obtain hann | hann := List.mem_append.1 hann
      · exact h.unannounced w' hw' snap' hs hann
      · -- the others of the snapshot are of other requests
        obtain rfl := alone h hw hw' hactive (active_of_unannounced hs)
        have hd := h.distinct w' hw'
        rw [hclean] at hd hs
        exact (List.nodup_cons.1 hd).1 (List.mem_map.2 ⟨snap', hs, List.mem_singleton.1 hann⟩)
    once := List.Nodup.append h.once (List.nodup_singleton _) fun i hi hi' => hnew (List.mem_singleton.1 hi' ▸ hi)
    announced := fun i hi => by
      obtain hi | hi := List.mem_append.1 hi
      · exact h.announced i hi
      · obtain rfl := List.mem_singleton.1 hi
        exact ⟨hsnap.gone, hsnap.row.persisted⟩
    dropped := h.dropped
    cleared := fun row hr hann => by
      obtain hann | hann := List.mem_append.1 hann
      · exact h.cleared row hr hann
      · exact ⟨w, now, snap, rest, hw, hclean, (List.mem_singleton.1 hann).symm⟩
    settled := h.settled }

/-- **A clean-up goes on.** -/
theorem inv_goCleanup (h : Inv s) {w : ℕ} (published : Bool) (hw : s.alive w = true)
    (horderly : Orderly s (.goCleanup w published)) : Inv (s.goCleanup w published) := by
  unfold St.goCleanup
  cases hclean : s.clean w with
  | locking =>
    dsimp only
    split_ifs with hfree
    · exact inv_lock h hfree
    · refine inv_setClean h ⟨fun ha => absurd ha Bool.false_ne_true, fun _ hs => (List.not_mem_nil hs).elim, List.nodup_nil,
        fun _ hs => (List.not_mem_nil hs).elim, fun row hr hann => ?_⟩
      refine clearing_setClean (fun now snap rest hitem => ?_) (h.cleared row hr hann)
      rw [hclean] at hitem
      cases hitem
  | loading =>
    dsimp only
    have hactive : (s.clean w).active = true := by rw [hclean]; rfl
    have hnone := none_announced h hw hactive fun now snap rest hitem => by rw [hclean] at hitem; cases hitem
    have hgone : ∀ row ∈ s.rows, Gone s row.request := horderly (by rw [hclean]; rfl)
    refine inv_setClean h (continues_next (h.locked w hw hactive) (fun snap hs => ?_) (nodup_requests h) hnone hnone)
    refine ⟨h.rows snap hs, hgone snap hs, fun row hr hu => ?_⟩
    have hsame := List.inj_on_of_nodup_map h.users hr hs hu
    rw [hsame]
  | item stage now snap rest =>
    have hactive : (s.clean w).active = true := by rw [hclean]; rfl
    have hlock := h.locked w hw hactive
    have hahead : ∀ snap' ∈ snap :: rest, SnapOk s snap' := fun snap' hs =>
      h.snaps w hw snap' (by rw [hclean]; exact hs)
    have hdistinct : ((snap :: rest).map Row.request).Nodup := by
      have hd := h.distinct w hw
      rw [hclean] at hd
      exact hd
    have hrest : ∀ snap' ∈ rest, SnapOk s snap' := fun snap' hs => hahead snap' (List.mem_cons_of_mem _ hs)
    have hdistinctRest : (rest.map Row.request).Nodup := (List.nodup_cons.1 hdistinct).2
    cases stage with
    | publishing =>
      have hun : ∀ snap' ∈ snap :: rest, snap'.request ∉ s.announced := fun snap' hs =>
        h.unannounced w hw snap' (by rw [hclean]; exact hs)
      have hnone := none_announced h hw hactive fun now snap rest hitem => by rw [hclean] at hitem; cases hitem
      dsimp only
      split_ifs
      · have hclearing := inv_setClean h (w := w) (c := .item .clearing now snap rest) ⟨fun _ => hlock, hahead, hdistinct,
          fun snap' hs => hun snap' (List.mem_cons_of_mem _ hs), fun row hr hann => absurd hann (hnone row hr)⟩
        exact inv_announce hclearing hw (setClean_self s w _) (hun snap List.mem_cons_self)
      · exact inv_setClean h ⟨fun _ => hlock, hahead, hdistinct, hun, fun row hr hann => absurd hann (hnone row hr)⟩
      · exact inv_setClean h (continues_next hlock hrest hdistinctRest (fun snap' hs => hun snap' (List.mem_cons_of_mem _ hs))
          hnone)
    | clearing =>
      have hun : ∀ snap' ∈ rest, snap'.request ∉ s.announced := fun snap' hs =>
        h.unannounced w hw snap' (by rw [hclean]; exact hs)
      obtain ⟨hdropped, hleft⟩ := inv_dropRow h (hahead snap List.mem_cons_self)
      refine inv_setClean hdropped ⟨fun _ => hlock, fun snap' hs => hdropped.snaps w hw snap' ?_, hdistinct, hun,
        fun row hr hann => ?_⟩
      · exact (congrArg (fun c : Cleanup => snap' ∈ c.ahead) hclean).mpr hs
      · -- what was announced had its row deleted just now
        obtain ⟨w', now', snap', rest', hw', hitem, hreq⟩ := h.cleared row (List.mem_filter.1 hr).1 hann
        obtain rfl := alone h hw hw' hactive (by rw [hitem]; rfl)
        rw [hclean] at hitem
        cases hitem
        exact absurd hreq.symm (hleft row hr)
    | logging =>
      have hun : ∀ snap' ∈ rest, snap'.request ∉ s.announced := fun snap' hs =>
        h.unannounced w hw snap' (by rw [hclean]; exact hs)
      have hnone := none_announced h hw hactive fun now snap rest hitem => by rw [hclean] at hitem; cases hitem
      exact inv_setClean h (continues_next hlock hrest hdistinctRest hun hnone)
    | dropping =>
      have hun : ∀ snap' ∈ rest, snap'.request ∉ s.announced := fun snap' hs =>
        h.unannounced w hw snap' (by rw [hclean]; exact List.mem_cons_of_mem _ hs)
      have hnone := none_announced h hw hactive fun now snap rest hitem => by rw [hclean] at hitem; cases hitem
      obtain ⟨hdropped, -⟩ := inv_dropRow h (hahead snap List.mem_cons_self)
      refine inv_setClean hdropped (continues_next hlock (fun snap' hs => hdropped.snaps w hw snap' ?_) hdistinctRest hun
        fun row hr => hnone row (List.mem_filter.1 hr).1)
      exact (congrArg (fun c : Cleanup => snap' ∈ c.ahead) hclean).mpr (List.mem_cons_of_mem _ hs)
  | unlocking => exact inv_unlock h hw hclean
  | ended => exact h

/-! ## Workers and calls -/

/-- a request that has written its row was called -/
theorem lt_of_persisted (h : Inv s) {i : ℕ} (hp : (s.request i).phase.persisted = true) : i < s.calls :=
  lt_calls h fun hidle => by rw [hidle] at hp; cases hp

/-- a worker boots -/
theorem inv_boot (h : Inv s) : Inv (step s .boot) := by
  have hother : ∀ {w}, w < s.booted → (step s .boot).alive w = s.alive w ∧ (step s .boot).clean w = s.clean w :=
    fun hw => ⟨Function.update_of_ne (Nat.ne_of_lt hw) _ _, Function.update_of_ne (Nat.ne_of_lt hw) _ _⟩
  have hnew : (step s .boot).clean s.booted = .locking := Function.update_self _ _ _
  have hcases : ∀ {w}, (step s .boot).alive w = true → w = s.booted ∨ (w < s.booted ∧ s.alive w = true) := by
    intro w hw
    by_cases hk : w = s.booted
    · exact Or.inl hk
    · rw [show (step s .boot).alive w = s.alive w from Function.update_of_ne hk _ _] at hw
      exact Or.inr ⟨h.booted w hw, hw⟩
  have hlive : ∀ {i}, i < s.calls → (step s .boot).alive (s.request i).worker = s.alive (s.request i).worker :=
    fun hi => (hother (h.workers _ hi)).1
  have hgone : ∀ {i}, (s.request i).phase.persisted = true → Gone s i → Gone (step s .boot) i :=
    fun hp hg => (hlive (lt_of_persisted h hp)).trans hg
  have hbusy : ∀ i, Busy (step s .boot) i → Busy s i := by
    rintro i ⟨hl, hrun⟩
    have hi : i < s.calls := by
      obtain hrun | ⟨j, hj, rfl, -⟩ := hrun
      · exact lt_calls h fun hidle => by
          rw [show ((step s .boot).request i).phase = .idle from hidle] at hrun
          cases hrun
      · exact (h.resolves j hj).1
    exact ⟨(hlive hi).symm.trans hl, hrun⟩
  exact {
    fresh := h.fresh
    workers := fun i hi => Nat.lt_succ_of_lt (h.workers i hi)
    resolves := h.resolves
    slots := fun w u k hk => (h.slots w u k hk).same rfl
    users := h.users
    rows := fun row hr => ⟨(h.rows row hr).user, (h.rows row hr).persisted⟩
    single := fun i k hi hk hu => h.single i k (hbusy i hi) (hbusy k hk) hu
    survives := fun k hk => by
      have hk' : k < s.calls := lt_calls h fun hidle => by
        have hwaits := hk.waits
        rw [show ((step s .boot).request k).phase = .idle from hidle] at hwaits
        cases hwaits
      exact h.survives k ⟨(hlive hk').symm.trans hk.live, hk.waits, hk.undecided⟩
    booted := fun w hw => by
      obtain rfl | ⟨hlt, -⟩ := hcases hw
      · exact Nat.lt_succ_self _
      · exact Nat.lt_succ_of_lt hlt
    locked := fun w hw ha => by
      obtain rfl | ⟨hlt, hold⟩ := hcases hw
      · rw [hnew] at ha
        cases ha
      · rw [(hother hlt).2] at ha
        exact h.locked w hold ha
    snaps := fun w hw snap hs => by
      obtain rfl | ⟨hlt, hold⟩ := hcases hw
      · rw [hnew] at hs
        cases hs
      · rw [(hother hlt).2] at hs
        have hok := h.snaps w hold snap hs
        exact ⟨⟨hok.row.user, hok.row.persisted⟩, hgone hok.row.persisted hok.gone, hok.same⟩
    distinct := fun w hw => by
      obtain rfl | ⟨hlt, hold⟩ := hcases hw
      · rw [hnew]
        exact List.nodup_nil
      · rw [(hother hlt).2]
        exact h.distinct w hold
    unannounced := fun w hw snap hs => by
      obtain rfl | ⟨hlt, hold⟩ := hcases hw
      · rw [hnew] at hs
        cases hs
      · rw [(hother hlt).2] at hs
        exact h.unannounced w hold snap hs
    once := h.once
    announced := fun i hi => ⟨hgone (h.announced i hi).2 (h.announced i hi).1, (h.announced i hi).2⟩
    dropped := fun i hi => ⟨hgone (h.dropped i hi).2 (h.dropped i hi).1, (h.dropped i hi).2⟩
    cleared := fun row hr hann => by
      obtain ⟨w, now, snap, rest, hw, hitem, hreq⟩ := h.cleared row hr hann
      have hlt := h.booted w hw
      exact ⟨w, now, snap, rest, (hother hlt).1.trans hw, (hother hlt).2.trans hitem, hreq⟩
    settled := h.settled }

/-- a worker dies, and no recovery message was just sent by it -/
theorem inv_die (h : Inv s) {w : ℕ} (horderly : Orderly s (.die w)) : Inv (step s (.die w)) := by
  have hcases : ∀ {w'}, (step s (.die w)).alive w' = true → w' ≠ w ∧ s.alive w' = true := by
    intro w' hw'
    by_cases hk : w' = w
    · rw [hk, show (step s (.die w)).alive w = false from Function.update_self _ _ _] at hw'
      cases hw'
    · exact ⟨hk, (Function.update_of_ne hk _ _).symm.trans hw'⟩
  have hgone : ∀ {i}, Gone s i → Gone (step s (.die w)) i := by
    intro i hg
    by_cases hk : (s.request i).worker = w
    · exact (congrArg (step s (.die w)).alive hk).trans (Function.update_self _ _ _)
    · exact (Function.update_of_ne hk _ _).trans hg
  exact {
    fresh := h.fresh
    workers := h.workers
    resolves := h.resolves
    slots := fun w u k hk => (h.slots w u k hk).same rfl
    users := h.users
    rows := fun row hr => ⟨(h.rows row hr).user, (h.rows row hr).persisted⟩
    single := fun i k hi hk hu => h.single i k ⟨(hcases hi.1).2, hi.2⟩ ⟨(hcases hk.1).2, hk.2⟩ hu
    survives := fun k hk => h.survives k ⟨(hcases hk.live).2, hk.waits, hk.undecided⟩
    booted := fun w' hw' => h.booted w' (hcases hw').2
    locked := fun w' hw' ha => by
      obtain ⟨hne, hold⟩ := hcases hw'
      have hlock := h.locked w' hold ha
      have hother : s.lock ≠ some w := by
        rw [hlock]
        exact fun he => hne (Option.some.inj he)
      exact (if_neg hother).trans hlock
    snaps := fun w' hw' snap hs => by
      have hok := h.snaps w' (hcases hw').2 snap hs
      exact ⟨⟨hok.row.user, hok.row.persisted⟩, hgone hok.gone, hok.same⟩
    distinct := fun w' hw' => h.distinct w' (hcases hw').2
    unannounced := fun w' hw' => h.unannounced w' (hcases hw').2
    once := h.once
    announced := fun i hi => ⟨hgone (h.announced i hi).1, (h.announced i hi).2⟩
    dropped := fun i hi => ⟨hgone (h.dropped i hi).1, (h.dropped i hi).2⟩
    cleared := fun row hr hann => by
      obtain ⟨w', now, snap, rest, hw', hitem, hreq⟩ := h.cleared row hr hann
      have hne : w' ≠ w := by
        rintro rfl
        simp only [Orderly, hitem] at horderly
        cases horderly
      exact ⟨w', now, snap, rest, (Function.update_of_ne hne _ _).trans hw', hitem, hreq⟩
    settled := h.settled }

/-- a user's request comes in where no other one runs -/
theorem inv_call (h : Inv s) {user : Str} {w : ℕ} {address : Bool} (hw : s.alive w = true)
    (horderly : Orderly s (.call user w address)) : Inv (step s (.call user w address)) := by
  have hstep : step s (.call user w address) =
      { s.setRequest s.calls ⟨user, w, address, .logRequested, false, false⟩ with calls := s.calls + 1 } := if_pos hw
  rw [hstep]
  have hself := setRequest_self s s.calls ⟨user, w, address, .logRequested, false, false⟩
  have hother : ∀ {k}, k ≠ s.calls →
      (s.setRequest s.calls ⟨user, w, address, .logRequested, false, false⟩).request k = s.request k :=
    fun hk => setRequest_ne s _ hk
  have hpersisted : ∀ {i}, (s.request i).phase.persisted = true → i ≠ s.calls :=
    fun hp => Nat.ne_of_lt (lt_of_persisted h hp)
  have hrow : ∀ row, RowOk s row → RowOk { s.setRequest s.calls ⟨user, w, address, .logRequested, false, false⟩ with
      calls := s.calls + 1 } row := by
    intro row hr
    have hsame := hother (hpersisted hr.persisted)
    exact ⟨(congrArg Request.userId hsame).trans hr.user,
      (congrArg (fun r : Request => r.phase.persisted) hsame).trans hr.persisted⟩
  have hgone : ∀ {i}, (s.request i).phase.persisted = true → Gone s i →
      Gone { s.setRequest s.calls ⟨user, w, address, .logRequested, false, false⟩ with calls := s.calls + 1 } i :=
    fun hp hg => (congrArg (fun r : Request => s.alive r.worker) (hother (hpersisted hp))).trans hg
  have hkeeps : ∀ {i}, (s.request i).phase.persisted = true →
      ((s.setRequest s.calls ⟨user, w, address, .logRequested, false, false⟩).request i).phase.persisted = true :=
    fun hp => (congrArg (fun r : Request => r.phase.persisted) (hother (hpersisted hp))).trans hp
  have hbusy : ∀ {i}, i ≠ s.calls →
      Busy { s.setRequest s.calls ⟨user, w, address, .logRequested, false, false⟩ with calls := s.calls + 1 } i →
      Busy s i ∧ i < s.calls := by
    rintro i hi ⟨hl, hrun⟩
    have hsame := hother hi
    have hb : Busy s i := ⟨(congrArg (fun r : Request => s.alive r.worker) hsame).symm.trans hl,
      hrun.imp_left (congrArg (fun r : Request => r.phase.unfinished) hsame).symm.trans⟩
    refine ⟨hb, ?_⟩
    obtain hrun | ⟨j, hj, rfl, -⟩ := hb.2
    · exact lt_calls h fun hidle => by rw [hidle] at hrun; cases hrun
    · exact (h.resolves j hj).1
  exact {
    fresh := fun i hi => by
      have hne : i ≠ s.calls := by
        simp only at hi
        omega
      exact (congrArg Request.phase (hother hne)).trans (h.fresh i (by simp only at hi; omega))
    workers := fun i hi => by
      by_cases hk : i = s.calls
      · subst hk
        exact (congrArg (fun r : Request => r.worker < s.booted) hself).mpr (h.booted w hw)
      · exact (congrArg (fun r : Request => r.worker < s.booted) (hother hk)).mpr (h.workers i (by simp only at hi; omega))
    resolves := fun j hj => by
      obtain ⟨hlt, hd⟩ := h.resolves j hj
      exact ⟨Nat.lt_succ_of_lt hlt, (congrArg Request.decided (hother (Nat.ne_of_lt hlt))).trans hd⟩
    slots := fun w' u k hk => by
      have hold := h.slots w' u k hk
      have hne : k ≠ s.calls := by
        rintro rfl
        have hphase := hold.phase
        rw [h.fresh _ le_rfl] at hphase
        cases hphase
      have hsame := hother hne
      exact ⟨(congrArg Request.worker hsame).trans hold.worker, (congrArg Request.userId hsame).trans hold.user,
        (congrArg (fun r : Request => r.phase.slotted) hsame).trans hold.phase⟩
    users := h.users
    rows := fun row hr => hrow row (h.rows row hr)
    single := fun i k hi hk hu => by
      by_cases hic : i = s.calls
      · by_cases hkc : k = s.calls
        · rw [hic, hkc]
        · obtain ⟨hb, hlt⟩ := hbusy hkc hk
          subst hic
          have heq : user = (s.request k).userId :=
            (congrArg Request.userId hself).symm.trans (hu.trans (congrArg Request.userId (hother hkc)))
          exact absurd heq.symm (horderly k hlt hb)
      · obtain ⟨hb, hlt⟩ := hbusy hic hi
        by_cases hkc : k = s.calls
        · subst hkc
          have heq : (s.request i).userId = user :=
            (congrArg Request.userId (hother hic)).symm.trans (hu.trans (congrArg Request.userId hself))
          exact absurd heq (horderly i hlt hb)
        · exact h.single i k hb (hbusy hkc hk).1 ((congrArg Request.userId (hother hic)).symm.trans
            (hu.trans (congrArg Request.userId (hother hkc))))
    survives := fun k hk => by
      have hne : k ≠ s.calls := by
        rintro rfl
        have hwaits := hk.waits
        rw [show ({ s.setRequest s.calls ⟨user, w, address, .logRequested, false, false⟩ with calls := s.calls + 1 } :
          St).request s.calls = _ from hself] at hwaits
        cases hwaits
      have hsame := hother hne
      exact h.survives k ⟨(congrArg (fun r : Request => s.alive r.worker) hsame).symm.trans hk.live,
        (congrArg (fun r : Request => r.phase.waits) hsame).symm.trans hk.waits,
        (congrArg Request.decided hsame).symm.trans hk.undecided⟩
    booted := h.booted
    locked := h.locked
    snaps := fun w' hw' snap hs => by
      have hok := h.snaps w' hw' snap hs
      exact ⟨hrow snap hok.row, hgone hok.row.persisted hok.gone, hok.same⟩
    distinct := h.distinct
    unannounced := h.unannounced
    once := h.once
    announced := fun i hi => ⟨hgone (h.announced i hi).2 (h.announced i hi).1, hkeeps (h.announced i hi).2⟩
    dropped := fun i hi => ⟨hgone (h.dropped i hi).2 (h.dropped i hi).1, hkeeps (h.dropped i hi).2⟩
    cleared := h.cleared
    settled := fun i hi => ⟨hkeeps (h.settled i hi).1, (h.settled i hi).2⟩ }

/-- **One step.** -/
theorem inv_step (s : St) (o : Op) (h : Inv s) (horderly : Orderly s o) : Inv (step s o) := by
  cases o with
  | tick =>
    have haside : Aside s (step s .tick) := ⟨rfl, rfl, rfl, rfl, rfl, rfl, rfl, rfl⟩
    exact h.onward (onward_same rfl) haside (fun w u k hk => (h.slots w u k hk).same rfl) h.resolves (fun k hk => hk) h.users
      (fun row hr => Or.inl hr) fun k hk => h.survives k ⟨hk.live, hk.waits, hk.undecided⟩
  | boot => exact inv_boot h
  | die w => exact inv_die h horderly
  | call user w address =>
    by_cases hw : s.alive w = true
    · exact inv_call h hw horderly
    · simp only [step]
      rw [if_neg hw]
      exact h
  | goRequest i published =>
    simp only [step]
    split_ifs with hlive
    · exact inv_goRequest h published hlive horderly
    · exact h
  | timeout i =>
    simp only [step]
    split_ifs with hwaiting
    · exact inv_leave h (by rw [hwaiting.2]; rfl)
    · exact h
  | reply w user =>
    simp only [step]
    split_ifs
    · split
      next i hslot => exact inv_resolves h hslot
      next => exact h
    · exact h
  | goResolve j =>
    simp only [step]
    split_ifs with hruns
    · exact inv_goResolve h hruns.1 hruns.2
    · exact h
  | goCleanup w published =>
    simp only [step]
    split_ifs with hw
    · exact inv_goCleanup h published hw horderly
    · exact h

end

/-- worker 0 boots, cleans up, and waits for the reply to a request -/
def waitingOnZero : List Op :=
  [.boot, .goCleanup 0 true, .goCleanup 0 true, .goCleanup 0 true, .call "u".toList 0 true, .goRequest 0 true,
    .goRequest 0 true, .goRequest 0 true, .goRequest 0 true]

/-- worker 1 boots and announces what it finds -/
def nextWorker : List Op := [.boot, .goCleanup 1 true, .goCleanup 1 true, .goCleanup 1 true]

end Clawbolt.Approval.Orphans
