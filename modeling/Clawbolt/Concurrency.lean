/-
The processing lock of each user (`UserLockManager` of agent/concurrency.py), over locks that behave as `asyncio.Lock`.

`async with user_locks.acquire(user_id)` looks the entry up, touches it and enters its lock with no await in between; a
coroutine that has to wait enters later, when its future is set. `cleanup` forgets the entries that were last touched long ago
and whose lock is not locked, which a lock with a queue is, between its release and the run of its first waiter.

Results:
- `inv_step`: locks and entries, after every step in which a cleanup forgets no lock that has a queue;
- `one_turn_each`: in a run, one coroutine is inside for each user and the others wait where the next one will, if and only
  if every cleanup does so;
- `two_turns`: a turn of more than an hour, a waiter, and a cleanup between the two.
-/
import Mathlib.Tactic
import Clawbolt.Core.AsyncLock
import Clawbolt.Core.Runs

namespace Clawbolt.Concurrency

/-! ## Model -/

variable {Task User : Type} [DecidableEq Task] [DecidableEq User]

/-- `_LockEntry` -/
structure LockEntry where
  lock : ℕ
  lastUsed : ℚ
deriving DecidableEq

/-- `_LOCK_EXPIRY_SECONDS` -/
def lockExpirySeconds : ℚ := 3600

structure St (Task User : Type) where
  /-- the locks made so far, by number -/
  locks : Locks Task ℕ
  made : ℕ
  /-- `_locks` -/
  entries : User → Option LockEntry
  /-- whose lock a coroutine asked for last -/
  serves : Task → Option User

def init : St Task User := ⟨⟨fun _ => .away, fun _ => false, fun _ => []⟩, 0, fun _ => none, fun _ => none⟩

/-- the lock that `acquire` returns -/
def St.lockFor (s : St Task User) (u : User) : ℕ := (s.entries u).elim s.made LockEntry.lock

/-- `UserLockManager.acquire` -/
def St.acquire (s : St Task User) (u : User) (now : ℚ) : St Task User :=
  { s with
    made := if s.entries u = none then s.made + 1 else s.made
    entries := Function.update s.entries u (some ⟨s.lockFor u, now⟩) }

/-- an entry that `cleanup` forgets -/
def St.Stale (s : St Task User) (expiry now : ℚ) (e : LockEntry) : Prop :=
  now - e.lastUsed > expiry ∧ s.locks.locked e.lock = false

instance (s : St Task User) (expiry now : ℚ) (e : LockEntry) : Decidable (s.Stale expiry now e) :=
  inferInstanceAs (Decidable (_ ∧ _))

/-- `UserLockManager.cleanup` -/
def St.cleanup (s : St Task User) (expiry now : ℚ) : St Task User :=
  { s with entries := fun u => (s.entries u).filter fun e => ¬s.Stale expiry now e }

inductive Op (Task User : Type) where
  /-- `async with user_locks.acquire(user_id)` -/
  | enter (t : Task) (u : User) (now : ℚ)
  /-- a waiting coroutine is cancelled before its future is set -/
  | cancel (t : Task)
  /-- a waiting coroutine goes on, or ends with a cancellation that came after its future was set -/
  | resume (t : Task) (cancelled : Bool)
  /-- the end of the `async with` -/
  | leave (t : Task)
  | cleanup (now : ℚ)

def step (expiry : ℚ) (s : St Task User) : Op Task User → St Task User
  | .enter t u now =>
    if s.locks.place t = .away then
      let l := s.lockFor u
      { s.acquire u now with
        locks := if s.locks.locked l = false ∧ (s.locks.waiters l).all (fun w => s.locks.place w = .waits l .cancelled) then
            s.locks.take l t
          else s.locks.enqueue l t
        serves := Function.update s.serves t (some u) }
    else s
  | .cancel t =>
    match s.locks.place t with
    | .waits l .pending => { s with locks := s.locks.put t (.waits l .cancelled) }
    | _ => s
  | .resume t cancelled =>
    match s.locks.place t with
    | .waits l .result =>
      if cancelled then { s with locks := (s.locks.leave l t).wakeUpFirst l }
      else { s with locks := s.locks.take l t }
    | .waits l .cancelled =>
      { s with locks := if s.locks.locked l then s.locks.leave l t else (s.locks.leave l t).wakeUpFirst l }
    | _ => s
  | .leave t =>
    match s.locks.place t with
    | .holds l => { s with locks := (s.locks.release l t).wakeUpFirst l }
    | _ => s
  | .cleanup now => s.cleanup expiry now

abbrev run (expiry : ℚ) (s : St Task User) (ops : List (Op Task User)) : St Task User := Runs.run (step expiry) s ops

/-! ## What is claimed of a state -/

/-- one coroutine is inside the lock of a user -/
def St.Exclusive (s : St Task User) : Prop :=
  ∀ t t' l l' u, s.locks.place t = .holds l → s.locks.place t' = .holds l' → s.serves t = some u → s.serves t' = some u → t = t'

/-- the others wait on the lock that the next one gets -/
def St.Aligned (s : St Task User) : Prop :=
  ∀ t l fut u, s.locks.place t = .waits l fut → s.serves t = some u → s.lockFor u = l

/-- a cleanup forgets no lock that a coroutine waits for -/
def SparesQueues (expiry : ℚ) (s : St Task User) : Op Task User → Prop
  | .cleanup now => ∀ u e, s.entries u = some e → s.Stale expiry now e → s.locks.waiters e.lock = []
  | _ => True

/-! ## The invariant -/

/-- a coroutine is inside a lock or in its queue -/
def At (locks : Locks Task ℕ) (t : Task) (l : ℕ) : Prop := locks.place t = .holds l ∨ ∃ fut, locks.place t = .waits l fut

structure Inv (s : St Task User) : Prop where
  sound : s.locks.Sound fun _ => False
  below : ∀ u e, s.entries u = some e → e.lock < s.made
  apart : ∀ u u' e e', s.entries u = some e → s.entries u' = some e' → e.lock = e'.lock → u = u'
  entered : ∀ t l, At s.locks t l → ∃ u e, s.serves t = some u ∧ s.entries u = some e ∧ e.lock = l

section
variable {s : St Task User} {expiry : ℚ} {t : Task} {l : ℕ}

omit [DecidableEq Task] [DecidableEq User] in
theorem lockFor_of_entry {u : User} {e : LockEntry} (h : s.entries u = some e) : s.lockFor u = e.lock := by
  rw [St.lockFor, h]
  rfl

omit [DecidableEq Task] [DecidableEq User] in
theorem inv_init : Inv (init : St Task User) where
  sound :=
    { waiter := fun _ t ht => by cases ht
      waits := fun t k fut h => by cases h
      nodup := fun _ => List.nodup_nil
      woken := fun t k h => by cases h
      holder := fun t k h => by cases h
      mutex := fun t t' k h => by cases h
      locked := fun k h => by cases h
      free := fun k t _ _ h => by cases h }
  below := fun u e h => by cases h
  apart := fun u u' e e' h => by cases h
  entered := by
    rintro t l (h | ⟨fut, h⟩)
    · cases h
    · cases h

omit [DecidableEq Task] [DecidableEq User] in
theorem Inv.exclusive (h : Inv s) : s.Exclusive := by
  intro t t' l l' u ht ht' hu hu'
  obtain ⟨v, e, hv, he, rfl⟩ := h.entered t l (.inl ht)
  obtain ⟨v', e', hv', he', rfl⟩ := h.entered t' l' (.inl ht')
  obtain rfl : u = v := Option.some.inj (hu.symm.trans hv)
  obtain rfl : u = v' := Option.some.inj (hu'.symm.trans hv')
  obtain rfl : e = e' := Option.some.inj (he.symm.trans he')
  exact h.sound.mutex t t' e.lock ht ht'

omit [DecidableEq Task] [DecidableEq User] in
theorem Inv.aligned (h : Inv s) : s.Aligned := by
  intro t l fut u ht hu
  obtain ⟨v, e, hv, he, rfl⟩ := h.entered t l (.inr ⟨fut, ht⟩)
  obtain rfl : u = v := Option.some.inj (hu.symm.trans hv)
  exact lockFor_of_entry he

/-! ## Entering -/

omit [DecidableEq Task] in
theorem acquire_below (h : Inv s) (u : User) (now : ℚ) : ∀ v e, (s.acquire u now).entries v = some e → e.lock < (s.acquire u now).made := by
  intro v e he
  simp only [St.acquire] at he ⊢
  rw [Function.update_apply] at he
  split_ifs at he with hv
  · obtain rfl := Option.some.inj he
    cases hu : s.entries u with
    | none => simp [St.lockFor, hu]
    | some e₀ => simpa [lockFor_of_entry hu] using h.below u e₀ hu
  · have := h.below v e he
    split_ifs
    · omega
    · exact this

omit [DecidableEq Task] in
theorem acquire_entry (s : St Task User) (u : User) (now : ℚ) : (s.acquire u now).entries u = some ⟨s.lockFor u, now⟩ :=
  Function.update_self ..

omit [DecidableEq Task] in
theorem acquire_keeps (u : User) (now : ℚ) {v : User} {e : LockEntry} (he : s.entries v = some e) :
    ∃ e', (s.acquire u now).entries v = some e' ∧ e'.lock = e.lock := by
  by_cases hv : v = u
  · subst hv
    exact ⟨_, acquire_entry s v now, lockFor_of_entry he⟩
  · exact ⟨e, (Function.update_of_ne hv _ _).trans he, rfl⟩

omit [DecidableEq Task] in
theorem acquire_apart (h : Inv s) (u : User) (now : ℚ) : ∀ v v' e e', (s.acquire u now).entries v = some e →
    (s.acquire u now).entries v' = some e' → e.lock = e'.lock → v = v' := by
  -- a lock that another user has is not the one of this user
  have hother : ∀ v e, v ≠ u → s.entries v = some e → e.lock ≠ s.lockFor u := by
    intro v e hv he heq
    cases hu : s.entries u with
    | none =>
      rw [St.lockFor, hu] at heq
      exact absurd (h.below v e he) (by rw [heq]; exact lt_irrefl _)
    | some e₀ =>
      rw [lockFor_of_entry hu] at heq
      exact hv (h.apart v u e e₀ he hu heq)
  intro v v' e e' he he' heq
  simp only [St.acquire, Function.update_apply] at he he'
  split_ifs at he with hv
  · split_ifs at he' with hv'
    · rw [hv, hv']
    · obtain rfl := Option.some.inj he
      exact absurd heq.symm (hother v' e' hv' he')
  · split_ifs at he' with hv'
    · obtain rfl := Option.some.inj he'
      exact absurd heq (hother v e hv he)
    · exact h.apart v v' e e' he he' heq

theorem inv_enter (h : Inv s) (t : Task) (u : User) (now : ℚ) : Inv (step expiry s (.enter t u now)) := by
  simp only [step]
  split_ifs with haway hopen
  · refine ⟨?_, acquire_below h u now, acquire_apart h u now, ?_⟩
    · refine h.sound.take hopen.1 (.inl haway) fun t' ht' _ => ?_
      have hcancelled := List.all_eq_true.1 hopen.2 t' ht'
      rw [of_decide_eq_true hcancelled]
      exact fun heq => by cases heq
    · intro t' l hat
      simp only [At, Locks.place_take] at hat
      by_cases ht' : t' = t
      · rw [if_pos ht'] at hat
        obtain heq | ⟨fut, heq⟩ := hat
        · cases heq
          exact ⟨u, _, ht' ▸ Function.update_self .., acquire_entry s u now, rfl⟩
        · cases heq
      · rw [if_neg ht'] at hat
        obtain ⟨v, e, hv, he, rfl⟩ := h.entered t' l hat
        obtain ⟨e', he', heq⟩ := acquire_keeps u now he
        exact ⟨v, e', (Function.update_of_ne ht' _ _).trans hv, he', heq⟩
  · refine ⟨?_, acquire_below h u now, acquire_apart h u now, ?_⟩
    · refine h.sound.enqueue haway fun hfree => hopen ⟨hfree.1, List.all_eq_true.2 fun w hw => decide_eq_true (hfree.2 w hw)⟩
    · intro t' l hat
      simp only [At, Locks.place_enqueue] at hat
      by_cases ht' : t' = t
      · rw [if_pos ht'] at hat
        obtain heq | ⟨fut, heq⟩ := hat
        · cases heq
        · cases heq
          exact ⟨u, _, ht' ▸ Function.update_self .., acquire_entry s u now, rfl⟩
      · rw [if_neg ht'] at hat
        obtain ⟨v, e, hv, he, rfl⟩ := h.entered t' l hat
        obtain ⟨e', he', heq⟩ := acquire_keeps u now he
        exact ⟨v, e', (Function.update_of_ne ht' _ _).trans hv, he', heq⟩
  · exact h

/-! ## The other steps -/

theorem at_moved {locks locks' : Locks Task ℕ} {p : LockPlace ℕ} (hplace : ∀ j, locks'.place j = if j = t then p else locks.place j)
    (hp : ∀ l, p = .holds l ∨ (∃ fut, p = .waits l fut) → At locks t l) {t' : Task} {l' : ℕ} (h : At locks' t' l') : At locks t' l' := by
  rw [At, hplace] at h
  by_cases ht' : t' = t
  · rw [if_pos ht'] at h
    exact ht' ▸ hp l' h
  · rwa [if_neg ht'] at h

theorem at_wakeUpFirst {locks : Locks Task ℕ} {t' : Task} {l' : ℕ} (h : At (locks.wakeUpFirst l) t' l') : At locks t' l' := by
  unfold Locks.wakeUpFirst at h
  split at h
  next => exact h
  next t ts hw =>
    split_ifs at h with hpending
    · refine at_moved (Locks.place_put _) (fun l₁ hl₁ => ?_) h
      obtain heq | ⟨fut, heq⟩ := hl₁
      · cases heq
      · cases heq
        exact .inr ⟨_, hpending⟩
    · exact h

omit [DecidableEq Task] [DecidableEq User] in
theorem not_at_away : ∀ l, (LockPlace.away : LockPlace ℕ) = .holds l ∨ (∃ fut, (LockPlace.away : LockPlace ℕ) = .waits l fut) →
    At s.locks t l := by
  rintro l (h | ⟨fut, h⟩)
  · cases h
  · cases h

omit [DecidableEq Task] [DecidableEq User] in
/-- locks that put no coroutine at another lock -/
theorem Inv.withLocks (h : Inv s) {locks : Locks Task ℕ} (hsound : locks.Sound fun _ => False)
    (hat : ∀ t l, At locks t l → At s.locks t l) : Inv { s with locks := locks } where
  sound := hsound
  below := h.below
  apart := h.apart
  entered := fun t l ht => h.entered t l (hat t l ht)

omit [DecidableEq User] in
/-- a waiter leaves the queue of a lock that is free -/
theorem Inv.leaves (h : Inv s) {fut : Fut} (ht : s.locks.place t = .waits l fut) (hfree : s.locks.locked l = false) :
    Inv { s with locks := (s.locks.leave l t).wakeUpFirst l } :=
  h.withLocks ((h.sound.leave ht).wakeUpFirst hfree) fun _ _ hat => at_moved Locks.place_leave not_at_away (at_wakeUpFirst hat)

omit [DecidableEq Task] [DecidableEq User] in
theorem inv_cleanup (h : Inv s) (now : ℚ) (hspares : SparesQueues expiry s (.cleanup now : Op Task User)) :
    Inv (s.cleanup expiry now) where
  sound := h.sound
  below := fun u e he => h.below u e (Option.filter_eq_some_iff.1 he).1
  apart := fun u u' e e' he he' => h.apart u u' e e' (Option.filter_eq_some_iff.1 he).1 (Option.filter_eq_some_iff.1 he').1
  entered := by
    intro t l hat
    obtain ⟨u, e, hu, he, rfl⟩ := h.entered t l hat
    refine ⟨u, e, hu, Option.filter_eq_some_iff.2 ⟨he, decide_eq_true fun hstale => ?_⟩, rfl⟩
    -- its lock is not locked, and nobody waits for it
    have hnone := hspares u e he hstale
    obtain hholds | ⟨fut, hwaits⟩ := hat
    · have hlocked := h.sound.holder t e.lock hholds
      rw [hstale.2] at hlocked
      cases hlocked
    · have hmem := h.sound.waits t e.lock fut hwaits
      rw [hnone] at hmem
      cases hmem

/-- **One step.** -/
theorem inv_step (h : Inv s) (o : Op Task User) (hspares : SparesQueues expiry s o) : Inv (step expiry s o) := by
  cases o with
  | enter t u now => exact inv_enter h t u now
  | cancel t =>
    simp only [step]
    split
    next l hplace =>
      refine h.withLocks (h.sound.cancel hplace) fun _ _ hat => at_moved (Locks.place_put _) (fun l₁ hl₁ => ?_) hat
      obtain heq | ⟨fut, heq⟩ := hl₁
      · cases heq
      · cases heq
        exact .inr ⟨_, hplace⟩
    next => exact h
  | resume t cancelled =>
    simp only [step]
    split
    next l hplace =>
      have hfree := (h.sound.woken t l hplace).2
      split_ifs
      · exact h.leaves hplace hfree
      · refine h.withLocks (h.sound.take hfree (.inr hplace) fun t' _ hne hplace' => hne ?_) fun _ _ hat =>
          at_moved Locks.place_take (fun l₁ hl₁ => ?_) hat
        · exact Option.some.inj ((h.sound.woken t' l hplace').1.symm.trans (h.sound.woken t l hplace).1)
        · obtain heq | ⟨fut, heq⟩ := hl₁
          · cases heq
            exact .inr ⟨_, hplace⟩
          · cases heq
    next l hplace =>
      split_ifs with hlocked
      · refine h.withLocks ((h.sound.leave hplace).mono fun j hj => .inr (hj ▸ hlocked)) fun _ _ hat =>
          at_moved Locks.place_leave not_at_away hat
      · exact h.leaves hplace (Bool.eq_false_of_not_eq_true hlocked)
    next => exact h
  | leave t =>
    simp only [step]
    split
    next l hplace =>
      have hfree : (s.locks.release l t).locked l = false := by rw [Locks.locked_release, if_pos rfl]
      exact h.withLocks ((h.sound.release hplace).wakeUpFirst hfree) fun _ _ hat =>
        at_moved Locks.place_release not_at_away (at_wakeUpFirst hat)
    next => exact h
  | cleanup now => exact inv_cleanup h now hspares

/-- a queue that a cleanup forgets waits for a lock that nobody gets any more -/
theorem spares_of_aligned (h : Inv s) {o : Op Task User} (haligned : (step expiry s o).Aligned) : SparesQueues expiry s o := by
  cases o with
  | cleanup now =>
    intro u e he hstale
    rw [List.eq_nil_iff_forall_not_mem]
    intro t ht
    obtain ⟨fut, hplace⟩ := h.sound.waiter e.lock t ht
    obtain ⟨v, e', hv, he', heq⟩ := h.entered t e.lock (.inr ⟨fut, hplace⟩)
    obtain rfl := h.apart v u e' e he' he heq
    have hgone : (s.cleanup expiry now).entries v = none := by
      rw [St.cleanup, Option.filter_eq_none_iff]
      intro e₁ he₁
      obtain rfl := Option.some.inj (he.symm.trans he₁)
      simpa using hstale
    have hfor := haligned t e.lock fut v hplace hv
    have hmade : (s.cleanup expiry now).lockFor v = s.made := by rw [St.lockFor, hgone]; rfl
    exact absurd (h.below v e he) (by rw [← hfor]; exact hmade ▸ lt_irrefl _)
  | _ => trivial

end

/-- **One turn at a time.** For any coroutines, users, clock and expiry: after every step of a run at most one coroutine is
inside the lock of a user, and each waiting one waits on the lock that the next `acquire` returns, if and only if no cleanup
forgets a lock that has a queue. -/
theorem one_turn_each (expiry : ℚ) (ops : List (Op Task User)) :
    Runs.Meets (step expiry) (fun s o => (step expiry s o).Exclusive ∧ (step expiry s o).Aligned) init ops ↔
      Runs.Meets (step expiry) (SparesQueues expiry) init ops := by
  have hiff : ∀ (s : St Task User) (o : Op Task User), Inv s →
      ((step expiry s o).Exclusive ∧ (step expiry s o).Aligned ↔ SparesQueues expiry s o) := by
    intro s o h
    constructor
    · exact fun hclaim => spares_of_aligned h hclaim.2
    · intro hspares
      have hinv := inv_step h o hspares
      exact ⟨hinv.exclusive, hinv.aligned⟩
  have hstep : ∀ (s : St Task User) (o : Op Task User), Inv s → SparesQueues expiry s o → Inv (step expiry s o) :=
    fun s o h hspares => inv_step h o hspares
  exact Runs.meets_iff hiff hstep inv_init

/-- a turn of 4000 seconds, a message that waits for its end, and a third one after a cleanup -/
def longTurn : List (Op (Fin 3) Unit) :=
  [.enter 0 () 0, .enter 1 () 1, .leave 0, .cleanup 4000, .enter 2 () 4000, .resume 1 false]

/-- **Two turns at once.** The lock is free between the end of the first turn and the run of the waiter, so that the cleanup
forgets it; the third message gets a new lock. -/
theorem two_turns :
    (run lockExpirySeconds init longTurn).locks.place 1 = .holds 0 ∧ (run lockExpirySeconds init longTurn).locks.place 2 = .holds 1 ∧
      ¬Runs.Meets (step lockExpirySeconds) (fun s o => (step lockExpirySeconds s o).Exclusive ∧ (step lockExpirySeconds s o).Aligned)
        init longTurn := by
  have hfirst : (run lockExpirySeconds init longTurn).locks.place 1 = .holds 0 := by decide +kernel
  have hsecond : (run lockExpirySeconds init longTurn).locks.place 2 = .holds 1 := by decide +kernel
  refine ⟨hfirst, hsecond, fun hmeets => ?_⟩
  have hlast := (Runs.meets_append _ _ _ longTurn.dropLast [.resume 1 false]).1 hmeets
  have hserves : ∀ t : Fin 3, (run lockExpirySeconds init longTurn).serves t = some () := by decide +kernel
  have hsame := hlast.2.1.1 1 2 0 1 () hfirst hsecond (hserves 1) (hserves 2)
  exact absurd hsame (by decide)

end Clawbolt.Concurrency
