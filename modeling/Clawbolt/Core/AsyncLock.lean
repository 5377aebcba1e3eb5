/-
The locks of an event loop (`asyncio.Lock`), one for each key, over arbitrary tasks. A task that finds the lock taken, or
others in the queue, waits there on a future; a release wakes the first of the queue, which takes the lock only when it
runs, and may have been cancelled by then.

- `Locks.Sound`: at most one task holds a lock, and a waiter that was woken is the first one of a lock that is free;
- `Sound.take`, `Sound.enqueue`, `Sound.grant`, `Sound.cancel`, `Sound.release`, `Sound.leave`, `Sound.wakeUpFirst`: every
  operation keeps it;
- `Sound.first_woken`: the first waiter of a free lock was woken or cancelled, so that its task is going to run.
-/
import Mathlib.Tactic

/-- the future of a waiter -/
inductive Fut where
  | pending
  | result
  | cancelled
deriving DecidableEq, Repr

/-- where a task is, for the locks -/
inductive LockPlace (K : Type*) where
  | away
  | waits (k : K) (fut : Fut)
  | holds (k : K)
deriving DecidableEq, Repr

structure Locks (T K : Type*) where
  place : T → LockPlace K
  locked : K → Bool
  waiters : K → List T

namespace Locks

variable {T K : Type*} [DecidableEq T] [DecidableEq K]

def put (l : Locks T K) (t : T) (p : LockPlace K) : Locks T K := { l with place := Function.update l.place t p }

/-- the task has the lock -/
def take (l : Locks T K) (k : K) (t : T) : Locks T K :=
  { l.put t (.holds k) with
    locked := Function.update l.locked k true
    waiters := Function.update l.waiters k ((l.waiters k).erase t) }

def enqueue (l : Locks T K) (k : K) (t : T) : Locks T K :=
  { l.put t (.waits k .pending) with waiters := Function.update l.waiters k (l.waiters k ++ [t]) }

/-- the lock is free, and its first waiter is not woken yet -/
def release (l : Locks T K) (k : K) (t : T) : Locks T K :=
  { l.put t .away with locked := Function.update l.locked k false }

/-- a waiter leaves the queue -/
def leave (l : Locks T K) (k : K) (t : T) : Locks T K :=
  { l.put t .away with waiters := Function.update l.waiters k ((l.waiters k).erase t) }

/-- `Lock._wake_up_first` -/
def wakeUpFirst (l : Locks T K) (k : K) : Locks T K :=
  match l.waiters k with
  | [] => l
  | t :: _ => if l.place t = .waits k .pending then l.put t (.waits k .result) else l

/-- what `Lock.acquire` asks before it takes the lock at once -/
def Open (l : Locks T K) (k : K) : Prop := l.locked k = false ∧ ∀ t ∈ l.waiters k, l.place t = .waits k .cancelled

/-- the locks of the keys in `skip` are free, and their first waiter may not have been woken yet -/
structure Sound (l : Locks T K) (skip : K → Prop) : Prop where
  waiter : ∀ k, ∀ t ∈ l.waiters k, ∃ fut, l.place t = .waits k fut
  waits : ∀ t k fut, l.place t = .waits k fut → t ∈ l.waiters k
  nodup : ∀ k, (l.waiters k).Nodup
  woken : ∀ t k, l.place t = .waits k .result → (l.waiters k).head? = some t ∧ l.locked k = false
  holder : ∀ t k, l.place t = .holds k → l.locked k = true
  mutex : ∀ t t' k, l.place t = .holds k → l.place t' = .holds k → t = t'
  locked : ∀ k, l.locked k = true → ∃ t, l.place t = .holds k
  free : ∀ k t, ¬ skip k → l.locked k = false → (l.waiters k).head? = some t → l.place t ≠ .waits k .pending

variable {l : Locks T K} {skip : K → Prop} {k : K} {t : T}

/-! ## What an operation changes -/

@[grind =] theorem place_take (j : T) : (l.take k t).place j = if j = t then .holds k else l.place j :=
  Function.update_apply _ _ _ _

@[grind =] theorem locked_take (j : K) : (l.take k t).locked j = if j = k then true else l.locked j :=
  Function.update_apply _ _ _ _

@[grind =] theorem waiters_take (j : K) :
    (l.take k t).waiters j = if j = k then (l.waiters k).erase t else l.waiters j :=
  Function.update_apply _ _ _ _

@[grind =] theorem place_enqueue (j : T) :
    (l.enqueue k t).place j = if j = t then .waits k .pending else l.place j :=
  Function.update_apply _ _ _ _

@[grind =] theorem locked_enqueue (j : K) : (l.enqueue k t).locked j = l.locked j := rfl

@[grind =] theorem waiters_enqueue (j : K) :
    (l.enqueue k t).waiters j = if j = k then l.waiters k ++ [t] else l.waiters j :=
  Function.update_apply _ _ _ _

@[grind =] theorem place_release (j : T) : (l.release k t).place j = if j = t then .away else l.place j :=
  Function.update_apply _ _ _ _

@[grind =] theorem locked_release (j : K) : (l.release k t).locked j = if j = k then false else l.locked j :=
  Function.update_apply _ _ _ _

@[grind =] theorem waiters_release (j : K) : (l.release k t).waiters j = l.waiters j := rfl

@[grind =] theorem place_leave (j : T) : (l.leave k t).place j = if j = t then .away else l.place j :=
  Function.update_apply _ _ _ _

@[grind =] theorem locked_leave (j : K) : (l.leave k t).locked j = l.locked j := rfl

@[grind =] theorem waiters_leave (j : K) :
    (l.leave k t).waiters j = if j = k then (l.waiters k).erase t else l.waiters j :=
  Function.update_apply _ _ _ _

omit [DecidableEq K]

@[grind =] theorem place_put (p : LockPlace K) (j : T) : (l.put t p).place j = if j = t then p else l.place j :=
  Function.update_apply _ _ _ _

@[grind =] theorem locked_put (p : LockPlace K) (j : K) : (l.put t p).locked j = l.locked j := rfl

@[grind =] theorem waiters_put (p : LockPlace K) (j : K) : (l.put t p).waiters j = l.waiters j := rfl

/-- the first one stays first when another one leaves -/
theorem head?_erase_of_ne {ts : List T} {t' : T} (h : ts.head? = some t) (hne : t ≠ t') : (ts.erase t').head? = some t := by
  cases ts with
  | nil => simp at h
  | cons x ts =>
    obtain rfl : x = t := by simpa using h
    rw [List.erase_cons_tail (by simpa using hne), List.head?_cons]

variable [DecidableEq K]

/-! ## Every operation keeps the invariant -/

theorem Sound.take (h : l.Sound fun _ => False) (hfree : l.locked k = false)
    (ht : l.place t = .away ∨ l.place t = .waits k .result)
    (hothers : ∀ t' ∈ l.waiters k, t' ≠ t → l.place t' ≠ .waits k .result) : (l.take k t).Sound fun _ => False := by
  have hlocked (j : K) (hj : (l.take k t).locked j = true) : ∃ t', (l.take k t).place t' = .holds j := by
    by_cases hjk : j = k
    · exact ⟨t, by grind -ring -linarith -order -ac⟩
    · obtain ⟨t', ht'⟩ := h.locked j (by grind -ring -linarith -order -ac)
      exact ⟨t', by grind -ring -linarith -order -ac⟩
  obtain ⟨hwaiter, hwaits, hnodup, hwoken, hholder, hmutex, _, hopen⟩ := h
  refine ⟨?_, ?_, ?_, ?_, ?_, ?_, hlocked, ?_⟩ <;> grind -ring -linarith -order -ac

theorem Sound.enqueue (h : l.Sound fun _ => False) (ht : l.place t = .away) (hclosed : ¬ l.Open k) :
    (l.enqueue k t).Sound fun _ => False := by
  have hplace (t' : T) (j : K) (ht' : t' ∈ l.waiters j) : t' ≠ t := by
    obtain ⟨fut, hfut⟩ := h.waiter j t' ht'
    grind -ring -linarith -order -ac
  have hwaiter (j : K) (t' : T) (ht' : t' ∈ (l.enqueue k t).waiters j) : ∃ fut, (l.enqueue k t).place t' = .waits j fut := by
    by_cases heq : t' = t
    · exact ⟨.pending, by grind -ring -linarith -order -ac⟩
    · obtain ⟨fut, hfut⟩ := h.waiter j t' (by grind -ring -linarith -order -ac)
      exact ⟨fut, by grind -ring -linarith -order -ac⟩
  have hlocked (j : K) (hj : (l.enqueue k t).locked j = true) : ∃ t', (l.enqueue k t).place t' = .holds j := by
    obtain ⟨t', ht'⟩ := h.locked j hj
    exact ⟨t', by grind -ring -linarith -order -ac⟩
  have hopen (j : K) (t' : T) (_ : ¬ False) (hfree : (l.enqueue k t).locked j = false)
      (hhead : ((l.enqueue k t).waiters j).head? = some t') : (l.enqueue k t).place t' ≠ .waits j .pending := by
    have hfirst : (l.waiters j).head? = some t' := by
      by_cases hj : j = k
      · -- whoever finds a free lock closed comes after a waiter
        subst hj
        cases hw : l.waiters j with
        | nil => exact absurd ⟨hfree, by simp [hw]⟩ hclosed
        | cons x rest => simpa [waiters_enqueue, hw] using hhead
      · rwa [waiters_enqueue, if_neg hj] at hhead
    rw [place_enqueue, if_neg (hplace t' j (List.mem_of_head? hfirst))]
    exact h.free j t' not_false hfree hfirst
  obtain ⟨_, hwaits, hnodup, hwoken, hholder, hmutex, _, _⟩ := h
  refine ⟨hwaiter, ?_, ?_, ?_, ?_, ?_, hlocked, hopen⟩ <;> grind -ring -linarith -order -ac [List.head?_append]

theorem Sound.release (h : l.Sound fun _ => False) (ht : l.place t = .holds k) : (l.release k t).Sound fun j => j = k := by
  have hlocked (j : K) (hj : (l.release k t).locked j = true) : ∃ t', (l.release k t).place t' = .holds j := by
    obtain ⟨t', ht'⟩ := h.locked j (by grind -ring -linarith -order -ac)
    exact ⟨t', by grind -ring -linarith -order -ac⟩
  have hfree := h.holder t k ht
  obtain ⟨hwaiter, hwaits, hnodup, hwoken, hholder, hmutex, _, hopen⟩ := h
  refine ⟨?_, ?_, ?_, ?_, ?_, ?_, hlocked, ?_⟩ <;> grind -ring -linarith -order -ac

theorem Sound.leave {fut : Fut} (h : l.Sound fun _ => False) (ht : l.place t = .waits k fut) :
    (l.leave k t).Sound fun j => j = k := by
  have hlocked (j : K) (hj : (l.leave k t).locked j = true) : ∃ t', (l.leave k t).place t' = .holds j := by
    obtain ⟨t', ht'⟩ := h.locked j (by grind -ring -linarith -order -ac)
    exact ⟨t', by grind -ring -linarith -order -ac⟩
  obtain ⟨hwaiter, hwaits, hnodup, hwoken, hholder, hmutex, _, hopen⟩ := h
  refine ⟨?_, ?_, ?_, ?_, ?_, ?_, hlocked, ?_⟩ <;> grind -ring -linarith -order -ac [head?_erase_of_ne]

omit [DecidableEq K] in
theorem Sound.cancel (h : l.Sound fun _ => False) (ht : l.place t = .waits k .pending) :
    (l.put t (.waits k .cancelled)).Sound fun _ => False := by
  have hlocked (j : K) (hj : (l.put t (.waits k .cancelled)).locked j = true) :
      ∃ t', (l.put t (.waits k .cancelled)).place t' = .holds j := by
    obtain ⟨t', ht'⟩ := h.locked j hj
    exact ⟨t', by grind -ring -linarith -order -ac⟩
  have hwaiter (j : K) (t' : T) (ht' : t' ∈ l.waiters j) : ∃ fut, (l.put t (.waits k .cancelled)).place t' = .waits j fut := by
    obtain ⟨fut, hfut⟩ := h.waiter j t' ht'
    by_cases heq : t' = t
    · exact ⟨.cancelled, by grind -ring -linarith -order -ac⟩
    · exact ⟨fut, by grind -ring -linarith -order -ac⟩
  obtain ⟨_, hwaits, hnodup, hwoken, hholder, hmutex, _, hopen⟩ := h
  refine ⟨hwaiter, ?_, ?_, ?_, ?_, ?_, hlocked, ?_⟩ <;> grind -ring -linarith -order -ac

omit [DecidableEq T] [DecidableEq K] in
theorem Sound.mono {p : K → Prop} (h : l.Sound skip) (hp : ∀ j, skip j → p j ∨ l.locked j = true) : l.Sound p where
  __ := h
  free := fun j t' hj hfree hhead => by
    refine h.free j t' (fun hskip => ?_) hfree hhead
    rcases hp j hskip with hpj | hlocked
    · exact hj hpj
    · simp [hfree] at hlocked

/-- the first waiter of a free lock is woken, unless it was cancelled or woken before -/
theorem Sound.wakeUpFirst (h : l.Sound fun j => j = k) (hfree : l.locked k = false) :
    (l.wakeUpFirst k).Sound fun _ => False := by
  unfold Locks.wakeUpFirst
  cases hw : l.waiters k with
  | nil =>
    refine { h with free := fun j t' _ hj hhead => ?_ }
    by_cases heq : j = k
    · simp [heq, hw] at hhead
    · exact h.free j t' heq hj hhead
  | cons x rest =>
    by_cases hpending : l.place x = .waits k .pending
    · simp only [if_pos hpending]
      have hlocked (j : K) (hj : (l.put x (.waits k .result)).locked j = true) :
          ∃ t', (l.put x (.waits k .result)).place t' = .holds j := by
        obtain ⟨t', ht'⟩ := h.locked j hj
        exact ⟨t', by grind -ring -linarith -order -ac⟩
      have hwaiter (j : K) (t' : T) (ht' : t' ∈ l.waiters j) :
          ∃ fut, (l.put x (.waits k .result)).place t' = .waits j fut := by
        obtain ⟨fut, hfut⟩ := h.waiter j t' ht'
        by_cases heq : t' = x
        · exact ⟨.result, by grind -ring -linarith -order -ac⟩
        · exact ⟨fut, by grind -ring -linarith -order -ac⟩
      obtain ⟨_, hwaits, hnodup, hwoken, hholder, hmutex, _, hopen⟩ := h
      refine ⟨hwaiter, ?_, ?_, ?_, ?_, ?_, hlocked, ?_⟩ <;> grind -ring -linarith -order -ac
    · simp only [if_neg hpending]
      refine { h with free := fun j t' _ hj hhead => ?_ }
      by_cases heq : j = k
      · obtain rfl : x = t' := by simpa [heq, hw] using hhead
        exact heq ▸ hpending
      · exact h.free j t' heq hj hhead

/-! ## Progress -/

omit [DecidableEq T] [DecidableEq K] in
/-- **A free lock is on its way.** Its first waiter was woken or cancelled: its task is going to run. -/
theorem Sound.first_woken (h : l.Sound fun _ => False) (hfree : l.locked k = false) (hhead : (l.waiters k).head? = some t) :
    l.place t = .waits k .result ∨ l.place t = .waits k .cancelled := by
  obtain ⟨fut, hfut⟩ := h.waiter k t (List.mem_of_head? hhead)
  have hne := h.free k t not_false hfree hhead
  cases fut with
  | pending => exact absurd hfut hne
  | result => exact Or.inl hfut
  | cancelled => exact Or.inr hfut

end Locks
