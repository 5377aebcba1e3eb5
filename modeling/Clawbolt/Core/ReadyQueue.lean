/-
The ready queue of an event loop, over arbitrary handles. One iteration runs the handles that were there when it began;
what they schedule waits for the next one.

- `callSoon`, `pop` and `iterate`: a handle is scheduled, the first one runs, an iteration begins;
- `only`: the handles of one party, which the handles of others neither move nor reorder;
- `Before`: a handle runs before another one that waits too, whatever is scheduled meanwhile.
-/
import Mathlib.Tactic

structure ReadyQueue (H : Type*) where
  /-- what is left of this iteration -/
  now : List H
  next : List H
deriving DecidableEq, Repr

namespace ReadyQueue

variable {H K : Type*} {q : ReadyQueue H} {a b h : H}

def empty : ReadyQueue H := ⟨[], []⟩

/-- `call_soon` -/
def callSoon (q : ReadyQueue H) (h : H) : ReadyQueue H := { q with next := q.next ++ [h] }

/-- the first handle has left the queue -/
def pop (q : ReadyQueue H) : ReadyQueue H := { q with now := q.now.tail }

/-- the next iteration begins -/
def iterate (q : ReadyQueue H) : ReadyQueue H := ⟨q.next, []⟩

def handles (q : ReadyQueue H) : List H := q.now ++ q.next

/-- a handle is scheduled unless it is already -/
def wake [DecidableEq H] (q : ReadyQueue H) (h : H) : ReadyQueue H := if h ∈ q.handles then q else q.callSoon h

/-- what `f` keeps of the handles -/
def only (f : H → Option K) (q : ReadyQueue H) : ReadyQueue K := ⟨q.now.filterMap f, q.next.filterMap f⟩

/-- every `b` of the queue comes after an `a` -/
def Before (q : ReadyQueue H) (a b : H) : Prop := ∃ l r, q.handles = l ++ r ∧ a ∈ l ∧ b ∉ l

/-! ## Handles -/

@[simp] theorem handles_callSoon : (q.callSoon h).handles = q.handles ++ [h] := by
  simp [handles, callSoon]

theorem handles_pop {l : List H} (hq : q.now = h :: l) : q.handles = h :: q.pop.handles := by
  simp [handles, pop, hq]

@[grind =] theorem now_iterate : q.iterate.now = q.next := rfl

theorem now_pop {l : List H} (hq : q.now = h :: l) : q.pop.now = l := by
  simp [pop, hq]

@[grind =] theorem next_pop : q.pop.next = q.next := rfl

@[grind =] theorem handles_iterate (hq : q.now = []) : q.iterate.handles = q.handles := by
  simp [handles, iterate, hq]

/-- what is there once the first handle has left, and the first handle -/
theorem mem_pop {l : List H} (hq : q.now = h :: l) : a ∈ q.handles ↔ a = h ∨ a ∈ q.pop.handles := by
  rw [handles_pop hq, List.mem_cons]

@[grind =] theorem mem_handles : h ∈ q.handles ↔ h ∈ q.now ∨ h ∈ q.next := List.mem_append

@[grind =] theorem mem_callSoon : a ∈ (q.callSoon h).handles ↔ a ∈ q.handles ∨ a = h := by
  simp

@[grind =] theorem mem_wake [DecidableEq H] : a ∈ (q.wake h).handles ↔ a ∈ q.handles ∨ a = h := by
  unfold wake
  split_ifs with hq
  · exact ⟨Or.inl, fun ha => ha.elim id fun heq => heq ▸ hq⟩
  · exact mem_callSoon

@[grind =] theorem mem_next_callSoon : a ∈ (q.callSoon h).next ↔ a ∈ q.next ∨ a = h := by
  simp [callSoon]

@[grind =] theorem mem_next_wake [DecidableEq H] :
    a ∈ (q.wake h).next ↔ a ∈ q.next ∨ (a = h ∧ h ∉ q.handles) := by
  unfold wake
  split_ifs with hq
  · simp [hq]
  · simp [mem_next_callSoon, hq]

@[simp, grind =] theorem now_callSoon : (q.callSoon h).now = q.now := rfl

@[simp, grind =] theorem now_wake [DecidableEq H] : (q.wake h).now = q.now := by
  unfold wake
  split_ifs <;> rfl

/-! ## Handles that are scheduled once -/

variable [DecidableEq H]

theorem count_pop_le (hc : q.handles.count a ≤ 1) : q.pop.handles.count a ≤ 1 := by
  refine ((List.Sublist.append (List.tail_sublist _) (List.Sublist.refl _)).count_le a).trans hc

/-- the first handle was scheduled once -/
theorem not_mem_pop {l : List H} (hc : q.handles.count h ≤ 1) (hq : q.now = h :: l) : h ∉ q.pop.handles := by
  rw [handles_pop hq, List.count_cons_self] at hc
  exact List.count_eq_zero.1 (by omega)

theorem count_callSoon_le (hc : q.handles.count a ≤ 1) (hne : a = h → a ∉ q.handles) :
    (q.callSoon h).handles.count a ≤ 1 := by
  rw [handles_callSoon, List.count_append]
  by_cases heq : a = h
  · have hzero : q.handles.count a = 0 := List.count_eq_zero.2 (hne heq)
    have hone : [h].count a ≤ 1 := List.count_le_length
    omega
  · have hzero : [h].count a = 0 := List.count_eq_zero.2 fun hm => heq (List.mem_singleton.1 hm)
    omega

theorem count_wake_le (hc : q.handles.count a ≤ 1) : (q.wake h).handles.count a ≤ 1 := by
  unfold wake
  split_ifs with hq
  · exact hc
  · exact count_callSoon_le hc fun heq => heq ▸ hq

omit [DecidableEq H]

/-! ## The handles of one party -/

theorem only_callSoon_some {f : H → Option K} {k : K} (hf : f h = some k) :
    (q.callSoon h).only f = (q.only f).callSoon k := by
  simp [only, callSoon, List.filterMap_append, hf]

theorem only_callSoon_none {f : H → Option K} (hf : f h = none) : (q.callSoon h).only f = q.only f := by
  simp [only, callSoon, List.filterMap_append, hf]

/-- `f` knows the handle -/
theorem mem_only {f : H → Option K} {k : K} (hf : f h = some k) (hinj : ∀ x, f x = some k → x = h) :
    k ∈ (q.only f).handles ↔ h ∈ q.handles := by
  have hmem (l : List H) : k ∈ l.filterMap f ↔ h ∈ l := by
    rw [List.mem_filterMap]
    exact ⟨fun ⟨x, hx, hk⟩ => hinj x hk ▸ hx, fun hh => ⟨h, hh, hf⟩⟩
  simp only [mem_handles, only, hmem]

theorem only_wake_some [DecidableEq H] [DecidableEq K] {f : H → Option K} {k : K} (hf : f h = some k)
    (hinj : ∀ x, f x = some k → x = h) : (q.wake h).only f = (q.only f).wake k := by
  unfold wake
  by_cases hq : h ∈ q.handles
  · rw [if_pos hq, if_pos ((mem_only hf hinj).2 hq)]
  · rw [if_neg hq, if_neg fun hk => hq ((mem_only hf hinj).1 hk), only_callSoon_some hf]

theorem only_wake_none [DecidableEq H] {f : H → Option K} (hf : f h = none) : (q.wake h).only f = q.only f := by
  unfold wake
  split_ifs
  · rfl
  · exact only_callSoon_none hf

theorem only_pop_some {f : H → Option K} {k : K} {l : List H} (hq : q.now = h :: l) (hf : f h = some k) :
    (q.only f).now = k :: (q.pop.only f).now ∧ q.pop.only f = (q.only f).pop := by
  simp [only, pop, hq, hf]

theorem only_pop_none {f : H → Option K} {l : List H} (hq : q.now = h :: l) (hf : f h = none) :
    q.pop.only f = q.only f := by
  simp [only, pop, hq, hf]

/-! ## Order -/

/-- what comes first is no `b` -/
theorem Before.head_ne {l : List H} (hb : q.Before a b) (hq : q.now = h :: l) : h ≠ b := by
  obtain ⟨l₁, r, hl, ha, hnb⟩ := hb
  rw [handles_pop hq] at hl
  cases l₁ with
  | nil => exact absurd ha List.not_mem_nil
  | cons x l₁ =>
    obtain ⟨rfl, _⟩ := List.cons.inj hl
    exact fun heq => hnb (heq ▸ List.mem_cons_self)

theorem Before.callSoon (hb : q.Before a b) (h : H) : (q.callSoon h).Before a b := by
  obtain ⟨l, r, hl, ha, hnb⟩ := hb
  exact ⟨l, r ++ [h], by rw [handles_callSoon, hl, List.append_assoc], ha, hnb⟩

theorem Before.wake [DecidableEq H] (hb : q.Before a b) (h : H) : (q.wake h).Before a b := by
  unfold ReadyQueue.wake
  split_ifs
  · exact hb
  · exact hb.callSoon h

/-- a handle that is scheduled now comes after the ones that wait -/
theorem before_callSoon_self (ha : a ∈ q.handles) (hb : b ∉ q.handles) : (q.callSoon b).Before a b :=
  ⟨q.handles, [b], handles_callSoon, ha, hb⟩

theorem Before.pop {l : List H} (hb : q.Before a b) (hq : q.now = h :: l) (hne : h ≠ a) : q.pop.Before a b := by
  obtain ⟨l₁, r, hl, ha, hnb⟩ := hb
  rw [handles_pop hq] at hl
  cases l₁ with
  | nil => exact absurd ha List.not_mem_nil
  | cons x l₁ =>
    obtain ⟨rfl, hrest⟩ := List.cons.inj hl
    refine ⟨l₁, r, hrest, (List.mem_cons.1 ha).resolve_left (Ne.symm hne), fun hb => hnb (List.mem_cons_of_mem _ hb)⟩

theorem Before.iterate (hb : q.Before a b) (hq : q.now = []) : q.iterate.Before a b := by
  obtain ⟨l, r, hl, ha, hnb⟩ := hb
  exact ⟨l, r, (handles_iterate hq).trans hl, ha, hnb⟩

end ReadyQueue
