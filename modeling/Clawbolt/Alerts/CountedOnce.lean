/-
Every occurrence is counted once.

- `counted_once`: after any run in which no error and tool failure of one fingerprint wait at once, no incident recurs
  during the send of its resolved notice, what a failed send puts back fits, and no send is cut off, every occurrence is
  counted in one place, every count is the number of its occurrences, and neither pending map is over the limit;
- `sized_restore`: when exactly the groups of a failed send fit;
- `recurs_during_resolved_send`: an incident that recurs during the send of its resolved notice is closed, and the
  recurrence is counted nowhere.
-/
import Mathlib.Tactic
import Clawbolt.Alerts.Store

namespace Clawbolt.Alerts

open Text (Str)

variable {s : Store} {t : Taken} {r : Dict ResolvedSummary} {k : Str}

/-! ## What is counted where -/

/-- how often occurrence `n` is counted, with the groups `t` in the hands of the flush -/
def places (s : Store) (t : Taken) (n : ℕ) : ℕ :=
  Dict.total (fun g => g.occ.count n) s.pending + Dict.total (fun g => g.occ.count n) s.pendingTools +
  Dict.total (fun i => i.occ.count n) s.opened + s.overflowOcc.count n + (s.reported.map fun f => f.occ.count n).sum +
  Dict.total (fun g => g.occ.count n) t.errors + Dict.total (fun g => g.occ.count n) t.tools + t.droppedOcc.count n

/-- an opening, a resolved notice, an opening, … -/
def InTurn : List Notice → Prop
  | [] => True
  | [n] => n = .opening
  | n :: m :: l => n = .opening ∧ m = .resolved ∧ InTurn l

instance decInTurn : (l : List Notice) → Decidable (InTurn l)
  | [] => inferInstanceAs (Decidable True)
  | [n] => inferInstanceAs (Decidable (n = .opening))
  | _ :: _ :: l => @instDecidableAnd _ _ _ (@instDecidableAnd _ _ _ (decInTurn l))

/-- the notices emailed about a fingerprint -/
def noticesOf (k : Str) (mailed : List (Str × Notice)) : List Notice := (mailed.filter fun m => m.1 = k).map Prod.snd

/-- every count is the number of the occurrences that it stands for -/
structure Exact (s : Store) (t : Taken) : Prop where
  pending : ∀ g ∈ s.pending, g.2.count = g.2.occ.length
  pendingTools : ∀ g ∈ s.pendingTools, g.2.count = g.2.occ.length
  opened : ∀ i ∈ s.opened, i.2.count = i.2.occ.length
  overflow : s.overflowDropped = s.overflowOcc.length
  reported : ∀ f ∈ s.reported, f.count = f.occ.length
  errors : ∀ g ∈ t.errors, g.2.count = g.2.occ.length
  tools : ∀ g ∈ t.tools, g.2.count = g.2.occ.length
  dropped : t.dropped = t.droppedOcc.length

structure CountedOnce (s : Store) : Prop where
  once : ∀ n, places s s.task.held n = if n < s.recorded then 1 else 0
  exact : Exact s s.task.held
  inTurn : ∀ k, InTurn (noticesOf k s.mailed)
  pending : s.pending.length ≤ maxPendingGroups
  pendingTools : s.pendingTools.length ≤ maxPendingGroups

/-! ## The condition -/

/-- no entry for `k` in either part -/
def Absent {α : Type} (d e : Dict α) (k : Str) : Prop := d.lookup k = none ∧ e.lookup k = none

instance {α : Type} (d e : Dict α) (k : Str) : Decidable (Absent d e k) :=
  decidable_of_iff (Dict.has k d = false ∧ Dict.has k e = false) (by simp only [Dict.has_eq_false, Absent])

/-- the groups of `held` that are not pending too -/
def fresh {α : Type} (pending held : Dict α) : Dict α := held.filter fun g => !Dict.has g.1 pending

def Fits (s : Store) : Op → Prop
  | .record fingerprint _ _ => Absent s.pendingTools s.task.held.tools fingerprint
  | .recordToolFailure toolName errorKind _ _ _ => Absent s.pending s.task.held.errors (toolFingerprint toolName errorKind)
  | .sendEnds .sent _ => ∀ x ∈ s.task.notices, (s.opened.lookup x.1).map OpenIncident.count = some x.2.count
  | .sendEnds .failed _ =>
    s.pending.length + (fresh s.pending s.task.held.errors).length ≤ maxPendingGroups ∧
    s.pendingTools.length + (fresh s.pendingTools s.task.held.tools).length ≤ maxPendingGroups
  | .sendEnds .raised _ => s.task.held.errors = [] ∧ s.task.held.tools = [] ∧ s.task.held.dropped = 0
  | _ => True

/-! ## Notices in turn -/

theorem noticesOf_snoc (k k' : Str) (n : Notice) (mailed : List (Str × Notice)) :
    noticesOf k (mailed ++ [(k', n)]) = noticesOf k mailed ++ if k' = k then [n] else [] := by
  by_cases h : k' = k <;> simp [noticesOf, h]

/-- an even number of notices in turn, and an opening -/
theorem InTurn.opening : (l : List Notice) → InTurn l → l.length % 2 = 0 → InTurn (l ++ [.opening])
  | [], _, _ => rfl
  | [_], _, heven => by simp at heven
  | n :: m :: l, h, heven => by
    obtain ⟨hn, hm, hl⟩ := h
    rw [List.length_cons, List.length_cons] at heven
    exact ⟨hn, hm, InTurn.opening l hl (by omega)⟩

/-- an odd number of notices in turn, and a resolved notice -/
theorem InTurn.resolved : (l : List Notice) → InTurn l → l.length % 2 = 1 → InTurn (l ++ [.resolved])
  | [], _, hodd => by simp at hodd
  | [_], h, _ => ⟨h, rfl, trivial⟩
  | n :: m :: l, h, hodd => by
    obtain ⟨hn, hm, hl⟩ := h
    rw [List.length_cons, List.length_cons] at hodd
    exact ⟨hn, hm, InTurn.resolved l hl (by omega)⟩

/-! ## The invariant -/

/-- the store `s`, the groups `t` that a flush holds, and the resolved notices `r` it is sending -/
structure Inv (s : Store) (t : Taken) (r : Dict ResolvedSummary) : Prop where
  once : ∀ n, places s t n = if n < s.recorded then 1 else 0
  exact : Exact s t
  n1 : (s.pending.map Prod.fst).Nodup
  n2 : (s.pendingTools.map Prod.fst).Nodup
  n3 : (s.opened.map Prod.fst).Nodup
  n4 : (t.errors.map Prod.fst).Nodup
  n5 : (t.tools.map Prod.fst).Nodup
  n6 : (r.map Prod.fst).Nodup
  /-- a fingerprint waits as an error, waits as a tool failure, or is open -/
  a1 : ∀ k, Absent s.pending t.errors k ∨ Absent s.pendingTools t.tools k
  a2 : ∀ k, s.opened.lookup k = none ∨ Absent s.pending t.errors k
  a3 : ∀ k, s.opened.lookup k = none ∨ Absent s.pendingTools t.tools k
  /-- a resolved notice is of an open incident, which only recurs meanwhile -/
  r1 : ∀ x ∈ r, x.2.count = x.2.occ.length ∧ ∃ i, s.opened.lookup x.1 = some i ∧ x.2.occ <+: i.occ
  m1 : ∀ k, InTurn (noticesOf k s.mailed)
  m2 : ∀ k, s.opened.lookup k = none ↔ (noticesOf k s.mailed).length % 2 = 0

theorem inv_init : Inv init ⟨[], [], 0, []⟩ [] := by
  constructor <;> first | constructor | skip
  all_goals simp [init, places, Absent, noticesOf, InTurn]

/-- one more occurrence, counted once -/
theorem once_succ {p p' : ℕ → ℕ} {m : ℕ} (h : ∀ n, p n = if n < m then 1 else 0) (hp : ∀ n, p' n = p n + [m].count n)
    (n : ℕ) : p' n = if n < m + 1 then 1 else 0 := by
  rw [hp, h]
  by_cases hn : n = m
  · subst hn; simp
  · have hother : [m].count n = 0 := List.count_eq_zero.2 (by simpa using hn)
    rw [hother]
    by_cases hlt : n < m
    · rw [if_pos hlt, if_pos (Nat.lt_succ_of_lt hlt)]
    · rw [if_neg hlt, if_neg (by omega)]

/-! ## Recording -/

theorem count_snoc (l : List ℕ) (m n : ℕ) : (l ++ [m]).count n = l.count n + [m].count n := List.count_append ..

/-- a key that is there stays, and no other comes -/
theorem lookup_set_old {α : Type} {d : Dict α} {v : α} (h : d.lookup k = some v) (w : α) (j : Str) :
    (Dict.set k w d).lookup j = none ↔ d.lookup j = none := by
  rw [Dict.lookup_set]
  by_cases hj : j = k
  · rw [if_pos hj, hj, h]; simp
  · rw [if_neg hj]

theorem absent_set_old {α : Type} {d e : Dict α} {v : α} (h : d.lookup k = some v) (w : α) (j : Str) :
    Absent (Dict.set k w d) e j ↔ Absent d e j := and_congr_left' (lookup_set_old h w j)

/-- an open incident recurs -/
theorem Inv.touch {i : OpenIncident} (h : Inv s t r) (hi : s.opened.lookup k = some i) (userId : Option Str) (now : ℤ) :
    Inv { s with recorded := s.recorded + 1, opened := Dict.set k (i.touch userId now s.recorded) s.opened } t r := by
  have hcount := h.exact.opened _ (Dict.mem_of_lookup hi)
  refine { h with once := ?_, exact := ?_, n3 := Dict.nodup_set h.n3 _ _, a2 := ?_, a3 := ?_, r1 := ?_, m2 := ?_ }
  · refine once_succ h.once fun n => ?_
    have hset := Dict.total_set_old (fun i => i.occ.count n) hi (i.touch userId now s.recorded)
    have hocc : (i.touch userId now s.recorded).occ = i.occ ++ [s.recorded] := rfl
    simp only [hocc, count_snoc] at hset
    simp only [places]
    omega
  · refine { h.exact with opened := Dict.forall_set (P := fun i : OpenIncident => i.count = i.occ.length) h.exact.opened ?_ }
    simp only [OpenIncident.touch, List.length_append, List.length_singleton]
    exact congrArg (· + 1) hcount
  · exact fun j => (h.a2 j).imp_left (lookup_set_old hi _ j).2
  · exact fun j => (h.a3 j).imp_left (lookup_set_old hi _ j).2
  · intro x hx
    obtain ⟨hx, i', hi', hpre⟩ := h.r1 x hx
    refine ⟨hx, ?_⟩
    rw [Dict.lookup_set]
    by_cases hk : x.1 = k
    · rw [hk, hi] at hi'
      cases hi'
      rw [if_pos hk]
      exact ⟨_, rfl, hpre.trans (List.prefix_append _ _)⟩
    · rw [if_neg hk]
      exact ⟨i', hi', hpre⟩
  · exact fun j => (lookup_set_old hi _ j).trans (h.m2 j)

/-- the occurrence is dropped, and the overflow count says so -/
theorem Inv.overflow (h : Inv s t r) :
    Inv { s with
      recorded := s.recorded + 1
      overflowDropped := s.overflowDropped + 1
      overflowOcc := s.overflowOcc ++ [s.recorded] } t r := by
  refine { h with once := ?_, exact := { h.exact with overflow := ?_ } }
  · refine once_succ h.once fun n => ?_
    simp only [places, count_snoc]
    omega
  · rw [List.length_append]
    exact congrArg (· + 1) h.exact.overflow

theorem Inv.mergeError {g : PendingGroup} (h : Inv s t r) (hg : s.pending.lookup k = some g) (x : Detail) (now : ℤ) :
    Inv { s with recorded := s.recorded + 1, pending := Dict.set k (g.merge x now s.recorded) s.pending } t r := by
  have hcount := h.exact.pending _ (Dict.mem_of_lookup hg)
  refine { h with once := ?_, exact := ?_, n1 := Dict.nodup_set h.n1 _ _, a1 := ?_, a2 := ?_ }
  · refine once_succ h.once fun n => ?_
    have hset := Dict.total_set_old (fun g => g.occ.count n) hg (g.merge x now s.recorded)
    have hocc : (g.merge x now s.recorded).occ = g.occ ++ [s.recorded] := rfl
    simp only [hocc, count_snoc] at hset
    simp only [places]
    omega
  · refine { h.exact with pending := Dict.forall_set (P := fun g : PendingGroup => g.count = g.occ.length) h.exact.pending ?_ }
    simp only [PendingGroup.merge, List.length_append, List.length_singleton]
    exact congrArg (· + 1) hcount
  · exact fun j => (h.a1 j).imp_left (absent_set_old hg _ j).2
  · exact fun j => (h.a2 j).imp_right (absent_set_old hg _ j).2

theorem Inv.mergeTool {g : PendingToolFailure} (h : Inv s t r) (hg : s.pendingTools.lookup k = some g) (userId : Str)
    (sample : Option Str) (now : ℤ) :
    Inv { s with
      recorded := s.recorded + 1
      pendingTools := Dict.set k (g.merge userId sample now s.recorded) s.pendingTools } t r := by
  have hcount := h.exact.pendingTools _ (Dict.mem_of_lookup hg)
  refine { h with once := ?_, exact := ?_, n2 := Dict.nodup_set h.n2 _ _, a1 := ?_, a3 := ?_ }
  · refine once_succ h.once fun n => ?_
    have hset := Dict.total_set_old (fun g => g.occ.count n) hg (g.merge userId sample now s.recorded)
    have hocc : (g.merge userId sample now s.recorded).occ = g.occ ++ [s.recorded] := rfl
    simp only [hocc, count_snoc] at hset
    simp only [places]
    omega
  · refine { h.exact with pendingTools := Dict.forall_set (P := fun g : PendingToolFailure => g.count = g.occ.length) h.exact.pendingTools ?_ }
    simp only [PendingToolFailure.merge, List.length_append, List.length_singleton]
    exact congrArg (· + 1) hcount
  · exact fun j => (h.a1 j).imp_right (absent_set_old hg _ j).2
  · exact fun j => (h.a3 j).imp_right (absent_set_old hg _ j).2

/-- a key that comes is the only one -/
theorem absent_set_of_ne {α : Type} {d e : Dict α} {v : α} {j : Str} (h : Absent d e j) (hne : j ≠ k) :
    Absent (Dict.set k v d) e j := by
  refine ⟨?_, h.2⟩
  rw [Dict.lookup_set, if_neg hne]
  exact h.1

theorem Inv.newError (h : Inv s t r) (ho : s.opened.lookup k = none) (hk : s.pending.lookup k = none)
    (htool : Absent s.pendingTools t.tools k) (x : Detail) (now : ℤ) :
    Inv { s with recorded := s.recorded + 1, pending := Dict.set k (.new x now s.recorded) s.pending } t r := by
  refine { h with once := ?_, exact := ?_, n1 := Dict.nodup_set h.n1 _ _, a1 := ?_, a2 := ?_ }
  · refine once_succ h.once fun n => ?_
    have hset := Dict.total_set_new (fun g => g.occ.count n) hk (.new x now s.recorded)
    simp only [PendingGroup.new] at hset
    simp only [places, PendingGroup.new]
    omega
  · exact { h.exact with pending := Dict.forall_set (P := fun g : PendingGroup => g.count = g.occ.length) h.exact.pending rfl }
  · intro j
    by_cases hj : j = k
    · exact Or.inr (hj ▸ htool)
    · exact (h.a1 j).imp_left (absent_set_of_ne · hj)
  · intro j
    by_cases hj : j = k
    · exact Or.inl (hj ▸ ho)
    · exact (h.a2 j).imp_right (absent_set_of_ne · hj)

theorem Inv.newTool (h : Inv s t r) (ho : s.opened.lookup k = none) (hk : s.pendingTools.lookup k = none)
    (herror : Absent s.pending t.errors k) (toolName errorKind userId : Str) (sample : Option Str) (now : ℤ) :
    Inv { s with
      recorded := s.recorded + 1
      pendingTools := Dict.set k (.new toolName errorKind userId sample now s.recorded) s.pendingTools } t r := by
  refine { h with once := ?_, exact := ?_, n2 := Dict.nodup_set h.n2 _ _, a1 := ?_, a3 := ?_ }
  · refine once_succ h.once fun n => ?_
    have hset :=
      Dict.total_set_new (fun g => g.occ.count n) hk (.new toolName errorKind userId sample now s.recorded)
    simp only [PendingToolFailure.new] at hset
    simp only [places, PendingToolFailure.new]
    omega
  · exact { h.exact with pendingTools := Dict.forall_set (P := fun g : PendingToolFailure => g.count = g.occ.length) h.exact.pendingTools rfl }
  · intro j
    by_cases hj : j = k
    · exact Or.inl (hj ▸ herror)
    · exact (h.a1 j).imp_right (absent_set_of_ne · hj)
  · intro j
    by_cases hj : j = k
    · exact Or.inl (hj ▸ ho)
    · exact (h.a3 j).imp_right (absent_set_of_ne · hj)

theorem inv_record (h : Inv s t r) (x : Detail) (now : ℤ) (hk : Absent s.pendingTools t.tools k) :
    Inv (s.record k x now) t r := by
  cases ho : s.opened.lookup k with
  | some i =>
    simp only [Store.record, ho]
    exact h.touch ho none now
  | none =>
    cases hp : s.pending.lookup k with
    | some g =>
      simp only [Store.record, ho, hp]
      exact h.mergeError hp x now
    | none =>
      simp only [Store.record, ho, hp]
      split_ifs
      · exact h.overflow
      · exact h.newError ho hp hk x now

theorem inv_recordToolFailure (h : Inv s t r) (toolName errorKind userId : Str) (sample : Option Str) (now : ℤ)
    (hk : Absent s.pending t.errors (toolFingerprint toolName errorKind)) :
    Inv (s.recordToolFailure toolName errorKind userId sample now) t r := by
  cases ho : s.opened.lookup (toolFingerprint toolName errorKind) with
  | some i =>
    simp only [Store.recordToolFailure, ho]
    exact h.touch ho (some userId) now
  | none =>
    cases hp : s.pendingTools.lookup (toolFingerprint toolName errorKind) with
    | some g =>
      simp only [Store.recordToolFailure, ho, hp]
      exact h.mergeTool hp userId sample now
    | none =>
      simp only [Store.recordToolFailure, ho, hp]
      split_ifs
      · exact h.overflow
      · exact h.newTool ho hp hk toolName errorKind userId sample now

/-! ## Taking -/

theorem inv_takeNew (h : Inv s ⟨[], [], 0, []⟩ []) : Inv s.takeNew.2 s.takeNew.1 [] := by
  have hmove {α : Type} (d : Dict α) (j : Str) :
      Absent (d.drop maxGroupsPerEmail) (d.take maxGroupsPerEmail) j ↔ Absent d [] j := by
    rw [Absent, and_comm, Dict.lookup_take_drop, Absent, List.lookup_nil, eq_self, and_true]
  have hkeys {α : Type} {d d' : Dict α} (hd : (d.map Prod.fst).Nodup) (hs : d'.Sublist d) : (d'.map Prod.fst).Nodup :=
    hd.sublist (hs.map _)
  refine ⟨fun n => ?_, ?_, hkeys h.n1 (List.drop_sublist ..), hkeys h.n2 (List.drop_sublist ..), h.n3,
    hkeys h.n1 (List.take_sublist ..), hkeys h.n2 (List.take_sublist ..), List.nodup_nil, ?_, ?_, ?_, nofun, h.m1, h.m2⟩
  · refine Eq.trans ?_ (h.once n)
    have herrors := Dict.total_take_drop (fun g => g.occ.count n) maxGroupsPerEmail s.pending
    have htools := Dict.total_take_drop (fun g => g.occ.count n) maxGroupsPerEmail s.pendingTools
    simp only [places, Store.takeNew, Dict.total_nil, List.count_nil]
    omega
  · exact
      { pending := fun g hg => h.exact.pending g (List.mem_of_mem_drop hg)
        pendingTools := fun g hg => h.exact.pendingTools g (List.mem_of_mem_drop hg)
        opened := h.exact.opened
        overflow := rfl
        reported := h.exact.reported
        errors := fun g hg => h.exact.pending g (List.mem_of_mem_take hg)
        tools := fun g hg => h.exact.pendingTools g (List.mem_of_mem_take hg)
        dropped := h.exact.overflow }
  · exact fun j => (h.a1 j).imp (hmove _ j).2 (hmove _ j).2
  · exact fun j => (h.a2 j).imp_right (hmove _ j).2
  · exact fun j => (h.a3 j).imp_right (hmove _ j).2

theorem inv_takeResolved (h : Inv s t []) (cfg : Settings) (now : ℤ) : Inv s t (s.takeResolved cfg now) := by
  refine { h with n6 := ?_, r1 := ?_ }
  · have hsub := (List.take_sublist maxGroupsPerEmail _).trans
      (List.filter_sublist (l := s.opened)
        (p := fun i => ¬ now - i.2.lastSeen < 60000000 * max 0 cfg.alertDedupeMinutes))
    simpa [Store.takeResolved, Function.comp_def] using h.n3.sublist (hsub.map Prod.fst)
  · intro x hx
    obtain ⟨i, hi, rfl⟩ := List.mem_map.1 hx
    have hi := (List.mem_filter.1 (List.mem_of_mem_take hi)).1
    exact ⟨h.exact.opened i hi, i.2, Dict.lookup_of_mem h.n3 hi, List.prefix_rfl⟩

/-! ## Putting back -/

theorem Inv.restoreDropped {es : Dict PendingGroup} {ts : Dict PendingToolFailure} {dropped : ℕ} {droppedOcc : List ℕ}
    (h : Inv s ⟨es, ts, dropped, droppedOcc⟩ r) :
    Inv { s with overflowDropped := s.overflowDropped + dropped, overflowOcc := s.overflowOcc ++ droppedOcc }
      ⟨es, ts, 0, []⟩ r := by
  refine { h with once := fun n => ?_, exact := { h.exact with overflow := ?_, dropped := rfl } }
  · refine Eq.trans ?_ (h.once n)
    simp only [places, List.count_append, List.count_nil]
    omega
  · have hdropped : dropped = droppedOcc.length := h.exact.dropped
    rw [List.length_append, ← hdropped]
    exact congrArg (· + dropped) h.exact.overflow

/-- a group that goes from the hands of the flush to the pending ones -/
theorem absent_move {α : Type} {d e : Dict α} {g v : α} (j : Str) :
    Absent (Dict.set k v d) e j ↔ Absent d ((k, g) :: e) j := by
  rw [Absent, Absent, Dict.lookup_set]
  by_cases hj : j = k
  · subst hj; simp
  · rw [if_neg hj, Dict.lookup_cons_ne hj]

theorem Inv.restoreError {g : Str × PendingGroup} {es : Dict PendingGroup} {ts : Dict PendingToolFailure} {dropped : ℕ}
    {droppedOcc : List ℕ} (h : Inv s ⟨g :: es, ts, dropped, droppedOcc⟩ r) :
    Inv (s.restoreError g) ⟨es, ts, dropped, droppedOcc⟩ r := by
  obtain ⟨k, g⟩ := g
  have hg : g.count = g.occ.length := h.exact.errors (k, g) List.mem_cons_self
  have herrors : ∀ x ∈ es, x.2.count = x.2.occ.length := fun x hx => h.exact.errors x (List.mem_cons_of_mem _ hx)
  have hn4 : (es.map Prod.fst).Nodup := (List.nodup_cons.1 h.n4).2
  cases hp : s.pending.lookup k with
  | none =>
    simp only [Store.restoreError, hp]
    refine { h with once := fun n => ?_, exact := ?_, n1 := Dict.nodup_set h.n1 _ _, n4 := hn4, a1 := ?_, a2 := ?_ }
    · refine Eq.trans ?_ (h.once n)
      have hset := Dict.total_set_new (fun g => g.occ.count n) hp g
      simp only [places, Dict.total_cons]
      omega
    · exact { h.exact with
        pending := Dict.forall_set (P := fun g : PendingGroup => g.count = g.occ.length) h.exact.pending hg
        errors := herrors }
    · exact fun j => (h.a1 j).imp_left (absent_move j).2
    · exact fun j => (h.a2 j).imp_right (absent_move j).2
  | some current =>
    have hcurrent := h.exact.pending _ (Dict.mem_of_lookup hp)
    simp only [Store.restoreError, hp]
    refine { h with once := fun n => ?_, exact := ?_, n1 := Dict.nodup_set h.n1 _ _, n4 := hn4, a1 := ?_, a2 := ?_ }
    · refine Eq.trans ?_ (h.once n)
      have hset := Dict.total_set_old (fun g => g.occ.count n) hp
        { current with
          count := current.count + g.count
          firstSeen := min current.firstSeen g.firstSeen
          occ := current.occ ++ g.occ }
      simp only [List.count_append] at hset
      simp only [places, Dict.total_cons]
      omega
    · refine { h.exact with
        pending := Dict.forall_set (P := fun g : PendingGroup => g.count = g.occ.length) h.exact.pending ?_
        errors := herrors }
      rw [List.length_append, ← hg]
      exact congrArg (· + g.count) hcurrent
    · exact fun j => (h.a1 j).imp_left (absent_move j).2
    · exact fun j => (h.a2 j).imp_right (absent_move j).2

theorem Inv.restoreTool {g : Str × PendingToolFailure} {es : Dict PendingGroup} {ts : Dict PendingToolFailure}
    {dropped : ℕ} {droppedOcc : List ℕ} (h : Inv s ⟨es, g :: ts, dropped, droppedOcc⟩ r) :
    Inv (s.restoreTool g) ⟨es, ts, dropped, droppedOcc⟩ r := by
  obtain ⟨k, g⟩ := g
  have hg : g.count = g.occ.length := h.exact.tools (k, g) List.mem_cons_self
  have htools : ∀ x ∈ ts, x.2.count = x.2.occ.length := fun x hx => h.exact.tools x (List.mem_cons_of_mem _ hx)
  have hn5 : (ts.map Prod.fst).Nodup := (List.nodup_cons.1 h.n5).2
  cases hp : s.pendingTools.lookup k with
  | none =>
    simp only [Store.restoreTool, hp]
    refine { h with once := fun n => ?_, exact := ?_, n2 := Dict.nodup_set h.n2 _ _, n5 := hn5, a1 := ?_, a3 := ?_ }
    · refine Eq.trans ?_ (h.once n)
      have hset := Dict.total_set_new (fun g => g.occ.count n) hp g
      simp only [places, Dict.total_cons]
      omega
    · exact { h.exact with
        pendingTools := Dict.forall_set (P := fun g : PendingToolFailure => g.count = g.occ.length) h.exact.pendingTools hg
        tools := htools }
    · exact fun j => (h.a1 j).imp_right (absent_move j).2
    · exact fun j => (h.a3 j).imp_right (absent_move j).2
  | some current =>
    have hcurrent := h.exact.pendingTools _ (Dict.mem_of_lookup hp)
    simp only [Store.restoreTool, hp]
    refine { h with once := fun n => ?_, exact := ?_, n2 := Dict.nodup_set h.n2 _ _, n5 := hn5, a1 := ?_, a3 := ?_ }
    · refine Eq.trans ?_ (h.once n)
      have hset := Dict.total_set_old (fun g => g.occ.count n) hp
        { current with
          count := current.count + g.count
          firstSeen := min current.firstSeen g.firstSeen
          userIds := current.userIds ∪ g.userIds
          consentedUserIds := current.consentedUserIds ∪ g.consentedUserIds
          samples := g.samples.foldl keepSample current.samples
          occ := current.occ ++ g.occ }
      simp only [List.count_append] at hset
      simp only [places, Dict.total_cons]
      omega
    · refine { h.exact with
        pendingTools := Dict.forall_set (P := fun g : PendingToolFailure => g.count = g.occ.length) h.exact.pendingTools ?_
        tools := htools }
      rw [List.length_append, ← hg]
      exact congrArg (· + g.count) hcurrent
    · exact fun j => (h.a1 j).imp_right (absent_move j).2
    · exact fun j => (h.a3 j).imp_right (absent_move j).2

theorem inv_restore (h : Inv s t r) : Inv (s.restore t) ⟨[], [], 0, []⟩ r := by
  obtain ⟨es, ts, dropped, droppedOcc⟩ := t
  have htools : ∀ (ts : Dict PendingToolFailure) (s : Store), Inv s ⟨[], ts, 0, []⟩ r →
      Inv (ts.foldl Store.restoreTool s) ⟨[], [], 0, []⟩ r := by
    intro ts
    induction ts with
    | nil => exact fun s h => h
    | cons g ts ih => exact fun s h => ih _ h.restoreTool
  have herrors : ∀ (es : Dict PendingGroup) (s : Store), Inv s ⟨es, ts, 0, []⟩ r →
      Inv (es.foldl Store.restoreError s) ⟨[], ts, 0, []⟩ r := by
    intro es
    induction es with
    | nil => exact fun s h => h
    | cons g es ih => exact fun s h => ih _ h.restoreError
  exact htools ts _ (herrors es _ h.restoreDropped)

/-! ## After the send -/

/-- the resolved notice said all of the incident's occurrences -/
theorem Inv.close {x : Str × ResolvedSummary} {r : Dict ResolvedSummary} (h : Inv s t (x :: r))
    (hquiet : (s.opened.lookup x.1).map OpenIncident.count = some x.2.count) : Inv (s.close x) t r := by
  obtain ⟨k, x⟩ := x
  obtain ⟨hx, i, hi, hpre⟩ := h.r1 (k, x) List.mem_cons_self
  have hi : s.opened.lookup k = some i := hi
  have hcount : i.count = x.count := by simpa [hi] using hquiet
  have hall : x.occ = i.occ := by
    refine hpre.eq_of_length ?_
    rw [← h.exact.opened _ (Dict.mem_of_lookup hi), ← hx, hcount]
  have hn6 := List.nodup_cons.1 h.n6
  refine { h with
    once := fun n => ?_, exact := { h.exact with opened := ?_, reported := ?_ }, n3 := Dict.nodup_erase h.n3 _
    n6 := hn6.2, a2 := ?_, a3 := ?_, r1 := ?_, m1 := ?_, m2 := ?_ }
  · refine Eq.trans ?_ (h.once n)
    have herase := Dict.total_erase (fun i => i.occ.count n) h.n3 hi
    simp only [places, Store.close, List.map_append, List.sum_append, List.map_cons, List.map_nil, List.sum_singleton, hall]
    omega
  · exact Dict.forall_erase h.exact.opened k
  · intro f hf
    rcases List.mem_append.1 hf with hf | hf
    · exact h.exact.reported f hf
    · rw [List.mem_singleton.1 hf]
      exact hx
  · intro j
    rw [Store.close, Dict.lookup_erase]
    split_ifs
    · exact Or.inl rfl
    · exact h.a2 j
  · intro j
    rw [Store.close, Dict.lookup_erase]
    split_ifs
    · exact Or.inl rfl
    · exact h.a3 j
  · intro y hy
    obtain ⟨hy', i', hi', hpre'⟩ := h.r1 y (List.mem_cons_of_mem _ hy)
    refine ⟨hy', i', ?_, hpre'⟩
    have hne : y.1 ≠ k := fun he => hn6.1 (List.mem_map.2 ⟨y, hy, he⟩)
    rw [Store.close, Dict.lookup_erase, if_neg hne]
    exact hi'
  · intro j
    rw [Store.close, noticesOf_snoc]
    by_cases hj : k = j
    · rw [if_pos hj]
      subst hj
      have hopen := mt (h.m2 k).2 (by rw [hi]; exact nofun)
      exact InTurn.resolved _ (h.m1 k) (by omega)
    · rw [if_neg hj, List.append_nil]
      exact h.m1 j
  · intro j
    rw [Store.close, noticesOf_snoc, Dict.lookup_erase, List.length_append]
    by_cases hj : k = j
    · subst hj
      have hopen := mt (h.m2 k).2 (by rw [hi]; exact nofun)
      simp only [if_true, List.length_singleton, true_iff]
      omega
    · rw [if_neg hj, if_neg (Ne.symm hj), List.length_nil, Nat.add_zero]
      exact h.m2 j

/-- a group that was in the hands of the flush is in neither part -/
theorem absent_open {α : Type} {d e : Dict α} {g : α} (he : (((k, g) :: e).map Prod.fst).Nodup) :
    Absent (Dict.erase k d) e k := by
  refine ⟨by rw [Dict.lookup_erase, if_pos rfl], ?_⟩
  rw [List.lookup_eq_none_iff]
  intro x hx
  exact bne_iff_ne.2 fun hk => (List.nodup_cons.1 he).1 (List.mem_map.2 ⟨x, hx, hk.symm⟩)

theorem absent_open_of {α : Type} {d e : Dict α} {g : α} {j : Str} (he : (((k, g) :: e).map Prod.fst).Nodup)
    (h : Absent d ((k, g) :: e) j) : Absent (Dict.erase k d) e j := by
  by_cases hj : j = k
  · rw [hj]; exact absent_open he
  · rw [Absent, Dict.lookup_cons_ne hj] at h
    rw [Absent, Dict.lookup_erase, if_neg hj]
    exact h

/-- an opening notice about a fingerprint that is not open -/
theorem opening_inTurn (h : Inv s t r) (ho : s.opened.lookup k = none) (i : OpenIncident) (j : Str) :
    InTurn (noticesOf j (s.mailed ++ [(k, .opening)])) ∧
    ((Dict.set k i s.opened).lookup j = none ↔ (noticesOf j (s.mailed ++ [(k, .opening)])).length % 2 = 0) := by
  have heven := (h.m2 k).1 ho
  rw [noticesOf_snoc, Dict.lookup_set, List.length_append]
  by_cases hj : k = j
  · subst hj
    rw [if_pos rfl, if_pos rfl]
    refine ⟨InTurn.opening _ (h.m1 k) heven, ?_⟩
    simp only [List.length_singleton, reduceCtorEq, false_iff]
    omega
  · rw [if_neg hj, if_neg (Ne.symm hj), List.append_nil, List.length_nil, Nat.add_zero]
    exact ⟨h.m1 j, h.m2 j⟩

/-- the key that opens, among the fingerprints that the other kind of groups wait under -/
theorem absent_or_set {P : Str → Prop} {i : OpenIncident} (hk : P k) (h : ∀ j, s.opened.lookup j = none ∨ P j) (j : Str) :
    (Dict.set k i s.opened).lookup j = none ∨ P j := by
  rw [Dict.lookup_set]
  by_cases hj : j = k
  · exact Or.inr (hj ▸ hk)
  · rw [if_neg hj]
    exact h j

/-- the incident of an error holds the group and what arrived during the send -/
theorem openError_eq {g : PendingGroup} (h : Inv s t r) (hg : g.count = g.occ.length) :
    ∃ i : OpenIncident, i.count = i.occ.length ∧
      (∀ n, Dict.total (fun g => g.occ.count n) (Dict.erase k s.pending) + i.occ.count n =
        Dict.total (fun g => g.occ.count n) s.pending + g.occ.count n) ∧
      s.openError (k, g) = { s with
        pending := Dict.erase k s.pending
        opened := Dict.set k i s.opened
        mailed := s.mailed ++ [(k, .opening)] } := by
  cases hp : s.pending.lookup k with
  | none =>
    refine ⟨⟨g.title, g.firstSeen, g.lastSeen, g.count, ∅, g.occ⟩, hg, fun n => ?_, by simp only [Store.openError, hp]⟩
    rw [Dict.erase_self hp]
  | some late =>
    have hlate := h.exact.pending _ (Dict.mem_of_lookup hp)
    refine ⟨_, ?_, fun n => ?_, by simp only [Store.openError, hp]; rfl⟩
    · rw [List.length_append, ← hg, ← hlate]
    · have herase := Dict.total_erase (fun g => g.occ.count n) h.n1 hp
      rw [List.count_append]
      omega

theorem openTool_eq {g : PendingToolFailure} (h : Inv s t r) (hg : g.count = g.occ.length) :
    ∃ i : OpenIncident, i.count = i.occ.length ∧
      (∀ n, Dict.total (fun g => g.occ.count n) (Dict.erase k s.pendingTools) + i.occ.count n =
        Dict.total (fun g => g.occ.count n) s.pendingTools + g.occ.count n) ∧
      s.openTool (k, g) = { s with
        pendingTools := Dict.erase k s.pendingTools
        opened := Dict.set k i s.opened
        mailed := s.mailed ++ [(k, .opening)] } := by
  cases hp : s.pendingTools.lookup k with
  | none =>
    refine ⟨⟨g.toolName ++ ' ' :: g.errorKind, g.firstSeen, g.lastSeen, g.count, g.userIds, g.occ⟩, hg, fun n => ?_,
      by simp only [Store.openTool, hp]⟩
    rw [Dict.erase_self hp]
  | some late =>
    have hlate := h.exact.pendingTools _ (Dict.mem_of_lookup hp)
    refine ⟨_, ?_, fun n => ?_, by simp only [Store.openTool, hp]; rfl⟩
    · rw [List.length_append, ← hg, ← hlate]
    · have herase := Dict.total_erase (fun g => g.occ.count n) h.n2 hp
      rw [List.count_append]
      omega

theorem Inv.openError {g : Str × PendingGroup} {es : Dict PendingGroup} {ts : Dict PendingToolFailure} {dropped : ℕ}
    {droppedOcc : List ℕ} (h : Inv s ⟨g :: es, ts, dropped, droppedOcc⟩ []) :
    Inv (s.openError g) ⟨es, ts, dropped, droppedOcc⟩ [] := by
  obtain ⟨k, g⟩ := g
  have hheld : ¬ Absent s.pending ((k, g) :: es) k := fun hno => by simp [Absent] at hno
  have ho : s.opened.lookup k = none := (h.a2 k).resolve_right hheld
  have htool : Absent s.pendingTools ts k := (h.a1 k).resolve_left hheld
  have hg : g.count = g.occ.length := h.exact.errors (k, g) List.mem_cons_self
  obtain ⟨i, hi, htotal, heq⟩ := openError_eq (k := k) h hg
  rw [heq]
  refine { h with
    once := fun n => ?_, exact := { h.exact with pending := ?_, opened := ?_, errors := ?_ }
    n1 := Dict.nodup_erase h.n1 _, n3 := Dict.nodup_set h.n3 _ _, n4 := (List.nodup_cons.1 h.n4).2
    a1 := ?_, a2 := ?_, a3 := absent_or_set htool h.a3, r1 := nofun
    m1 := fun j => (opening_inTurn h ho i j).1, m2 := fun j => (opening_inTurn h ho i j).2 }
  · refine Eq.trans ?_ (h.once n)
    have hset := Dict.total_set_new (fun i => i.occ.count n) ho i
    have htotal := htotal n
    simp only [places, Dict.total_cons]
    omega
  · exact Dict.forall_erase h.exact.pending k
  · exact Dict.forall_set (P := fun i : OpenIncident => i.count = i.occ.length) h.exact.opened hi
  · exact fun x hx => h.exact.errors x (List.mem_cons_of_mem _ hx)
  · exact fun j => (h.a1 j).imp_left (absent_open_of h.n4)
  · exact absent_or_set (absent_open h.n4) fun j => (h.a2 j).imp_right (absent_open_of h.n4)

theorem Inv.openTool {g : Str × PendingToolFailure} {es : Dict PendingGroup} {ts : Dict PendingToolFailure} {dropped : ℕ}
    {droppedOcc : List ℕ} (h : Inv s ⟨es, g :: ts, dropped, droppedOcc⟩ []) :
    Inv (s.openTool g) ⟨es, ts, dropped, droppedOcc⟩ [] := by
  obtain ⟨k, g⟩ := g
  have hheld : ¬ Absent s.pendingTools ((k, g) :: ts) k := fun hno => by simp [Absent] at hno
  have ho : s.opened.lookup k = none := (h.a3 k).resolve_right hheld
  have herror : Absent s.pending es k := (h.a1 k).resolve_right hheld
  have hg : g.count = g.occ.length := h.exact.tools (k, g) List.mem_cons_self
  obtain ⟨i, hi, htotal, heq⟩ := openTool_eq (k := k) h hg
  rw [heq]
  refine { h with
    once := fun n => ?_, exact := { h.exact with pendingTools := ?_, opened := ?_, tools := ?_ }
    n2 := Dict.nodup_erase h.n2 _, n3 := Dict.nodup_set h.n3 _ _, n5 := (List.nodup_cons.1 h.n5).2
    a1 := ?_, a2 := absent_or_set herror h.a2, a3 := ?_, r1 := nofun
    m1 := fun j => (opening_inTurn h ho i j).1, m2 := fun j => (opening_inTurn h ho i j).2 }
  · refine Eq.trans ?_ (h.once n)
    have hset := Dict.total_set_new (fun i => i.occ.count n) ho i
    have htotal := htotal n
    simp only [places, Dict.total_cons]
    omega
  · exact Dict.forall_erase h.exact.pendingTools k
  · exact Dict.forall_set (P := fun i : OpenIncident => i.count = i.occ.length) h.exact.opened hi
  · exact fun x hx => h.exact.tools x (List.mem_cons_of_mem _ hx)
  · exact fun j => (h.a1 j).imp_right (absent_open_of h.n5)
  · exact absent_or_set (absent_open h.n5) fun j => (h.a3 j).imp_right (absent_open_of h.n5)

/-- the overflow figure of the email is reported -/
theorem Inv.reportDropped {es : Dict PendingGroup} {ts : Dict PendingToolFailure} {dropped : ℕ} {droppedOcc : List ℕ}
    (h : Inv s ⟨es, ts, dropped, droppedOcc⟩ r) (times : List ℚ) :
    Inv { s with emailTimes := times, reported := s.reported ++ [⟨dropped, droppedOcc⟩] } ⟨es, ts, 0, []⟩ r := by
  refine { h with once := fun n => ?_, exact := { h.exact with reported := ?_, dropped := rfl } }
  · refine Eq.trans ?_ (h.once n)
    simp only [places, List.map_append, List.sum_append, List.map_cons, List.map_nil, List.sum_singleton, List.count_nil]
    omega
  · intro f hf
    rcases List.mem_append.1 hf with hf | hf
    · exact h.exact.reported f hf
    · rw [List.mem_singleton.1 hf]
      exact h.exact.dropped

theorem inv_markSent (h : Inv s t r) (hquiet : ∀ x ∈ r, (s.opened.lookup x.1).map OpenIncident.count = some x.2.count)
    (monotonic : ℚ) : Inv (s.markSent t r monotonic) ⟨[], [], 0, []⟩ [] := by
  obtain ⟨es, ts, dropped, droppedOcc⟩ := t
  have htools : ∀ (ts : Dict PendingToolFailure) (s : Store), Inv s ⟨[], ts, 0, []⟩ [] →
      Inv (ts.foldl Store.openTool s) ⟨[], [], 0, []⟩ [] := by
    intro ts
    induction ts with
    | nil => exact fun s h => h
    | cons g ts ih => exact fun s h => ih _ h.openTool
  have herrors : ∀ (es : Dict PendingGroup) (s : Store), Inv s ⟨es, ts, 0, []⟩ [] →
      Inv (es.foldl Store.openError s) ⟨[], ts, 0, []⟩ [] := by
    intro es
    induction es with
    | nil => exact fun s h => h
    | cons g es ih => exact fun s h => ih _ h.openError
  have hclosed : ∀ (r : Dict ResolvedSummary) (s : Store), Inv s ⟨es, ts, 0, []⟩ r →
      (∀ x ∈ r, (s.opened.lookup x.1).map OpenIncident.count = some x.2.count) →
      Inv (r.foldl Store.close s) ⟨es, ts, 0, []⟩ [] := by
    intro r
    induction r with
    | nil => exact fun s h _ => h
    | cons x r ih =>
      intro s h hquiet
      refine ih _ (h.close (hquiet x List.mem_cons_self)) fun y hy => ?_
      -- the others are still open, with the same count
      have hne : y.1 ≠ x.1 := fun he => (List.nodup_cons.1 h.n6).1 (List.mem_map.2 ⟨y, hy, he⟩)
      rw [Store.close, Dict.lookup_erase, if_neg hne]
      exact hquiet y (List.mem_cons_of_mem _ hy)
  exact htools ts _ (herrors es _ (hclosed r _ (h.reportDropped _) hquiet))

/-! ## Sizes -/

/-- neither pending map is over the limit -/
def Sized (s : Store) : Prop := s.pending.length ≤ maxPendingGroups ∧ s.pendingTools.length ≤ maxPendingGroups

theorem length_set_old {α : Type} {d : Dict α} {v : α} (h : d.lookup k = some v) (w : α) : (Dict.set k w d).length = d.length := by
  rw [Dict.length_set, h]
  rfl

theorem length_set_le {α : Type} (d : Dict α) (v : α) : (Dict.set k v d).length ≤ d.length + 1 := by
  rw [Dict.length_set]
  split_ifs <;> omega

theorem sized_record (h : Sized s) (x : Detail) (now : ℤ) : Sized (s.record k x now) := by
  cases ho : s.opened.lookup k with
  | some i =>
    simp only [Store.record, ho]
    exact h
  | none =>
    cases hp : s.pending.lookup k with
    | some g => simpa only [Store.record, ho, hp, Sized, length_set_old hp] using h
    | none =>
      simp only [Store.record, ho, hp]
      split_ifs with hfull
      · exact h
      · exact ⟨(length_set_le _ _).trans (Nat.lt_of_not_le hfull), h.2⟩

theorem sized_recordToolFailure (h : Sized s) (toolName errorKind userId : Str) (sample : Option Str) (now : ℤ) :
    Sized (s.recordToolFailure toolName errorKind userId sample now) := by
  cases ho : s.opened.lookup (toolFingerprint toolName errorKind) with
  | some i =>
    simp only [Store.recordToolFailure, ho]
    exact h
  | none =>
    cases hp : s.pendingTools.lookup (toolFingerprint toolName errorKind) with
    | some g => simpa only [Store.recordToolFailure, ho, hp, Sized, length_set_old hp] using h
    | none =>
      simp only [Store.recordToolFailure, ho, hp]
      split_ifs with hfull
      · exact h
      · exact ⟨h.1, (length_set_le _ _).trans (Nat.lt_of_not_le hfull)⟩

theorem fresh_set {α : Type} {d e : Dict α} (hk : k ∉ e.map Prod.fst) (v : α) : fresh (Dict.set k v d) e = fresh d e := by
  refine List.filter_congr fun x hx => ?_
  have hne : x.1 ≠ k := fun he => hk (List.mem_map.2 ⟨x, hx, he⟩)
  rw [Dict.has, Dict.has, Dict.lookup_set, if_neg hne]

/-- putting groups back adds those that are not pending meanwhile -/
theorem length_putBack {α : Type} {pending : Store → Dict α} {put : Store → Str × α → Store}
    (hput : ∀ s g, ∃ v, pending (put s g) = Dict.set g.1 v (pending s)) (held : Dict α) (s : Store)
    (hheld : (held.map Prod.fst).Nodup) :
    (pending (held.foldl put s)).length = (pending s).length + (fresh (pending s) held).length := by
  induction held generalizing s with
  | nil => rfl
  | cons g held ih =>
    obtain ⟨hnot, hheld⟩ := List.nodup_cons.1 hheld
    obtain ⟨v, hv⟩ := hput s g
    rw [List.foldl_cons, ih _ hheld, hv, fresh_set hnot, Dict.length_set]
    cases hg : (pending s).lookup g.1 with
    | none =>
      have hfresh : fresh (pending s) (g :: held) = g :: fresh (pending s) held := by simp [fresh, Dict.has, hg]
      rw [if_pos rfl, hfresh, List.length_cons]
      omega
    | some w =>
      have hfresh : fresh (pending s) (g :: held) = fresh (pending s) held := by simp [fresh, Dict.has, hg]
      rw [if_neg (Option.some_ne_none w), hfresh]
      omega

theorem restoreError_pending (s : Store) (g : Str × PendingGroup) :
    ∃ v, (s.restoreError g).pending = Dict.set g.1 v s.pending := by
  rw [Store.restoreError]
  split <;> exact ⟨_, rfl⟩

theorem restoreTool_pendingTools (s : Store) (g : Str × PendingToolFailure) :
    ∃ v, (s.restoreTool g).pendingTools = Dict.set g.1 v s.pendingTools := by
  rw [Store.restoreTool]
  split <;> exact ⟨_, rfl⟩

/-- a fold that leaves a part of the store alone -/
theorem foldl_keeps {α β : Type} {part : Store → β} {f : Store → α → Store} (hf : ∀ s a, part (f s a) = part s) (l : List α)
    (s : Store) : part (l.foldl f s) = part s := by
  induction l generalizing s with
  | nil => rfl
  | cons a l ih => rw [List.foldl_cons, ih, hf]

theorem restoreError_pendingTools (s : Store) (g : Str × PendingGroup) :
    (s.restoreError g).pendingTools = s.pendingTools := by
  rw [Store.restoreError]
  split <;> rfl

theorem restoreTool_pending (s : Store) (g : Str × PendingToolFailure) : (s.restoreTool g).pending = s.pending := by
  rw [Store.restoreTool]
  split <;> rfl

theorem sized_restore (h : Inv s t r) :
    Sized (s.restore t) ↔
      s.pending.length + (fresh s.pending t.errors).length ≤ maxPendingGroups ∧
      s.pendingTools.length + (fresh s.pendingTools t.tools).length ≤ maxPendingGroups := by
  have hpending : (s.restore t).pending.length = s.pending.length + (fresh s.pending t.errors).length := by
    rw [Store.restore, foldl_keeps restoreTool_pending, length_putBack restoreError_pending _ _ h.n4]
  have htools : (s.restore t).pendingTools.length = s.pendingTools.length + (fresh s.pendingTools t.tools).length := by
    rw [Store.restore, length_putBack restoreTool_pendingTools _ _ h.n5, foldl_keeps restoreError_pendingTools]
  rw [Sized, hpending, htools]

/-- a fold along which neither pending map grows -/
theorem Sized.foldl {α : Type} {f : Store → α → Store} (hf : ∀ s a, Sized s → Sized (f s a)) (h : Sized s) (l : List α) :
    Sized (l.foldl f s) := by
  induction l generalizing s with
  | nil => exact h
  | cons a l ih => exact ih (hf s a h)

theorem length_erase_le {α : Type} (k : Str) (d : Dict α) : (Dict.erase k d).length ≤ d.length := List.length_filter_le ..

theorem sized_markSent (h : Sized s) (t : Taken) (r : Dict ResolvedSummary) (monotonic : ℚ) :
    Sized (s.markSent t r monotonic) := by
  have hclosed := Sized.foldl (f := Store.close) (fun s x (h : Sized s) => h)
    (show Sized { s with
      emailTimes := s.emailTimes ++ [monotonic]
      reported := s.reported ++ [⟨t.dropped, t.droppedOcc⟩] } from h) r
  have herrors := hclosed.foldl (f := Store.openError)
    (fun s g h => ⟨(length_erase_le g.1 s.pending).trans h.1, h.2⟩) t.errors
  exact herrors.foldl (f := Store.openTool) (fun s g h => ⟨h.1, (length_erase_le g.1 s.pendingTools).trans h.2⟩) t.tools

/-! ## Steps and runs -/

/-- the invariant of the whole store -/
def Good (s : Store) : Prop := Inv s s.task.held s.task.notices ∧ Sized s

/-- what an operation outside the flush leaves alone -/
theorem record_task (s : Store) (k : Str) (x : Detail) (now : ℤ) : (s.record k x now).task = s.task := by
  simp only [Store.record]
  split
  · rfl
  · split
    · rfl
    · split_ifs <;> rfl

theorem recordToolFailure_task (s : Store) (toolName errorKind userId : Str) (sample : Option Str) (now : ℤ) :
    (s.recordToolFailure toolName errorKind userId sample now).task = s.task := by
  simp only [Store.recordToolFailure]
  split
  · rfl
  · split
    · rfl
    · split_ifs <;> rfl

/-- the invariant does not look at where the flush task is, or at the times of the emails -/
theorem Inv.elsewhere (h : Inv s t r) (task : Task) (times : List ℚ) :
    Inv { s with task := task, emailTimes := times } t r :=
  { h with once := h.once, exact := { h.exact with } }

/-- a cut-off send that holds no group and no overflow loses nothing -/
theorem Inv.cutOff (h : Inv s t r) (herrors : t.errors = []) (htools : t.tools = []) (hdropped : t.dropped = 0) :
    Inv s ⟨[], [], 0, []⟩ [] := by
  obtain ⟨es, ts, dropped, droppedOcc⟩ := t
  obtain rfl : es = [] := herrors
  obtain rfl : ts = [] := htools
  obtain rfl : dropped = 0 := hdropped
  obtain rfl : droppedOcc = [] := List.eq_nil_of_length_eq_zero h.exact.dropped.symm
  exact { h with n6 := List.nodup_nil, r1 := nofun }

theorem step_good (cfg : Settings) (s : Store) (o : Op) (h : Good s) (hC : Fits s o) : Good (step cfg s o) := by
  obtain ⟨hinv, hsized⟩ := h
  cases o with
  | record k x now =>
    refine ⟨?_, sized_record hsized x now⟩
    rw [step, record_task]
    exact inv_record hinv x now hC
  | recordToolFailure toolName errorKind userId sample now =>
    refine ⟨?_, sized_recordToolFailure hsized toolName errorKind userId sample now⟩
    rw [step, recordToolFailure_task]
    exact inv_recordToolFailure hinv toolName errorKind userId sample now hC
  | flush monotonic =>
    cases htask : s.task with
    | idle =>
      have hinv : Inv s ⟨[], [], 0, []⟩ [] := by rw [htask] at hinv; exact hinv
      simp only [step, htask, Store.atHourlyCap]
      split_ifs
      · exact ⟨hinv.elsewhere .idle _, hsized⟩
      · exact ⟨hinv.elsewhere .checked _, hsized⟩
    | checked | taken | sending => simpa only [step, htask, Good] using And.intro hinv hsized
  | takeNew =>
    cases htask : s.task with
    | checked =>
      rw [htask] at hinv
      simp only [step, htask]
      refine ⟨(inv_takeNew hinv).elsewhere _ _, ?_⟩
      have hdrop {α : Type} (d : Dict α) : (d.drop maxGroupsPerEmail).length ≤ d.length := by
        rw [List.length_drop]; exact Nat.sub_le ..
      exact ⟨(hdrop _).trans hsized.1, (hdrop _).trans hsized.2⟩
    | idle | taken | sending => simpa only [step, htask, Good] using And.intro hinv hsized
  | takeResolved now =>
    cases htask : s.task with
    | taken t =>
      have hinv : Inv s t [] := by rw [htask] at hinv; exact hinv
      simp only [step, htask]
      split_ifs with hnone
      · have hsize : Sized (s.restore t) := by
          rw [sized_restore hinv, hnone.1, hnone.2.1]
          exact hsized
        exact ⟨(inv_restore hinv).elsewhere _ _, hsize⟩
      · exact ⟨(inv_takeResolved hinv cfg now).elsewhere _ _, hsized⟩
    | idle | checked | sending => simpa only [step, htask, Good] using And.intro hinv hsized
  | sendEnds how monotonic =>
    cases htask : s.task with
    | sending t r =>
      have hinv : Inv s t r := by rw [htask] at hinv; exact hinv
      cases how with
      | sent =>
        simp only [step, htask]
        simp only [Fits, htask] at hC
        exact ⟨(inv_markSent hinv hC monotonic).elsewhere _ _, sized_markSent hsized t r monotonic⟩
      | failed =>
        simp only [step, htask]
        simp only [Fits, htask] at hC
        -- the resolved incidents stay open, and their notices are dropped
        have hrest : Inv s t [] := { hinv with n6 := List.nodup_nil, r1 := nofun }
        exact ⟨(inv_restore hrest).elsewhere _ _, (sized_restore hinv).2 hC⟩
      | raised =>
        simp only [step, htask]
        simp only [Fits, htask] at hC
        exact ⟨(hinv.cutOff hC.1 hC.2.1 hC.2.2).elsewhere _ _, hsized⟩
    | idle | checked | taken => cases how <;> simpa only [step, htask, Good] using And.intro hinv hsized

/-- **Counted once.** -/
theorem counted_once (cfg : Settings) (ops : List Op) (hfits : Runs.Meets (step cfg) Fits init ops) :
    CountedOnce (run cfg init ops) := by
  obtain ⟨hinv, hsized⟩ := Runs.run_inv (step_good cfg) hfits (show Good init from ⟨inv_init, Nat.zero_le _, Nat.zero_le _⟩)
  exact ⟨hinv.once, hinv.exact, hinv.m1, hsized.1, hsized.2⟩

/-! ## Runs -/

instance decFits (s : Store) : (o : Op) → Decidable (Fits s o)
  | .record _ _ _ => inferInstanceAs (Decidable (Absent _ _ _))
  | .recordToolFailure .. => inferInstanceAs (Decidable (Absent _ _ _))
  | .flush _ | .takeNew | .takeResolved _ => inferInstanceAs (Decidable True)
  | .sendEnds .sent _ => inferInstanceAs (Decidable (∀ x ∈ s.task.notices, _))
  | .sendEnds .failed _ => inferInstanceAs (Decidable (_ ∧ _))
  | .sendEnds .raised _ => inferInstanceAs (Decidable (_ ∧ _ ∧ _))

def hourly : Settings := ⟨20, 1⟩

def timeout : Detail := ⟨"backend.app".toList, "ERROR".toList, none, "timeout".toList, none, "-".toList⟩

/-- a flush from its check to the send -/
def upToSend (now : ℤ) : List Op := [.flush 0, .takeNew, .takeResolved now]

/-- an error and a tool failure recur during a send that fails, are emailed, recur and are resolved -/
def twoIncidents : List Op :=
  [.record "a".toList timeout 0, .recordToolFailure "t".toList "service".toList "u".toList none 0] ++ upToSend 0 ++
  [.record "a".toList timeout 1, .sendEnds .failed 1] ++ upToSend 2 ++
  [.recordToolFailure "t".toList "service".toList "v".toList (some "x".toList) 2, .sendEnds .sent 2,
    .record "a".toList timeout 3] ++ upToSend 70000000 ++ [.sendEnds .sent 70]

theorem counted_once_twoIncidents :
    Runs.Meets (step hourly) Fits init twoIncidents ∧ CountedOnce (run hourly init twoIncidents) :=
  ⟨by decide +kernel, counted_once hourly twoIncidents (by decide +kernel)⟩

/-- an incident that recurs during the send of its resolved notice -/
def recurring : List Op :=
  .record "a".toList timeout 0 :: upToSend 0 ++ .sendEnds .sent 0 :: upToSend 70000000 ++
  [.record "a".toList timeout 70000001, .sendEnds .sent 70]

theorem recurs_during_resolved_send : ¬ CountedOnce (run hourly init recurring) := by
  intro h
  have hlost : places (run hourly init recurring) (run hourly init recurring).task.held 1 = 0 := by decide +kernel
  have hrecorded : (run hourly init recurring).recorded = 2 := by decide +kernel
  rw [h.once, hrecorded] at hlost
  exact absurd hlost (by decide)

end Clawbolt.Alerts
