/-
A message that lands mid-turn is answered once.

- `answered_once`: in every state of every run, a registered dispatch is claimed by at most one turn, of its own user,
  session and channel, and then its own pipeline never starts; once it is over, it was claimed, or ran its pipeline, or was
  cancelled from outside, or sent the error fallback; when the loop is quiet and nobody holds the lock, it is over; and
  its messages are stored, so that every later turn finds them in its history;
- `cancelled_while_waiting`: a dispatch that is cancelled while it waits is neither claimed nor started, and so is one whose
  reload raises.
-/
import Mathlib.Tactic
import Clawbolt.Midturn.Loop

namespace Clawbolt.Midturn

open Text (Str)
open History (StoredMessage isAbove historyMessages)

/-! ## What becomes of a dispatch -/

/-- no callback waits, and nobody holds the lock of the user -/
def Quiet (s : St) (u : Str) : Prop := s.ready.handles = [] ∧ s.locked u = false

/-- the stored rows of a session -/
def St.rows (s : St) (sessionId : Str) : List StoredMessage := (s.stored.filter (·.1 = sessionId)).map (·.2)

structure AnsweredOnce (s : St) (d : ℕ) : Prop where
  once : (s.dispatches d).claimedBy.length ≤ 1
  claimer : ∀ t ∈ (s.dispatches d).claimedBy, Claimer s t d
  exclusive : (s.dispatches d).claimedBy ≠ [] → (s.dispatches d).started = false
  answered : (s.dispatches d).dispatch = .ended → (s.dispatches d).claimedBy ≠ [] ∨ (s.dispatches d).started = true ∨
    (s.dispatches d).cancelled = true ∨ (s.dispatches d).outcome = some .errorFallback
  folded : (s.dispatches d).outcome = some .folded → (s.dispatches d).claimedBy ≠ []
  completed : (s.dispatches d).outcome = some .completed → (s.dispatches d).started = true
  quiet : Quiet s (s.user d) → (s.dispatches d).dispatch = .ended
  -- whichever way the turn that claimed it ends
  kept : ∀ m ∈ (s.dispatches d).request.messages, ∀ lastTrimSeq current, isAbove lastTrimSeq m = true →
    m.seq < current.seq →
    m ∈ historyMessages ((s.rows (s.dispatches d).request.sessionId).filter (isAbove lastTrimSeq)) current

variable {s : St} {d : ℕ}

/-- a row that comes before the turn's own is in its history -/
theorem mem_historyMessages {rows : List StoredMessage} {m current : StoredMessage} (hm : m ∈ rows)
    (hseq : m.seq < current.seq) : m ∈ historyMessages rows current := by
  unfold historyMessages
  split_ifs
  · refine List.mem_append_left _ (List.mem_filter.2 ⟨hm, ?_⟩)
    simp only [History.isEarlier, hseq, decide_true, Bool.true_or]
  · exact hm

/-- the run task of a waiting dispatch is scheduled, or others are ahead of it -/
theorem Sound.not_waiting (h : Sound s) (hq : Quiet s (s.user d)) : ¬ (s.dispatches d).phase.Waits := by
  obtain ⟨hnone, hfree⟩ := hq
  have hidle (k : Kind) (e : ℕ) : k ∉ (s.loc e).q.handles := fun hmem => by
    have hqueued : (⟨k, e⟩ : Handle) ∈ s.ready.handles := queued_iff.2 hmem
    rw [hnone] at hqueued
    exact List.not_mem_nil hqueued
  intro hwaits
  rcases hwaits with hstart | hlock
  · exact hidle .run d ((h.inv d).start hstart)
  · -- the first waiter of a free lock was woken or cancelled: its run task is scheduled
    have hmem := h.locks.waits d _ _ (place_lock hlock)
    cases hhead : (s.waiters (s.user d)).head? with
    | none => exact absurd (List.head?_eq_none_iff.1 hhead ▸ hmem : d ∈ ([] : List ℕ)) List.not_mem_nil
    | some e =>
      obtain ⟨hphase, hfut⟩ : (s.dispatches e).phase = .lock ∧ (s.dispatches e).fut ≠ .pending := by
        rcases h.locks.first_woken hfree hhead with hplace | hplace
        · obtain ⟨hphase, _, hfut⟩ := place_waits hplace
          exact ⟨hphase, by simp [hfut]⟩
        · obtain ⟨hphase, _, hfut⟩ := place_waits hplace
          exact ⟨hphase, by simp [hfut]⟩
      exact hidle .run e ((h.inv e).lockWoken hphase hfut)

/-- **A dispatch does not get stuck.** -/
theorem Sound.quiet_ended (h : Sound s) (hd : d < s.count) (hq : Quiet s (s.user d)) : (s.dispatches d).dispatch = .ended := by
  have hended : (s.dispatches d).phase = .ended := by
    have hwaits := h.not_waiting hq
    have hholds (hp : s.locks.place d = .holds (s.user d)) : False := by
      have hlocked := h.locks.holder d _ hp
      rw [show s.locks.locked (s.user d) = s.locked (s.user d) from rfl, hq.2] at hlocked
      exact Bool.false_ne_true hlocked
    cases hphase : (s.dispatches d).phase with
    | idle => exact absurd hphase (h.live d hd)
    | start => exact absurd (Or.inl hphase) hwaits
    | lock => exact absurd (Or.inr hphase) hwaits
    | user | session | turn | unwind => exact (hholds (by simp only [St.locks, Dispatch.place, hphase, St.user])).elim
    | ended => rfl
  by_contra hopen
  have hnone (k : Kind) : k ∉ (s.loc d).q.handles := fun hmem => by
    have hqueued : (⟨k, d⟩ : Handle) ∈ s.ready.handles := queued_iff.2 hmem
    rw [hq.1] at hqueued
    exact List.not_mem_nil hqueued
  rcases (h.inv d).ending hended hopen with hmem | hmem
  · exact hnone .runDone hmem
  · exact hnone .dispatch hmem

/-- a dispatch that is over was claimed, ran, was cancelled from outside, or sent the error fallback -/
theorem Inv.answered {l : Loc} (h : Inv l) (hfoldable : l.x.request.Foldable) (hended : l.x.dispatch = .ended) :
    l.x.claimedBy ≠ [] ∨ l.x.started = true ∨ l.x.cancelled = true ∨ l.x.outcome = some .errorFallback := by
  obtain ⟨_, houtcome⟩ := h.dispatchEnded hended hfoldable
  obtain ⟨o, ho⟩ := Option.isSome_iff_exists.1 houtcome
  cases o with
  | folded => exact Or.inl (h.folded ho)
  | completed => exact Or.inr (Or.inl (h.completed ho))
  | errorFallback => exact Or.inr (Or.inr (Or.inr ho))
  | cancelled => exact Or.inr (Or.inr (Or.inl (h.cancelled ho)))

/-- **Answered once.** -/
theorem answered_once (ops : List Op) (d : ℕ) (hd : d < (run init ops).count)
    (hfoldable : ((run init ops).dispatches d).request.Foldable) : AnsweredOnce (run init ops) d := by
  have h := sound_run ops
  generalize run init ops = s at h hd hfoldable
  have hinv := h.inv d
  refine ⟨?_, h.claimers d, hinv.exclusive, hinv.answered hfoldable, hinv.folded, hinv.completed, h.quiet_ended hd,
    fun m hm lastTrimSeq current habove hseq => ?_⟩
  · by_cases hclaimed : (s.dispatches d).claimedBy = []
    · simp [hclaimed]
    · exact (hinv.claimed hclaimed).1.le
  · refine mem_historyMessages (List.mem_filter.2 ⟨List.mem_map.2 ⟨_, List.mem_filter.2 ⟨h.stored d hd m hm, ?_⟩, rfl⟩, habove⟩) hseq
    simp

/-! ## Two texts of one user -/

def text (n : ℕ) : Request :=
  { userId := ['u'], sessionId := ['s'], channel := ['t'], requestId := []
    messages := [⟨.inbound, ['h', 'i'], [], [], [], [], n⟩] }

def go : Op := .tick {}

/-- the first text runs its turn, and the second one waits -/
def turnAndWaiting : List Op :=
  [.dispatch (text 1), .dispatch (text 2), .iterate, go, go, go, go, .io 0 true, .iterate, go, .io 0 true, .iterate,
    .tick { goesOn := true }]

/-- the turn drains the inbox: the second text is folded -/
theorem answered_once_folded :
    AnsweredOnce (run init (turnAndWaiting ++ [.resume 0, .iterate, .tick { drains := true, goesOn := true }])) 1 ∧
      ((run init (turnAndWaiting ++ [.resume 0, .iterate, .tick { drains := true, goesOn := true }])).dispatches 1).claimedBy = [0] :=
  ⟨answered_once _ 1 (by decide) (by decide), by decide⟩

/-- the dispatch is over, and was neither claimed nor started -/
def Neither (x : Dispatch) : Prop :=
  x.request.Foldable ∧ x.dispatch = .ended ∧ x.claimedBy = [] ∧ x.started = false

instance (x : Dispatch) : Decidable (Neither x) := by unfold Neither; infer_instance

/-- the second text is cancelled while it waits -/
def cancelWaiting : List Op := turnAndWaiting ++ [.cancel 1, .iterate, go, .iterate, go, .iterate, go, .iterate, go]

/-- the reload of the user raises -/
def reloadRaises : List Op :=
  [.dispatch (text 1), .iterate, go, go, .io 0 true, .iterate, .tick { raises := true }, .iterate, go, .iterate, go]

/-- **Neither.** A dispatch that is cancelled while it waits, and one whose reload raises. -/
theorem cancelled_while_waiting :
    Neither ((run init cancelWaiting).dispatches 1) ∧ Neither ((run init reloadRaises).dispatches 0) := by
  decide

end Clawbolt.Midturn
