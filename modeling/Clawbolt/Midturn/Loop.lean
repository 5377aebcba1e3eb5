/-
The event loop of the mid-turn inbox, dispatch by dispatch: what a step of the loop does to each of them is a `Move`, and
the locks of the users keep their invariant.

- `St.loc`: what a dispatch sees of the loop; `St.locks`: what the locks see;
- `Within`: the dispatches move, and whoever claims one is a running turn of its user, session and channel;
- `sound_step` and `sound_run`: the invariants of the dispatches and of the locks hold after every run.
-/
import Mathlib.Tactic
import Clawbolt.Midturn.Local

namespace Clawbolt.Midturn

open Text (Str)

/-! ## One dispatch of the loop -/

/-- the callback is of the dispatch -/
def ofDispatch (d : ℕ) (h : Handle) : Option Kind := if h.of = d then some h.kind else none

def St.loc (s : St) (d : ℕ) : Loc := ⟨s.dispatches d, s.ready.only (ofDispatch d), d ∈ s.pending (s.user d)⟩

variable {s s' : St} {d e : ℕ} {k : Kind}

theorem ofDispatch_self (k : Kind) (d : ℕ) : ofDispatch d ⟨k, d⟩ = some k := if_pos rfl

theorem ofDispatch_ne (h : d ≠ e) (k : Kind) : ofDispatch e ⟨k, d⟩ = none := if_neg h

theorem ofDispatch_inj (k : Kind) (d : ℕ) (x : Handle) (h : ofDispatch d x = some k) : x = ⟨k, d⟩ := by
  unfold ofDispatch at h
  split_ifs at h with hof
  obtain rfl := Option.some.inj h
  obtain rfl := hof
  rfl

theorem queued_iff : s.Queued k d ↔ k ∈ (s.loc d).q.handles :=
  (ReadyQueue.mem_only (ofDispatch_self k d) (ofDispatch_inj k d)).symm

theorem loc_eq {x : Dispatch} {q : ReadyQueue Kind} {r : Prop} (hx : s.dispatches d = x)
    (hq : s.ready.only (ofDispatch d) = q) (hr : d ∈ s.pending (s.user d) ↔ r) : s.loc d = ⟨x, q, r⟩ := by
  simp only [St.loc, hx, hq, hr]

theorem loc_congr (hx : s'.dispatches d = s.dispatches d)
    (hq : s'.ready.only (ofDispatch d) = s.ready.only (ofDispatch d)) (hr : ∀ u, d ∈ s'.pending u ↔ d ∈ s.pending u) :
    s'.loc d = s.loc d := by
  refine loc_eq hx hq ?_
  rw [hr]
  simp only [St.user, hx]

/-- another dispatch was taken off the registry -/
theorem mem_pending_erase {e : ℕ} (he : e ≠ d) (v u : Str) :
    e ∈ Function.update s.pending v ((s.pending v).erase d) u ↔ e ∈ s.pending u := by
  by_cases hu : u = v
  · subst hu
    rw [Function.update_self]
    exact List.mem_erase_of_ne he
  · rw [Function.update_of_ne hu]

@[simp] theorem dispatches_upd_self {f : Dispatch → Dispatch} : (s.upd d f).dispatches d = f (s.dispatches d) :=
  Function.update_self _ _ _

theorem loc_upd_self {f : Dispatch → Dispatch} (hf : (f (s.dispatches d)).request = (s.dispatches d).request) :
    (s.upd d f).loc d = { s.loc d with x := f (s.dispatches d) } := by
  simp only [St.loc, St.upd, St.user, Function.update_self, hf]

theorem loc_upd_ne (h : e ≠ d) (f : Dispatch → Dispatch) : (s.upd d f).loc e = s.loc e := by
  simp only [St.loc, St.upd, St.user, Function.update_of_ne h]

theorem loc_soon_self : (s.soon k d).loc d = { s.loc d with q := (s.loc d).q.callSoon k } := by
  simp only [St.loc, St.soon, ReadyQueue.only_callSoon_some (ofDispatch_self k d)]
  rfl

theorem loc_soon_ne (h : e ≠ d) : (s.soon k d).loc e = s.loc e := by
  simp only [St.loc, St.soon, ReadyQueue.only_callSoon_none (ofDispatch_ne h.symm k)]
  rfl

theorem loc_wake_self : (s.wake k d).loc d = { s.loc d with q := (s.loc d).q.wake k } := by
  simp only [St.loc, St.wake, ReadyQueue.only_wake_some (ofDispatch_self k d) (ofDispatch_inj k d)]
  rfl

theorem loc_wake_ne (h : e ≠ d) : (s.wake k d).loc e = s.loc e := by
  simp only [St.loc, St.wake, ReadyQueue.only_wake_none (ofDispatch_ne h.symm k)]
  rfl

theorem loc_pop_self {l : List Handle} (h : s.ready.now = ⟨k, d⟩ :: l) :
    (s.loc d).q.now = k :: ((s.loc d).q.pop).now ∧
      ({ s with ready := s.ready.pop } : St).loc d = { s.loc d with q := (s.loc d).q.pop } := by
  obtain ⟨hnow, hpop⟩ := ReadyQueue.only_pop_some h (ofDispatch_self k d)
  exact ⟨hpop ▸ hnow, by simp only [St.loc, hpop]; rfl⟩

theorem loc_pop_ne {l : List Handle} (h : s.ready.now = ⟨k, d⟩ :: l) (hne : e ≠ d) :
    ({ s with ready := s.ready.pop } : St).loc e = s.loc e := by
  simp only [St.loc, ReadyQueue.only_pop_none h (ofDispatch_ne hne.symm k)]
  rfl

/-! ## Within an iteration -/

/-- a move of a dispatch that there is -/
def LiveMove (l l' : Loc) : Prop := l.x.phase ≠ .idle ∧ Move l l'

/-- what no move of a dispatch undoes -/
structure Keeps (l l' : Loc) : Prop where
  phase : l'.x.phase ≠ .idle
  request : l'.x.request = l.x.request
  started : l.x.started = true → l'.x.started = true

theorem keeps_move {l l' : Loc} (hphase : l.x.phase ≠ .idle) (m : Move l l') : Keeps l l' := by
  cases m with
  | dispatch | dispatchInline => exact absurd rfl hphase
  | _ => exact ⟨by grind, by grind, by grind -ring -linarith -order -ac⟩

theorem keeps_moves {l l' : Loc} (hphase : l.x.phase ≠ .idle) (m : Relation.ReflTransGen LiveMove l l') : Keeps l l' := by
  induction m with
  | refl => exact ⟨hphase, rfl, id⟩
  | tail _ hlast ih =>
    have hkeeps := keeps_move ih.phase hlast.2
    exact ⟨hkeeps.phase, hkeeps.request.trans ih.request, fun h => hkeeps.started (ih.started h)⟩

theorem moves_idle {l l' : Loc} (hphase : l.x.phase = .idle) (m : Relation.ReflTransGen LiveMove l l') : l' = l := by
  rcases m.cases_head with heq | ⟨_, hfirst, _⟩
  · exact heq.symm
  · exact absurd hphase hfirst.1

theorem inv_moves {l l' : Loc} (h : Inv l) (m : Relation.ReflTransGen LiveMove l l') : Inv l' := by
  induction m with
  | refl => exact h
  | tail _ hlast ih => exact inv_move ih hlast.2

/-- the turn `t` may claim the dispatch `e` -/
structure Claimer (s : St) (t e : ℕ) : Prop where
  other : t ≠ e
  running : (s.dispatches t).started = true
  user : s.user t = s.user e
  session : (s.dispatches t).request.sessionId = (s.dispatches e).request.sessionId
  channel : (s.dispatches t).request.channel = (s.dispatches e).request.channel

/-- `s'` comes after `s` in the same iteration, and no dispatch came in between -/
structure Within (s s' : St) : Prop where
  moves : ∀ d, Relation.ReflTransGen LiveMove (s.loc d) (s'.loc d)
  count : s'.count = s.count
  claims : ∀ e, ∀ t ∈ (s'.dispatches e).claimedBy, t ∈ (s.dispatches e).claimedBy ∨ Claimer s' t e
  pending : ∀ u, (s'.pending u).Sublist (s.pending u)
  stored : s.stored <+: s'.stored

theorem Within.loc_idle (h : Within s s') (hd : (s.dispatches d).phase = .idle) : s'.loc d = s.loc d :=
  moves_idle hd (h.moves d)

theorem Within.request (h : Within s s') (d : ℕ) : (s'.dispatches d).request = (s.dispatches d).request := by
  by_cases hd : (s.dispatches d).phase = .idle
  · exact congrArg (fun l => l.x.request) (h.loc_idle hd)
  · exact (keeps_moves hd (h.moves d)).request

theorem Within.started (h : Within s s') (hd : (s.dispatches d).started = true) : (s'.dispatches d).started = true := by
  by_cases hphase : (s.dispatches d).phase = .idle
  · exact (congrArg (fun l => l.x.started) (h.loc_idle hphase)).trans hd
  · exact (keeps_moves hphase (h.moves d)).started hd

theorem Within.user (h : Within s s') (d : ℕ) : s'.user d = s.user d := congrArg Request.userId (h.request d)

theorem Claimer.mono {t : ℕ} (hc : Claimer s t e) (h : Within s s') : Claimer s' t e where
  other := hc.other
  running := h.started hc.running
  user := (h.user t).trans (hc.user.trans (h.user e).symm)
  session := by rw [h.request, h.request, hc.session]
  channel := by rw [h.request, h.request, hc.channel]

/-- dispatches move, and no turn claims any -/
theorem Within.of_moves (hmoves : ∀ d, s'.loc d = s.loc d ∨ (LiveMove (s.loc d) (s'.loc d) ∧
      (s'.dispatches d).claimedBy = (s.dispatches d).claimedBy))
    (hcount : s'.count = s.count) (hpending : ∀ u, (s'.pending u).Sublist (s.pending u)) (hstored : s.stored <+: s'.stored) :
    Within s s' := by
  refine ⟨fun d => ?_, hcount, fun e t ht => Or.inl ?_, hpending, hstored⟩
  · rcases hmoves d with heq | hmove
    · exact heq ▸ .refl
    · exact .single hmove.1
  · rcases hmoves e with heq | hmove
    · exact congrArg (fun l => l.x.claimedBy) heq ▸ ht
    · exact hmove.2 ▸ ht

/-- one dispatch moves -/
theorem Within.one (d : ℕ) (hmove : LiveMove (s.loc d) (s'.loc d)) (hne : ∀ e, e ≠ d → s'.loc e = s.loc e)
    (hclaimed : (s'.dispatches d).claimedBy = (s.dispatches d).claimedBy) (hcount : s'.count = s.count)
    (hpending : ∀ u, (s'.pending u).Sublist (s.pending u)) (hstored : s.stored <+: s'.stored) : Within s s' := by
  refine Within.of_moves (fun e => ?_) hcount hpending hstored
  by_cases he : e = d
  · exact Or.inr (he ▸ ⟨hmove, hclaimed⟩)
  · exact Or.inl (hne e he)

/-! ## The locks -/

/-- where the run task is, for the lock of its user -/
def Dispatch.place (x : Dispatch) : LockPlace Str :=
  match x.phase with
  | .lock => .waits x.request.userId x.fut
  | .user | .session | .turn | .unwind => .holds x.request.userId
  | .idle | .start | .ended => .away

def St.locks (s : St) : Locks ℕ Str := ⟨fun d => (s.dispatches d).place, s.locked, s.waiters⟩

theorem place_waits {x : Dispatch} {u : Str} {fut : Fut} (h : x.place = .waits u fut) :
    x.phase = .lock ∧ x.request.userId = u ∧ x.fut = fut := by
  unfold Dispatch.place at h
  split at h
  · obtain ⟨hu, hf⟩ := LockPlace.waits.inj h
    exact ⟨‹_›, hu, hf⟩
  all_goals cases h

theorem place_lock {x : Dispatch} (h : x.phase = .lock) : x.place = .waits x.request.userId x.fut := by
  simp only [Dispatch.place, h]

theorem place_update (s : St) (d : ℕ) (x : Dispatch) :
    (fun e => (Function.update s.dispatches d x e).place) = Function.update s.locks.place d x.place := by
  funext e
  by_cases he : e = d
  · simp only [he, Function.update_self]
  · simp only [Function.update_of_ne he]
    rfl

theorem locks_upd (f : Dispatch → Dispatch) : (s.upd d f).locks = s.locks.put d (f (s.dispatches d)).place := by
  exact congrArg (Locks.mk · s.locked s.waiters) (place_update s d _)

theorem locks_upd_same {f : Dispatch → Dispatch} (hf : (f (s.dispatches d)).place = (s.dispatches d).place) :
    (s.upd d f).locks = s.locks := by
  rw [locks_upd, hf]
  exact congrArg (Locks.mk · _ _) (Function.update_eq_self d _)

theorem locks_wakeUpFirst {u : Str} {skip : Str → Prop} (h : s.locks.Sound skip) :
    (s.wakeUpFirst u).locks = s.locks.wakeUpFirst u := by
  unfold St.wakeUpFirst Locks.wakeUpFirst
  rw [show s.locks.waiters u = s.waiters u from rfl]
  cases hw : s.waiters u with
  | nil => rfl
  | cons e rest =>
    obtain ⟨fut, hfut⟩ := h.waiter u e (show e ∈ s.waiters u from hw ▸ List.mem_cons_self)
    obtain ⟨hphase, huser, hfuture⟩ := place_waits hfut
    have hpending : (s.dispatches e).fut = .pending ↔ s.locks.place e = .waits u .pending := by
      rw [hfut, hfuture]
      exact ⟨fun heq => by rw [heq], fun heq => (LockPlace.waits.inj heq).2⟩
    by_cases hp : (s.dispatches e).fut = .pending
    · simp only [if_pos hp, if_pos (hpending.1 hp)]
      rw [show ∀ k, ((s.upd e fun x => { x with fut := .result }).wake k e).locks =
        (s.upd e fun x => { x with fut := .result }).locks from fun _ => rfl, locks_upd]
      exact congrArg (s.locks.put e) ((@place_lock { s.dispatches e with fut := .result } hphase).trans
        (congrArg (LockPlace.waits · .result) huser))
    · simp only [if_neg hp, if_neg fun heq => hp (hpending.2 heq)]

/-- what `Lock.acquire` asks is whether the lock is open -/
theorem open_iff {u : Str} {skip : Str → Prop} (h : s.locks.Sound skip) :
    (s.locked u = false ∧ ∀ e ∈ s.waiters u, (s.dispatches e).fut = .cancelled) ↔ s.locks.Open u := by
  refine and_congr_right fun _ => forall₂_congr fun e he => ?_
  obtain ⟨fut, hfut⟩ := h.waiter u e he
  rw [hfut, (place_waits hfut).2.2]
  exact ⟨fun heq => by rw [heq], fun heq => (LockPlace.waits.inj heq).2⟩

/-- the first waiter, and nobody else, is woken -/
theorem loc_wakeUpFirst {u : Str} (e : ℕ) : (s.wakeUpFirst u).loc e = s.loc e ∨
    ((s.waiters u).head? = some e ∧ (s.dispatches e).fut = .pending ∧
      (s.wakeUpFirst u).loc e =
        { s.loc e with x := { s.dispatches e with fut := .result }, q := (s.loc e).q.wake .run }) := by
  unfold St.wakeUpFirst
  split
  · exact Or.inl rfl
  · rename_i x rest hw
    split_ifs with hpending
    · by_cases he : e = x
      · subst he
        refine Or.inr ⟨by rw [hw]; rfl, hpending, ?_⟩
        rw [loc_wake_self, loc_upd_self rfl]
      · exact Or.inl (by rw [loc_wake_ne he, loc_upd_ne he])
    · exact Or.inl rfl

/-! ## The invariant of the loop -/

structure Sound (s : St) : Prop where
  inv : ∀ d, Inv (s.loc d)
  fresh : ∀ d, s.count ≤ d → s.loc d = .none
  live : ∀ d, d < s.count → (s.dispatches d).phase ≠ .idle
  pendingUser : ∀ u, ∀ d ∈ s.pending u, s.user d = u
  pendingNodup : ∀ u, (s.pending u).Nodup
  locks : s.locks.Sound fun _ => False
  claimers : ∀ e, ∀ t ∈ (s.dispatches e).claimedBy, Claimer s t e
  stored : ∀ d, d < s.count → ∀ m ∈ (s.dispatches d).request.messages,
    ((s.dispatches d).request.sessionId, m) ∈ s.stored

theorem Sound.within (h : Sound s) (w : Within s s') (hlocks : s'.locks.Sound fun _ => False) : Sound s' where
  inv := fun d => inv_moves (h.inv d) (w.moves d)
  fresh := fun d hd => by
    have hnone := h.fresh d (w.count ▸ hd)
    have hidle : (s.dispatches d).phase = .idle := congrArg (fun l => l.x.phase) hnone
    exact (w.loc_idle hidle).trans hnone
  live := fun d hd => (keeps_moves (h.live d (w.count ▸ hd)) (w.moves d)).phase
  pendingUser := fun u d hd => (w.user d).trans (h.pendingUser u d ((w.pending u).subset hd))
  pendingNodup := fun u => (h.pendingNodup u).sublist (w.pending u)
  locks := hlocks
  claimers := fun e t ht => by
    rcases w.claims e t ht with hold | hnew
    · exact (h.claimers e t hold).mono w
    · exact hnew
  stored := fun d hd m hm => by
    rw [w.request] at hm ⊢
    exact w.stored.subset (h.stored d (w.count ▸ hd) m hm)

/-- a callback is of a dispatch that there is -/
theorem Sound.alive_of_queued (h : Sound s) (hq : s.Queued k d) : (s.dispatches d).phase ≠ .idle := by
  intro hidle
  have hmem := queued_iff.1 hq
  rw [(h.inv d).idle hidle] at hmem
  exact List.not_mem_nil hmem

theorem Sound.alive_of_now {l : List Handle} (h : Sound s) (hq : s.ready.now = ⟨k, d⟩ :: l) :
    (s.dispatches d).phase ≠ .idle := by
  refine h.alive_of_queued (k := k) ?_
  exact ReadyQueue.mem_handles.2 (Or.inl (hq ▸ List.mem_cons_self))

theorem Sound.alive_of_waiting (h : Sound s) (hd : (s.dispatches d).dispatch ≠ .ended) : (s.dispatches d).phase ≠ .idle := by
  intro hidle
  have hnone : s.dispatches d = .none := congrArg Loc.x ((h.inv d).idle hidle)
  exact hd (hnone ▸ rfl)

/-- one dispatch moves, in a step that the locks survive -/
theorem Sound.one (h : Sound s) (d : ℕ) (hphase : (s.dispatches d).phase ≠ .idle) (hmove : Move (s.loc d) (s'.loc d))
    (hne : ∀ e, e ≠ d → s'.loc e = s.loc e) (hclaimed : (s'.dispatches d).claimedBy = (s.dispatches d).claimedBy)
    (hcount : s'.count = s.count) (hpending : ∀ u, (s'.pending u).Sublist (s.pending u)) (hstored : s'.stored = s.stored)
    (hlocks : s'.locks.Sound fun _ => False) : Sound s' :=
  h.within (Within.one d ⟨hphase, hmove⟩ hne hclaimed hcount hpending (hstored ▸ List.prefix_refl _)) hlocks

/-! ## The lock is given back -/

theorem user_endRun (s : St) (d e : ℕ) (c err : Bool) : (s.endRun d c err).user e = s.user e := by
  by_cases he : e = d
  · simp only [St.user, St.endRun, St.upd, he, Function.update_self]
  · simp only [St.user, St.endRun, St.upd, Function.update_of_ne he]

theorem locks_endRun (s : St) (d : ℕ) (c err : Bool) : (s.endRun d c err).locks = s.locks.put d .away := locks_upd _

/-- the run task is done, and wakes the first waiter of its lock, which is free -/
theorem sound_wakeUpFirst {s₁ : St} {u : Str} (h : Sound s) (hphase : (s.dispatches d).phase ≠ .idle)
    (hmove : Move (s.loc d) { s₁.loc d with q := (s₁.loc d).q.callSoon .runDone })
    (hne : ∀ e, e ≠ d → s₁.loc e = s.loc e) (hended : (s₁.dispatches d).phase = .ended)
    (hclaimed : (s₁.dispatches d).claimedBy = (s.dispatches d).claimedBy) (hcount : s₁.count = s.count)
    (hpending : s₁.pending = s.pending) (hstored : s₁.stored = s.stored) (hlocks : s₁.locks.Sound fun v => v = u)
    (hfree : s₁.locked u = false) : Sound ((s₁.wakeUpFirst u).soon .runDone d) := by
  have hkept : (s₁.wakeUpFirst u).count = s₁.count ∧ (s₁.wakeUpFirst u).pending = s₁.pending ∧
      (s₁.wakeUpFirst u).stored = s₁.stored := by
    unfold St.wakeUpFirst
    split
    · exact ⟨rfl, rfl, rfl⟩
    · split_ifs <;> exact ⟨rfl, rfl, rfl⟩
  refine h.within (Within.of_moves (fun e => ?_) ?_ (fun v => ?_) ?_) ?_
  · by_cases he : e = d
    · subst he
      have hself : (s₁.wakeUpFirst u).loc e = s₁.loc e := by
        rcases loc_wakeUpFirst (s := s₁) (u := u) e with hsame | ⟨hhead, _⟩
        · exact hsame
        · obtain ⟨fut, hfut⟩ := hlocks.waiter u e (List.mem_of_head? hhead)
          exact absurd ((place_waits hfut).1.symm.trans hended) (by decide)
      refine Or.inr ⟨⟨hphase, ?_⟩, ?_⟩
      · rw [loc_soon_self, hself]
        exact hmove
      · exact (congrArg (fun l => l.x.claimedBy) hself).trans hclaimed
    · rw [loc_soon_ne he]
      rcases loc_wakeUpFirst (s := s₁) (u := u) e with hsame | ⟨hhead, hpend, hloc⟩
      · exact Or.inl (hsame.trans (hne e he))
      · obtain ⟨fut, hfut⟩ := hlocks.waiter u e (List.mem_of_head? hhead)
        have hlock := (place_waits hfut).1
        have hx : s₁.dispatches e = s.dispatches e := congrArg Loc.x (hne e he)
        refine Or.inr ⟨⟨?_, ?_⟩, ?_⟩
        · rw [← hne e he]
          exact fun hidle => absurd (hlock.symm.trans hidle) (by decide)
        · rw [hloc, ← hne e he]
          exact Move.grant (s₁.loc e) hlock hpend
        · exact (congrArg (fun l => l.x.claimedBy) hloc).trans (congrArg Dispatch.claimedBy hx)
  · exact hkept.1.trans hcount
  · show ((s₁.wakeUpFirst u).pending v).Sublist (s.pending v)
    rw [hkept.2.1, hpending]
  · show s.stored <+: (s₁.wakeUpFirst u).stored
    rw [hkept.2.2, hstored]
  · show (s₁.wakeUpFirst u).locks.Sound fun _ => False
    rw [locks_wakeUpFirst hlocks]
    exact hlocks.wakeUpFirst hfree

/-- the run task leaves the lock -/
theorem sound_leave (h : Sound s) (c err : Bool) (hphase : (s.dispatches d).phase = .turn ∨ (s.dispatches d).phase = .unwind)
    (hc : c = true → (s.dispatches d).cancelRequested = true) (herr : c = false → (s.dispatches d).started = true ∨ err = true) :
    Sound (s.leave d c err) := by
  have hholds : s.locks.place d = .holds (s.user d) := by
    rcases hphase with hp | hp <;> simp only [St.locks, Dispatch.place, hp, St.user]
  have halive : (s.dispatches d).phase ≠ .idle := by rcases hphase with hp | hp <;> simp [hp]
  unfold St.leave St.release
  rw [user_endRun]
  refine sound_wakeUpFirst (s := s) h halive ?_ (fun e he => ?_) ?_ ?_ rfl rfl rfl ?_ ?_
  · rw [show ∀ l, ({ s.endRun d c err with locked := l } : St).loc d = (s.endRun d c err).loc d from fun _ => rfl,
      St.endRun, loc_upd_self rfl]
    exact Move.leave (s.loc d) c err hphase hc herr
  · show (s.endRun d c err).loc e = s.loc e
    exact loc_upd_ne he _
  · simp only [St.endRun, St.upd, Function.update_self]
  · simp only [St.endRun, St.upd, Function.update_self]
  · have hplace := congrArg Locks.place (locks_endRun s d c err)
    have hlocks : ({ s.endRun d c err with locked := Function.update s.locked (s.user d) false } : St).locks =
        s.locks.release (s.user d) d :=
      congrArg (Locks.mk · (Function.update s.locked (s.user d) false) s.waiters) hplace
    exact hlocks ▸ h.locks.release hholds
  · exact Function.update_self _ _ _

/-! ## A callback of the run task -/

/-- the callback has left the queue -/
def St.pop (s : St) : St := { s with ready := s.ready.pop }

theorem upd_upd (s : St) (d : ℕ) (f g : Dispatch → Dispatch) : (s.upd d f).upd d g = s.upd d fun x => g (f x) := by
  simp only [St.upd, Function.update_self, Function.update_idem]

variable {rest : List Handle}

theorem now_loc (hq : s.ready.now = ⟨k, d⟩ :: rest) : (s.loc d).q.now = k :: (s.loc d).q.pop.now := (loc_pop_self hq).1

theorem loc_call_self {f : Dispatch → Dispatch} (hq : s.ready.now = ⟨k, d⟩ :: rest)
    (hf : (f (s.dispatches d)).request = (s.dispatches d).request) :
    (s.pop.upd d f).loc d = { s.loc d with x := f (s.dispatches d), q := (s.loc d).q.pop } := by
  rw [loc_upd_self (s := s.pop) hf, show s.pop.loc d = _ from (loc_pop_self hq).2]
  rfl

theorem loc_call_ne {f : Dispatch → Dispatch} (hq : s.ready.now = ⟨k, d⟩ :: rest) (he : e ≠ d) :
    (s.pop.upd d f).loc e = s.loc e := by
  rw [loc_upd_ne he, St.pop, loc_pop_ne hq he]

/-- the callback changes only its dispatch, at the same place for the locks -/
theorem sound_call (h : Sound s) (hq : s.ready.now = ⟨k, d⟩ :: rest) (f : Dispatch → Dispatch)
    (hf : (f (s.dispatches d)).request = (s.dispatches d).request ∧
      (f (s.dispatches d)).claimedBy = (s.dispatches d).claimedBy ∧ (f (s.dispatches d)).place = (s.dispatches d).place)
    (hmove : Move (s.loc d) { s.loc d with x := f (s.dispatches d), q := (s.loc d).q.pop }) : Sound (s.pop.upd d f) := by
  refine h.one d (h.alive_of_now hq) ?_ (fun e he => loc_call_ne hq he) ?_ rfl (fun _ => List.Sublist.refl _) rfl ?_
  · rw [loc_call_self hq hf.1]
    exact hmove
  · exact (congrArg Dispatch.claimedBy (dispatches_upd_self (s := s.pop))).trans hf.2.1
  · rw [locks_upd_same (s := s.pop) hf.2.2]
    exact h.locks

/-- the same, and a callback of it is scheduled -/
theorem sound_call_soon (h : Sound s) (hq : s.ready.now = ⟨k, d⟩ :: rest) (f : Dispatch → Dispatch) (j : Kind)
    (hf : (f (s.dispatches d)).request = (s.dispatches d).request ∧
      (f (s.dispatches d)).claimedBy = (s.dispatches d).claimedBy ∧ (f (s.dispatches d)).place = (s.dispatches d).place)
    (hmove : Move (s.loc d) { s.loc d with x := f (s.dispatches d), q := (s.loc d).q.pop.callSoon j }) :
    Sound ((s.pop.upd d f).soon j d) := by
  refine h.one d (h.alive_of_now hq) ?_ (fun e he => ?_) ?_ rfl (fun _ => List.Sublist.refl _) rfl ?_
  · rw [loc_soon_self, loc_call_self hq hf.1]
    exact hmove
  · rw [loc_soon_ne he, loc_call_ne hq he]
  · exact (congrArg Dispatch.claimedBy (dispatches_upd_self (s := s.pop))).trans hf.2.1
  · show (s.pop.upd d f).locks.Sound fun _ => False
    rw [locks_upd_same (s := s.pop) hf.2.2]
    exact h.locks

theorem user_upd {f : Dispatch → Dispatch} (hf : (f (s.dispatches d)).request = (s.dispatches d).request) (e : ℕ) :
    (s.upd d f).user e = s.user e := by
  by_cases he : e = d
  · subst he
    simp only [St.user, dispatches_upd_self, hf]
  · simp only [St.user, St.upd, Function.update_of_ne he]

/-- the run task of a waiting dispatch gets the lock -/
theorem sound_hold (h : Sound s) (hq : s.ready.now = ⟨.run, d⟩ :: rest) (hwaits : (s.dispatches d).phase.Waits)
    (hthrows : (s.dispatches d).throws = false) (hfree : s.locked (s.user d) = false)
    (hplace : s.locks.place d = .away ∨ s.locks.place d = .waits (s.user d) .result)
    (hothers : ∀ e ∈ s.waiters (s.user d), e ≠ d → s.locks.place e ≠ .waits (s.user d) .result) :
    Sound (((s.pop.upd d fun x => { x with throws := false }).dequeue d).hold d) := by
  have hs : ((s.pop.upd d fun x => { x with throws := false }).dequeue d).hold d =
      { s with
        dispatches := Function.update s.dispatches d { s.dispatches d with throws := false, phase := .user }
        pending := Function.update s.pending (s.user d) ((s.pending (s.user d)).erase d)
        locked := Function.update s.locked (s.user d) true
        waiters := Function.update s.waiters (s.user d) ((s.waiters (s.user d)).erase d)
        ready := s.ready.pop } := by
    simp only [St.hold, St.unregister, St.dequeue, St.pop, St.upd, St.user, Function.update_self, Function.update_idem]
  rw [hs]
  have hpop := ReadyQueue.only_pop_some hq (ofDispatch_self .run d)
  refine h.one d (h.alive_of_now hq) ?_ (fun e he => ?_) ?_ rfl (fun u => ?_) rfl ?_
  · convert Move.hold (s.loc d) _ (now_loc hq) hwaits hthrows using 1
    refine loc_eq (Function.update_self d _ _) hpop.2 ?_
    simp only [St.user, Function.update_self, iff_false]
    exact (h.pendingNodup _).not_mem_erase
  · exact loc_congr (Function.update_of_ne he _ _) (ReadyQueue.only_pop_none hq (ofDispatch_ne he.symm _))
      (mem_pending_erase he (s.user d))
  · simp only [Function.update_self]
  · by_cases hu : u = s.user d
    · simp only [hu, Function.update_self]
      exact List.erase_sublist
    · simp only [Function.update_of_ne hu, List.Sublist.refl]
  · convert h.locks.take hfree hplace hothers using 1
    exact congrArg (Locks.mk · _ _) (place_update s d _)

/-- a task that is not in the queue of the lock leaves it as it is -/
theorem dequeue_of_not_mem (hd : d ∉ s.waiters (s.user d)) : s.dequeue d = s := by
  simp only [St.dequeue, List.erase_of_not_mem hd, Function.update_eq_self]

/-- `Lock.acquire` up to its first await -/
theorem sound_acquire (h : Sound s) (hq : s.ready.now = ⟨.run, d⟩ :: rest) (hphase : (s.dispatches d).phase = .start)
    (hthrows : (s.dispatches d).throws = false) :
    Sound ((s.pop.upd d fun x => { x with throws := false }).acquire d) := by
  have haway : s.locks.place d = .away := by simp only [St.locks, Dispatch.place, hphase]
  have hplaces (e : ℕ) : ((s.pop.upd d fun x => { x with throws := false }).dispatches e).fut = (s.dispatches e).fut := by
    by_cases he : e = d
    · subst he
      rw [dispatches_upd_self]
      rfl
    · simp only [St.upd, Function.update_of_ne he]
      rfl
  have huser : (s.pop.upd d fun x => { x with throws := false }).user d = s.user d := user_upd (s := s.pop) rfl d
  have hopen := open_iff (u := s.user d) h.locks
  unfold St.acquire
  simp only [huser, hplaces]
  split_ifs with hfree
  · have hnot : d ∉ s.waiters (s.user d) := fun hmem => by
      obtain ⟨fut, hfut⟩ := h.locks.waiter _ d hmem
      exact absurd (haway.symm.trans hfut) nofun
    have hall := (hopen.1 hfree).2
    have hheld := sound_hold h hq (Or.inl hphase) hthrows hfree.1 (Or.inl haway) fun e he _ heq => by
      have hcancelled := hall e he
      rw [heq] at hcancelled
      exact absurd hcancelled nofun
    rwa [dequeue_of_not_mem (huser ▸ hnot)] at hheld
  · have hs : { s.pop.upd d fun x => { x with throws := false } with
          waiters := Function.update (s.pop.upd d fun x => { x with throws := false }).waiters (s.user d)
            ((s.pop.upd d fun x => { x with throws := false }).waiters (s.user d) ++ [d]) }.upd d
          (fun x => { x with phase := .lock, fut := .pending }) =
        { s with
          dispatches := Function.update s.dispatches d { s.dispatches d with throws := false, phase := .lock, fut := .pending }
          waiters := Function.update s.waiters (s.user d) (s.waiters (s.user d) ++ [d])
          ready := s.ready.pop } := by
      simp only [St.pop, St.upd, Function.update_self, Function.update_idem]
    rw [hs]
    have hpop := ReadyQueue.only_pop_some hq (ofDispatch_self .run d)
    refine h.one d (h.alive_of_now hq) ?_ (fun e he => ?_) ?_ rfl (fun _ => List.Sublist.refl _) rfl ?_
    · convert Move.enqueue (s.loc d) _ (now_loc hq) hphase hthrows using 1
      refine loc_eq (Function.update_self d _ _) hpop.2 ?_
      simp only [St.user, Function.update_self]
      rfl
    · exact loc_congr (Function.update_of_ne he _ _) (ReadyQueue.only_pop_none hq (ofDispatch_ne he.symm _)) fun _ => Iff.rfl
    · simp only [Function.update_self]
    · convert h.locks.enqueue haway (fun ho => hfree (hopen.2 ho)) using 1
      exact congrArg (Locks.mk · _ _) (place_update s d _)

/-- the run task is done before it had the lock -/
theorem sound_giveUp (h : Sound s) (hq : s.ready.now = ⟨.run, d⟩ :: rest) (hphase : (s.dispatches d).phase = .lock)
    (hthrows : (s.dispatches d).throws = true) :
    Sound ((s.pop.upd d fun x => { x with throws := false }).giveUp d) := by
  let x : Dispatch := { s.dispatches d with throws := false, phase := .ended, runCancelled := true, pipelineError := false }
  let s₁ : St := { s with
    dispatches := Function.update s.dispatches d x
    waiters := Function.update s.waiters (s.user d) ((s.waiters (s.user d)).erase d)
    ready := s.ready.pop }
  have hs : ((s.pop.upd d fun x => { x with throws := false }).endRun d true false).dequeue d = s₁ := by
    simp only [St.endRun, St.dequeue, St.pop, St.upd, St.user, Function.update_self, Function.update_idem, s₁, x]
  have huser : s₁.user d = s.user d := by simp only [St.user, s₁, Function.update_self, x]
  have hpop := ReadyQueue.only_pop_some hq (ofDispatch_self .run d)
  have hplace : s.locks.place d = .waits (s.user d) (s.dispatches d).fut := place_lock hphase
  have hlocks : s₁.locks.Sound fun v => v = s.user d := by
    convert h.locks.leave hplace using 1
    exact congrArg (Locks.mk · _ _) (place_update s d x)
  have hself : s₁.loc d = { s.loc d with x := x, q := (s.loc d).q.pop } := by
    refine loc_eq (Function.update_self d _ _) hpop.2 ?_
    rw [huser]
    rfl
  have hmove : Move (s.loc d) { s₁.loc d with q := (s₁.loc d).q.callSoon .runDone } := by
    rw [hself]
    exact Move.endEarly (s.loc d) _ (now_loc hq) (Or.inr hphase) hthrows
  have hne (e : ℕ) (he : e ≠ d) : s₁.loc e = s.loc e :=
    loc_congr (Function.update_of_ne he _ _) (ReadyQueue.only_pop_none hq (ofDispatch_ne he.symm _)) fun _ => Iff.rfl
  have hx : s₁.dispatches d = x := Function.update_self d _ _
  have hclaimed : (s₁.dispatches d).claimedBy = (s.dispatches d).claimedBy := by rw [hx]
  unfold St.giveUp
  simp only [hs, huser]
  split_ifs with hlocked
  · refine h.one d (h.alive_of_now hq) (loc_soon_self (s := s₁) ▸ hmove) (fun e he => ?_) ?_ rfl
      (fun _ => List.Sublist.refl _) rfl ?_
    · rw [loc_soon_ne he]
      exact hne e he
    · exact hclaimed
    · exact hlocks.mono fun v hv => Or.inr (hv ▸ hlocked)
  · exact sound_wakeUpFirst h (h.alive_of_now hq) hmove hne (congrArg Dispatch.phase hx) hclaimed
      rfl rfl rfl hlocks (eq_false_of_ne_true hlocked)

/-! ## A turn drains the inbox -/

/-- what a claim leaves of an entry -/
def Dispatch.consume (x : Dispatch) (t : ℕ) : Dispatch := { x with consumed := true, claimedBy := x.claimedBy ++ [t] }

/-- the entries of a claim, one after the other -/
theorem loc_consume {t : ℕ} {es : List ℕ} (hes : es.Nodup) (s : St) (d : ℕ) :
    (es.foldl (fun s e => s.consume t e) s).loc d =
      if d ∈ es then
        { s.loc d with
          x := (s.dispatches d).consume t
          q := if (s.dispatches d).fold = .waiting then (s.loc d).q.callSoon .fold else (s.loc d).q }
      else s.loc d := by
  induction es generalizing s with
  | nil => rfl
  | cons e es ih =>
    obtain ⟨hnot, hes⟩ := List.nodup_cons.1 hes
    have hself : (s.consume t e).loc e =
        { s.loc e with
          x := (s.dispatches e).consume t
          q := if (s.dispatches e).fold = .waiting then (s.loc e).q.callSoon .fold else (s.loc e).q } := by
      unfold St.consume
      simp only [dispatches_upd_self]
      split_ifs
      · rw [loc_soon_self, loc_upd_self rfl]
        rfl
      · rw [loc_upd_self rfl]
        rfl
    have hne (d : ℕ) (hd : d ≠ e) : (s.consume t e).loc d = s.loc d := by
      unfold St.consume
      simp only [dispatches_upd_self]
      split_ifs
      · rw [loc_soon_ne hd, loc_upd_ne hd]
      · rw [loc_upd_ne hd]
    rw [List.foldl_cons, ih hes]
    by_cases hd : d = e
    · subst hd
      rw [if_neg hnot, if_pos List.mem_cons_self, hself]
    · rw [hne d hd, show (s.consume t e).dispatches d = s.dispatches d from congrArg Loc.x (hne d hd)]
      simp only [List.mem_cons, hd, false_or]

/-- a claim changes nothing but the entries and the queue -/
theorem consume_frame (t : ℕ) (es : List ℕ) (s : St) :
    (es.foldl (fun s e => s.consume t e) s).count = s.count ∧ (es.foldl (fun s e => s.consume t e) s).pending = s.pending ∧
      (es.foldl (fun s e => s.consume t e) s).stored = s.stored ∧ (es.foldl (fun s e => s.consume t e) s).locks = s.locks := by
  induction es generalizing s with
  | nil => exact ⟨rfl, rfl, rfl, rfl⟩
  | cons e es ih =>
    have hone : (s.consume t e).count = s.count ∧ (s.consume t e).pending = s.pending ∧ (s.consume t e).stored = s.stored ∧
        (s.consume t e).locks = s.locks := by
      unfold St.consume
      have hlocks := locks_upd_same (s := s) (d := e) (f := fun x => x.consume t) rfl
      simp only [dispatches_upd_self]
      split_ifs
      · exact ⟨rfl, rfl, rfl, hlocks⟩
      · exact ⟨rfl, rfl, rfl, hlocks⟩
    obtain ⟨hc, hp, hs, hl⟩ := ih (s.consume t e)
    exact ⟨hc.trans hone.1, hp.trans hone.2.1, hs.trans hone.2.2.1, hl.trans hone.2.2.2⟩

theorem loc_claim {t : ℕ} (h : Sound s) (d : ℕ) : (s.claim t).loc d =
    if d ∈ s.matching t then
      ⟨(s.dispatches d).consume t,
        if (s.dispatches d).fold = .waiting then (s.loc d).q.callSoon .fold else (s.loc d).q, False⟩
    else s.loc d := by
  let s₁ : St := { s with
    pending := Function.update s.pending (s.user t) ((s.pending (s.user t)).filter fun e => e ∉ s.matching t) }
  have hs : s.claim t = (s.matching t).foldl (fun s e => s.consume t e) s₁ := rfl
  have hreg : d ∈ s₁.pending (s₁.user d) ↔ d ∈ s.pending (s.user d) ∧ d ∉ s.matching t := by
    show d ∈ Function.update s.pending (s.user t) _ (s.user d) ↔ _
    by_cases hu : s.user d = s.user t
    · rw [hu, Function.update_self, List.mem_filter, decide_eq_true_iff]
    · rw [Function.update_of_ne hu]
      refine ⟨fun hd => ⟨hd, fun hm => hu ?_⟩, And.left⟩
      exact h.pendingUser _ d (List.mem_of_mem_filter hm)
  have hnodup : (s.matching t).Nodup := (h.pendingNodup _).filter _
  rw [hs, loc_consume hnodup]
  by_cases hd : d ∈ s.matching t
  · rw [if_pos hd, if_pos hd]
    exact congrArg (Loc.mk _ _) (propext ⟨fun hm => (hreg.1 hm).2 hd, False.elim⟩)
  · rw [if_neg hd, if_neg hd]
    exact congrArg (Loc.mk _ _) (propext ⟨fun hm => (hreg.1 hm).1, fun hm => hreg.2 ⟨hm, hd⟩⟩)

/-- what the entries of a claim have in common with the turn -/
theorem mem_matching {t : ℕ} (h : Sound s) (he : e ∈ s.matching t) :
    e ∈ s.pending (s.user e) ∧ s.user t = s.user e ∧
      (s.dispatches t).request.sessionId = (s.dispatches e).request.sessionId ∧
      (s.dispatches t).request.channel = (s.dispatches e).request.channel := by
  obtain ⟨hmem, hmatch⟩ := List.mem_filter.1 he
  obtain ⟨hsession, hchannel⟩ := of_decide_eq_true hmatch
  have huser := h.pendingUser _ e hmem
  exact ⟨huser.symm ▸ hmem, huser.symm, hsession.symm, hchannel.symm⟩

/-- **A claim.** The entries move to the turn, which is another dispatch that holds the lock. -/
theorem within_claim {t : ℕ} (h : Sound s) (ht : (s.dispatches t).phase = .turn) :
    Within s (s.claim t) ∧ (s.claim t).dispatches t = s.dispatches t := by
  obtain ⟨hcount, hpending, hstored, hlocks⟩ := consume_frame t (s.matching t) { s with
    pending := Function.update s.pending (s.user t) ((s.pending (s.user t)).filter fun e => e ∉ s.matching t) }
  have hother (e : ℕ) (he : e ∈ s.matching t) : t ≠ e := by
    intro heq
    subst heq
    rcases (h.inv t).registered (mem_matching h he).1 with (hp | hp) | hp <;> exact absurd (ht.symm.trans hp) (by decide)
  have hself : (s.claim t).dispatches t = s.dispatches t := by
    refine congrArg Loc.x ((loc_claim h t).trans (if_neg fun hm => hother t hm rfl))
  have hheld : s.locked (s.user t) = true :=
    h.locks.holder t (s.user t) (by simp only [St.locks, Dispatch.place, ht, St.user])
  refine ⟨⟨fun d => ?_, hcount, fun e t' ht' => ?_, fun u => ?_, ?_⟩, hself⟩
  · rw [loc_claim h d]
    by_cases hd : d ∈ s.matching t
    · rw [if_pos hd]
      obtain ⟨hreg, huser, -, -⟩ := mem_matching h hd
      refine .single ⟨?_, Move.claim (s.loc d) t hreg fun hlock hfut => ?_⟩
      · intro hidle
        have hnone := (h.inv d).idle hidle
        exact (hnone ▸ hreg : Loc.none.registered)
      · -- a waiter that was woken has a free lock, and the turn holds it
        have hwaits : s.locks.place d = .waits (s.user d) .result :=
          (place_lock hlock).trans (congrArg (LockPlace.waits _) hfut)
        have hfree := (h.locks.woken d _ hwaits).2
        exact absurd (huser ▸ hheld) (ne_true_of_eq_false hfree)
    · rw [if_neg hd]
  · have hx : (s.claim t).dispatches e = if e ∈ s.matching t then (s.dispatches e).consume t else s.dispatches e := by
      have hloc := congrArg Loc.x (loc_claim h (t := t) e)
      split_ifs at hloc ⊢ <;> exact hloc
    rw [hx] at ht'
    split_ifs at ht' with he
    · rcases List.mem_append.1 ht' with hold | hnew
      · exact Or.inl hold
      · obtain rfl := List.mem_singleton.1 hnew
        obtain ⟨-, huser, hsession, hchannel⟩ := mem_matching h he
        rw [if_pos he] at hx
        have hrequest : ((s.claim t').dispatches e).request = (s.dispatches e).request := by rw [hx]; rfl
        refine Or.inr ⟨hother e he, ?_, ?_, ?_, ?_⟩
        · rw [hself]
          exact (h.inv t').turn ht
        · rw [St.user, St.user, hself, hrequest]
          exact huser
        · rw [hself, hrequest]
          exact hsession
        · rw [hself, hrequest]
          exact hchannel
    · exact Or.inl ht'
  · rw [show (s.claim t).pending = _ from hpending]
    by_cases hu : u = s.user t
    · simp only [hu, Function.update_self]
      exact List.filter_sublist
    · simp only [Function.update_of_ne hu, List.Sublist.refl]
  · exact (show (s.claim t).stored = s.stored from hstored) ▸ List.prefix_refl _

theorem locks_claim (s : St) (t : ℕ) : (s.claim t).locks = s.locks := (consume_frame t (s.matching t) _).2.2.2

theorem sound_drain (h : Sound s) (ht : (s.dispatches d).phase = .turn) :
    Sound (s.drain d) ∧ (s.drain d).dispatches d = s.dispatches d := by
  unfold St.drain
  split_ifs
  · obtain ⟨hwithin, hself⟩ := within_claim h ht
    exact ⟨h.within hwithin (by rw [locks_claim]; exact h.locks), hself⟩
  · exact ⟨h, rfl⟩

/-- more rows are stored -/
theorem Sound.store (h : Sound s) (rows : List (Str × History.StoredMessage)) : Sound { s with stored := s.stored ++ rows } :=
  { h with
    claimers := fun e t ht => by
      obtain ⟨hother, hrunning, huser, hsession, hchannel⟩ := h.claimers e t ht
      exact ⟨hother, hrunning, huser, hsession, hchannel⟩
    stored := fun d hd m hm => List.mem_append_left _ (h.stored d hd m hm) }

theorem sound_turnStep (h : Sound s) (ht : (s.dispatches d).phase = .turn) (c : Choice) : Sound (s.turnStep d c) := by
  have hdrained : Sound (if c.drains then s.drain d else s) ∧
      (if c.drains then s.drain d else s).dispatches d = s.dispatches d := by
    split_ifs
    · exact sound_drain h ht
    · exact ⟨h, rfl⟩
  unfold St.turnStep
  generalize (if c.drains then s.drain d else s) = s₁ at hdrained ⊢
  obtain ⟨h₁, hself⟩ := hdrained
  have hturn : (s₁.dispatches d).phase = .turn := hself ▸ ht
  simp only
  split_ifs
  · exact h₁
  · exact sound_leave (h₁.store _) false c.raises (Or.inl hturn) nofun fun _ => Or.inl ((h₁.inv d).turn hturn)

/-- the exception leaves the lock, or waits for a while first -/
theorem sound_unwound {s₁ : St} (h : Sound s₁) (hphase : (s₁.dispatches d).phase = .unwind) (c : Choice) :
    Sound (if c.more then s₁
      else s₁.leave d ((s₁.dispatches d).cancelRequested && !c.raises) !((s₁.dispatches d).cancelRequested && !c.raises)) := by
  split_ifs
  · exact h
  · refine sound_leave h _ _ (Or.inr hphase) (fun hc => ?_) fun hc => Or.inr (by simp [hc])
    exact (Bool.and_eq_true_iff.1 hc).1

theorem sound_unwind (h : Sound s) (hq : s.ready.now = ⟨.run, d⟩ :: rest)
    (hphase : (s.dispatches d).phase.Reloads ∨ (s.dispatches d).phase = .turn ∨ (s.dispatches d).phase = .unwind)
    (c : Choice) : Sound ((s.pop.upd d fun x => { x with throws := false }).unwind d c) := by
  have hs : Sound (s.pop.upd d fun x => { x with throws := false, phase := .unwind }) := by
    refine sound_call h hq _ ⟨rfl, rfl, ?_⟩ (Move.unwind (s.loc d) _ (now_loc hq) hphase)
    rcases hphase with (hp | hp) | hp | hp <;> simp only [Dispatch.place, hp]
  unfold St.unwind
  simp only [upd_upd]
  exact sound_unwound hs (congrArg Dispatch.phase (dispatches_upd_self (s := s.pop))) c

/-- **A step of the run task.** -/
theorem sound_runStep (h : Sound s) (hq : s.ready.now = ⟨.run, d⟩ :: rest) (c : Choice) : Sound (s.pop.runStep d c) := by
  have hnow := now_loc hq
  have hinv := h.inv d
  have hqueued : .run ∈ (s.loc d).q.handles := (ReadyQueue.mem_pop hnow).2 (Or.inl rfl)
  have hpop : (s.pop.dispatches d).phase = (s.dispatches d).phase := rfl
  unfold St.runStep
  cases hphase : (s.dispatches d).phase with
  | idle => exact absurd hphase (h.alive_of_now hq)
  | start =>
    simp only [hpop.trans hphase]
    by_cases hthrows : (s.pop.dispatches d).throws = true
    · rw [if_pos hthrows, St.endRun, upd_upd]
      refine sound_call_soon h hq _ .runDone ⟨rfl, rfl, ?_⟩ ?_
      · simp only [Dispatch.place, hphase]
      · exact Move.endEarly (s.loc d) _ hnow (Or.inl hphase) hthrows
    · rw [if_neg hthrows]
      exact sound_acquire h hq hphase (eq_false_of_ne_true hthrows)
  | lock =>
    simp only [hpop.trans hphase]
    by_cases hthrows : (s.pop.dispatches d).throws = true
    · rw [if_pos hthrows]
      exact sound_giveUp h hq hphase hthrows
    · rw [if_neg hthrows]
      have hquiet := eq_false_of_ne_true hthrows
      have hfut : (s.dispatches d).fut = .result := by
        cases hf : (s.dispatches d).fut with
        | pending => exact absurd hqueued (hinv.lockPending hphase hf).1
        | result => rfl
        | cancelled => exact absurd (hinv.lockCancelled hphase hf) hthrows
      have hplace : s.locks.place d = .waits (s.user d) .result := (place_lock hphase).trans (congrArg (LockPlace.waits _) hfut)
      obtain ⟨hhead, hfree⟩ := h.locks.woken d _ hplace
      refine sound_hold h hq (Or.inr hphase) hquiet hfree (Or.inr hplace) fun e _ hne he => hne ?_
      exact Option.some.inj ((h.locks.woken e _ he).1.symm.trans hhead)
  | user =>
    simp only [hpop.trans hphase]
    have hthrows : (s.pop.dispatches d).throws = (s.dispatches d).throws := rfl
    split_ifs with hends hmore
    · exact sound_unwind h hq (Or.inl (Or.inl hphase)) c
    · have hquiet : (s.dispatches d).throws = false := by grind -ring -linarith -order -ac
      exact sound_call h hq _ ⟨rfl, rfl, rfl⟩ (Move.again (s.loc d) _ hnow (Or.inl ⟨Or.inl hphase, hquiet⟩))
    · have hquiet : (s.dispatches d).throws = false := by grind -ring -linarith -order -ac
      rw [upd_upd]
      refine sound_call h hq _ ⟨rfl, rfl, ?_⟩ (Move.reload (s.loc d) _ hnow hphase hquiet)
      simp only [Dispatch.place, hphase]
  | session =>
    simp only [hpop.trans hphase]
    have hthrows : (s.pop.dispatches d).throws = (s.dispatches d).throws := rfl
    split_ifs with hends hmore
    · exact sound_unwind h hq (Or.inl (Or.inr hphase)) c
    · have hquiet : (s.dispatches d).throws = false := by grind -ring -linarith -order -ac
      exact sound_call h hq _ ⟨rfl, rfl, rfl⟩ (Move.again (s.loc d) _ hnow (Or.inl ⟨Or.inr hphase, hquiet⟩))
    · have hquiet : (s.dispatches d).throws = false := by grind -ring -linarith -order -ac
      rw [upd_upd]
      refine sound_turnStep (sound_call h hq _ ⟨rfl, rfl, ?_⟩ (Move.begin (s.loc d) _ hnow hphase hquiet)) ?_ c
      · simp only [Dispatch.place, hphase]
      · exact congrArg Dispatch.phase (dispatches_upd_self (s := s.pop))
  | turn =>
    simp only [hpop.trans hphase]
    split_ifs with hends
    · exact sound_unwind h hq (Or.inr (Or.inl hphase)) c
    · refine sound_turnStep (sound_call h hq _ ⟨rfl, rfl, rfl⟩ (Move.again (s.loc d) _ hnow (Or.inr hphase))) ?_ c
      exact (congrArg Dispatch.phase (dispatches_upd_self (s := s.pop))).trans hphase
  | unwind =>
    simp only [hpop.trans hphase]
    exact sound_unwind h hq (Or.inr (Or.inr hphase)) c
  | ended =>
    simp only [hpop.trans hphase]
    exact sound_call h hq _ ⟨rfl, rfl, rfl⟩ (Move.stale (s.loc d) _ hnow hphase)

/-! ## The other callbacks -/

theorem loc_pop (hq : s.ready.now = ⟨k, d⟩ :: rest) : s.pop.loc d = { s.loc d with q := (s.loc d).q.pop } := (loc_pop_self hq).2

/-- the callback changes nothing -/
theorem sound_pop (h : Sound s) (hq : s.ready.now = ⟨k, d⟩ :: rest) (hmove : Move (s.loc d) { s.loc d with q := (s.loc d).q.pop }) :
    Sound s.pop :=
  h.one d (h.alive_of_now hq) (loc_pop hq ▸ hmove) (fun _ he => loc_pop_ne hq he) rfl rfl (fun _ => List.Sublist.refl _) rfl
    h.locks

/-- the callback wakes a task of its dispatch -/
theorem sound_pop_wake (h : Sound s) (hq : s.ready.now = ⟨k, d⟩ :: rest) (j : Kind)
    (hmove : Move (s.loc d) { s.loc d with q := (s.loc d).q.pop.wake j }) : Sound (s.pop.wake j d) := by
  refine h.one d (h.alive_of_now hq) ?_ (fun e he => ?_) rfl rfl (fun _ => List.Sublist.refl _) rfl h.locks
  · rw [loc_wake_self, loc_pop hq]
    exact hmove
  · rw [loc_wake_ne he]
    exact loc_pop_ne hq he

theorem sound_ioReady (h : Sound s) (hq : s.ready.now = ⟨.ioReady, d⟩ :: rest) (c : Choice) :
    Sound (s.pop.call c ⟨.ioReady, d⟩) := by
  show Sound (if (s.dispatches d).phase = .user ∨ (s.dispatches d).phase = .session then s.pop.wake .run d else s.pop)
  by_cases hphase : (s.dispatches d).phase = .user ∨ (s.dispatches d).phase = .session
  · rw [if_pos hphase]
    exact sound_pop_wake h hq .run (Move.ioReady (s.loc d) _ (now_loc hq) hphase)
  · rw [if_neg hphase]
    exact sound_pop h hq (Move.ioStale (s.loc d) _ (now_loc hq) hphase)

theorem sound_foldStep (h : Sound s) (hq : s.ready.now = ⟨.fold, d⟩ :: rest) : Sound (s.pop.foldStep d) := by
  unfold St.foldStep
  by_cases hfold : (s.pop.dispatches d).fold = .ended
  · rw [if_pos hfold]
    exact sound_pop h hq (Move.foldEnded (s.loc d) _ (now_loc hq) hfold)
  · rw [if_neg hfold]
    by_cases hconsumed : (s.pop.dispatches d).consumed = true
    · rw [if_pos hconsumed]
      exact sound_call_soon h hq _ .foldDone ⟨rfl, rfl, rfl⟩ (Move.foldConsumed (s.loc d) _ (now_loc hq) hfold hconsumed)
    · rw [if_neg hconsumed]
      exact sound_call h hq _ ⟨rfl, rfl, rfl⟩
        (Move.foldWaits (s.loc d) _ (now_loc hq) hfold (eq_false_of_ne_true hconsumed))

theorem sound_foldDone (h : Sound s) (hq : s.ready.now = ⟨.foldDone, d⟩ :: rest) (c : Choice) :
    Sound (s.pop.call c ⟨.foldDone, d⟩) := by
  show Sound (if (s.dispatches d).dispatch = .waiting then s.pop.wake .dispatch d else s.pop)
  by_cases hwaits : (s.dispatches d).dispatch = .waiting
  · rw [if_pos hwaits]
    exact sound_pop_wake h hq .dispatch (Move.done (s.loc d) .foldDone _ (now_loc hq) (Or.inl rfl) (Or.inl hwaits))
  · rw [if_neg hwaits]
    exact sound_pop h hq (Move.doneStale (s.loc d) .foldDone _ (now_loc hq) (Or.inl rfl) hwaits nofun)

theorem sound_runDone (h : Sound s) (hq : s.ready.now = ⟨.runDone, d⟩ :: rest) (c : Choice) :
    Sound (s.pop.call c ⟨.runDone, d⟩) := by
  show Sound (if (s.dispatches d).dispatch = .ended then s.pop else s.pop.wake .dispatch d)
  cases hstage : (s.dispatches d).dispatch with
  | ended =>
    have hne : (s.dispatches d).dispatch ≠ .waiting := by simp [hstage]
    exact sound_pop h hq (Move.doneStale (s.loc d) .runDone _ (now_loc hq) (Or.inr rfl) hne fun _ => hstage)
  | waiting => exact sound_pop_wake h hq .dispatch (Move.done (s.loc d) .runDone _ (now_loc hq) (Or.inr rfl) (Or.inl hstage))
  | joining =>
    exact sound_pop_wake h hq .dispatch (Move.done (s.loc d) .runDone _ (now_loc hq) (Or.inr rfl) (Or.inr ⟨rfl, hstage⟩))

/-- the dispatch ends -/
theorem sound_finish (h : Sound s) (hq : s.ready.now = ⟨.dispatch, d⟩ :: rest) (f : FoldTask)
    (hstage : ((s.dispatches d).dispatch = .waiting ∧ (s.dispatches d).phase = .ended ∧ f = .ended) ∨
      ((s.dispatches d).dispatch = .joining ∧ f = (s.dispatches d).fold)) :
    Sound ((s.pop.upd d fun x => { x with fold := f }).finish d) := by
  let x : Dispatch := { s.dispatches d with
    fold := f
    dispatch := .ended
    outcome := some (
      if (s.dispatches d).cancelled then .cancelled
      else if (s.dispatches d).runCancelled then .folded
      else if (s.dispatches d).pipelineError then .errorFallback
      else .completed) }
  have hs : (s.pop.upd d fun x => { x with fold := f }).finish d =
      { s with
        dispatches := Function.update s.dispatches d x
        pending := Function.update s.pending (s.user d) ((s.pending (s.user d)).erase d)
        ready := s.ready.pop } := by
    simp only [St.finish, St.unregister, St.pop, St.upd, St.user, Function.update_self, Function.update_idem, x]
  rw [hs]
  have hpop := ReadyQueue.only_pop_some hq (ofDispatch_self .dispatch d)
  refine h.one d (h.alive_of_now hq) ?_ (fun e he => ?_) ?_ rfl (fun u => ?_) rfl ?_
  · convert Move.finish (s.loc d) _ f (now_loc hq) hstage using 1
    refine loc_eq (Function.update_self d _ _) hpop.2 ?_
    simp only [St.user, Function.update_self, iff_false, x]
    exact (h.pendingNodup _).not_mem_erase
  · exact loc_congr (Function.update_of_ne he _ _) (ReadyQueue.only_pop_none hq (ofDispatch_ne he.symm _))
      (mem_pending_erase he (s.user d))
  · simp only [Function.update_self, x]
  · by_cases hu : u = s.user d
    · simp only [hu, Function.update_self]
      exact List.erase_sublist
    · simp only [Function.update_of_ne hu, List.Sublist.refl]
  · convert h.locks using 1
    refine congrArg (Locks.mk · _ _) ((place_update s d x).trans ?_)
    exact Function.update_eq_self d _

/-- the run task is cancelled: a waiter of the lock is cancelled with it -/
theorem locks_cancelRun (h : Sound s) {x : Dispatch} (hphase : x.phase = (s.dispatches d).phase)
    (hrequest : x.request = (s.dispatches d).request)
    (hfut : x.fut = if (s.dispatches d).phase = .lock ∧ (s.dispatches d).fut = .pending then .cancelled
      else (s.dispatches d).fut) : (s.locks.put d x.place).Sound fun _ => False := by
  by_cases hwaits : (s.dispatches d).phase = .lock ∧ (s.dispatches d).fut = .pending
  · have hplace : s.locks.place d = .waits (s.user d) .pending :=
      (place_lock hwaits.1).trans (congrArg (LockPlace.waits _) hwaits.2)
    have hx : x.place = .waits (s.user d) .cancelled := by
      rw [place_lock (hphase.trans hwaits.1), hrequest, hfut, if_pos hwaits, St.user]
    rw [hx]
    exact h.locks.cancel hplace
  · have hx : x.place = s.locks.place d := by
      simp only [St.locks, Dispatch.place, hphase, hrequest, hfut, if_neg hwaits]
    rw [hx, Locks.put, Function.update_eq_self]
    exact h.locks

theorem sound_join (h : Sound s) (hq : s.ready.now = ⟨.dispatch, d⟩ :: rest) (hstage : (s.dispatches d).dispatch = .waiting)
    (hphase : (s.dispatches d).phase ≠ .ended) :
    Sound (((s.pop.upd d fun x => { x with fold := .ended }).upd d fun x => { x with dispatch := .joining }).cancelRun d) := by
  let x : Dispatch := { s.dispatches d with
    fold := .ended
    dispatch := .joining
    throws := true
    cancelRequested := true
    fut := if (s.dispatches d).phase = .lock ∧ (s.dispatches d).fut = .pending then .cancelled else (s.dispatches d).fut }
  let s₁ : St := { s with dispatches := Function.update s.dispatches d x, ready := s.ready.pop }
  have hs : ((s.pop.upd d fun x => { x with fold := .ended }).upd d fun x => { x with dispatch := .joining }).cancelRun d =
      s₁.wake .run d := by
    simp only [St.cancelRun, St.pop, St.upd, Function.update_self, Function.update_idem, x, s₁]
  have hx : s₁.dispatches d = x := Function.update_self d _ _
  have hpop := ReadyQueue.only_pop_some hq (ofDispatch_self .dispatch d)
  have hloc : s₁.loc d = { s.loc d with x := x, q := (s.loc d).q.pop } := by
    refine loc_eq hx hpop.2 ?_
    have huser : s₁.user d = s.user d := congrArg (fun x => x.request.userId) hx
    rw [huser]
    rfl
  rw [hs]
  refine h.one d (h.alive_of_now hq) ?_ (fun e he => ?_) ?_ rfl (fun _ => List.Sublist.refl _) rfl ?_
  · rw [loc_wake_self, hloc]
    exact Move.join (s.loc d) _ (now_loc hq) hstage hphase
  · rw [loc_wake_ne he]
    exact loc_congr (Function.update_of_ne he _ _) (ReadyQueue.only_pop_none hq (ofDispatch_ne he.symm _)) fun _ => Iff.rfl
  · show (s₁.dispatches d).claimedBy = (s.dispatches d).claimedBy
    rw [hx]
  · convert locks_cancelRun h (d := d) (x := x) rfl rfl rfl using 1
    exact congrArg (Locks.mk · _ _) (place_update s d x)

theorem sound_dispatchStep (h : Sound s) (hq : s.ready.now = ⟨.dispatch, d⟩ :: rest) : Sound (s.pop.dispatchStep d) := by
  have hpop : (s.pop.dispatches d).dispatch = (s.dispatches d).dispatch := rfl
  unfold St.dispatchStep
  cases hstage : (s.dispatches d).dispatch with
  | waiting =>
    simp only [hpop.trans hstage]
    by_cases hphase : (s.pop.dispatches d).phase = .ended
    · rw [if_pos hphase]
      exact sound_finish h hq .ended (Or.inl ⟨hstage, hphase, rfl⟩)
    · rw [if_neg hphase]
      exact sound_join h hq hstage hphase
  | joining =>
    simp only [hpop.trans hstage]
    have hsame : (s.pop.upd d fun x => { x with fold := (s.dispatches d).fold }) = s.pop :=
      congrArg (fun f => { s.pop with dispatches := f }) (Function.update_eq_self d s.dispatches)
    have hfinish := sound_finish h hq (s.dispatches d).fold (Or.inr ⟨hstage, rfl⟩)
    rwa [hsame] at hfinish
  | ended =>
    simp only [hpop.trans hstage]
    exact sound_pop h hq (Move.dispatchStale (s.loc d) _ (now_loc hq) hstage)

theorem sound_call_any (h : Sound s) {x : Handle} (hq : s.ready.now = x :: rest) (c : Choice) : Sound (s.pop.call c x) := by
  obtain ⟨k, d⟩ := x
  cases k with
  | run => exact sound_runStep h hq c
  | ioReady => exact sound_ioReady h hq c
  | fold => exact sound_foldStep h hq
  | foldDone => exact sound_foldDone h hq c
  | runDone => exact sound_runDone h hq c
  | dispatch => exact sound_dispatchStep h hq

/-! ## Every step -/

/-- an event from outside wakes a task of a dispatch that there is -/
theorem sound_event (h : Sound s) (f : Dispatch → Dispatch) (hphase : (s.dispatches d).phase ≠ .idle)
    (hf : (f (s.dispatches d)).request = (s.dispatches d).request ∧
      (f (s.dispatches d)).claimedBy = (s.dispatches d).claimedBy)
    (hlocks : (s.locks.put d (f (s.dispatches d)).place).Sound fun _ => False)
    (hmove : Move (s.loc d) { s.loc d with x := f (s.dispatches d), q := (s.loc d).q.wake k }) :
    Sound ((s.upd d f).wake k d) := by
  refine h.one d hphase ?_ (fun e he => ?_) ?_ rfl (fun _ => List.Sublist.refl _) rfl ?_
  · rw [loc_wake_self, loc_upd_self hf.1]
    exact hmove
  · rw [loc_wake_ne he, loc_upd_ne he]
  · exact (congrArg Dispatch.claimedBy dispatches_upd_self).trans hf.2
  · rw [← locks_upd] at hlocks
    exact hlocks

theorem put_self (s : St) (d : ℕ) : s.locks.put d (s.dispatches d).place = s.locks :=
  congrArg (Locks.mk · _ _) (Function.update_eq_self d _)

theorem sound_resume (h : Sound s) (hphase : (s.dispatches d).phase = .turn ∨ (s.dispatches d).phase = .unwind) :
    Sound (s.wake .run d) := by
  refine h.one d (by rcases hphase with hp | hp <;> simp [hp]) ?_ (fun e he => loc_wake_ne he) rfl rfl
    (fun _ => List.Sublist.refl _) rfl h.locks
  rw [loc_wake_self]
  exact Move.resume (s.loc d) hphase

theorem sound_expire (h : Sound s) (hphase : (s.dispatches d).phase.Reloads ∨ (s.dispatches d).phase = .turn) :
    Sound ((s.upd d fun x => { x with throws := true }).wake .run d) := by
  refine sound_event h _ (by rcases hphase with (hp | hp) | hp <;> simp [hp]) ⟨rfl, rfl⟩ ?_ (Move.expire (s.loc d) hphase)
  exact (put_self s d).symm ▸ h.locks

theorem sound_cancel (h : Sound s) (d : ℕ) : Sound (s.cancel d) := by
  unfold St.cancel
  simp only
  split_ifs with hopen hinline
  · refine sound_event h _ (h.alive_of_waiting hopen) ⟨rfl, rfl⟩ ?_ (Move.cancel (s.loc d) hopen)
    exact (put_self s d).symm ▸ h.locks
  · obtain ⟨hfoldable, halive, hended⟩ := hinline
    rw [St.cancelRun, upd_upd]
    refine sound_event h _ halive ⟨rfl, rfl⟩ ?_ (Move.cancelInline (s.loc d) hfoldable halive hended)
    exact locks_cancelRun h rfl rfl rfl
  · exact h

theorem sound_io (h : Sound s) (hnow : s.ready.now = []) (haw : s.Awaiting d) (hk : k = .run ∨ k = .ioReady) :
    Sound (s.soon k d) := by
  obtain ⟨hphase, hrun, hio⟩ := haw
  refine h.one d (by rcases hphase with hp | hp <;> simp [hp]) ?_ (fun e he => loc_soon_ne he) rfl rfl
    (fun _ => List.Sublist.refl _) rfl h.locks
  rw [loc_soon_self]
  refine Move.io (s.loc d) k ?_ hphase (fun hm => hrun (queued_iff.2 hm)) (fun hm => hio (queued_iff.2 hm)) hk
  show s.ready.now.filterMap _ = []
  rw [hnow]
  rfl

theorem sound_iterate (h : Sound s) (hnow : s.ready.now = []) : Sound { s with ready := s.ready.iterate } := by
  have hloc (d : ℕ) : (s.loc d).q.now = [] := by
    show s.ready.now.filterMap _ = []
    rw [hnow]
    rfl
  refine { h with
    inv := fun d => inv_iterate (h.inv d) (hloc d)
    fresh := fun d hd => ?_
    claimers := fun e t ht => ?_ }
  · have hnone := h.fresh d hd
    show ({ s.loc d with q := (s.loc d).q.iterate } : Loc) = .none
    rw [hnone]
    rfl
  · obtain ⟨hother, hrunning, huser, hsession, hchannel⟩ := h.claimers e t ht
    exact ⟨hother, hrunning, huser, hsession, hchannel⟩

/-- a dispatch that there is not has no callbacks, and is not registered -/
theorem Sound.not_pending (h : Sound s) (u : Str) : s.count ∉ s.pending u := by
  intro hmem
  have hnone := h.fresh s.count le_rfl
  have hreg : s.count ∈ s.pending (s.user s.count) := by rwa [h.pendingUser u _ hmem]
  have hloc : (s.loc s.count).registered := hreg
  exact (hnone ▸ hloc : Loc.none.registered)

/-- a new dispatch, for what the invariant says of the others -/
theorem sound_new {x : Dispatch} (h : Sound s) (hcount : s'.count = s.count + 1)
    (hx : s'.dispatches = Function.update s.dispatches s.count x)
    (hloc : ∀ e, e ≠ s.count → s'.loc e = s.loc e) (hmove : Move .none (s'.loc s.count)) (hphase : x.phase = .start)
    (hclaimed : x.claimedBy = [])
    (hpending : ∀ u, s'.pending u = s.pending u ∨ (u = x.request.userId ∧ s'.pending u = s.pending u ++ [s.count]))
    (hlocked : s'.locked = s.locked) (hwaiters : s'.waiters = s.waiters)
    (hstored : s'.stored = s.stored ++ x.request.messages.map fun m => (x.request.sessionId, m)) : Sound s' := by
  have hnone : s.dispatches s.count = .none := congrArg Loc.x (h.fresh s.count le_rfl)
  have hself : s'.dispatches s.count = x := by rw [hx, Function.update_self]
  have hother (e : ℕ) (he : e ≠ s.count) : s'.dispatches e = s.dispatches e := congrArg Loc.x (hloc e he)
  have huser (e : ℕ) (he : e ≠ s.count) : s'.user e = s.user e := congrArg (fun x => x.request.userId) (hother e he)
  refine ⟨fun d => ?_, fun d hd => ?_, fun d hd => ?_, fun u d hd => ?_, fun u => ?_, ?_, fun e t ht => ?_,
    fun d hd m hm => ?_⟩
  · by_cases he : d = s.count
    · exact he ▸ inv_move inv_none hmove
    · exact hloc d he ▸ h.inv d
  · have he : d ≠ s.count := by omega
    exact (hloc d he).trans (h.fresh d (by omega))
  · by_cases he : d = s.count
    · rw [he, hself, hphase]
      decide
    · rw [hother d he]
      exact h.live d (by omega)
  · have hold (hmem : d ∈ s.pending u) : s'.user d = u := by
      have he : d ≠ s.count := fun heq => h.not_pending u (heq ▸ hmem)
      exact (huser d he).trans (h.pendingUser u d hmem)
    rcases hpending u with heq | ⟨hu, heq⟩
    · exact hold (heq ▸ hd)
    · rw [heq] at hd
      rcases List.mem_append.1 hd with hmem | hmem
      · exact hold hmem
      · rw [List.mem_singleton.1 hmem, St.user, hself, hu]
  · rcases hpending u with heq | ⟨_, heq⟩
    · exact heq ▸ h.pendingNodup u
    · rw [heq]
      refine List.Nodup.append (h.pendingNodup u) (List.nodup_singleton _) fun d hd hmem => ?_
      exact h.not_pending u (List.mem_singleton.1 hmem ▸ hd)
  · have hlocks : s'.locks = s.locks := by
      rw [St.locks, hx, hlocked, hwaiters, place_update, Dispatch.place, hphase]
      refine congrArg (Locks.mk · _ _) ?_
      have haway : s.locks.place s.count = .away := by simp only [St.locks, hnone, Dispatch.none, Dispatch.place]
      rw [← haway, Function.update_eq_self]
      rfl
    exact hlocks ▸ h.locks
  · by_cases he : e = s.count
    · rw [he, hself, hclaimed] at ht
      exact absurd ht List.not_mem_nil
    · rw [hother e he] at ht
      obtain ⟨hne, hrunning, husers, hsession, hchannel⟩ := h.claimers e t ht
      have hte : t ≠ s.count := fun heq => by
        rw [heq, hnone] at hrunning
        exact absurd hrunning Bool.false_ne_true
      refine ⟨hne, hother t hte ▸ hrunning, ?_, ?_, ?_⟩
      · rw [huser t hte, huser e he, husers]
      · rw [hother t hte, hother e he, hsession]
      · rw [hother t hte, hother e he, hchannel]
  · rw [hstored]
    by_cases he : d = s.count
    · rw [he, hself] at hm ⊢
      exact List.mem_append_right _ (List.mem_map_of_mem hm)
    · rw [hother d he] at hm ⊢
      exact List.mem_append_left _ (h.stored d (by omega) m hm)

theorem sound_dispatch (h : Sound s) (r : Request) : Sound (s.dispatch r) := by
  have hempty : s.ready.only (ofDispatch s.count) = .empty := congrArg Loc.q (h.fresh s.count le_rfl)
  have hself (k : Kind) (q : ReadyQueue Handle) :
      (q.callSoon ⟨k, s.count⟩).only (ofDispatch s.count) = (q.only (ofDispatch s.count)).callSoon k :=
    ReadyQueue.only_callSoon_some (ofDispatch_self k s.count)
  have hother (e : ℕ) (he : e ≠ s.count) (k : Kind) (q : ReadyQueue Handle) :
      (q.callSoon ⟨k, s.count⟩).only (ofDispatch e) = q.only (ofDispatch e) :=
    ReadyQueue.only_callSoon_none (ofDispatch_ne he.symm k)
  by_cases hr : r.Foldable
  · let x : Dispatch := { request := r, phase := .start, fold := .start, dispatch := .waiting }
    have hs : s.dispatch r =
        { s with
          dispatches := Function.update s.dispatches s.count x
          count := s.count + 1
          pending := Function.update s.pending r.userId (s.pending r.userId ++ [s.count])
          ready := (s.ready.callSoon ⟨.run, s.count⟩).callSoon ⟨.fold, s.count⟩
          stored := s.stored ++ r.messages.map fun m => (r.sessionId, m) } := by
      simp only [St.dispatch, if_pos hr, St.register, St.soon, St.upd, St.user, Function.update_self, x]
    rw [hs]
    refine sound_new (x := x) h rfl rfl (fun e he => ?_) ?_ rfl rfl (fun u => ?_) rfl rfl rfl
    · refine loc_congr (Function.update_of_ne he _ _) ?_ fun u => ?_
      · show ((s.ready.callSoon ⟨.run, s.count⟩).callSoon ⟨.fold, s.count⟩).only _ = _
        rw [hother e he, hother e he]
      · by_cases hu : u = r.userId
        · simp only [hu, Function.update_self, List.mem_append, List.mem_singleton, he, or_false]
        · simp only [Function.update_of_ne hu]
    · convert Move.dispatch r hr using 1
      refine loc_eq (Function.update_self _ _ _) ?_ ?_
      · show ((s.ready.callSoon ⟨.run, s.count⟩).callSoon ⟨.fold, s.count⟩).only _ = _
        rw [hself, hself, hempty]
        rfl
      · simp only [St.user, Function.update_self, iff_true, x]
        exact List.mem_append_right _ (List.mem_singleton_self _)
    · by_cases hu : u = r.userId
      · exact Or.inr ⟨hu, by simp only [hu, Function.update_self]⟩
      · exact Or.inl (by simp only [Function.update_of_ne hu])
  · let x : Dispatch := { request := r, phase := .start, fold := .ended, dispatch := .ended }
    have hs : s.dispatch r =
        { s with
          dispatches := Function.update s.dispatches s.count x
          count := s.count + 1
          ready := s.ready.callSoon ⟨.run, s.count⟩
          stored := s.stored ++ r.messages.map fun m => (r.sessionId, m) } := by
      simp only [St.dispatch, if_neg hr, St.soon, St.upd, x]
    rw [hs]
    refine sound_new (x := x) h rfl rfl (fun e he => ?_) ?_ rfl rfl (fun u => Or.inl rfl) rfl rfl rfl
    · exact loc_congr (Function.update_of_ne he _ _) (hother e he .run s.ready) fun _ => Iff.rfl
    · convert Move.dispatchInline r hr using 1
      refine loc_eq (Function.update_self _ _ _) ?_ ?_
      · show (s.ready.callSoon ⟨.run, s.count⟩).only _ = _
        rw [hself, hempty]
        rfl
      · simp only [iff_false]
        exact h.not_pending _

theorem loc_init (d : ℕ) : init.loc d = .none := loc_eq rfl rfl (iff_of_false List.not_mem_nil not_false)

theorem sound_init : Sound init where
  inv := fun d => loc_init d ▸ inv_none
  fresh := fun d _ => loc_init d
  live := nofun
  pendingUser := nofun
  pendingNodup := fun _ => List.nodup_nil
  locks := ⟨nofun, nofun, fun _ => List.nodup_nil, nofun, nofun, nofun, nofun, nofun⟩
  claimers := nofun
  stored := nofun

/-- **Every step keeps the invariant.** -/
theorem sound_step (h : Sound s) (o : Op) : Sound (step s o) := by
  cases o with
  | dispatch r => exact sound_dispatch h r
  | tick c =>
    unfold step
    cases hnow : s.ready.now with
    | nil => exact h
    | cons x rest => exact sound_call_any h hnow c
  | iterate =>
    unfold step
    simp only
    split_ifs with hnow
    · exact sound_iterate h hnow
    · exact h
  | io d direct =>
    unfold step
    simp only
    by_cases hok : s.ready.now = [] ∧ s.Awaiting d
    · rw [if_pos hok]
      exact sound_io h hok.1 hok.2 (by cases direct <;> simp)
    · rw [if_neg hok]
      exact h
  | resume d =>
    unfold step
    simp only
    split_ifs with hphase
    · exact sound_resume h hphase
    · exact h
  | expire d =>
    unfold step
    simp only
    split_ifs with hphase
    · exact sound_expire h (or_assoc.2 hphase)
    · exact h
  | cancel d => exact sound_cancel h d

theorem sound_run (ops : List Op) : Sound (run init ops) :=
  @Runs.run_inv_all _ _ step Sound (fun _ o h => sound_step h o) init ops sound_init

end Clawbolt.Midturn
