/-
One approval request, any number of `resolve` calls, and a timeout that may fire at any point.

`resolve` publishes its decision before two awaited database calls and wakes the request only after them, so a second
`resolve` or the timeout can land in between. `Orderly` says that neither does: no `resolve` begins, and no timeout
fires, while the pending entry carries a decision; and the prompt is sent.

Results:
- `one_outcome`: in every run whose operations are orderly, once everything has returned, the log holds exactly one
  terminal event, the request returned the decision of that event (DENIED for `timed_out`), exactly the reply with that
  decision returned True, and neither a pending entry nor a pending row is left;
- `resolved_twice`: two replies in a row are both logged as the decision and both return True.
-/
import Mathlib.Tactic
import Clawbolt.Approval.Gate

namespace Clawbolt.Approval.OneRequest

open Clawbolt.Approval

/-- the state in which one request was just called -/
def called1 (toolName description channel chatId : String) : St :=
  step init (.requestApproval toolName description channel chatId)

/-- no decision has been published on request `i` -/
def Undecided (s : St) (i : ℕ) : Prop := ∀ r ∈ s.requests[i]?, r.decision = none

instance (s : St) (i : ℕ) : Decidable (Undecided s i) := by unfold Undecided; infer_instance

/-- no second request, no reply and no timeout on a decided request, and the prompt is sent -/
def Orderly (s : St) : Op → Prop
  | .requestApproval .. => False
  | .publishFails _ => False
  | .timeout i => Undecided s i
  | .resolve _ => ∀ i ∈ s.pending, Undecided s i
  | _ => True

instance (s : St) (o : Op) : Decidable (Orderly s o) := by
  cases o <;> unfold Orderly <;> infer_instance

/-- One request, one outcome, and the audit trail agrees with it. -/
def OneOutcome (s : St) : Prop :=
  ∃ r d, s.requests = [r] ∧ r.phase = .done d ∧ s.pending = none ∧ s.row = none ∧
    ((terminal s = [decidedEvent r d] ∧ r.replies.map Reply.decision = [d]) ∨
      (terminal s = [timedOutEvent r] ∧ d = .denied ∧ r.replies = []))

/-! ## The invariant of an orderly run -/

/-- the request is in `wait_for` or about to be -/
def Listening (r : Request) : Prop := r.phase = .publishing ∨ r.phase = .waiting

structure Unanswered (r : Request) : Prop where
  decision : r.decision = none
  event : r.event = false
  replies : r.replies = []

/-- one reply answered the request and is in phase `p` -/
structure Answered (r : Request) (d : Decision) (p : ReplyPhase) : Prop where
  decision : r.decision = some d
  event : r.event = decide (p = .woke)
  replies : ∃ q, r.replies = [⟨d, p, q⟩]

/-- how far the request and its reply have come, and what the slot, the row and the log then hold -/
inductive Stage (s : St) (r : Request) : Prop
  | opening : r.phase = .logRequested ∨ r.phase = .persistRow → Unanswered r → s.pending = none → s.row = none →
      terminal s = [] → Stage s r
  | stored : r.phase = .register → Unanswered r → s.pending = none → terminal s = [] → Stage s r
  | asked : Listening r → Unanswered r → s.pending = some 0 → terminal s = [] → Stage s r
  | deciding (d : Decision) (p : ReplyPhase) : p = .deleteRow ∨ p = .logDecided → Listening r → Answered r d p →
      s.pending = some 0 → (p = .logDecided → s.row = none) → terminal s = [] → Stage s r
  | decided (d : Decision) (p : ReplyPhase) : p = .setEvent ∨ p = .woke → Listening r → Answered r d p →
      s.pending = some 0 → s.row = none → terminal s = [decidedEvent r d] → Stage s r
  | closing (d : Decision) : r.phase = .cleanup d ∨ r.phase = .done d → Answered r d .woke → s.pending = none →
      s.row = none → terminal s = [decidedEvent r d] → Stage s r
  | expired : r.phase = .timedOut ∨ r.phase = .logTimedOut → Unanswered r → s.pending = none →
      (r.phase = .logTimedOut → s.row = none) → terminal s = [] → Stage s r
  | denied : r.phase = .done .denied → Unanswered r → s.pending = none → s.row = none →
      terminal s = [timedOutEvent r] → Stage s r

/-- the invariant: a single request, at some stage -/
def Inv (s : St) : Prop := ∃ r, s.requests = [r] ∧ Stage s r

theorem inv_called (t d c h : String) : Inv (called1 t d c h) :=
  ⟨called t d c h, rfl, .opening (Or.inl rfl) ⟨rfl, rfl, rfl⟩ rfl rfl rfl⟩

theorem getElem?_single {s : St} {r : Request} (hs : s.requests = [r]) (i : ℕ) :
    s.requests[i]? = none ∨ (i = 0 ∧ s.requests[i]? = some r) := by
  cases i with
  | zero => exact Or.inr ⟨rfl, by simp [hs]⟩
  | succ i => exact Or.inl (by simp [hs])

theorem requests_setRequest {s : St} {r : Request} (hs : s.requests = [r]) (r' : Request) :
    (s.setRequest 0 r').requests = [r'] := by
  simp [St.setRequest, hs]

theorem terminal_requested {s t : St} {r : Request} (ht : terminal s = []) (h : t.log = s.log ++ [requestedEvent r]) :
    terminal t = [] := by
  simpa [terminal, h, requestedEvent, Event.isTerminal] using ht

theorem terminal_snoc {s t : St} {e : Event} (ht : terminal s = []) (h : t.log = s.log ++ [e])
    (he : e.isTerminal = true) : terminal t = [e] := by
  unfold terminal at ht ⊢
  rw [h, List.filter_append, ht]
  simp [he]

theorem resume_inv {s : St} {r : Request} (hs : s.requests = [r]) (h : Stage s r) : Inv (resumeRequest s 0 r) := by
  have hset := requests_setRequest hs
  have hstay : ∀ {t : St}, t = s → Inv t := fun ht => ht ▸ ⟨r, hs, h⟩
  cases h with
  | opening hp hu hpd hrow ht =>
    rcases hp with hp | hp
    · simp only [resumeRequest, hp]
      exact ⟨_, hset _, .opening (Or.inr rfl) ⟨hu.1, hu.2, hu.3⟩ hpd hrow (terminal_requested ht rfl)⟩
    · simp only [resumeRequest, hp]
      exact ⟨_, hset _, .stored rfl ⟨hu.1, hu.2, hu.3⟩ hpd ht⟩
  | stored hp hu hpd ht =>
    simp only [resumeRequest, hp]
    exact ⟨_, hset _, .asked (Or.inl rfl) ⟨hu.1, hu.2, hu.3⟩ rfl ht⟩
  | asked hp hu hpd ht =>
    rcases hp with hp | hp
    · simp only [resumeRequest, hp]
      exact ⟨_, hset _, .asked (Or.inr rfl) ⟨hu.1, hu.2, hu.3⟩ hpd ht⟩
    · exact hstay (by simp [resumeRequest, hp, hu.event])
  | deciding d p hd hp ha hpd hrow ht =>
    rcases hp with hp | hp
    · simp only [resumeRequest, hp]
      exact ⟨_, hset _, .deciding d p hd (Or.inr rfl) ⟨ha.1, ha.2, ha.3⟩ hpd hrow ht⟩
    · have hev : r.event = false := by rw [ha.event]; rcases hd with rfl | rfl <;> rfl
      exact hstay (by simp [resumeRequest, hp, hev])
  | decided d p hd hp ha hpd hrow ht =>
    rcases hp with hp | hp
    · simp only [resumeRequest, hp]
      exact ⟨_, hset _, .decided d p hd (Or.inr rfl) ⟨ha.1, ha.2, ha.3⟩ hpd hrow ht⟩
    · rcases hd with rfl | rfl
      · exact hstay (by simp [resumeRequest, hp, ha.event])
      · -- the waiter wakes, and returns the one decision that was published
        have hev : r.event = true := ha.event
        simp only [resumeRequest, hp, hev, if_true, ha.decision, Option.getD_some]
        exact ⟨_, hset _, .closing d (Or.inl rfl) ⟨rfl, rfl, ha.replies⟩ rfl hrow ht⟩
  | closing d hp ha hpd hrow ht =>
    rcases hp with hp | hp
    · simp only [resumeRequest, hp]
      exact ⟨_, hset _, .closing d (Or.inr rfl) ⟨ha.1, ha.2, ha.3⟩ hpd rfl ht⟩
    · exact hstay (by simp [resumeRequest, hp])
  | expired hp hu hpd hrow ht =>
    rcases hp with hp | hp
    · simp only [resumeRequest, hp]
      exact ⟨_, hset _, .expired (Or.inr rfl) ⟨hu.1, hu.2, hu.3⟩ hpd (fun _ => rfl) ht⟩
    · simp only [resumeRequest, hp]
      exact ⟨_, hset _, .denied rfl ⟨hu.1, hu.2, hu.3⟩ hpd (hrow hp) (terminal_snoc ht rfl rfl)⟩
  | denied hp hu hpd hrow ht => exact hstay (by simp [resumeRequest, hp])

/-- the timeout fires only on an undecided request -/
theorem timeout_inv {s : St} {r : Request} (hs : s.requests = [r]) (h : Stage s r) (hp : r.phase = .waiting)
    (hd : r.decision = none) : Inv { s.setRequest 0 { r with phase := .timedOut } with pending := none } := by
  have hset := requests_setRequest hs { r with phase := .timedOut }
  cases h with
  | asked _ hu _ ht => exact ⟨_, hset, .expired (Or.inl rfl) ⟨hu.1, hu.2, hu.3⟩ rfl (by simp) ht⟩
  | deciding d p _ _ ha => rw [ha.decision] at hd; cases hd
  | decided d p _ _ ha => rw [ha.decision] at hd; cases hd
  | opening h' => rcases h' with h' | h' <;> rw [hp] at h' <;> cases h'
  | closing d h' => rcases h' with h' | h' <;> rw [hp] at h' <;> cases h'
  | expired h' => rcases h' with h' | h' <;> rw [hp] at h' <;> cases h'
  | stored h' => rw [hp] at h'; cases h'
  | denied h' => rw [hp] at h'; cases h'

/-- a reply that finds the entry undecided is the first one -/
theorem resolve_inv {s : St} {r : Request} (hs : s.requests = [r]) (h : Stage s r) (hpd : s.pending = some 0)
    (hd : r.decision = none) (d : Decision) (q : Option ℕ) :
    Inv (s.setRequest 0 { r with decision := some d, replies := r.replies ++ [⟨d, .deleteRow, q⟩] }) := by
  have hset := requests_setRequest hs { r with decision := some d, replies := r.replies ++ [⟨d, .deleteRow, q⟩] }
  cases h with
  | asked hp hu _ ht =>
    refine ⟨_, hset, .deciding d .deleteRow (Or.inl rfl) hp ⟨rfl, hu.event, q, ?_⟩ hpd (by simp) ht⟩
    simp [hu.replies]
  | deciding d' p _ _ ha => rw [ha.decision] at hd; cases hd
  | decided d' p _ _ ha => rw [ha.decision] at hd; cases hd
  | opening _ _ h' => rw [hpd] at h'; cases h'
  | stored _ _ h' => rw [hpd] at h'; cases h'
  | closing d' _ _ h' => rw [hpd] at h'; cases h'
  | expired _ _ h' => rw [hpd] at h'; cases h'
  | denied _ _ h' => rw [hpd] at h'; cases h'

theorem no_reply {r : Request} {k : Reply} {j : ℕ} (hu : Unanswered r) (hk : r.replies[j]? = some k) : False := by
  simp [hu.replies] at hk

/-- the only reply of an answered request -/
theorem reply_eq {r : Request} {d : Decision} {p : ReplyPhase} {k : Reply} {j : ℕ} (ha : Answered r d p)
    (hk : r.replies[j]? = some k) : j = 0 ∧ k.decision = d ∧ k.phase = p ∧ r.replies = [k] := by
  obtain ⟨q, hq⟩ := ha.replies
  rw [hq] at hk
  cases j with
  | zero => simp only [List.getElem?_cons_zero, Option.some.injEq] at hk; subst hk; exact ⟨rfl, rfl, rfl, hq⟩
  | succ j => simp at hk

theorem resumeReply_inv {s : St} {r : Request} (hs : s.requests = [r]) (h : Stage s r) {j : ℕ} {k : Reply}
    (hk : r.replies[j]? = some k) : Inv (resumeReply s 0 r j k) := by
  have hset := requests_setRequest hs
  have hstay : ∀ {t : St}, t = s → Inv t := fun ht => ht ▸ ⟨r, hs, h⟩
  cases h with
  | deciding d p hd hp ha hpd hrow ht =>
    obtain ⟨rfl, rfl, rfl, hq⟩ := reply_eq ha hk
    rcases hd with hd | hd
    · simp only [resumeReply, hd]
      refine ⟨_, hset _, .deciding k.decision .logDecided (Or.inr rfl) hp ⟨ha.decision, ?_, k.prompted, ?_⟩ hpd
        (fun _ => rfl) ht⟩
      · rw [ha.event, hd]; rfl
      · simp [hq]
    · simp only [resumeReply, hd]
      refine ⟨_, hset _, .decided k.decision .setEvent (Or.inl rfl) hp ⟨ha.decision, ?_, k.prompted, ?_⟩ hpd (hrow hd)
        (terminal_snoc ht rfl rfl)⟩
      · rw [ha.event, hd]; rfl
      · simp [hq]
  | decided d p hd hp ha hpd hrow ht =>
    obtain ⟨rfl, rfl, rfl, hq⟩ := reply_eq ha hk
    rcases hd with hd | hd
    · simp only [resumeReply, hd]
      exact ⟨_, hset _, .decided k.decision .woke (Or.inr rfl) hp ⟨ha.decision, rfl, k.prompted, by simp [hq]⟩ hpd hrow ht⟩
    · exact hstay (by simp [resumeReply, hd])
  | closing d hp ha hpd hrow ht =>
    obtain ⟨rfl, rfl, hph, -⟩ := reply_eq ha hk
    exact hstay (by simp [resumeReply, hph])
  | opening _ hu => exact (no_reply hu hk).elim
  | stored _ hu => exact (no_reply hu hk).elim
  | asked _ hu => exact (no_reply hu hk).elim
  | expired _ hu => exact (no_reply hu hk).elim
  | denied _ hu => exact (no_reply hu hk).elim

/-- a stage reads the slot, the row and the log, and nothing else of the state -/
theorem stage_congr {s t : St} {r : Request} (hp : t.pending = s.pending) (hr : t.row = s.row) (hl : t.log = s.log)
    (h : Stage s r) : Stage t r := by
  have ht : terminal t = terminal s := by rw [terminal, hl, terminal]
  cases h with
  | opening a b c d e => exact .opening a b (hp.trans c) (hr.trans d) (ht.trans e)
  | stored a b c d => exact .stored a b (hp.trans c) (ht.trans d)
  | asked a b c d => exact .asked a b (hp.trans c) (ht.trans d)
  | deciding d p a b c e f g => exact .deciding d p a b c (hp.trans e) (fun h => hr.trans (f h)) (ht.trans g)
  | decided d p a b c e f g => exact .decided d p a b c (hp.trans e) (hr.trans f) (ht.trans g)
  | closing d a b c e f => exact .closing d a b (hp.trans c) (hr.trans e) (ht.trans f)
  | expired a b c d e => exact .expired a b (hp.trans c) (fun h => hr.trans (d h)) (ht.trans e)
  | denied a b c d e => exact .denied a b (hp.trans c) (hr.trans d) (ht.trans e)

theorem pending_zero {s : St} {r : Request} (h : Stage s r) {i : ℕ} (hi : s.pending = some i) : i = 0 := by
  cases h <;> simp_all

theorem step_inv (s : St) (o : Op) (h : Inv s) (hC : Orderly s o) : Inv (step s o) := by
  obtain ⟨r, hs, hst⟩ := h
  cases o with
  | requestApproval t d c h => exact hC.elim
  | publishFails i => exact hC.elim
  | resume i =>
    rcases getElem?_single hs i with h | ⟨rfl, h⟩
    · simp only [step, h]; exact ⟨r, hs, hst⟩
    · simp only [step, h]; exact resume_inv hs hst
  | timeout i =>
    rcases getElem?_single hs i with h | ⟨rfl, h⟩
    · simp only [step, h]; exact ⟨r, hs, hst⟩
    · simp only [step, h]
      split_ifs with hp
      · exact timeout_inv hs hst hp (hC r (by simp [h]))
      · exact ⟨r, hs, hst⟩
  | resolve d =>
    cases hpd : s.pending with
    | none => simp only [step, hpd]; exact ⟨r, hs, stage_congr hpd.symm rfl rfl hst⟩
    | some i =>
      obtain rfl := pending_zero hst hpd
      have h : s.requests[0]? = some r := by simp [hs]
      simp only [step, hpd, h]
      exact resolve_inv hs hst hpd (hC 0 (by simp [hpd]) r (by simp [h])) d _
  | resumeReply i j =>
    rcases getElem?_single hs i with h | ⟨rfl, h⟩
    · simp only [step, h]; exact ⟨r, hs, hst⟩
    · simp only [step, h]
      cases hk : r.replies[j]? with
      | none => exact ⟨r, hs, hst⟩
      | some k => exact resumeReply_inv hs hst hk

/-! ## Results -/

/-- what a finished stage is: answered, or timed out -/
theorem outcome_of_stage {s : St} {r : Request} (hs : s.requests = [r]) (h : Stage s r) (hf : Finished s) :
    OneOutcome s := by
  obtain ⟨hdone, hrep⟩ := hf r (by simp [hs])
  cases h with
  | closing d hp ha hpd hrow ht =>
    rcases hp with hp | hp
    · simp [Request.isDone, hp] at hdone
    · obtain ⟨q, hq⟩ := ha.replies
      exact ⟨r, d, hs, hp, hpd, hrow, Or.inl ⟨ht, by simp [hq]⟩⟩
  | denied hp hu hpd hrow ht => exact ⟨r, .denied, hs, hp, hpd, hrow, Or.inr ⟨ht, rfl, hu.replies⟩⟩
  | opening hp => rcases hp with hp | hp <;> simp [Request.isDone, hp] at hdone
  | stored hp => simp [Request.isDone, hp] at hdone
  | asked hp => rcases hp with hp | hp <;> simp [Request.isDone, hp] at hdone
  | deciding _ _ _ hp => rcases hp with hp | hp <;> simp [Request.isDone, hp] at hdone
  | decided _ _ _ hp => rcases hp with hp | hp <;> simp [Request.isDone, hp] at hdone
  | expired hp => rcases hp with hp | hp <;> simp [Request.isDone, hp] at hdone

/-- **One request, one outcome.** In an orderly run of one request, whenever everything has returned, the log, the
returned decision and the replies agree, and nothing pending is left. -/
theorem one_outcome (toolName description channel chatId : String) (ops : List Op)
    (hC : Runs.Meets step Orderly (called1 toolName description channel chatId) ops)
    (hf : Finished (run (called1 toolName description channel chatId) ops)) :
    OneOutcome (run (called1 toolName description channel chatId) ops) := by
  obtain ⟨r, hs, hst⟩ := Runs.run_inv (I := Inv) step_inv hC (inv_called toolName description channel chatId)
  exact outcome_of_stage hs hst hf

/-- a request that is answered once -/
def answeredOps : List Op :=
  [.resume 0, .resume 0, .resume 0, .resume 0, .resolve .approved, .resumeReply 0 0, .resumeReply 0 0,
    .resumeReply 0 0, .resume 0, .resume 0, .resolve .denied]

theorem one_outcome_answered : OneOutcome (run (called1 "send_email" "Email the crew" "sms" "c1") answeredOps) :=
  one_outcome "send_email" "Email the crew" "sms" "c1" answeredOps (by decide) (by decide)

/-- a second reply lands after the first published its decision and before it woke the request -/
def resolvedTwiceOps : List Op :=
  [.resume 0, .resume 0, .resume 0, .resume 0, .resolve .approved, .resolve .denied, .resumeReply 0 0,
    .resumeReply 0 0, .resumeReply 0 0, .resumeReply 0 1, .resumeReply 0 1, .resumeReply 0 1, .resume 0, .resume 0]

/-- **Without order.** Both replies are logged as the decision and both returned True. -/
theorem resolved_twice : Finished (run (called1 "send_email" "Email the crew" "sms" "c1") resolvedTwiceOps) ∧
    ¬ OneOutcome (run (called1 "send_email" "Email the crew" "sms" "c1") resolvedTwiceOps) := by
  refine ⟨by decide, ?_⟩
  rintro ⟨r, d, hs, -, -, -, h⟩
  have hlog : (terminal (run (called1 "send_email" "Email the crew" "sms" "c1") resolvedTwiceOps)).length = 2 := by
    decide
  rcases h with ⟨h, -⟩ | ⟨h, -⟩ <;> simp [h] at hlog

end Clawbolt.Approval.OneRequest
