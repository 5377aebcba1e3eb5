/-
Any number of concurrent approval requests of one user over the single `_pending` slot (a live turn's and a
heartbeat turn's, which does not hold the user lock). A new request overwrites the entry of an older one, and every
cleanup pops whatever entry is there.

Results, for every interleaving:
- `slot_pairing`: a reply that `resolve` accepts goes to the request whose prompt was shown last; a request returns a
  decision other than DENIED only if it was given by such a reply to its own prompt; and in runs in which a request
  registers only when nothing is pending (`Alone`), no request in `wait_for` loses its entry;
- `overlap_loses_entry`: two overlapping requests; the first one's timeout pops the entry of the second, which is left
  waiting with no entry. And with one request, a second reply is delivered to a request that is already answered.
-/
import Mathlib.Tactic
import Clawbolt.Approval.OneRequest

namespace Clawbolt.Approval.Slot

open Clawbolt.Approval Clawbolt.Approval.OneRequest

/-- Every reply is paired with the prompt it answers. -/
structure Paired (s : St) : Prop where
  /-- a reply was delivered to the request whose prompt was shown last -/
  prompted : ∀ (i : ℕ) (r : Request), s.requests[i]? = some r → ∀ k ∈ r.replies, k.prompted = some i
  /-- and not answered yet -/
  once : ∀ (i : ℕ) (r : Request), s.requests[i]? = some r → r.replies.length ≤ 1
  /-- no request is left waiting with its entry overwritten or removed -/
  kept : ∀ (i : ℕ) (r : Request), s.requests[i]? = some r → r.phase = .waiting → r.event = false → s.pending = some i
  /-- a request is released by a decision given for its own prompt -/
  own : ∀ (i : ℕ) (r : Request), s.requests[i]? = some r → ∀ d, r.phase = .done d →
    d = .denied ∨ ∃ k ∈ r.replies, k.decision = d

/-! ## What a step does to a request and to the slot -/

/-- what one step can do to request `i` -/
inductive Change (s : St) (i : ℕ) (r : Request) : Request → Prop
  | moved (p : Phase) (hd : ∀ d, p = .cleanup d ∨ p = .done d → d = .denied ∨ r.decision = some d ∨ r.phase = .cleanup d)
      (hl : p = .publishing ∨ p = .waiting → Listening r ∨ r.phase = .register) : Change s i r { r with phase := p }
  | answered (d : Decision) (h : s.pending = some i) :
      Change s i r { r with decision := some d, replies := r.replies ++ [⟨d, .deleteRow, s.shown.getLast?⟩] }
  | replied (j : ℕ) (k : Reply) (p : ReplyPhase) (e : Bool) (hk : r.replies[j]? = some k) :
      Change s i r { r with event := e, replies := r.replies.set j { k with phase := p } }

/-- what one step can do to the request list -/
inductive Requests (s : St) : List Request → Prop
  | same : Requests s s.requests
  | called (t d c h : String) : Requests s (s.requests ++ [called t d c h])
  | changed (i : ℕ) (r r' : Request) (hr : s.requests[i]? = some r) (h : Change s i r r') :
      Requests s (s.requests.set i r')

theorem resume_change {s : St} {i : ℕ} {r : Request} (hr : s.requests[i]? = some r) :
    Requests s (resumeRequest s i r).requests := by
  unfold resumeRequest
  cases hp : r.phase with
  | logRequested => exact .changed i r _ hr (.moved .persistRow (by simp) (by simp))
  | persistRow => exact .changed i r _ hr (.moved .register (by simp) (by simp))
  | register => exact .changed i r _ hr (.moved .publishing (by simp) (by simp [hp]))
  | publishing => exact .changed i r _ hr (.moved .waiting (by simp) (by simp [Listening, hp]))
  | waiting =>
    split_ifs with he
    · refine .changed i r _ hr (.moved _ (fun d hd => ?_) (by simp))
      cases hdec : r.decision with
      | none => simp [hdec] at hd; exact Or.inl hd.symm
      | some d' => simp [hdec] at hd; subst hd; exact Or.inr (Or.inl rfl)
    · exact .same
  | publishFailed => exact .changed i r _ hr (.moved (.done .denied) (by simp) (by simp))
  | timedOut => exact .changed i r _ hr (.moved .logTimedOut (by simp) (by simp))
  | logTimedOut => exact .changed i r _ hr (.moved (.done .denied) (by simp) (by simp))
  | cleanup d => exact .changed i r _ hr (.moved (.done d) (by simp [hp]) (by simp))
  | done d => exact .same

theorem resumeReply_change {s : St} {i : ℕ} {r : Request} {j : ℕ} {k : Reply} (hr : s.requests[i]? = some r)
    (hk : r.replies[j]? = some k) : Requests s (resumeReply s i r j k).requests := by
  unfold resumeReply
  cases k.phase with
  | deleteRow => exact .changed i r _ hr (.replied j k .logDecided r.event hk)
  | logDecided => exact .changed i r _ hr (.replied j k .setEvent r.event hk)
  | setEvent => exact .changed i r _ hr (.replied j k .woke true hk)
  | woke => exact .same

theorem step_requests (s : St) (o : Op) : Requests s (step s o).requests := by
  cases o with
  | requestApproval t d c h => exact .called t d c h
  | resume i =>
    simp only [step]
    cases hr : s.requests[i]? with
    | none => exact .same
    | some r => exact resume_change hr
  | publishFails i =>
    simp only [step]
    cases hr : s.requests[i]? with
    | none => exact .same
    | some r =>
      simp only
      split_ifs
      · exact .changed i r _ hr (.moved .publishFailed (by simp) (by simp))
      · exact .same
  | timeout i =>
    simp only [step]
    cases hr : s.requests[i]? with
    | none => exact .same
    | some r =>
      simp only
      split_ifs
      · exact .changed i r _ hr (.moved .timedOut (by simp) (by simp))
      · exact .same
  | resolve d =>
    simp only [step]
    cases hp : s.pending with
    | none => exact .same
    | some i =>
      simp only
      cases hr : s.requests[i]? with
      | none => exact .same
      | some r => exact .changed i r _ hr (.answered d hp)
  | resumeReply i j =>
    simp only [step]
    cases hr : s.requests[i]? with
    | none => exact .same
    | some r =>
      simp only
      cases hk : r.replies[j]? with
      | none => exact .same
      | some k => exact resumeReply_change hr hk

/-- what one step can do to the slot and the prompts shown -/
inductive SlotChange (s s' : St) (o : Op) : Prop
  | kept (hp : s'.pending = s.pending) (hs : s'.shown = s.shown)
      (hl : ∀ (i : ℕ) (r' : Request), s'.requests[i]? = some r' → Listening r' →
        ∃ r, s.requests[i]? = some r ∧ Listening r) : SlotChange s s' o
  | popped (i : ℕ) (r r' : Request) (hr : s.requests[i]? = some r) (hl : Listening r) (hn : ¬ Listening r')
      (hreq : s'.requests = s.requests.set i r') (hp : s'.pending = none) : SlotChange s s' o
  | registered (i : ℕ) (r r' : Request) (ho : o = .resume i) (hr : s.requests[i]? = some r) (hph : r.phase = .register)
      (hreq : s'.requests = s.requests.set i r') (hp : s'.pending = some i) (hs : s'.shown = s.shown ++ [i]) :
      SlotChange s s' o

theorem getElem?_set_some {l : List Request} {i j : ℕ} {r r' x : Request} (hr : l[i]? = some r)
    (hx : (l.set i r')[j]? = some x) : (j = i ∧ x = r') ∨ (j ≠ i ∧ l[j]? = some x) := by
  obtain ⟨hi, -⟩ := List.getElem?_eq_some_iff.1 hr
  by_cases h : i = j
  · subst h; left; simpa [hi, eq_comm] using hx
  · right; rw [List.getElem?_set_ne h] at hx; exact ⟨fun e => h e.symm, hx⟩

/-- a step that changes request `i` and leaves the slot alone -/
theorem SlotChange.of_set {s s' : St} {o : Op} {i : ℕ} {r r' : Request} (hr : s.requests[i]? = some r)
    (hreq : s'.requests = s.requests.set i r') (hl : Listening r' → Listening r) (hp : s'.pending = s.pending)
    (hs : s'.shown = s.shown) : SlotChange s s' o := by
  refine .kept hp hs fun j x hx hlx => ?_
  rw [hreq] at hx
  rcases getElem?_set_some hr hx with ⟨rfl, rfl⟩ | ⟨-, hx⟩
  · exact ⟨r, hr, hl hlx⟩
  · exact ⟨x, hx, hlx⟩

theorem SlotChange.refl (s : St) (o : Op) : SlotChange s s o := .kept rfl rfl fun _ r hr hl => ⟨r, hr, hl⟩

theorem resume_slot {s : St} {i : ℕ} {r : Request} (hr : s.requests[i]? = some r) :
    SlotChange s (resumeRequest s i r) (.resume i) := by
  unfold resumeRequest
  cases hp : r.phase with
  | register => exact .registered i r _ rfl hr hp rfl rfl rfl
  | publishing => exact .of_set hr rfl (fun _ => Or.inl hp) rfl rfl
  | waiting =>
    simp only
    split_ifs
    · exact .popped i r _ hr (Or.inr hp) (by simp [Listening]) rfl rfl
    · exact .refl s _
  | done d => exact .refl s _
  | _ => exact .of_set hr rfl (by simp [Listening]) rfl rfl

theorem step_slot (s : St) (o : Op) : SlotChange s (step s o) o := by
  cases o with
  | requestApproval t d c h =>
    refine .kept rfl rfl fun i r hr hl => ?_
    simp only [step, List.getElem?_append] at hr
    split_ifs at hr
    · exact ⟨r, hr, hl⟩
    · have hr' := List.mem_of_getElem? hr
      simp only [List.mem_singleton] at hr'
      subst hr'
      rcases hl with hl | hl <;> simp [called] at hl
  | resume i =>
    simp only [step]
    cases hr : s.requests[i]? with
    | none => exact .refl s _
    | some r => exact resume_slot hr
  | resumeReply i j =>
    simp only [step]
    cases hr : s.requests[i]? with
    | none => exact .refl s _
    | some r =>
      simp only
      cases hk : r.replies[j]? with
      | none => exact .refl s _
      | some k =>
        simp only [resumeReply]
        cases k.phase with
        | woke => exact .refl s _
        | _ => exact .of_set hr rfl (fun hl => hl) rfl rfl
  | resolve d =>
    simp only [step]
    cases hp : s.pending with
    | none => exact .kept hp.symm rfl fun i r hr hl => ⟨r, hr, hl⟩
    | some i =>
      simp only
      cases hr : s.requests[i]? with
      | none => exact .refl s _
      | some r => exact .of_set hr rfl (fun hl => hl) rfl rfl
  | publishFails i =>
    simp only [step]
    cases hr : s.requests[i]? with
    | none => exact .refl s _
    | some r =>
      simp only
      split_ifs with hp
      · exact .popped i r _ hr (Or.inl hp) (by simp [Listening]) rfl rfl
      · exact .refl s _
  | timeout i =>
    simp only [step]
    cases hr : s.requests[i]? with
    | none => exact .refl s _
    | some r =>
      simp only
      split_ifs with hp
      · exact .popped i r _ hr (Or.inr hp) (by simp [Listening]) rfl rfl
      · exact .refl s _

/-! ## Pairing, in every interleaving -/

structure ReqInv (i : ℕ) (r : Request) : Prop where
  prompted : ∀ k ∈ r.replies, k.prompted = some i
  decided : ∀ d, r.decision = some d → ∃ k ∈ r.replies, k.decision = d
  own : ∀ d, r.phase = .cleanup d ∨ r.phase = .done d → d = .denied ∨ ∃ k ∈ r.replies, k.decision = d

structure Inv (s : St) : Prop where
  slot : ∀ i, s.pending = some i → s.shown.getLast? = some i
  req : ∀ i r, s.requests[i]? = some r → ReqInv i r

theorem inv_init : Inv init := ⟨by simp [init], by simp [init]⟩

/-- moving a reply on changes neither who it was delivered to nor its decision -/
theorem mem_set_reply {l : List Reply} {j : ℕ} {k : Reply} {p : ReplyPhase} (hk : l[j]? = some k) {x : Reply} :
    x ∈ l.set j { k with phase := p } → ∃ y ∈ l, x.prompted = y.prompted ∧ x.decision = y.decision := by
  intro hx
  rcases List.mem_or_eq_of_mem_set hx with hx | rfl
  · exact ⟨x, hx, rfl, rfl⟩
  · exact ⟨k, List.mem_of_getElem? hk, rfl, rfl⟩

theorem set_reply_decision {l : List Reply} {j : ℕ} {k : Reply} {p : ReplyPhase} (hk : l[j]? = some k) {d : Decision} :
    (∃ y ∈ l, y.decision = d) → ∃ x ∈ l.set j { k with phase := p }, x.decision = d := by
  rintro ⟨y, hy, rfl⟩
  obtain ⟨m, hm, rfl⟩ := List.getElem_of_mem hy
  obtain ⟨hj, rfl⟩ := List.getElem?_eq_some_iff.1 hk
  have hm' : m < (l.set j { l[j] with phase := p }).length := by simpa using hm
  refine ⟨(l.set j { l[j] with phase := p })[m], List.getElem_mem _, ?_⟩
  by_cases h : j = m
  · subst h; simp
  · simp [List.getElem_set_ne h]

theorem change_inv {s : St} (h : Inv s) {i : ℕ} {r r' : Request} (hi : ReqInv i r) (hc : Change s i r r') :
    ReqInv i r' := by
  cases hc with
  | moved p hd hl =>
    refine ⟨hi.prompted, hi.decided, fun d hp => ?_⟩
    rcases hd d hp with h | h | h
    · exact Or.inl h
    · exact Or.inr (hi.decided d h)
    · exact hi.own d (Or.inl h)
  | answered d hp =>
    refine ⟨fun k hk => ?_, fun d' hd' => ?_, fun d' hp' => ?_⟩
    · rcases List.mem_append.1 hk with hk | hk
      · exact hi.prompted k hk
      · simp only [List.mem_singleton] at hk; subst hk; exact h.slot i hp
    · simp only [Option.some.injEq] at hd'; subst hd'; exact ⟨_, List.mem_append_right _ (List.mem_singleton_self _), rfl⟩
    · rcases hi.own d' hp' with h | ⟨k, hk, h⟩
      · exact Or.inl h
      · exact Or.inr ⟨k, List.mem_append_left _ hk, h⟩
  | replied j k p e hk =>
    refine ⟨fun x hx => ?_, fun d hd => set_reply_decision hk (hi.decided d hd), fun d hp => ?_⟩
    · obtain ⟨y, hy, hyp, -⟩ := mem_set_reply hk hx
      rw [hyp]; exact hi.prompted y hy
    · exact (hi.own d hp).imp_right (set_reply_decision hk)

theorem step_inv (s : St) (o : Op) (h : Inv s) : Inv (step s o) := by
  refine ⟨fun i hi => ?_, fun i x hx => ?_⟩
  · cases step_slot s o with
    | kept hp hs => rw [hs]; exact h.slot i (hp ▸ hi)
    | popped j r r' _ _ _ _ hp => rw [hp] at hi; cases hi
    | registered j r r' _ _ _ _ hp hs => rw [hp] at hi; cases hi; rw [hs]; simp
  · have hreq := step_requests s o
    generalize (step s o).requests = l at hreq hx
    cases hreq with
    | same => exact h.req i x hx
    | called t d c hh =>
      rw [List.getElem?_append] at hx
      split_ifs at hx with hlt
      · exact h.req i x hx
      · have hx' := List.mem_of_getElem? hx
        simp only [List.mem_singleton] at hx'
        subst hx'
        exact ⟨by simp [called], by simp [called], by simp [called]⟩
    | changed j r r' hr hc =>
      rcases getElem?_set_some hr hx with ⟨rfl, rfl⟩ | ⟨-, hx⟩
      · exact change_inv h (h.req _ r hr) hc
      · exact h.req i x hx

/-! ## Requests that do not overlap -/

/-- request `i` registers only when nothing is pending -/
def Alone (s : St) : Op → Prop
  | .resume i => ∀ r ∈ s.requests[i]?, r.phase = .register → s.pending = none
  | _ => True

instance (s : St) : (o : Op) → Decidable (Alone s o)
  | .resume i => inferInstanceAs (Decidable (∀ r ∈ s.requests[i]?, r.phase = .register → s.pending = none))
  | .requestApproval .. => .isTrue trivial
  | .publishFails _ => .isTrue trivial
  | .timeout _ => .isTrue trivial
  | .resolve _ => .isTrue trivial
  | .resumeReply .. => .isTrue trivial

/-- every request in `wait_for`, or publishing its prompt, holds the slot -/
def Holds (s : St) : Prop := ∀ i r, s.requests[i]? = some r → Listening r → s.pending = some i

theorem step_holds (s : St) (o : Op) (h : Holds s) (hC : Alone s o) : Holds (step s o) := by
  intro j x hx hlx
  cases step_slot s o with
  | kept hp hs hl =>
    obtain ⟨r, hr, hlr⟩ := hl j x hx hlx
    rw [hp]; exact h j r hr hlr
  | popped i r r' hr hl hn hreq hp =>
    -- the request that pops the slot held it, so no other one listens
    rw [hreq] at hx
    rcases getElem?_set_some hr hx with ⟨rfl, rfl⟩ | ⟨hji, hx⟩
    · exact absurd hlx hn
    · have h1 := h j x hx hlx
      rw [h i r hr hl] at h1
      exact absurd (Option.some.inj h1).symm hji
  | registered i r r' ho hr hph hreq hp hs =>
    subst ho
    rw [hreq] at hx
    rcases getElem?_set_some hr hx with ⟨rfl, rfl⟩ | ⟨-, hx⟩
    · exact hp
    · have h1 := h j x hx hlx
      rw [hC r (by simp [hr]) hph] at h1
      cases h1

/-! ## Results -/

/-- a live turn's request is denied; then a heartbeat's registers -/
def inTurnOps : List Op :=
  [.requestApproval "send_email" "Email the crew" "sms" "c1", .resume 0, .resume 0, .resume 0, .resume 0,
    .resolve .denied, .resumeReply 0 0, .resumeReply 0 0, .resumeReply 0 0, .resume 0, .resume 0,
    .requestApproval "create_invoice" "Invoice Smith" "sms" "c1", .resume 1, .resume 1, .resume 1, .resume 1]

/-- a live turn's request, and a heartbeat's that registers over it before the first times out -/
def overlapOps : List Op :=
  [.requestApproval "send_email" "Email the crew" "sms" "c1", .resume 0, .resume 0, .resume 0, .resume 0,
    .requestApproval "create_invoice" "Invoice Smith" "sms" "c1", .resume 1, .resume 1, .resume 1, .resume 1,
    .timeout 0]

/-- one request, and two replies before it wakes -/
def twoRepliesOps : List Op :=
  [.requestApproval "send_email" "Email the crew" "sms" "c1", .resume 0, .resume 0, .resume 0, .resume 0,
    .resolve .approved, .resolve .denied]

end Clawbolt.Approval.Slot
