/-
Inbound texts of one user at the approval gate (`process_inbound_from_bus` in agent/ingestion.py, over `ApprovalGate` and
`classify_approval_response` in agent/approval.py), split at every await. Database calls succeed.

A text arrives, and is checked once its user and route are read. One that is no approval reply is stored and dispatched.
While a request is pending, a reply on the fast path is resolved at once; any other text waits for the reply classifier,
which may answer anything or fail, and is then resolved by user id. A dispatched text that waits for the turn polls the
gate, and interrupts what is pending.

- `Sys.reprompts`: the entries that were re-prompted, in order; `reprompt_count` of an entry is its count.
- Ghost data, read by no step: `Arrival.seen` (the request pending when the text arrived).

Results, for every interleaving of texts, requests, timeouts and polls:
- `texts_accounted`: when each decision is resolved on the request that was pending as its text arrived, nothing
  overrides it, and every answer of the classifier has a choice, no text is lost, the decision of a text is the outcome
  of that request, and no entry is re-prompted more than twice;
- `late_yes`: a request that times out while the classifier runs drops its reply; or the reply approves the next one.
-/
import Mathlib.Tactic
import Clawbolt.Approval.Slot
import Clawbolt.History.Message

namespace Clawbolt.Approval.Replies

open Clawbolt.Approval Clawbolt.Approval.OneRequest Clawbolt.Approval.Slot
open Clawbolt.History (Env parseApprovalResponse approvalResponseFastPath)
open Text (Str)

/-! ## Model -/

/-- `parsed.decision` of the reply classifier -/
inductive Classification where
  | approved
  | denied
  | alwaysAllow
  | alwaysAllowAll
  | alwaysDeny
  | ambiguous
  | unrelated
deriving DecidableEq, Repr

/-- how the classifier's call comes back -/
inductive Answer where
  | failed
  /-- a completion with no choices -/
  | noChoices
  | notParsed
  | parsed (c : Classification)
deriving DecidableEq, Repr

inductive Verdict where
  | decided (d : Decision)
  /-- `AMBIGUOUS_APPROVAL_REPLY` -/
  | ambiguous
deriving DecidableEq, Repr

/-- `decision_map` -/
def decisionMap : Classification → Option Decision
  | .approved => some .approved
  | .denied => some .denied
  | .alwaysAllow => some .alwaysAllow
  | .alwaysAllowAll => some .alwaysAllowAll
  | .alwaysDeny => some .alwaysDeny
  | _ => none

def classifyApprovalResponse : Answer → Except String (Option Verdict)
  | .failed => .ok none
  | .noChoices => .error "list index out of range"
  | .notParsed => .ok none
  | .parsed c =>
    match decisionMap c with
    | some d => .ok (some (.decided d))
    | none => .ok (if c = .ambiguous then some .ambiguous else none)

structure Inbound where
  text : Str
  /-- `media_refs` -/
  mediaRefs : List Str
deriving DecidableEq, Repr

/-- where a text stands, or how it ended -/
inductive Place where
  | arrived
  | classifying
  | storing
  | dispatched
  | reprompted
  /-- answered with the `/report` acknowledgement, or told that the channel is disabled -/
  | notified
  /-- its decision was published on request `i` -/
  | decided (i : ℕ) (d : Decision)
  /-- its decision found no request, and `resolve` returned False -/
  | dropped
  /-- its coroutine raised -/
  | raised
deriving DecidableEq, Repr

structure Arrival where
  inbound : Inbound
  seen : Option ℕ
  place : Place
deriving DecidableEq, Repr

structure Sys where
  gate : St
  arrivals : List Arrival
  reprompts : List ℕ
deriving DecidableEq, Repr

inductive Event where
  | arrive (inbound : Inbound)
  /-- text `j`, its user and route read, goes to the gate -/
  | check (j : ℕ) (routeEnabled : Bool)
  | classified (j : ℕ) (answer : Answer)
  | store (j : ℕ)
  /-- the dispatch of text `j` polls the gate -/
  | poll (j : ℕ)
  | requestApproval (toolName description channel chatId : String)
  | resume (i : ℕ)
  | publishFails (i : ℕ)
  | timeout (i : ℕ)
  | resumeReply (i j : ℕ)
deriving DecidableEq, Repr

def start : Sys := ⟨init, [], []⟩

/-- `_MAX_APPROVAL_REPROMPTS` -/
def maxApprovalReprompts : ℕ := 2

/-- `_REPORT_REASON_MAX_LEN` -/
def reportReasonMaxLen : ℕ := 4096

/-- `_REPORT_PREFIX` -/
def reportLead : Str := "/report".toList

variable (env : Env)

def parseReportCommand (text : Str) : Option Str :=
  if text = [] then none
  else
    let stripped := Text.strip text
    if Text.startsWith reportLead (env.lower stripped) then
      let rest := stripped.drop reportLead.length
      if (rest.head?.map Text.isSpace).getD true then some ((Text.strip rest).take reportReasonMaxLen) else none
    else none

def Sys.onGate (s : Sys) (o : Op) : Sys := { s with gate := step s.gate o }

def Sys.put (s : Sys) (j : ℕ) (a : Arrival) (p : Place) : Sys := { s with arrivals := s.arrivals.set j { a with place := p } }

/-- none when the gate has no entry, or its entry was re-prompted often enough -/
def noteAmbiguousReply (s : Sys) : Option Sys :=
  match s.gate.pending with
  | none => none
  | some i => if maxApprovalReprompts ≤ s.reprompts.count i then none else some { s with reprompts := s.reprompts ++ [i] }

/-- the decision of text `j` is resolved, its result ignored -/
def decideBy (s : Sys) (j : ℕ) (a : Arrival) (d : Decision) : Sys :=
  (s.onGate (.resolve d)).put j a
    (match s.gate.pending with
      | some i => .decided i d
      | none => .dropped)

/-- what is pending is interrupted, and text `j` goes on to be stored -/
def interruptBy (s : Sys) (j : ℕ) (a : Arrival) : Sys := (s.onGate (.resolve .interrupted)).put j a .storing

/-- the text may be a reply to what is pending -/
def intercepted (s : Sys) (a : Arrival) : Bool :=
  s.gate.pending.isSome && a.inbound.text ≠ [] && a.inbound.mediaRefs.isEmpty

def checkText (s : Sys) (j : ℕ) (a : Arrival) (routeEnabled : Bool) : Sys :=
  if routeEnabled = false then s.put j a .notified
  else if (parseReportCommand env a.inbound.text).isSome then s.put j a .notified
  else if intercepted s a then
    match parseApprovalResponse env a.inbound.text with
    | some d => decideBy s j a d
    | none => s.put j a .classifying
  else s.put j a .storing

def classifiedText (s : Sys) (j : ℕ) (a : Arrival) (answer : Answer) : Sys :=
  match classifyApprovalResponse answer with
  | .error _ => s.put j a .raised
  | .ok (some (.decided d)) => decideBy s j a d
  | .ok (some .ambiguous) =>
    match noteAmbiguousReply s with
    | some s' => s'.put j a .reprompted
    | none => interruptBy s j a
  | .ok none => interruptBy s j a

/-- what text `j` does next, if it stands at `p` -/
def Sys.at (s : Sys) (j : ℕ) (p : Place) (act : Arrival → Sys) : Sys :=
  match s.arrivals[j]? with
  | none => s
  | some a => if a.place = p then act a else s

def next (s : Sys) : Event → Sys
  | .arrive inbound => { s with arrivals := s.arrivals ++ [⟨inbound, s.gate.pending, .arrived⟩] }
  | .check j routeEnabled => s.at j .arrived fun a => checkText env s j a routeEnabled
  | .classified j answer => s.at j .classifying fun a => classifiedText s j a answer
  | .store j => s.at j .storing fun a => s.put j a .dispatched
  | .poll j => s.at j .dispatched fun _ => if s.gate.pending.isSome then s.onGate (.resolve .interrupted) else s
  | .requestApproval t d c h => s.onGate (.requestApproval t d c h)
  | .resume i => s.onGate (.resume i)
  | .publishFails i => s.onGate (.publishFails i)
  | .timeout i => s.onGate (.timeout i)
  | .resumeReply i j => s.onGate (.resumeReply i j)

abbrev runFrom (s : Sys) (es : List Event) : Sys := Runs.run (next env) s es

/-! ## What is promised, and when it is kept -/

/-- the decision a request returned, or will return as things stand -/
def outcome (r : Request) : Option Decision :=
  match r.phase with
  | .cleanup d => some d
  | .done d => some d
  | .timedOut => some .denied
  | .logTimedOut => some .denied
  | .publishFailed => some .denied
  | _ => r.decision

structure Accounted (s : Sys) : Prop where
  /-- no text is lost -/
  kept : ∀ a ∈ s.arrivals, a.place ≠ .dropped ∧ a.place ≠ .raised
  /-- a decision is the outcome of the request that was pending when its text arrived -/
  own : ∀ a ∈ s.arrivals, ∀ i d, a.place = .decided i d →
    a.seen = some i ∧ ∃ r, s.gate.requests[i]? = some r ∧ outcome r = some d
  capped : ∀ i, s.reprompts.count i ≤ maxApprovalReprompts

/-- `d` overrides no reply's decision on the request -/
def Free (d : Decision) (r : Request) : Prop :=
  r.decision = none ∨ r.decision = some d ∨ r.decision = some .interrupted

instance (d : Decision) (r : Request) : Decidable (Free d r) := by unfold Free; infer_instance

/-- the operation overrides no reply's decision -/
def Fits (g : St) : Op → Prop
  | .resolve d => ∀ i ∈ g.pending, ∀ r ∈ g.requests[i]?, Free d r
  | .timeout i => ∀ r ∈ g.requests[i]?, r.phase = .waiting → Free .denied r
  | .publishFails i => ∀ r ∈ g.requests[i]?, r.phase = .publishing → Free .denied r
  | _ => True

instance decFits (g : St) : (o : Op) → Decidable (Fits g o)
  | .resolve d => inferInstanceAs (Decidable (∀ i ∈ g.pending, ∀ r ∈ g.requests[i]?, Free d r))
  | .timeout i => inferInstanceAs (Decidable (∀ r ∈ g.requests[i]?, r.phase = .waiting → Free .denied r))
  | .publishFails i => inferInstanceAs (Decidable (∀ r ∈ g.requests[i]?, r.phase = .publishing → Free .denied r))
  | .requestApproval .. => .isTrue trivial
  | .resume _ => .isTrue trivial
  | .resumeReply .. => .isTrue trivial

/-- a text's decision finds the request that was pending when it arrived -/
def Answers (s : Sys) (a : Arrival) (d : Decision) : Prop :=
  a.seen.isSome = true ∧ s.gate.pending = a.seen ∧ Fits s.gate (.resolve d)

instance (s : Sys) (a : Arrival) (d : Decision) : Decidable (Answers s a d) := by unfold Answers; infer_instance

/-- the condition on a text that is checked -/
def CheckFits (s : Sys) (a : Arrival) (routeEnabled : Bool) : Prop :=
  routeEnabled = true → parseReportCommand env a.inbound.text = none → intercepted s a = true →
    ∀ d ∈ parseApprovalResponse env a.inbound.text, Answers s a d

instance (s : Sys) (a : Arrival) (routeEnabled : Bool) : Decidable (CheckFits env s a routeEnabled) := by
  unfold CheckFits; infer_instance

/-- the condition on the classifier's answer for a text -/
def AnswerFits (s : Sys) (a : Arrival) (answer : Answer) : Prop :=
  match classifyApprovalResponse answer with
  | .error _ => False
  | .ok (some (.decided d)) => Answers s a d
  | .ok (some .ambiguous) => noteAmbiguousReply s = none → Fits s.gate (.resolve .interrupted)
  | .ok none => Fits s.gate (.resolve .interrupted)

instance decAnswerFits (s : Sys) (a : Arrival) (answer : Answer) : Decidable (AnswerFits s a answer) := by
  unfold AnswerFits; split <;> infer_instance

/-- the condition on the next event -/
def Timely (s : Sys) : Event → Prop
  | .check j routeEnabled => ∀ a ∈ s.arrivals[j]?, a.place = .arrived → CheckFits env s a routeEnabled
  | .classified j answer => ∀ a ∈ s.arrivals[j]?, a.place = .classifying → AnswerFits s a answer
  | .poll j => ∀ a ∈ s.arrivals[j]?, a.place = .dispatched → Fits s.gate (.resolve .interrupted)
  | .timeout i => Fits s.gate (.timeout i)
  | .publishFails i => Fits s.gate (.publishFails i)
  | _ => True

instance decTimely (s : Sys) : (e : Event) → Decidable (Timely env s e)
  | .check j routeEnabled =>
    inferInstanceAs (Decidable (∀ a ∈ s.arrivals[j]?, a.place = .arrived → CheckFits env s a routeEnabled))
  | .classified j answer =>
    inferInstanceAs (Decidable (∀ a ∈ s.arrivals[j]?, a.place = .classifying → AnswerFits s a answer))
  | .poll j => inferInstanceAs (Decidable (∀ a ∈ s.arrivals[j]?, a.place = .dispatched → Fits s.gate (.resolve .interrupted)))
  | .timeout i => inferInstanceAs (Decidable (Fits s.gate (.timeout i)))
  | .publishFails i => inferInstanceAs (Decidable (Fits s.gate (.publishFails i)))
  | .arrive _ => .isTrue trivial
  | .store _ => .isTrue trivial
  | .requestApproval .. => .isTrue trivial
  | .resume _ => .isTrue trivial
  | .resumeReply .. => .isTrue trivial

/-! ## What a step of the gate does to an outcome -/

/-- the pending entry is in `wait_for`, or publishing its prompt -/
def Held (g : St) : Prop := ∀ i ∈ g.pending, ∃ r, g.requests[i]? = some r ∧ Listening r

theorem outcome_listening {r : Request} (h : Listening r) : outcome r = r.decision := by
  rcases h with h | h <;> simp [outcome, h]

/-- the outcomes that replies gave stay -/
def Stands (r r' : Request) : Prop := ∀ d, d ≠ .interrupted → outcome r = some d → outcome r' = some d

theorem stands_of_eq {r r' : Request} (h : outcome r' = outcome r) : Stands r r' := fun _ _ hd => h.trans hd

/-- an operation that decides `d` for a request it may decide -/
theorem stands_of_free {r r' : Request} {d : Decision} (hl : Listening r) (h : Free d r) (hd : outcome r' = some d) :
    Stands r r' := by
  intro d' hd' ho
  rw [outcome_listening hl] at ho
  rcases h with h | h | h <;> rw [h] at ho
  · cases ho
  · rw [hd, ho]
  · exact absurd (Option.some.inj ho).symm hd'

/-- what a step does to the requests and the slot -/
inductive GateStep (g g' : St) : Prop
  | same (hreq : g'.requests = g.requests) (hp : g'.pending = g.pending) : GateStep g g'
  | called (r : Request) (hreq : g'.requests = g.requests ++ [r]) (hp : g'.pending = g.pending) : GateStep g g'
  | changed (i : ℕ) (r r' : Request) (hr : g.requests[i]? = some r) (hreq : g'.requests = g.requests.set i r')
      (ho : Stands r r') (hp : g'.pending = none ∨ (g'.pending = some i ∧ Listening r') ∨
        (g'.pending = g.pending ∧ (Listening r → Listening r'))) : GateStep g g'

/-- a request that is not listening moves on, and its outcome stays -/
theorem moved_gate {g g' : St} {i : ℕ} {r : Request} {p : Phase} (hr : g.requests[i]? = some r)
    (hreq : g'.requests = g.requests.set i { r with phase := p }) (hp : g'.pending = g.pending)
    (ho : outcome { r with phase := p } = outcome r) (hl : ¬ Listening r) : GateStep g g' :=
  .changed i r _ hr hreq (stands_of_eq ho) (.inr (.inr ⟨hp, fun h => absurd h hl⟩))

theorem resume_gate {g : St} {i : ℕ} {r : Request} (hr : g.requests[i]? = some r) :
    GateStep g (resumeRequest g i r) := by
  unfold resumeRequest
  cases hp : r.phase with
  | logRequested => exact moved_gate hr rfl rfl (by simp [outcome, hp]) (by simp [Listening, hp])
  | persistRow => exact moved_gate hr rfl rfl (by simp [outcome, hp]) (by simp [Listening, hp])
  | register =>
    exact .changed i r _ hr rfl (stands_of_eq (by simp [outcome, hp])) (.inr (.inl ⟨rfl, Or.inl rfl⟩))
  | publishing =>
    exact .changed i r _ hr rfl (stands_of_eq (by simp [outcome, hp])) (.inr (.inr ⟨rfl, fun _ => Or.inr rfl⟩))
  | waiting =>
    simp only
    split_ifs
    · refine .changed i r _ hr rfl (fun d _ ho => ?_) (.inl rfl)
      simp only [outcome, hp] at ho
      simp [outcome, ho]
    · exact .same rfl rfl
  | publishFailed => exact moved_gate hr rfl rfl (by simp [outcome, hp]) (by simp [Listening, hp])
  | timedOut => exact moved_gate hr rfl rfl (by simp [outcome, hp]) (by simp [Listening, hp])
  | logTimedOut => exact moved_gate hr rfl rfl (by simp [outcome, hp]) (by simp [Listening, hp])
  | cleanup d => exact moved_gate hr rfl rfl (by simp [outcome, hp]) (by simp [Listening, hp])
  | done d => exact .same rfl rfl

theorem resumeReply_gate {g : St} {i : ℕ} {r : Request} {j : ℕ} {k : Reply} (hr : g.requests[i]? = some r) :
    GateStep g (resumeReply g i r j k) := by
  unfold resumeReply
  cases k.phase with
  | woke => exact .same rfl rfl
  | _ => exact .changed i r _ hr rfl (stands_of_eq rfl) (.inr (.inr ⟨rfl, fun h => h⟩))

theorem step_gate {g : St} {o : Op} (h : Held g) (hC : Fits g o) : GateStep g (step g o) := by
  cases o with
  | requestApproval t d c h' => exact .called _ rfl rfl
  | resume i =>
    simp only [step]
    cases hr : g.requests[i]? with
    | none => exact .same rfl rfl
    | some r => exact resume_gate hr
  | publishFails i =>
    simp only [step]
    cases hr : g.requests[i]? with
    | none => exact .same rfl rfl
    | some r =>
      simp only
      split_ifs with hp
      · exact .changed i r _ hr rfl (stands_of_free (Or.inl hp) (hC r hr hp) rfl) (.inl rfl)
      · exact .same rfl rfl
  | timeout i =>
    simp only [step]
    cases hr : g.requests[i]? with
    | none => exact .same rfl rfl
    | some r =>
      simp only
      split_ifs with hp
      · exact .changed i r _ hr rfl (stands_of_free (Or.inr hp) (hC r hr hp) rfl) (.inl rfl)
      · exact .same rfl rfl
  | resolve d =>
    simp only [step]
    cases hp : g.pending with
    | none => exact .same rfl hp.symm
    | some i =>
      obtain ⟨r, hr, hl⟩ := h i hp
      simp only [hr]
      refine .changed i r _ hr rfl (stands_of_free hl (hC i hp r hr) ?_) (.inr (.inr ⟨hp.symm ▸ rfl, fun hl => hl⟩))
      exact outcome_listening (r := { r with decision := some d, replies := _ }) hl
  | resumeReply i j =>
    simp only [step]
    cases hr : g.requests[i]? with
    | none => exact .same rfl rfl
    | some r =>
      simp only
      cases hk : r.replies[j]? with
      | none => exact .same rfl rfl
      | some k => exact resumeReply_gate hr

theorem held_step {g g' : St} (h : Held g) (hs : GateStep g g') : Held g' := by
  intro i hi
  cases hs with
  | same hreq hp => rw [hreq]; exact h i (hp ▸ hi)
  | called r hreq hp =>
    obtain ⟨r₀, hr₀, hl⟩ := h i (hp ▸ hi)
    refine ⟨r₀, ?_, hl⟩
    rw [hreq, List.getElem?_append_left (List.getElem?_eq_some_iff.1 hr₀).1]
    exact hr₀
  | changed k r r' hr hreq ho hp =>
    have hk := (List.getElem?_eq_some_iff.1 hr).1
    rcases hp with hp | ⟨hp, hl⟩ | ⟨hp, hl⟩
    · rw [hp] at hi; cases hi
    · rw [hp] at hi
      cases hi
      exact ⟨r', by rw [hreq, List.getElem?_set_self hk], hl⟩
    · obtain ⟨r₀, hr₀, hl₀⟩ := h i (hp ▸ hi)
      by_cases hki : k = i
      · subst hki
        rw [hr] at hr₀
        cases hr₀
        exact ⟨r', by rw [hreq, List.getElem?_set_self hk], hl hl₀⟩
      · exact ⟨r₀, by rw [hreq, List.getElem?_set_ne hki, hr₀], hl₀⟩

/-- the outcome a reply gave to request `i` stays -/
theorem outcome_step {g g' : St} (hs : GateStep g g') {i : ℕ} {d : Decision} (hd : d ≠ .interrupted)
    (h : ∃ r, g.requests[i]? = some r ∧ outcome r = some d) : ∃ r, g'.requests[i]? = some r ∧ outcome r = some d := by
  obtain ⟨r₀, hr₀, ho₀⟩ := h
  cases hs with
  | same hreq hp => exact ⟨r₀, hreq ▸ hr₀, ho₀⟩
  | called r hreq hp =>
    refine ⟨r₀, ?_, ho₀⟩
    rw [hreq, List.getElem?_append_left (List.getElem?_eq_some_iff.1 hr₀).1]
    exact hr₀
  | changed k r r' hr hreq ho hp =>
    have hk := (List.getElem?_eq_some_iff.1 hr).1
    by_cases hki : k = i
    · subst hki
      rw [hr] at hr₀
      cases hr₀
      exact ⟨r', by rw [hreq, List.getElem?_set_self hk], ho d hd ho₀⟩
    · exact ⟨r₀, by rw [hreq, List.getElem?_set_ne hki, hr₀], ho₀⟩

/-! ## The invariant of a timely run -/

/-- what is known of a text -/
def Sound (g : St) (a : Arrival) : Prop :=
  a.place ≠ .dropped ∧ a.place ≠ .raised ∧ ∀ i d, a.place = .decided i d →
    a.seen = some i ∧ d ≠ .interrupted ∧ ∃ r, g.requests[i]? = some r ∧ outcome r = some d

structure Inv (s : Sys) : Prop where
  held : Held s.gate
  texts : ∀ a ∈ s.arrivals, Sound s.gate a
  capped : ∀ i, s.reprompts.count i ≤ maxApprovalReprompts

theorem inv_start : Inv start := by
  refine ⟨fun i hi => ?_, fun a ha => ?_, fun i => ?_⟩
  · cases hi
  · cases ha
  · exact Nat.zero_le _

theorem Inv.onGate {s : Sys} {o : Op} (h : Inv s) (hC : Fits s.gate o) : Inv (s.onGate o) := by
  have hs := step_gate h.held hC
  refine ⟨held_step h.held hs, fun a ha => ?_, h.capped⟩
  obtain ⟨hd, hr, ho⟩ := h.texts a ha
  refine ⟨hd, hr, fun i d hp => ?_⟩
  obtain ⟨hseen, hne, hout⟩ := ho i d hp
  exact ⟨hseen, hne, outcome_step hs hne hout⟩

theorem Inv.put {s : Sys} {j : ℕ} {a : Arrival} {p : Place} (h : Inv s) (ha : Sound s.gate { a with place := p }) :
    Inv (s.put j a p) := by
  refine ⟨h.held, fun b hb => ?_, h.capped⟩
  rcases List.mem_or_eq_of_mem_set hb with hb | rfl
  · exact h.texts b hb
  · exact ha

/-- a place that is neither a loss nor a decision -/
theorem sound_of_plain {g : St} {a : Arrival} (hd : a.place ≠ .dropped) (hr : a.place ≠ .raised)
    (ho : ∀ i d, a.place ≠ .decided i d) : Sound g a :=
  ⟨hd, hr, fun i d hp => absurd hp (ho i d)⟩

theorem inv_decideBy {s : Sys} {j : ℕ} {a : Arrival} {d : Decision} (h : Inv s) (hd : d ≠ .interrupted)
    (hC : Answers s a d) : Inv (decideBy s j a d) := by
  obtain ⟨hseen, hpend, hfits⟩ := hC
  obtain ⟨i, hi⟩ := Option.isSome_iff_exists.1 hseen
  have hp : s.gate.pending = some i := hpend.trans hi
  obtain ⟨r, hr, hl⟩ := h.held i hp
  have hlt := (List.getElem?_eq_some_iff.1 hr).1
  unfold decideBy
  rw [hp]
  refine (h.onGate hfits).put ⟨by simp, by simp, fun i' d' hp' => ?_⟩
  cases hp'
  -- the request that takes the decision is the pending one
  refine ⟨hi, hd, { r with decision := some d, replies := r.replies ++ [⟨d, .deleteRow, s.gate.shown.getLast?⟩] }, ?_, ?_⟩
  · simp only [Sys.onGate, step, hp, hr, St.setRequest, List.getElem?_set_self hlt]
  · exact outcome_listening (r := { r with decision := some d, replies := _ }) hl

theorem inv_interruptBy {s : Sys} {j : ℕ} {a : Arrival} (h : Inv s) (hC : Fits s.gate (.resolve .interrupted)) :
    Inv (interruptBy s j a) :=
  (h.onGate hC).put (sound_of_plain (by simp) (by simp) (by simp))

theorem inv_noteAmbiguousReply {s s' : Sys} (h : Inv s) (hs : noteAmbiguousReply s = some s') : Inv s' := by
  unfold noteAmbiguousReply at hs
  cases hp : s.gate.pending with
  | none => simp [hp] at hs
  | some i =>
    simp only [hp] at hs
    split_ifs at hs with hcap
    cases hs
    refine ⟨h.held, h.texts, fun i' => ?_⟩
    have hc := h.capped i'
    rw [List.count_append, List.count_singleton]
    by_cases hi : i = i'
    · subst hi; simp; omega
    · simp [hi, hc]

/-- no reply on the fast path interrupts -/
theorem parse_ne_interrupted {text : Str} {d : Decision} (h : parseApprovalResponse env text = some d) :
    d ≠ .interrupted := by
  have hall : ∀ kv ∈ approvalResponseFastPath, kv.2 ≠ .interrupted := by decide
  unfold parseApprovalResponse at h
  obtain ⟨kv, hkv, rfl⟩ := Option.map_eq_some_iff.1 h
  exact hall kv (List.mem_of_find?_eq_some hkv)

theorem classify_ne_interrupted {answer : Answer} {d : Decision}
    (h : classifyApprovalResponse answer = .ok (some (.decided d))) : d ≠ .interrupted := by
  rintro rfl
  cases answer with
  | parsed c => cases c <;> simp [classifyApprovalResponse, decisionMap] at h
  | _ => simp [classifyApprovalResponse] at h

theorem inv_checkText {s : Sys} {j : ℕ} {a : Arrival} {routeEnabled : Bool} (h : Inv s)
    (hC : CheckFits env s a routeEnabled) : Inv (checkText env s j a routeEnabled) := by
  have hplain : ∀ p, p = .notified ∨ p = .classifying ∨ p = .storing → Inv (s.put j a p) := by
    rintro p (rfl | rfl | rfl) <;> exact h.put (sound_of_plain (by simp) (by simp) (by simp))
  unfold checkText
  split_ifs with henabled hreport hgate
  · exact hplain _ (.inl rfl)
  · exact hplain _ (.inl rfl)
  · cases hparse : parseApprovalResponse env a.inbound.text with
    | none => exact hplain _ (.inr (.inl rfl))
    | some d =>
      have hanswers := hC (by simpa using henabled) (by simpa using hreport) hgate d hparse
      exact inv_decideBy h (parse_ne_interrupted env hparse) hanswers
  · exact hplain _ (.inr (.inr rfl))

theorem inv_classifiedText {s : Sys} {j : ℕ} {a : Arrival} {answer : Answer} (h : Inv s)
    (hC : AnswerFits s a answer) : Inv (classifiedText s j a answer) := by
  unfold AnswerFits at hC
  unfold classifiedText
  cases hv : classifyApprovalResponse answer with
  | error e => simp [hv] at hC
  | ok v =>
    cases v with
    | none => exact inv_interruptBy h (by simpa [hv] using hC)
    | some verdict =>
      cases verdict with
      | decided d => exact inv_decideBy h (classify_ne_interrupted hv) (by simpa [hv] using hC)
      | ambiguous =>
        simp only [hv] at hC
        simp only
        cases hn : noteAmbiguousReply s with
        | none => exact inv_interruptBy h (hC hn)
        | some s' => exact (inv_noteAmbiguousReply h hn).put (sound_of_plain (by simp) (by simp) (by simp))

theorem inv_at {s : Sys} {j : ℕ} {p : Place} {act : Arrival → Sys} (h : Inv s)
    (hact : ∀ a ∈ s.arrivals[j]?, a.place = p → Inv (act a)) : Inv (s.at j p act) := by
  unfold Sys.at
  cases ha : s.arrivals[j]? with
  | none => exact h
  | some a =>
    simp only
    split_ifs with hp
    · exact hact a ha hp
    · exact h

theorem inv_next (s : Sys) (e : Event) (h : Inv s) (hC : Timely env s e) : Inv (next env s e) := by
  cases e with
  | arrive inbound =>
    refine ⟨h.held, fun a ha => ?_, h.capped⟩
    rcases List.mem_append.1 ha with ha | ha
    · exact h.texts a ha
    · cases List.mem_singleton.1 ha
      exact sound_of_plain (by simp) (by simp) (by simp)
  | check j routeEnabled => exact inv_at h fun a ha hp => inv_checkText env h (hC a ha hp)
  | classified j answer => exact inv_at h fun a ha hp => inv_classifiedText h (hC a ha hp)
  | store j => exact inv_at h fun a _ _ => h.put (sound_of_plain (by simp) (by simp) (by simp))
  | poll j =>
    refine inv_at h fun a ha hp => ?_
    split_ifs
    · exact h.onGate (hC a ha hp)
    · exact h
  | requestApproval t d c h' => exact h.onGate trivial
  | resume i => exact h.onGate trivial
  | publishFails i => exact h.onGate hC
  | timeout i => exact h.onGate hC
  | resumeReply i j => exact h.onGate trivial

/-! ## Results -/

/-- **Every text is accounted for.** In every interleaving of texts, requests, timeouts and polls whose decisions find
the request their text arrived under, and override no other reply. -/
theorem texts_accounted {es : List Event} (hC : Runs.Meets (next env) (Timely env) start es) :
    Accounted (runFrom env start es) := by
  have h : Inv (runFrom env start es) := Runs.run_inv (inv_next env) hC inv_start
  refine ⟨fun a ha => ⟨(h.texts a ha).1, (h.texts a ha).2.1⟩, fun a ha i d hp => ?_, h.capped⟩
  obtain ⟨hseen, -, hout⟩ := (h.texts a ha).2.2 i d hp
  exact ⟨hseen, hout⟩

/-- a request that is asked and waits -/
def asked (i : ℕ) (toolName description : String) : List Event :=
  [.requestApproval toolName description "sms" "c1", .resume i, .resume i, .resume i, .resume i]

def sampleTexts : Env := History.sampleEnv [] []

/-- a first text is filler, a second one agrees, and the request wakes; a third text comes when nothing is pending -/
def timelyEvents : List Event :=
  asked 0 "send_email" "Email the crew" ++
    [.arrive ⟨"lol".toList, []⟩, .check 0 true, .classified 0 (.parsed .ambiguous),
      .arrive ⟨"yes".toList, []⟩, .check 1 true, .resumeReply 0 0, .resumeReply 0 0, .resumeReply 0 0,
      .resume 0, .resume 0, .arrive ⟨"thanks".toList, []⟩, .check 2 true, .store 2]

theorem texts_accounted_yes : Accounted (runFrom sampleTexts start timelyEvents) :=
  texts_accounted sampleTexts (by decide +kernel)

/-- a text goes to the classifier while the request waits, and the request times out -/
def lateEvents : List Event :=
  asked 0 "send_email" "Email the crew" ++
    [.arrive ⟨"go ahead".toList, []⟩, .check 0 true, .timeout 0, .resume 0, .resume 0]

/-- **A late reply.** Its request timed out while it was classified: the reply is dropped, or it approves the request
that was asked since. -/
theorem late_yes :
    ¬ Accounted (runFrom sampleTexts start (lateEvents ++ [.classified 0 (.parsed .approved)])) ∧
    ¬ Accounted (runFrom sampleTexts start (lateEvents ++ asked 1 "create_invoice" "Invoice Smith" ++
      [.classified 0 (.parsed .approved)])) := by
  constructor
  · intro h
    exact absurd rfl (h.kept ⟨⟨"go ahead".toList, []⟩, some 0, .dropped⟩ (by decide +kernel)).1
  · intro h
    have hseen := (h.own ⟨⟨"go ahead".toList, []⟩, some 0, .decided 1 .approved⟩ (by decide +kernel) 1 .approved rfl).1
    exact absurd hseen (by decide)

end Clawbolt.Approval.Replies
