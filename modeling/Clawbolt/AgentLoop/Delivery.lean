/-
What a turn delivers and counts (`process_message`, `_fold_pending_inbound` and `_wrap_up_after_max_rounds` of
agent/core.py): the response that the reply is the text of, and the token totals beside the responses that came in.

The ledger follows the loop of the turn: what was folded in, each response with the prompt that it answers, and the four
totals as the code adds them up. A provider answers each call with a response, or the call raises.

- `round_delivers`: one round, with the ledger beside it;
- `turn_accounts`: when exactly a turn delivers whole answers and counts every response;
- `cut_off_uncounted`: a text that is delivered although its tool call was cut off, and output that no total counts.
-/
import Mathlib.Tactic
import Clawbolt.AgentLoop.Handed

namespace Clawbolt.AgentLoop

open Text (Str)
open History (AgentMessage)
open Agent (MessageResponse ParsedToolCall parseToolCalls)

/-! ## Model -/

/-- the figures of a usage that are totalled -/
inductive Figure where
  | input
  | output
  | cacheCreation
  | cacheRead
deriving DecidableEq

def Figure.key : Figure → String
  | .input => "input_tokens"
  | .output => "output_tokens"
  | .cacheCreation => "cache_creation_input_tokens"
  | .cacheRead => "cache_read_input_tokens"

/-- the usage of a response, figure by figure -/
def usageOf (response : MessageResponse) (figure : Figure) : ℕ := usageCount response figure.key

/-- what the loop adds for a response: nothing without input tokens -/
def counted (response : MessageResponse) : Figure → ℕ :=
  if usageCount response "input_tokens" = 0 then 0 else usageOf response

/-- a response with the prompt that it answers -/
structure Received where
  prompt : List AgentMessage
  response : MessageResponse

structure Ledger where
  /-- the messages folded in so far -/
  folded : List Folded := []
  received : List Received := []
  totals : Figure → ℕ := 0

/-- `_fold_pending_inbound` -/
def Ledger.fold (l : Ledger) (folded : List Folded) : Ledger := { l with folded := l.folded ++ folded }

/-- a response comes in during the loop -/
def Ledger.receive (l : Ledger) (prompt : List AgentMessage) (response : MessageResponse) : Ledger :=
  { l with received := l.received ++ [⟨prompt, response⟩], totals := l.totals + counted response }

/-- the response ended as a response may -/
def stopsValid (response : MessageResponse) : Bool := validStopReasons.contains response.stopReason

/-- the draft is discarded for messages that came in -/
def folds (last : Bool) (response : MessageResponse) : Bool :=
  stopsValid response && (parseToolCalls response).any List.isEmpty && !truncated response && !last

/-- a round -/
def Ledger.round (l : Ledger) (s : St) (last : Bool) (r : RoundScript) : Ledger :=
  let l := l.fold r.folded
  match r.call.response with
  | none => l
  | some response =>
    let l := l.receive (valuesOf (s.fold r.folded).messages) response
    if folds last response = true then l.fold r.late else l

section

variable (c : Config)

/-- the rounds of the loop -/
def Ledger.rounds (script : ℕ → RoundScript) : ℕ → ℕ → St → Ledger → Ledger
  | 0, i, s, l => l.round s true (script i)
  | left + 1, i, s, l =>
    match s.round c false (script i) with
    | (_, .ended _) => l.round s false (script i)
    | (s', .more _ _) => Ledger.rounds script left (i + 1) s' (l.round s false (script i))

/-- the ledger at the end, and the response that the reply is the text of; none for a fallback -/
def Ledger.finish (wrapUpOnMaxRounds : Bool) (wrapUp : Call) (l : Ledger) : St × RoundEnd → Ledger × Option Received
  | (_, .ended (.replied _)) => (l, l.received.getLast?)
  | (_, .ended _) => (l, none)
  | (s, .more parsed response) =>
    if parsed.isEmpty && truncated response then (l, none)
    else if wrapUpOnMaxRounds = true ∧ responseText response = [] ∧ alreadyReplied s.records = false then
      match wrapUp.response with
      | none => (l, none)
      | some answer =>
        let answered : Received := ⟨valuesOf s.messages ++ [.user maxRoundsWrapUpInstruction none], answer⟩
        let received := l.received ++ [answered]
        if stopsValid answer = true ∧ truncated answer = false then
          ({ l with received := received, totals := l.totals + usageOf answer },
            if responseText answer = [] then none else some answered)
        else ({ l with received := received }, none)
    else (l, l.received.getLast?)

/-- the calls of a turn are answered so, and none is refused as too long -/
def TurnScript.answered (script : TurnScript) (responses : ℕ → Option MessageResponse) (wrapUp : Option MessageResponse) :
    TurnScript :=
  { script with
    rounds := fun i => { script.rounds i with call := ⟨false, responses i⟩ }
    wrapUp := ⟨false, wrapUp⟩ }

/-- the state of a turn before its first round -/
def TurnInput.start (t : TurnInput) (script : TurnScript) : St :=
  (t.assemblePrompt c.env c.cfg c.diff).start script.maxTokens

/-- what the loop of a turn ends with -/
def looped (t : TurnInput) (script : TurnScript) : St × RoundEnd :=
  St.rounds c script.rounds (c.maxToolRounds - 1) 0 (t.start c script)

/-- the ledger of the loop of a turn -/
def loopLedger (t : TurnInput) (script : TurnScript) : Ledger :=
  Ledger.rounds c script.rounds (c.maxToolRounds - 1) 0 (t.start c script) {}

/-- the ledger of a turn, and the response that the reply is the text of -/
def ledger (t : TurnInput) (script : TurnScript) : Ledger × Option Received :=
  (loopLedger c t script).finish script.wrapUpOnMaxRounds script.wrapUp (looped c t script)

theorem stopsValid_iff {response : MessageResponse} : stopsValid response = true ↔ response.stopReason ∈ validStopReasons :=
  List.contains_iff_mem

theorem stopsValid_eq_false {response : MessageResponse} (h : response.stopReason ∉ validStopReasons) :
    stopsValid response = false :=
  Bool.eq_false_iff.2 fun hvalid => h (stopsValid_iff.1 hvalid)

/-! ## The claim -/

/-- an answer that is delivered: valid, whole, and asked for with everything that was folded in -/
structure Whole (l : Ledger) (r : Received) : Prop where
  valid : r.response.stopReason ∈ validStopReasons
  notTruncated : truncated r.response = false
  folded : (l.folded.map foldedMessage).Sublist r.prompt

structure Delivers (t : TurnInput) (script : TurnScript) : Prop where
  calls : (processMessage c t script).state.sent.length ≤ c.maxToolRounds + 1
  /-- a reply text is the fallback, or that of a response -/
  reply : ∀ text, (processMessage c t script).ending = .replied text →
    ((ledger c t script).2 = none ∧ text = maxRoundsFallback) ∨
      ∃ r ∈ (ledger c t script).1.received, (ledger c t script).2 = some r ∧ text = responseText r.response
  whole : ∀ r, (ledger c t script).2 = some r → responseText r.response ≠ [] → Whole (ledger c t script).1 r
  totals : (ledger c t script).1.totals = ((ledger c t script).1.received.map fun r => usageOf r.response).sum

/-- the responses on which a turn does so -/
structure Accountable (t : TurnInput) (script : TurnScript) : Prop where
  /-- whatever has tokens has input tokens -/
  reported : ∀ r ∈ (loopLedger c t script).received, usageCount r.response "input_tokens" = 0 → usageOf r.response = 0
  /-- no tool call of the last round is cut off after a text -/
  lastRound : ∀ parsed response, (looped c t script).2 = .more parsed response → parsed ≠ [] → truncated response = true →
    responseText response = []
  /-- an answer to the wrap-up that is no reply has no tokens -/
  wrapUp : ∀ parsed response, (looped c t script).2 = .more parsed response → (parsed ≠ [] ∨ truncated response = false) →
    script.wrapUpOnMaxRounds = true → responseText response = [] → alreadyReplied (looped c t script).1.records = false →
    ∀ answer, script.wrapUp.response = some answer → (answer.stopReason ∉ validStopReasons ∨ truncated answer = true) →
      usageOf answer = 0

end

/-! ## One round -/

section

variable {c : Config} {s : St} {l : Ledger} {r : RoundScript}

/-- what was folded in is in the messages -/
def Carried (s : St) (l : Ledger) : Prop := (l.folded.map foldedMessage).Sublist (valuesOf s.messages)

theorem values_append (s : St) (ms : List AgentMessage) : valuesOf (s.append ms).messages = valuesOf s.messages ++ ms := by
  have hallocate := valuesOf_allocate s.next ms
  rw [St.append, valuesOf, List.map_append]
  exact congrArg _ hallocate

theorem Carried.fold (h : Carried s l) (folded : List Folded) : Carried (s.fold folded) (l.fold folded) := by
  rw [Carried, St.fold, values_append, Ledger.fold, List.map_append]
  exact List.Sublist.append h (List.Sublist.refl _)

/-- the last response, with a prompt that has everything that was folded in -/
structure Latest (l : Ledger) (response : MessageResponse) : Prop where
  valid : response.stopReason ∈ validStopReasons
  received : ∃ prompt, l.received.getLast? = some ⟨prompt, response⟩ ∧ (l.folded.map foldedMessage).Sublist prompt

/-- what a round comes to, in a state and a ledger before it -/
structure RoundDelivers (last : Bool) (s' : St) (e : RoundEnd) (l' : Ledger) : Prop where
  replied : ∀ text, e = .ended (.replied text) →
    ∃ response, Latest l' response ∧ truncated response = false ∧ text = responseText response
  more : ∀ parsed response, e = .more parsed response → Carried s' l'
  lastMore : last = true → ∀ parsed response, e = .more parsed response →
    Latest l' response ∧ (parsed = [] → truncated response = true)

/-- a round that ends without a reply -/
theorem RoundDelivers.stop {last : Bool} {s' : St} {l' : Ledger} {ending : Ending} (h : ∀ text, ending ≠ .replied text) :
    RoundDelivers last s' (.ended ending) l' where
  replied := fun text he => absurd (RoundEnd.ended.inj he) (h text)
  more := fun parsed response he => by cases he
  lastMore := fun _ parsed response he => by cases he

/-- a round that ends with a reply -/
theorem RoundDelivers.reply {last : Bool} {s' : St} {l' : Ledger} {response : MessageResponse} (h : Latest l' response)
    (htrunc : truncated response = false) :
    RoundDelivers last s' (.ended (.replied (responseText response))) l' where
  replied := fun text he => ⟨response, h, htrunc, (Ending.replied.inj (RoundEnd.ended.inj he)).symm⟩
  more := fun parsed response' he => by cases he
  lastMore := fun _ parsed response' he => by cases he

/-- a round that another one follows, or the wrap-up -/
theorem RoundDelivers.again {last : Bool} {s' : St} {l' : Ledger} {parsed : List ParsedToolCall} {response : MessageResponse}
    (h : Carried s' l') (hlast : last = true → Latest l' response ∧ (parsed = [] → truncated response = true)) :
    RoundDelivers last s' (.more parsed response) l' where
  replied := fun text he => by cases he
  more := fun _ _ _ => h
  lastMore := fun hl _ _ he => by
    obtain ⟨rfl, rfl⟩ := RoundEnd.more.inj he
    exact hlast hl

theorem toolRound_messages (s : St) (r : RoundScript) (calls : List ParsedToolCall) (response : MessageResponse) :
    ∃ ms, valuesOf (s.toolRound c r calls response).1.messages = valuesOf s.messages ++ ms := by
  unfold St.toolRound
  dsimp only
  split
  · exact ⟨_, values_append _ _⟩
  · rw [values_append]
    exact ⟨_, (congrArg (· ++ _) (values_append s _)).trans (List.append_assoc _ _ _)⟩

theorem toolRound_end (s : St) (r : RoundScript) (calls : List ParsedToolCall) (response : MessageResponse) :
    (s.toolRound c r calls response).2 = .ended .raised ∨ (s.toolRound c r calls response).2 = .more calls response := by
  unfold St.toolRound
  dsimp only
  split
  · exact Or.inl rfl
  · exact Or.inr rfl

theorem toolRound_sent (s : St) (r : RoundScript) (calls : List ParsedToolCall) (response : MessageResponse) :
    (s.toolRound c r calls response).1.sent = s.sent := by
  unfold St.toolRound
  dsimp only
  split
  · rfl
  · rfl

theorem draft_sent (s : St) (last : Bool) (late : List Folded) (response : MessageResponse) :
    (s.draft c last late response).1.sent = s.sent := by
  unfold St.draft
  split_ifs
  · rfl
  · rfl
  · rfl
  · rfl

/-- a call that is not refused sends one list, and changes no message -/
theorem callLlm_sent (s : St) (messages : List Obj) {call : Call} (hcall : call.overflow = false) :
    (s.callLlm c messages call).sent.length = s.sent.length + 1 ∧ (s.callLlm c messages call).messages = s.messages := by
  unfold St.callLlm
  dsimp only
  rw [if_neg (by rw [hcall]; exact Bool.false_ne_true)]
  exact ⟨List.length_append, rfl⟩

/-- a round makes one call -/
theorem round_sent (s : St) (last : Bool) (r : RoundScript) (hcall : r.call.overflow = false) :
    (s.round c last r).1.sent.length = s.sent.length + 1 := by
  have hsent : ((s.fold r.folded).callLlm c (s.fold r.folded).messages r.call).sent.length = s.sent.length + 1 :=
    (callLlm_sent _ _ hcall).1
  unfold St.round
  dsimp only
  generalize (s.fold r.folded).callLlm c (s.fold r.folded).messages r.call = s' at hsent ⊢
  split
  · exact hsent
  · rename_i response hresponse
    by_cases hvalid : response.stopReason ∉ validStopReasons
    · rw [if_pos hvalid]
      exact hsent
    · rw [if_neg hvalid]
      split
      · exact hsent
      · rw [draft_sent]
        exact hsent
      · rw [toolRound_sent]
        exact hsent

/-- the totals of the loop are those of what it received -/
def Counted (l : Ledger) : Prop := l.totals = (l.received.map fun r => counted r.response).sum

theorem Counted.receive (h : Counted l) (prompt : List AgentMessage) (response : MessageResponse) :
    Counted (l.receive prompt response) := by
  rw [Counted] at h ⊢
  rw [Ledger.receive, h, List.map_append, List.sum_append]
  simp only [List.map_cons, List.map_nil, List.sum_cons, List.sum_nil, add_zero]

theorem round_counted (h : Counted l) (s : St) (last : Bool) (r : RoundScript) : Counted (l.round s last r) := by
  unfold Ledger.round
  dsimp only
  split
  · exact h
  · split_ifs
    · exact Counted.receive h _ _
    · exact Counted.receive h _ _

/-- a response without tool calls is asked for again, discarded, or the reply -/
theorem draft_delivers {response : MessageResponse} (hlatest : Latest l response) (hcarried : Carried s l)
    (hparse : parseToolCalls response = some []) (last : Bool) (late : List Folded) :
    RoundDelivers last ((s.noteUsage response).draft c last late response).1
      ((s.noteUsage response).draft c last late response).2
      (if folds last response = true then l.fold late else l) := by
  cases htrunc : truncated response with
  | true =>
    have hno : folds last response = false := by rw [folds, htrunc, Bool.not_true, Bool.and_false, Bool.false_and]
    rw [hno, if_neg Bool.false_ne_true, St.draft, if_pos htrunc]
    split_ifs
    · exact RoundDelivers.again hcarried fun _ => ⟨hlatest, fun _ => htrunc⟩
    · exact RoundDelivers.stop fun text he => by cases he
  | false =>
    have hfolds : folds last response = !last := by
      rw [folds, stopsValid_iff.2 hlatest.valid, hparse, htrunc]
      rfl
    rw [hfolds, St.draft, if_neg (by rw [htrunc]; exact Bool.false_ne_true)]
    cases last with
    | true =>
      rw [if_neg (fun h => Bool.false_ne_true h.1.symm), if_neg (by exact Bool.false_ne_true)]
      exact RoundDelivers.reply hlatest htrunc
    | false =>
      rw [if_pos (by rfl : (!false) = true)]
      cases hlate : late.isEmpty with
      | true =>
        -- nothing is pending
        obtain rfl := List.isEmpty_iff.1 hlate
        rw [if_neg (fun h => Bool.false_ne_true h.2.symm)]
        have hsame : l.fold [] = l := by rw [Ledger.fold, List.append_nil]
        rw [hsame]
        exact RoundDelivers.reply hlatest htrunc
      | false =>
        rw [if_pos ⟨rfl, rfl⟩]
        exact RoundDelivers.again (Carried.fold hcarried late) fun h => absurd h Bool.false_ne_true

/-- a response with tool calls -/
theorem toolRound_delivers {response : MessageResponse} {calls : List ParsedToolCall} (hlatest : Latest l response)
    (hcarried : Carried s l) (last : Bool) (r : RoundScript) (hcalls : calls ≠ []) :
    RoundDelivers last ((s.noteUsage response).toolRound c r calls response).1
      ((s.noteUsage response).toolRound c r calls response).2 l := by
  obtain hend | hend := toolRound_end (c := c) (s.noteUsage response) r calls response
  · rw [hend]
    exact RoundDelivers.stop fun text he => by cases he
  · rw [hend]
    refine RoundDelivers.again ?_ fun _ => ⟨hlatest, fun hnil => absurd hnil hcalls⟩
    obtain ⟨ms, hms⟩ := toolRound_messages (c := c) (s.noteUsage response) r calls response
    rw [Carried, hms]
    exact List.Sublist.trans hcarried (List.sublist_append_left _ _)

/-- **One round.** What was folded in goes on to the next, or was in the prompt of the response that is delivered. -/
theorem round_delivers (h : Carried s l) (last : Bool) (r : RoundScript) (hcall : r.call.overflow = false) :
    RoundDelivers last (s.round c last r).1 (s.round c last r).2 (l.round s last r) := by
  have hfolded := h.fold r.folded
  unfold St.round Ledger.round
  dsimp only
  have hmessages : ((s.fold r.folded).callLlm c (s.fold r.folded).messages r.call).messages = (s.fold r.folded).messages :=
    (callLlm_sent _ _ hcall).2
  generalize (s.fold r.folded).callLlm c (s.fold r.folded).messages r.call = s' at hmessages ⊢
  cases hresponse : r.call.response with
  | none => exact RoundDelivers.stop fun text he => by cases he
  | some response =>
    dsimp only
    have hcarried : Carried s' ((l.fold r.folded).receive (valuesOf (s.fold r.folded).messages) response) := by
      rw [Carried, hmessages]
      exact hfolded
    have hreceived : ∃ prompt, ((l.fold r.folded).receive (valuesOf (s.fold r.folded).messages) response).received.getLast? =
        some ⟨prompt, response⟩ ∧
        (((l.fold r.folded).receive (valuesOf (s.fold r.folded).messages) response).folded.map foldedMessage).Sublist prompt :=
      ⟨_, List.getLast?_concat, hfolded⟩
    generalize (l.fold r.folded).receive (valuesOf (s.fold r.folded).messages) response = l' at hcarried hreceived ⊢
    by_cases hvalid : response.stopReason ∈ validStopReasons
    · rw [if_neg (not_not.2 hvalid)]
      have hlatest : Latest l' response := ⟨hvalid, hreceived⟩
      split
      · have hno : folds last response = false := by
          rename_i hparse
          rw [folds, hparse, Option.any_none, Bool.and_false, Bool.false_and, Bool.false_and]
        rw [hno, if_neg Bool.false_ne_true]
        exact RoundDelivers.stop fun text he => by cases he
      · rename_i hparse
        exact draft_delivers hlatest hcarried hparse last r.late
      · rename_i call calls hparse
        have hno : folds last response = false := by
          rw [folds, hparse, Option.any_some, List.isEmpty_cons, Bool.and_false, Bool.false_and, Bool.false_and]
        rw [hno, if_neg Bool.false_ne_true]
        exact toolRound_delivers hlatest hcarried last r (List.cons_ne_nil _ _)
    · rw [if_pos hvalid]
      have hno : folds last response = false := by
        rw [folds, stopsValid_eq_false hvalid, Bool.false_and, Bool.false_and, Bool.false_and]
      rw [hno, if_neg Bool.false_ne_true]
      exact RoundDelivers.stop fun text he => by cases he

/-! ## The loop -/

variable {script : ℕ → RoundScript}

theorem rounds_sent (hscript : ∀ i, (script i).call.overflow = false) (left i : ℕ) (s : St) :
    (St.rounds c script left i s).1.sent.length ≤ s.sent.length + (left + 1) := by
  induction left generalizing i s with
  | zero => exact (round_sent s true (script i) (hscript i)).le
  | succ left ih =>
    have hround := round_sent (c := c) s false (script i) (hscript i)
    rw [St.rounds]
    split
    · rename_i s' ending heq
      rw [heq] at hround
      dsimp only at hround ⊢
      omega
    · rename_i s' parsed response heq
      rw [heq] at hround
      have hrest := ih (i + 1) s'
      dsimp only at hround
      omega

theorem rounds_counted (left i : ℕ) (s : St) (h : Counted l) : Counted (l.rounds c script left i s) := by
  induction left generalizing i s l with
  | zero => exact round_counted h s true (script i)
  | succ left ih =>
    rw [Ledger.rounds]
    split
    · exact round_counted h s false (script i)
    · rename_i s' parsed response heq
      exact ih (i + 1) s' (round_counted h s false (script i))

/-- the loop delivers as its last round does -/
theorem rounds_deliver (hscript : ∀ i, (script i).call.overflow = false) (left i : ℕ) (h : Carried s l) :
    RoundDelivers true (St.rounds c script left i s).1 (St.rounds c script left i s).2 (l.rounds c script left i s) := by
  induction left generalizing i s l with
  | zero => exact round_delivers h true (script i) (hscript i)
  | succ left ih =>
    have hround := round_delivers (c := c) h false (script i) (hscript i)
    rw [St.rounds, Ledger.rounds]
    cases hresult : s.round c false (script i) with
    | mk s' e =>
      rw [hresult] at hround
      cases e with
      | ended ending => exact ⟨hround.replied, hround.more, fun _ parsed response he => by cases he⟩
      | more parsed response => exact ih (i + 1) (hround.more parsed response rfl)

end

/-! ## Totals -/

theorem counted_le (response : MessageResponse) : counted response ≤ usageOf response := by
  unfold counted
  split_ifs
  · exact fun _ => Nat.zero_le _
  · exact le_rfl

theorem counted_eq_iff (response : MessageResponse) :
    counted response = usageOf response ↔ (usageCount response "input_tokens" = 0 → usageOf response = 0) := by
  unfold counted
  split_ifs with hinput
  · exact ⟨fun h _ => h.symm, fun h => (h hinput).symm⟩
  · exact ⟨fun _ h => absurd h hinput, fun _ => rfl⟩

/-- sums of less are the same only term by term -/
theorem add_eq_of_le {a b a' b' : Figure → ℕ} (ha : a ≤ a') (hb : b ≤ b') : a + b = a' + b' ↔ a = a' ∧ b = b' := by
  constructor
  · intro h
    have hat : ∀ figure, a figure + b figure = a' figure + b' figure := fun figure => congrFun h figure
    refine ⟨funext fun figure => ?_, funext fun figure => ?_⟩
    · have h1 := hat figure
      have h2 : a figure ≤ a' figure := ha figure
      have h3 : b figure ≤ b' figure := hb figure
      omega
    · have h1 := hat figure
      have h2 : a figure ≤ a' figure := ha figure
      have h3 : b figure ≤ b' figure := hb figure
      omega
  · rintro ⟨rfl, rfl⟩
    rfl

theorem sum_counted_le (l : List Received) :
    (l.map fun r => counted r.response).sum ≤ (l.map fun r => usageOf r.response).sum := by
  induction l with
  | nil => exact le_rfl
  | cons r l ih =>
    rw [List.map_cons, List.map_cons, List.sum_cons, List.sum_cons]
    exact add_le_add (counted_le _) ih

theorem sum_counted_eq_iff (l : List Received) :
    (l.map fun r => counted r.response).sum = (l.map fun r => usageOf r.response).sum ↔
      ∀ r ∈ l, usageCount r.response "input_tokens" = 0 → usageOf r.response = 0 := by
  induction l with
  | nil => exact iff_of_true rfl fun r hr => (List.not_mem_nil hr).elim
  | cons r l ih =>
    rw [List.map_cons, List.map_cons, List.sum_cons, List.sum_cons,
      add_eq_of_le (counted_le r.response) (sum_counted_le l), counted_eq_iff, ih, List.forall_mem_cons]

/-! ## The turn -/

section

variable {c : Config} {t : TurnInput} {script : TurnScript}

/-- what the loop leaves the ledger at -/
theorem looped_delivers (hscript : ∀ i, (script.rounds i).call.overflow = false) :
    RoundDelivers true (looped c t script).1 (looped c t script).2 (loopLedger c t script) :=
  rounds_deliver hscript _ _ (List.nil_sublist _)

theorem loop_counted : Counted (loopLedger c t script) := rounds_counted _ _ _ rfl

/-- a turn makes one call a round, and one for the wrap-up -/
theorem turn_calls (hscript : ∀ i, (script.rounds i).call.overflow = false) (hwrapUp : script.wrapUp.overflow = false) :
    (processMessage c t script).state.sent.length ≤ c.maxToolRounds + 1 := by
  have hloop : (looped c t script).1.sent.length ≤ 0 + (c.maxToolRounds - 1 + 1) := rounds_sent hscript _ _ _
  have hpos := c.maxToolRounds_pos
  have hfinish : (St.finish c script.wrapUpOnMaxRounds script.wrapUp (looped c t script)).1.sent.length ≤
      (looped c t script).1.sent.length + 1 := by
    have hwrap : ∀ s : St, (s.wrapUp c script.wrapUp).1.sent.length = s.sent.length + 1 :=
      fun s => (callLlm_sent _ _ hwrapUp).1
    obtain ⟨s, e⟩ := looped c t script
    cases e with
    | ended ending => exact Nat.le_succ _
    | more parsed response =>
      unfold St.finish
      dsimp only
      split_ifs
      · exact Nat.le_succ _
      · exact (hwrap s).le
      · exact (hwrap s).le
      · exact Nat.le_succ _
  calc (processMessage c t script).state.sent.length
      = (St.finish c script.wrapUpOnMaxRounds script.wrapUp (looped c t script)).1.sent.length := rfl
    _ ≤ c.maxToolRounds + 1 := by omega

variable {s : St} {l : Ledger} {e : RoundEnd} {wrapUpOnMaxRounds : Bool} {wrapUp : Call}

/-- the reply text is that of the response that the ledger says it is -/
theorem finish_reply (h : RoundDelivers true s e l) {text : Str}
    (hend : (St.finish c wrapUpOnMaxRounds wrapUp (s, e)).2 = .replied text) :
    ((l.finish wrapUpOnMaxRounds wrapUp (s, e)).2 = none ∧ text = maxRoundsFallback) ∨
      ∃ r ∈ (l.finish wrapUpOnMaxRounds wrapUp (s, e)).1.received,
        (l.finish wrapUpOnMaxRounds wrapUp (s, e)).2 = some r ∧ text = responseText r.response := by
  cases e with
  | ended ending =>
    obtain rfl : ending = .replied text := hend
    obtain ⟨response, ⟨-, prompt, hlast, -⟩, -, htext⟩ := h.replied text rfl
    exact Or.inr ⟨_, List.mem_of_getLast? hlast, hlast, htext⟩
  | more parsed response =>
    obtain ⟨⟨-, prompt, hlast, -⟩, -⟩ := h.lastMore rfl parsed response rfl
    unfold St.finish at hend
    unfold Ledger.finish
    simp only [stopsValid_iff]
    dsimp only at hend ⊢
    by_cases habort : (parsed.isEmpty && truncated response) = true
    · rw [if_pos habort] at hend
      cases hend
    · rw [if_neg habort] at hend ⊢
      by_cases hask : wrapUpOnMaxRounds = true ∧ responseText response = [] ∧ alreadyReplied s.records = false
      · rw [if_pos hask] at hend ⊢
        have htext := Ending.replied.inj hend
        cases hwrap : wrapUp.response with
        | none =>
          have hnone : (s.wrapUp c wrapUp).2 = none := by rw [St.wrapUp, hwrap, Option.filter_none]
          rw [hnone] at htext
          exact Or.inl ⟨rfl, htext.symm⟩
        | some answer =>
          dsimp only
          by_cases husable : answer.stopReason ∈ validStopReasons ∧ truncated answer = false
          · have hsome : (s.wrapUp c wrapUp).2 = some answer := by
              rw [St.wrapUp, hwrap, Option.filter_some, decide_eq_true husable.1, husable.2]
              rfl
            rw [hsome] at htext
            have htext : (if responseText answer = [] then maxRoundsFallback else responseText answer) = text := htext
            rw [if_pos husable]
            by_cases hnil : responseText answer = []
            · rw [if_pos hnil]
              rw [if_pos hnil] at htext
              exact Or.inl ⟨rfl, htext.symm⟩
            · rw [if_neg hnil]
              rw [if_neg hnil] at htext
              exact Or.inr ⟨_, List.mem_append_right _ (List.mem_singleton_self _), rfl, htext.symm⟩
          · have hnone : (s.wrapUp c wrapUp).2 = none := by
              rw [St.wrapUp, hwrap, Option.filter_some, if_neg]
              intro hboth
              obtain ⟨hvalid, htrunc⟩ := Bool.and_eq_true_iff.1 hboth
              exact husable ⟨of_decide_eq_true hvalid, by simpa using htrunc⟩
            rw [hnone] at htext
            rw [if_neg husable]
            exact Or.inl ⟨rfl, htext.symm⟩
      · rw [if_neg hask] at hend ⊢
        exact Or.inr ⟨_, List.mem_of_getLast? hlast, hlast, (Ending.replied.inj hend).symm⟩

/-- what is asked of the response of the last round, and of the answer to the wrap-up -/
structure Ends (wrapUpOnMaxRounds : Bool) (wrapUp : Call) (s : St) (e : RoundEnd) : Prop where
  lastRound : ∀ parsed response, e = .more parsed response → parsed ≠ [] → truncated response = true →
    responseText response = []
  wrapUp : ∀ parsed response, e = .more parsed response → (parsed ≠ [] ∨ truncated response = false) →
    wrapUpOnMaxRounds = true → responseText response = [] → alreadyReplied s.records = false →
    ∀ answer, wrapUp.response = some answer → (answer.stopReason ∉ validStopReasons ∨ truncated answer = true) →
      usageOf answer = 0

/-- the ledger counts every response that came in, and what it delivers is whole -/
structure Accounts (l : Ledger × Option Received) : Prop where
  whole : ∀ r, l.2 = some r → responseText r.response ≠ [] → Whole l.1 r
  totals : l.1.totals = (l.1.received.map fun r => usageOf r.response).sum

theorem usable_of_not {answer : MessageResponse} (h : ¬ (answer.stopReason ∈ validStopReasons ∧ truncated answer = false)) :
    answer.stopReason ∉ validStopReasons ∨ truncated answer = true := by
  by_cases hvalid : answer.stopReason ∈ validStopReasons
  · exact Or.inr (Bool.eq_true_of_not_eq_false fun htrunc => h ⟨hvalid, htrunc⟩)
  · exact Or.inl hvalid

/-- nothing is delivered -/
theorem accounts_none : Accounts (l, none) ↔ l.totals = (l.received.map fun r => usageOf r.response).sum :=
  ⟨fun hacc => hacc.totals, fun htot => ⟨fun r hr => (Option.some_ne_none r hr.symm).elim, htot⟩⟩

theorem ends_ended {ending : Ending} : Ends wrapUpOnMaxRounds wrapUp s (.ended ending) where
  lastRound _ _ he := by cases he
  wrapUp _ _ he := by cases he

/-- a loop that a round ended -/
theorem ended_accounts {ending : Ending} (h : RoundDelivers true s (.ended ending) l) :
    Accounts (l.finish wrapUpOnMaxRounds wrapUp (s, .ended ending)) ↔
      l.totals = (l.received.map fun r => usageOf r.response).sum := by
  cases ending with
  | replied text =>
    refine ⟨fun hacc => hacc.totals, fun htot => ⟨fun r hr _ => ?_, htot⟩⟩
    obtain ⟨response, ⟨hvalid, prompt, hlast, hfolded⟩, htrunc, -⟩ := h.replied text rfl
    obtain rfl := Option.some.inj (hlast.symm.trans hr)
    exact ⟨hvalid, htrunc, hfolded⟩
  | raised => exact accounts_none
  | aborted => exact accounts_none

/-- after the loop, exactly these responses are delivered in part or not counted -/
theorem finish_accounts (wrapUpOnMaxRounds : Bool) (wrapUp : Call) (h : RoundDelivers true s e l) (hcounted : Counted l) :
    Accounts (l.finish wrapUpOnMaxRounds wrapUp (s, e)) ↔
      (∀ r ∈ l.received, usageCount r.response "input_tokens" = 0 → usageOf r.response = 0) ∧
        Ends wrapUpOnMaxRounds wrapUp s e := by
  have htotals : l.totals = (l.received.map fun r => usageOf r.response).sum ↔
      ∀ r ∈ l.received, usageCount r.response "input_tokens" = 0 → usageOf r.response = 0 := by
    rw [show l.totals = (l.received.map fun r => counted r.response).sum from hcounted]
    exact sum_counted_eq_iff l.received
  cases e with
  | ended ending => rw [and_iff_left ends_ended, ← htotals, ended_accounts h]
  | more parsed response =>
    obtain ⟨⟨hvalid, prompt, hlast, hfolded⟩, hnil⟩ := h.lastMore rfl parsed response rfl
    have hcarried := h.more parsed response rfl
    unfold Ledger.finish
    simp only [stopsValid_iff]
    by_cases habort : (parsed.isEmpty && truncated response) = true
    · obtain ⟨hempty, htrunc⟩ := Bool.and_eq_true_iff.1 habort
      have hparsed := List.isEmpty_iff.1 hempty
      rw [if_pos habort]
      have hends : Ends wrapUpOnMaxRounds wrapUp s (.more parsed response) := by
        refine ⟨fun p q he hne => ?_, fun p q he hnot => ?_⟩
        · obtain ⟨rfl, rfl⟩ := RoundEnd.more.inj he
          exact absurd hparsed hne
        · obtain ⟨rfl, rfl⟩ := RoundEnd.more.inj he
          obtain hne | hfalse := hnot
          · exact absurd hparsed hne
          · rw [htrunc] at hfalse
            cases hfalse
      rw [and_iff_left hends, ← htotals, accounts_none]
    · rw [if_neg habort]
      have hneeds : parsed ≠ [] ∨ truncated response = false := by
        by_cases hp : parsed = []
        · refine Or.inr (Bool.eq_false_iff.2 fun htrunc => habort ?_)
          rw [hp, htrunc]
          rfl
        · exact Or.inl hp
      by_cases hask : wrapUpOnMaxRounds = true ∧ responseText response = [] ∧ alreadyReplied s.records = false
      · rw [if_pos hask]
        have htext : ∀ p q, RoundEnd.more parsed response = .more p q → p ≠ [] → truncated q = true → responseText q = [] := by
          intro p q he _ _
          obtain ⟨rfl, rfl⟩ := RoundEnd.more.inj he
          exact hask.2.1
        cases hwrap : wrapUp.response with
        | none =>
          have hends : Ends wrapUpOnMaxRounds wrapUp s (.more parsed response) :=
            ⟨htext, fun p q _ _ _ _ _ answer hanswer => absurd (hwrap.symm.trans hanswer) (Option.some_ne_none answer).symm⟩
          rw [and_iff_left hends, ← htotals, accounts_none]
        | some answer =>
          dsimp only
          have hsum : ((l.received ++ [(⟨valuesOf s.messages ++ [.user maxRoundsWrapUpInstruction none], answer⟩ : Received)]).map
              fun r => usageOf r.response).sum = (l.received.map fun r => usageOf r.response).sum + usageOf answer := by
            rw [List.map_append, List.sum_append, List.map_singleton, List.sum_singleton]
          by_cases husable : answer.stopReason ∈ validStopReasons ∧ truncated answer = false
          · have hends : Ends wrapUpOnMaxRounds wrapUp s (.more parsed response) := by
              refine ⟨htext, fun p q _ _ _ _ _ answer' hanswer hnot => ?_⟩
              obtain rfl := Option.some.inj (hwrap.symm.trans hanswer)
              obtain hinvalid | htrunc := hnot
              · exact absurd husable.1 hinvalid
              · rw [husable.2] at htrunc
                cases htrunc
            rw [if_pos husable, and_iff_left hends, ← htotals]
            constructor
            · intro hacc
              have htot := hacc.totals
              rw [hsum] at htot
              exact add_right_cancel htot
            · intro htot
              refine ⟨fun r hr _ => ?_, ?_⟩
              · split_ifs at hr
                obtain rfl := Option.some.inj hr
                exact ⟨husable.1, husable.2, List.Sublist.trans hcarried (List.sublist_append_left _ _)⟩
              · rw [hsum, htot]
          · rw [if_neg husable]
            have hends : Ends wrapUpOnMaxRounds wrapUp s (.more parsed response) ↔ 0 = usageOf answer := by
              constructor
              · intro hends
                exact (hends.wrapUp parsed response rfl hneeds hask.1 hask.2.1 hask.2.2 answer hwrap
                  (usable_of_not husable)).symm
              · intro hzero
                refine ⟨htext, fun p q _ _ _ _ _ answer' hanswer _ => ?_⟩
                obtain rfl := Option.some.inj (hwrap.symm.trans hanswer)
                exact hzero.symm
            have hle : l.totals ≤ (l.received.map fun r => usageOf r.response).sum := by
              rw [show l.totals = (l.received.map fun r => counted r.response).sum from hcounted]
              exact sum_counted_le l.received
            have hzero : (0 : Figure → ℕ) ≤ usageOf answer := fun _ => Nat.zero_le _
            rw [hends, ← htotals, ← add_eq_of_le hle hzero, add_zero, accounts_none, hsum]
      · rw [if_neg hask]
        have hends : Ends wrapUpOnMaxRounds wrapUp s (.more parsed response) ↔
            (truncated response = true → responseText response = []) := by
          constructor
          · intro hends htrunc
            refine hends.lastRound parsed response rfl (fun hp => ?_) htrunc
            exact habort (Bool.and_eq_true_iff.2 ⟨List.isEmpty_iff.2 hp, htrunc⟩)
          · intro htext
            refine ⟨fun p q he _ htrunc => ?_, fun p q he _ hon hempty hreplied => ?_⟩
            · obtain ⟨rfl, rfl⟩ := RoundEnd.more.inj he
              exact htext htrunc
            · obtain ⟨rfl, rfl⟩ := RoundEnd.more.inj he
              exact absurd ⟨hon, hempty, hreplied⟩ hask
        rw [hends, ← htotals]
        constructor
        · intro hacc
          refine ⟨hacc.totals, fun htrunc => ?_⟩
          by_contra hne
          have hwhole := (hacc.whole _ hlast hne).notTruncated
          rw [htrunc] at hwhole
          cases hwhole
        · rintro ⟨htot, htext⟩
          refine ⟨fun r hr hne => ?_, htot⟩
          obtain rfl := Option.some.inj (hlast.symm.trans hr)
          exact ⟨hvalid, Bool.eq_false_iff.2 fun htrunc => hne (htext htrunc), hfolded⟩

end

/-- **A turn.** For every turn, every response to its calls and every message that is folded in: it delivers whole answers
and counts all that it received exactly when every response of the loop with tokens has input tokens, no tool call of the
last round is cut off after a text, and an answer to the wrap-up that is no reply has no tokens. -/
theorem turn_accounts (c : Config) (t : TurnInput) (script : TurnScript) (responses : ℕ → Option MessageResponse)
    (wrapUp : Option MessageResponse) :
    Delivers c t (script.answered responses wrapUp) ↔ Accountable c t (script.answered responses wrapUp) := by
  have hscript : ∀ i, ((script.answered responses wrapUp).rounds i).call.overflow = false := fun _ => rfl
  generalize hanswered : script.answered responses wrapUp = answered at hscript ⊢
  have hwrapUp : answered.wrapUp.overflow = false := by rw [← hanswered]; rfl
  have hloop := looped_delivers (c := c) (t := t) hscript
  have hiff := finish_accounts answered.wrapUpOnMaxRounds answered.wrapUp hloop loop_counted
  constructor
  · intro h
    obtain ⟨hreported, hends⟩ := hiff.1 ⟨h.whole, h.totals⟩
    exact ⟨hreported, hends.lastRound, hends.wrapUp⟩
  · intro h
    have hacc := hiff.2 ⟨h.reported, h.lastRound, h.wrapUp⟩
    exact ⟨turn_calls hscript hwrapUp, fun text hend => finish_reply hloop hend, hacc.whole, hacc.totals⟩

/-- a loop of one round -/
def oneRound : Config := { plainConfig with maxToolRounds := 1, maxToolRounds_pos := Nat.one_pos }

/-- a response with this much output and no input, and a tool call that is cut off -/
def bareUsage (content : List Agent.ContentBlock) (stopReason : String) (output : ℕ) : MessageResponse where
  id := []
  model := []
  content := content
  stopReason := some stopReason.toList
  stopSequence := none
  usage := [("output_tokens".toList, .int output)]

/-- every call is answered by a text and a tool call that is cut off -/
def cutOffCalls : TurnScript :=
  twoOverflows.answered
    (fun _ => some (bareUsage [.text "I will".toList, .toolUse "a".toList "find".toList (.obj [])] "max_tokens" 0)) none

/-- every call is answered by a reply that has output tokens alone -/
def noInput : TurnScript := twoOverflows.answered (fun _ => some (bareUsage [.text "ok".toList] "end_turn" 5)) none

set_option maxRecDepth 20000 in
/-- the reply is the text ahead of a tool call that was cut off in the last round, and the output of a response without
input tokens is not counted -/
theorem cut_off_uncounted : ¬ Delivers oneRound afterOneExchange cutOffCalls ∧ ¬ Delivers oneRound afterOneExchange noInput := by
  constructor
  · intro h
    have hcut : ∃ r ∈ (ledger oneRound afterOneExchange cutOffCalls).2,
        responseText r.response ≠ [] ∧ truncated r.response = true := by decide +kernel
    obtain ⟨r, hr, htext, htrunc⟩ := hcut
    have hwhole := (h.whole r hr htext).notTruncated
    rw [htrunc] at hwhole
    cases hwhole
  · intro h
    have htotals := congrFun h.totals .output
    have huncounted : (ledger oneRound afterOneExchange noInput).1.totals .output ≠
        ((ledger oneRound afterOneExchange noInput).1.received.map fun r => usageOf r.response).sum .output := by
      decide +kernel
    exact huncounted htotals

end Clawbolt.AgentLoop
