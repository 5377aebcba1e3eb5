/-
The answers of a round of tool calls: each of its phases answers the calls that it does not pass on.

- `phase1_eq`: phase 1 answers the calls that it rejects and passes on the others;
- `askLoop_answers`: the approval loop answers the calls that it refuses and approves the others;
- `appendResults_answers`: every approved call is answered after it has run.
-/
import Mathlib.Tactic
import Clawbolt.Agent.ToolRound

namespace Clawbolt.Agent

open Text (Str)
open Approval (Decision PermissionLevel)
open Schedule (Interleaving)

/-! ## Answers -/

/-- the call that an answer is for -/
def Answer.key (a : Answer) : ℕ × Str := (a.index, a.message.toolCallId)

def Entry.key (e : Entry) : ℕ × Str := (e.index, e.call.id)

/-- an answer with a record of the same call and the same result -/
def Answer.Recorded (a : Answer) : Prop :=
  ∃ record, a.record = some record ∧ record.toolCallId = a.message.toolCallId ∧ record.result = a.message.content

/-- the log gains one recorded answer for each entry -/
def Answered (log log' : Log) (es : List Entry) : Prop :=
  ∃ added, log'.answers = log.answers ++ added ∧ (added.map Answer.key).Perm (es.map Entry.key) ∧
    ∀ a ∈ added, a.Recorded

namespace Answered

theorem refl (log : Log) : Answered log log [] := ⟨[], by simp, List.Perm.refl _, by simp⟩

theorem trans {log log' log'' : Log} {es es' : List Entry} (h : Answered log log' es) (h' : Answered log' log'' es') :
    Answered log log'' (es ++ es') := by
  obtain ⟨added, ha, hp, hr⟩ := h
  obtain ⟨added', ha', hp', hr'⟩ := h'
  refine ⟨added ++ added', by rw [ha', ha, List.append_assoc], ?_, ?_⟩
  · rw [List.map_append, List.map_append]
    exact hp.append hp'
  · intro a hm
    rcases List.mem_append.1 hm with hm | hm
    · exact hr a hm
    · exact hr' a hm

/-- a fold that answers one entry at a time -/
theorem foldl {f : Log → Entry → Log} (hf : ∀ log e, Answered log (f log e) [e]) (log : Log) (es : List Entry) :
    Answered log (es.foldl f log) es := by
  induction es generalizing log with
  | nil => exact refl log
  | cons e es ih => exact (hf log e).trans (ih (f log e))

end Answered

theorem answered_deny (tools : Dict Tool) (log : Log) (e : Entry) : Answered log (log.deny tools e) [e] :=
  ⟨[deniedAnswer tools e], rfl, List.Perm.refl _, fun a ha => by
    obtain rfl := List.mem_singleton.1 ha
    exact ⟨_, rfl, rfl, rfl⟩⟩

theorem answered_interrupt (env : Env) (tools : Dict Tool) (log : Log) (e : Entry) :
    Answered log (log.interrupt env tools e) [e] :=
  ⟨[interruptedAnswer env tools e], rfl, List.Perm.refl _, fun a ha => by
    obtain rfl := List.mem_singleton.1 ha
    exact ⟨_, rfl, rfl, rfl⟩⟩

/-- guidance is appended to the record and to the message alike -/
theorem addGuided_answers (env : Env) (log : Log) (index : ℕ) (record : ToolRecord) (msg : ToolResultMessage)
    (action : Str) (hid : record.toolCallId = msg.toolCallId) (hresult : record.result = msg.content) :
    ∃ a, (log.addGuided env index record msg action).answers = log.answers ++ [a] ∧
      a.key = (index, msg.toolCallId) ∧ a.message.isError = msg.isError ∧ a.Recorded := by
  refine ⟨_, rfl, rfl, rfl, _, rfl, hid, ?_⟩
  simp only [hresult]

/-! ## Phase 1 -/

/-- the entry of a call that passes its checks -/
def accepted? (env : Env) (tools : Dict Tool) (c : ParsedToolCall × ℕ) : Option Entry :=
  match checkCall env tools c.1 with
  | .valid tool args => some ⟨c.2, c.1, tool, args⟩
  | _ => none

def validEntries (env : Env) (tools : Dict Tool) (calls : List (ParsedToolCall × ℕ)) : List Entry :=
  calls.filterMap (accepted? env tools)

/-- arguments that are rejected can be recorded -/
def Recordable (env : Env) (tools : Dict Tool) (call : ParsedToolCall) : Prop :=
  ∀ tool error, checkCall env tools call = .invalid tool error → ∃ args, call.arguments = .obj args

theorem accepted_call {env : Env} {tools : Dict Tool} {c : ParsedToolCall × ℕ} {e : Entry}
    (h : accepted? env tools c = some e) : e.index = c.2 ∧ e.call = c.1 := by
  unfold accepted? at h
  cases hc : checkCall env tools c.1 with
  | valid tool args =>
    rw [hc] at h
    obtain rfl := Option.some.inj h
    exact ⟨rfl, rfl⟩
  | _ =>
    rw [hc] at h
    exact absurd h (by simp)

/-- **Phase 1.** It raises where it has to record arguments that are no object. Otherwise it passes on the valid calls and
answers the others, all with errors. -/
theorem phase1_eq (env : Env) (tools : Dict Tool) (truncated : Bool) (log : Log)
    (calls : List (ParsedToolCall × ℕ)) :
    ((∃ r, phase1 env tools truncated log calls = some r) ↔ ∀ c ∈ calls, Recordable env tools c.1) ∧
    ∀ r, phase1 env tools truncated log calls = some r → r.2 = validEntries env tools calls ∧
      ∃ added, r.1.answers = log.answers ++ added ∧
        (added.map Answer.key ++ r.2.map Entry.key).Perm (calls.map fun c => (c.2, c.1.id)) ∧
        ∀ a ∈ added, a.message.isError = true := by
  induction calls generalizing log with
  | nil =>
    refine ⟨by simp [phase1], fun r hr => ?_⟩
    obtain rfl := Option.some.inj hr
    exact ⟨rfl, [], by simp, by simp, by simp⟩
  | cons c calls ih =>
    obtain ⟨call, i⟩ := c
    -- a rejected call is answered, and the rest is as before
    have hanswer : ∀ (log' : Log) (a : Answer), log'.answers = log.answers ++ [a] → a.key = (i, call.id) →
        a.message.isError = true → accepted? env tools (call, i) = none → Recordable env tools call →
        phase1 env tools truncated log ((call, i) :: calls) = phase1 env tools truncated log' calls →
        ((∃ r, phase1 env tools truncated log ((call, i) :: calls) = some r) ↔
          ∀ c ∈ (call, i) :: calls, Recordable env tools c.1) ∧
        ∀ r, phase1 env tools truncated log ((call, i) :: calls) = some r →
          r.2 = validEntries env tools ((call, i) :: calls) ∧
          ∃ added, r.1.answers = log.answers ++ added ∧
            (added.map Answer.key ++ r.2.map Entry.key).Perm (((call, i) :: calls).map fun c => (c.2, c.1.id)) ∧
            ∀ a ∈ added, a.message.isError = true := by
      intro log' a ha hkey herr hnone hrec heq
      obtain ⟨h1, h2⟩ := ih log'
      rw [heq]
      refine ⟨h1.trans (by simp [hrec]), fun r hr => ?_⟩
      obtain ⟨hentries, added, hadded, hperm, herrs⟩ := h2 r hr
      refine ⟨by rw [hentries, validEntries, validEntries, List.filterMap_cons_none hnone], a :: added, ?_, ?_, ?_⟩
      · rw [hadded, ha, List.append_assoc]
        rfl
      · rw [List.map_cons, List.map_cons, List.cons_append, hkey]
        exact hperm.cons _
      · exact List.forall_mem_cons.2 ⟨herr, herrs⟩
    cases hc : checkCall env tools call with
    | malformed =>
      refine hanswer (log.add (malformedAnswer call i) ["Failed: ".toList ++ call.name ++ " (bad args)".toList])
        (malformedAnswer call i) rfl rfl rfl ?_ ?_ ?_
      · unfold accepted?
        rw [hc]
      · intro tool error h
        rw [hc] at h
        exact absurd h (by simp)
      · rw [phase1, hc]
    | unknown =>
      refine hanswer (log.add (unknownAnswer tools call i) []) (unknownAnswer tools call i) rfl rfl rfl ?_ ?_ ?_
      · unfold accepted?
        rw [hc]
      · intro tool error h
        rw [hc] at h
        exact absurd h (by simp)
      · rw [phase1, hc]
    | invalid tool error =>
      have hnone : accepted? env tools (call, i) = none := by
        unfold accepted?
        rw [hc]
      by_cases hobj : ∃ args, call.arguments = .obj args
      · obtain ⟨args, hargs⟩ := hobj
        let text := error ++ "\n\n".toList ++ (if truncated then truncationHint else errorKindHint .validation).toList
        obtain ⟨a, ha, hkey, herr, -⟩ := addGuided_answers env log i
          ⟨call.id, call.name, args, text, true, toolTags tools call.name, none⟩ ⟨call.id, text, true⟩
          ("Failed: ".toList ++ call.name ++ " (validation)".toList) rfl rfl
        refine hanswer _ a ha hkey herr hnone (fun _ _ _ => ⟨args, hargs⟩) ?_
        rw [phase1, hc]
        simp only [hargs]
        rfl
      · have hraise : phase1 env tools truncated log ((call, i) :: calls) = none := by
          rw [phase1, hc]
          simp only
          cases hargs : call.arguments with
          | obj args => exact absurd ⟨args, hargs⟩ hobj
          | _ => rfl
        refine ⟨?_, fun r hr => absurd (hraise.symm.trans hr) (by simp)⟩
        rw [hraise]
        constructor
        · intro h
          obtain ⟨r, hr⟩ := h
          exact absurd hr (by simp)
        · intro h
          exact absurd (h (call, i) List.mem_cons_self tool error hc) hobj
    | valid tool args =>
      have hsome : accepted? env tools (call, i) = some ⟨i, call, tool, args⟩ := by
        unfold accepted?
        rw [hc]
      have hrec : Recordable env tools call := by
        intro tool error h
        rw [hc] at h
        exact absurd h (by simp)
      obtain ⟨h1, h2⟩ := ih log
      have heq : phase1 env tools truncated log ((call, i) :: calls) =
          (phase1 env tools truncated log calls).map fun r => (r.1, ⟨i, call, tool, args⟩ :: r.2) := by
        rw [phase1, hc]
      rw [heq]
      constructor
      · rw [List.forall_mem_cons]
        constructor
        · intro h
          obtain ⟨r, hr⟩ := h
          obtain ⟨r', hr', -⟩ := Option.map_eq_some_iff.1 hr
          exact ⟨hrec, h1.1 ⟨r', hr'⟩⟩
        · intro h
          obtain ⟨r', hr'⟩ := h1.2 h.2
          exact ⟨_, by rw [hr']; rfl⟩
      · intro r hr
        obtain ⟨r', hr', rfl⟩ := Option.map_eq_some_iff.1 hr
        obtain ⟨hentries, added, hadded, hperm, herrs⟩ := h2 r' hr'
        refine ⟨by rw [hentries, validEntries, validEntries, List.filterMap_cons_some hsome], added, hadded, ?_, herrs⟩
        rw [List.map_cons, List.map_cons]
        exact List.perm_middle.trans (hperm.cons _)

theorem validEntries_index (env : Env) (tools : Dict Tool) (calls : List (ParsedToolCall × ℕ)) :
    ((validEntries env tools calls).map Entry.index).Sublist (calls.map Prod.snd) := by
  induction calls with
  | nil => exact List.Sublist.slnil
  | cons c calls ih =>
    cases hc : accepted? env tools c with
    | none =>
      rw [validEntries, List.filterMap_cons_none hc, List.map_cons]
      exact ih.cons _
    | some e =>
      rw [validEntries, List.filterMap_cons_some hc, List.map_cons, List.map_cons, (accepted_call hc).1]
      exact ih.cons_cons _

theorem validEntries_pairwise (env : Env) (tools : Dict Tool) (calls : List ParsedToolCall) :
    (validEntries env tools calls.zipIdx).Pairwise fun e e' => e.index < e'.index := by
  have h := validEntries_index env tools calls.zipIdx
  rw [List.zipIdx_map_snd, List.range'_eq_map_range] at h
  simp only [Nat.zero_add, List.map_id'] at h
  exact List.pairwise_map.1 (List.pairwise_lt_range.sublist h)

/-! ## The approval loop -/

/-- the decisions that the approval loop uses, up to an interruption -/
def decisionsUsed (asking : Asking) (env : Env) : List (CacheKey × Decision) → List Entry → List (Entry × Decision)
  | _, [] => []
  | cache, e :: rest =>
    let decision := asking.decide env cache e
    if decision = .interrupted then [(e, decision)]
    else (e, decision) :: decisionsUsed asking env (asking.remember env cache e) rest

/-- the calls that are decided on, and approved -/
def approvedAsks (asking : Asking) (env : Env) (cache : List (CacheKey × Decision)) (asks : List Entry) : List Entry :=
  ((decisionsUsed asking env cache asks).filter fun used => approves used.2).map Prod.fst

theorem decisionsUsed_initial (asking : Asking) (env : Env) (cache : List (CacheKey × Decision)) (asks : List Entry) :
    (decisionsUsed asking env cache asks).map Prod.fst <+: asks := by
  induction asks generalizing cache with
  | nil => exact List.prefix_refl _
  | cons e rest ih =>
    rw [decisionsUsed]
    split_ifs with h
    · exact ⟨rest, rfl⟩
    · rw [List.map_cons]
      exact List.prefix_cons_inj e |>.2 (ih _)

theorem approvedAsks_sublist (asking : Asking) (env : Env) (cache : List (CacheKey × Decision)) (asks : List Entry) :
    (approvedAsks asking env cache asks).Sublist asks :=
  (List.filter_sublist.map Prod.fst).trans (decisionsUsed_initial asking env cache asks).sublist

/-- nothing is decided on after an interruption -/
theorem last_of_interrupted {asking : Asking} {env : Env} {cache : List (CacheKey × Decision)} {asks : List Entry}
    {e : Entry} (h : (e, Decision.interrupted) ∈ decisionsUsed asking env cache asks) :
    ∃ before, (decisionsUsed asking env cache asks).map Prod.fst = before ++ [e] := by
  induction asks generalizing cache with
  | nil => simp [decisionsUsed] at h
  | cons e' rest ih =>
    rw [decisionsUsed] at h ⊢
    split_ifs at h ⊢ with hd
    · obtain ⟨rfl, -⟩ := Prod.mk.inj (List.mem_singleton.1 h)
      exact ⟨[], rfl⟩
    · rcases List.mem_cons.1 h with h | h
      · exact absurd (Prod.mk.inj h).2.symm hd
      · obtain ⟨before, hb⟩ := ih h
        exact ⟨e' :: before, by rw [List.map_cons, hb]; rfl⟩

/-- **The approval loop.** It approves the calls whose decisions approve them and answers all others. -/
theorem askLoop_answers (env : Env) (tools : Dict Tool) (asking : Asking) (st : AskState) (asks : List Entry) :
    (askLoop env tools asking st asks).approved = st.approved ++ approvedAsks asking env st.cache asks ∧
    ∃ refused, Answered st.log (askLoop env tools asking st asks).log refused ∧
      (refused ++ approvedAsks asking env st.cache asks).Perm asks := by
  induction asks generalizing st with
  | nil => exact ⟨by simp [askLoop, approvedAsks, decisionsUsed], [], Answered.refl _, List.Perm.refl _⟩
  | cons e rest ih =>
    by_cases happroves : approves (asking.decide env st.cache e) = true
    · have hne : asking.decide env st.cache e ≠ .interrupted := by
        intro h
        rw [h] at happroves
        exact absurd happroves (by decide)
      have hasks : approvedAsks asking env st.cache (e :: rest) =
          e :: approvedAsks asking env (asking.remember env st.cache e) rest := by
        simp only [approvedAsks, decisionsUsed, if_neg hne, List.filter_cons, happroves, if_true, List.map_cons]
      rw [askLoop, if_pos happroves, hasks]
      obtain ⟨h1, refused, h2, h3⟩ := ih { st with
        cache := asking.remember env st.cache e
        granted := st.granted ++ stored env e (asking.decide env st.cache e)
        approved := st.approved ++ [e] }
      refine ⟨?_, refused, h2, List.perm_middle.trans (h3.cons e)⟩
      rw [h1, List.append_assoc]
      rfl
    · by_cases hint : asking.decide env st.cache e = .interrupted
      · have hasks : approvedAsks asking env st.cache (e :: rest) = [] := by
          simp only [approvedAsks, decisionsUsed, if_pos hint, List.filter_cons, if_neg happroves, List.filter_nil,
            List.map_nil]
        rw [askLoop, if_neg happroves, if_pos hint, hasks]
        refine ⟨(List.append_nil _).symm, e :: rest, ?_, by rw [List.append_nil]⟩
        exact Answered.foldl (answered_interrupt env tools) st.log (e :: rest)
      · have hasks : approvedAsks asking env st.cache (e :: rest) =
            approvedAsks asking env (asking.remember env st.cache e) rest := by
          simp only [approvedAsks, decisionsUsed, if_neg hint, List.filter_cons, if_neg happroves]
        rw [askLoop, if_neg happroves, if_neg hint, hasks]
        obtain ⟨h1, refused, h2, h3⟩ := ih { st with
          cache := asking.remember env st.cache e
          granted := st.granted ++ stored env e (asking.decide env st.cache e)
          log := st.log.deny tools e }
        exact ⟨h1, e :: refused, (answered_deny tools st.log e).trans h2, h3.cons e⟩

/-! ## Execution -/

theorem perm_bucketByConcurrencyGroup (approved : List Entry) :
    (bucketByConcurrencyGroup approved).flatten.Perm approved.zipIdx := by
  have hflat : (bucketByConcurrencyGroup approved).flatten =
      (Schedule.buckets (fun item : Entry × ℕ => item.1.group) approved.zipIdx).flatMap Prod.snd := by
    unfold bucketByConcurrencyGroup
    induction Schedule.buckets (fun item : Entry × ℕ => item.1.group) approved.zipIdx with
    | nil => rfl
    | cons b bs ih =>
      obtain ⟨k, items⟩ := b
      rw [List.flatMap_cons, List.flatten_append, ih, List.flatMap_cons]
      cases k with
      | none =>
        congr 1
        induction items with
        | nil => rfl
        | cons item items ih' => simpa using ih'
      | some k => simp
  rw [hflat]
  exact Schedule.perm_buckets _ _

/-- the answer of an approved call -/
def Log.execute (env : Env) (tools : Dict Tool) (outcome : ℕ → Outcome) (log : Log) (e : Entry) : Log :=
  let (record, msg, action) := executeSingleTool env tools (outcome e.index) e
  log.addGuided env e.index record msg action

/-- each position of `approved_entries` has its result, so they are appended one by one -/
theorem appendResults_eq (env : Env) (tools : Dict Tool) (outcome : ℕ → Outcome) (approved : List Entry) (log : Log) :
    appendResults env tools outcome approved log = approved.foldl (Log.execute env tools outcome) log := by
  have hperm : ((resultsByPos env tools outcome approved).map Prod.fst).Perm (List.range approved.length) := by
    have h := (perm_bucketByConcurrencyGroup approved).map Prod.snd
    rw [List.zipIdx_map_snd, List.range'_eq_map_range] at h
    simp only [Nat.zero_add, List.map_id'] at h
    rw [resultsByPos, List.map_map]
    exact h
  have hlook : ∀ i, ∀ hi : i < approved.length, (resultsByPos env tools outcome approved).lookup i =
      some (approved.get ⟨i, hi⟩, executeSingleTool env tools (outcome (approved.get ⟨i, hi⟩).index) (approved.get ⟨i, hi⟩)) := by
    intro i hi
    refine Schedule.lookup_of_mem (hperm.nodup_iff.2 List.nodup_range) ?_
    have hmem : (approved.get ⟨i, hi⟩, i) ∈ (bucketByConcurrencyGroup approved).flatten := by
      rw [(perm_bucketByConcurrencyGroup approved).mem_iff, List.mem_zipIdx_iff_getElem?]
      simp
    exact List.mem_map.2 ⟨_, hmem, rfl⟩
  have hfold := Schedule.foldl_range_lookup (fun i => ((resultsByPos env tools outcome approved).lookup i).map Prod.fst)
    (Log.execute env tools outcome) approved log (by
      intro i hi
      rw [hlook i hi]
      rfl)
  rw [← hfold, appendResults]
  refine List.foldl_ext _ _ _ fun s i hi => ?_
  rw [hlook i (List.mem_range.1 hi)]
  rfl

theorem executeSingleTool_record (env : Env) (tools : Dict Tool) (outcome : Outcome) (e : Entry) :
    (executeSingleTool env tools outcome e).1.toolCallId = (executeSingleTool env tools outcome e).2.1.toolCallId ∧
    (executeSingleTool env tools outcome e).1.result = (executeSingleTool env tools outcome e).2.1.content ∧
    (executeSingleTool env tools outcome e).2.1.toolCallId = e.call.id := by
  cases outcome with
  | returned result => exact ⟨rfl, rfl, rfl⟩
  | raised exc => exact ⟨rfl, rfl, rfl⟩

/-- **Execution.** Every approved call is answered, and recorded. -/
theorem appendResults_answers (env : Env) (tools : Dict Tool) (outcome : ℕ → Outcome) (approved : List Entry) (log : Log) :
    Answered log (appendResults env tools outcome approved log) approved := by
  rw [appendResults_eq]
  refine Answered.foldl (fun log e => ?_) log approved
  obtain ⟨hid, hresult, hcall⟩ := executeSingleTool_record env tools (outcome e.index) e
  obtain ⟨a, ha, hkey, -, hrec⟩ := addGuided_answers env log e.index _ _
    (executeSingleTool env tools (outcome e.index) e).2.2 hid hresult
  refine ⟨[a], ha, ?_, fun b hb => ?_⟩
  · rw [List.map_singleton, hkey, hcall]
    exact List.Perm.refl _
  · obtain rfl := List.mem_singleton.1 hb
    exact hrec

end Clawbolt.Agent
