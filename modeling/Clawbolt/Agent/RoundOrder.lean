/-
What a round of tool calls owes its calls: an answer to each, a run of exactly those that were permitted, in submission
order where they share a concurrency group, and a record of each.

- `executeToolRound_answers`: every call is answered once, and the calls that run are the permitted ones;
- `ordered_iff`: calls of a group run in submission order exactly when no approved call that had to ask was submitted
  before one that had not. The round schedules the former behind all of the latter;
- `round_meets`: the round meets everything exactly under this condition, and when it can record the arguments that it
  rejects.
-/
import Mathlib.Tactic
import Clawbolt.Agent.RoundAnswers

namespace Clawbolt.Agent

open Text (Str)
open Approval (Decision PermissionLevel)
open Schedule (Interleaving)

/-! ## The calls of a round -/

/-- the calls that pass phase 1 -/
def RoundInput.entries (env : Env) (input : RoundInput) : List Entry :=
  validEntries env (registerTools input.tools) input.calls.zipIdx

def RoundInput.autos (env : Env) (input : RoundInput) : List Entry :=
  (input.entries env).filter fun e => e.level env = .always

def RoundInput.asks (env : Env) (input : RoundInput) : List Entry :=
  (input.entries env).filter fun e => e.level env = .ask

/-- the decisions of the round -/
def RoundInput.decisions (env : Env) (input : RoundInput) : List (Entry × Decision) :=
  decisionsUsed input.asking env input.cache (input.asks env)

def RoundInput.approved (env : Env) (input : RoundInput) : List Entry :=
  input.autos env ++ approvedAsks input.asking env input.cache (input.asks env)

/-- a call whose arguments validated, and whose level is ALWAYS or whose decision approves it -/
def RoundInput.Permitted (env : Env) (input : RoundInput) (e : Entry) : Prop :=
  e ∈ input.entries env ∧ (e.level env = .always ∨
    e.level env = .ask ∧ ∃ decision, (e, decision) ∈ input.decisions env ∧ approves decision = true)

theorem mem_approvedAsks {asking : Asking} {env : Env} {cache : List (CacheKey × Decision)} {asks : List Entry} {e : Entry} :
    e ∈ approvedAsks asking env cache asks ↔
      ∃ decision, (e, decision) ∈ decisionsUsed asking env cache asks ∧ approves decision = true := by
  unfold approvedAsks
  constructor
  · intro h
    obtain ⟨⟨e', decision⟩, hm, rfl⟩ := List.mem_map.1 h
    exact ⟨decision, (List.mem_filter.1 hm).1, (List.mem_filter.1 hm).2⟩
  · intro h
    obtain ⟨decision, hm, happroves⟩ := h
    exact List.mem_map.2 ⟨(e, decision), List.mem_filter.2 ⟨hm, happroves⟩, rfl⟩

theorem mem_approved {env : Env} {input : RoundInput} {e : Entry} : e ∈ input.approved env ↔ input.Permitted env e := by
  unfold RoundInput.approved RoundInput.Permitted
  rw [List.mem_append, RoundInput.autos, List.mem_filter, decide_eq_true_eq]
  constructor
  · intro h
    rcases h with h | h
    · exact ⟨h.1, Or.inl h.2⟩
    · have hask := (approvedAsks_sublist _ _ _ _).subset h
      rw [RoundInput.asks, List.mem_filter, decide_eq_true_eq] at hask
      exact ⟨hask.1, Or.inr ⟨hask.2, mem_approvedAsks.1 h⟩⟩
  · intro h
    rcases h with ⟨hm, hlevel | ⟨-, hd⟩⟩
    · exact Or.inl ⟨hm, hlevel⟩
    · exact Or.inr (mem_approvedAsks.2 hd)

/-- the levels split the calls three ways -/
theorem perm_levels (env : Env) (es : List Entry) :
    ((es.filter fun e => e.level env = .never) ++ ((es.filter fun e => e.level env = .always) ++
      es.filter fun e => e.level env = .ask)).Perm es := by
  induction es with
  | nil => exact List.Perm.refl _
  | cons e es ih =>
    cases hl : e.level env with
    | never =>
      simp only [List.filter_cons, hl]
      exact ih.cons e
    | always =>
      simp only [List.filter_cons, hl]
      exact List.perm_middle.trans (ih.cons e)
    | ask =>
      simp only [List.filter_cons, hl]
      rw [← List.append_assoc] at ih ⊢
      exact List.perm_middle.trans (ih.cons e)

/-- **The answers of a round.** It answers every call once, those that pass phase 1 with a record and the others with an
error, and runs the permitted calls. -/
theorem executeToolRound_answers {env : Env} {input : RoundInput} {r : Round} (hr : executeToolRound env input = some r) :
    r.approved = input.approved env ∧
    ∃ rejected answered, r.log.answers = rejected ++ answered ∧
      (rejected.map Answer.key ++ (input.entries env).map Entry.key).Perm (input.calls.zipIdx.map fun c => (c.2, c.1.id)) ∧
      (answered.map Answer.key).Perm ((input.entries env).map Entry.key) ∧
      (∀ a ∈ rejected, a.message.isError = true) ∧ ∀ a ∈ answered, a.Recorded := by
  obtain ⟨⟨log, entries⟩, hphase, rfl⟩ := Option.map_eq_some_iff.1 hr
  obtain ⟨hentries, rejected, hlog, hperm, herrs⟩ := (phase1_eq _ _ _ _ _).2 _ hphase
  obtain rfl : entries = input.entries env := hentries
  rw [List.nil_append] at hlog
  -- the denied calls, the approval loop and the approved ones answer the rest
  have hdenied := Answered.foldl (answered_deny (registerTools input.tools)) log
    ((input.entries env).filter fun e => e.level env = .never)
  obtain ⟨happroved, refused, hrefused, hasks⟩ := askLoop_answers env (registerTools input.tools) input.asking
    ⟨((input.entries env).filter fun e => e.level env = .never).foldl
      (fun log e => log.deny (registerTools input.tools) e) log, input.autos env, input.cache, []⟩ (input.asks env)
  refine ⟨happroved, ?_⟩
  have hexec := appendResults_answers env (registerTools input.tools) input.outcome
    (askLoop env (registerTools input.tools) input.asking ⟨((input.entries env).filter fun e => e.level env = .never).foldl
      (fun log e => log.deny (registerTools input.tools) e) log, input.autos env, input.cache, []⟩ (input.asks env)).approved
    (askLoop env (registerTools input.tools) input.asking ⟨((input.entries env).filter fun e => e.level env = .never).foldl
      (fun log e => log.deny (registerTools input.tools) e) log, input.autos env, input.cache, []⟩ (input.asks env)).log
  obtain ⟨answered, hadded, hkeys, hrec⟩ := (hdenied.trans hrefused).trans hexec
  refine ⟨rejected, answered, ?_, hperm, hkeys.trans (List.Perm.map _ ?_), herrs, hrec⟩
  · rw [← hlog]
    exact hadded
  · rw [happroved]
    refine List.Perm.trans ?_ (perm_levels env (input.entries env))
    rw [List.append_assoc]
    refine List.Perm.append_left _ ?_
    refine (List.perm_append_comm_assoc _ _ _).trans (List.Perm.append_left _ hasks)

theorem entries_pairwise (env : Env) (input : RoundInput) :
    (input.entries env).Pairwise fun e e' => e.index < e'.index :=
  validEntries_pairwise env _ input.calls

/-- a list in index order holds each index once -/
theorem eq_of_index {es : List Entry} (hs : es.Pairwise fun e e' => e.index < e'.index) {e e' : Entry} (he : e ∈ es)
    (he' : e' ∈ es) (h : e.index = e'.index) : e = e' := by
  have hnd : (es.map Entry.index).Nodup := List.pairwise_map.2 (hs.imp fun hlt => ne_of_lt hlt)
  exact List.inj_on_of_nodup_map hnd he he' h

theorem approved_nodup (env : Env) (input : RoundInput) : ((input.approved env).map Entry.index).Nodup := by
  have hnd : ((input.entries env).map Entry.index).Nodup :=
    List.pairwise_map.2 ((entries_pairwise env input).imp fun hlt => ne_of_lt hlt)
  have hperm := ((perm_levels env (input.entries env)).map Entry.index).nodup_iff.2 hnd
  rw [List.map_append] at hperm
  refine (List.nodup_append.1 hperm).2.1.sublist ?_
  rw [RoundInput.approved, List.map_append, List.map_append]
  exact (List.Sublist.refl _).append ((approvedAsks_sublist _ _ _ _).map _)

/-! ## The order of the calls -/

/-- a call starts and comes to its outcome -/
def Entry.events (e : Entry) : List Event := [.start e.index, .stop e.index]

theorem Round.Schedules.perm {r : Round} {trace : List Event} (h : r.Schedules trace) :
    trace.Perm (r.approved.flatMap Entry.events) := by
  have hflat : ((bucketByConcurrencyGroup r.approved).map unitEvents).flatten =
      (bucketByConcurrencyGroup r.approved).flatten.flatMap fun item => item.1.events := by
    induction bucketByConcurrencyGroup r.approved with
    | nil => rfl
    | cons unit units ih =>
      rw [List.map_cons, List.flatten_cons, ih, List.flatten_cons, List.flatMap_append]
      rfl
  have hfst : (r.approved.zipIdx.flatMap fun item => item.1.events) = r.approved.flatMap Entry.events := by
    rw [← List.flatMap_map, List.zipIdx_map_fst]
  rw [← hfst]
  exact (Interleaving.perm h).trans (hflat ▸ (perm_bucketByConcurrencyGroup r.approved).flatMap_right _)

theorem start_mem {es : List Entry} {i : ℕ} : Event.start i ∈ es.flatMap Entry.events ↔ ∃ e ∈ es, e.index = i := by
  constructor
  · intro h
    obtain ⟨e, he, hm⟩ := List.mem_flatMap.1 h
    refine ⟨e, he, ?_⟩
    simpa [Entry.events, eq_comm] using hm
  · intro h
    obtain ⟨e, he, rfl⟩ := h
    exact List.mem_flatMap.2 ⟨e, he, by simp [Entry.events]⟩

theorem events_nodup {es : List Entry} (h : (es.map Entry.index).Nodup) : (es.flatMap Entry.events).Nodup := by
  refine List.nodup_flatMap.2 ⟨fun e _ => by simp [Entry.events], ?_⟩
  refine (List.pairwise_map.1 h).imp fun {e e'} hne => ?_
  intro x hx hx'
  simp only [Entry.events, List.mem_cons, List.not_mem_nil, or_false] at hx hx'
  rcases hx with rfl | rfl <;> simp [hne] at hx'

/-- calls of one group run in the order of `approved_entries` -/
theorem events_of_before {r : Round} {trace : List Event} (h : r.Schedules trace) {e₁ e₂ : Entry} {k : Str}
    (hbefore : [e₁, e₂].Sublist r.approved) (h₁ : e₁.group = some k) (h₂ : e₂.group = some k) :
    (e₁.events ++ e₂.events).Sublist trace := by
  -- both stand in the bucket of their group, in this order
  have hzip : ∃ p₁ p₂, [(e₁, p₁), (e₂, p₂)].Sublist r.approved.zipIdx := by
    rw [← List.zipIdx_map_fst 0 r.approved] at hbefore
    obtain ⟨items, hitems, hmap⟩ := List.sublist_map_iff.1 hbefore
    rcases items with _ | ⟨⟨a, p₁⟩, _ | ⟨⟨b, p₂⟩, _ | ⟨c, items⟩⟩⟩
    · simp at hmap
    · simp at hmap
    · simp only [List.map_cons, List.map_nil, List.cons.injEq, and_true] at hmap
      obtain ⟨rfl, rfl⟩ := hmap
      exact ⟨p₁, p₂, hitems⟩
    · simp at hmap
  obtain ⟨p₁, p₂, hzip⟩ := hzip
  have hfilter : [(e₁, p₁), (e₂, p₂)].Sublist (r.approved.zipIdx.filter fun item => item.1.group = some k) := by
    have hf := hzip.filter fun item : Entry × ℕ => decide (item.1.group = some k)
    simpa [h₁, h₂] using hf
  have hbucket : (some k, r.approved.zipIdx.filter fun item => item.1.group = some k) ∈
      Schedule.buckets (fun item : Entry × ℕ => item.1.group) r.approved.zipIdx := by
    refine (Schedule.mem_buckets _ _ _ _).2 ⟨rfl, fun hnil => ?_⟩
    rw [hnil] at hfilter
    exact absurd (List.eq_nil_of_sublist_nil hfilter) (by simp)
  have hunit : (r.approved.zipIdx.filter fun item => item.1.group = some k) ∈ bucketByConcurrencyGroup r.approved :=
    List.mem_flatMap.2 ⟨_, hbucket, List.mem_singleton_self _⟩
  exact (List.Sublist.flatMap hfilter fun item => item.1.events).trans (h.sublist (List.mem_map_of_mem hunit))

/-- calls of a group that run do so in submission order -/
def Ordered (env : Env) (input : RoundInput) (trace : List Event) : Prop :=
  ∀ e₁ e₂ k, input.Permitted env e₁ → input.Permitted env e₂ → e₁.group = some k → e₂.group = some k →
    e₁.index < e₂.index → [Event.stop e₁.index, Event.start e₂.index].Sublist trace

/-- no approved call that had to ask was submitted before one of its group that had not -/
def AsksLast (env : Env) (input : RoundInput) : Prop :=
  ∀ e₁ e₂ k, input.Permitted env e₁ → e₁.level env = .ask → input.Permitted env e₂ → e₂.level env = .always →
    e₁.group = some k → e₂.group = some k → ¬e₁.index < e₂.index

theorem mem_autos {env : Env} {input : RoundInput} {e : Entry} (h : input.Permitted env e) (hlevel : e.level env = .always) :
    e ∈ input.autos env :=
  List.mem_filter.2 ⟨h.1, decide_eq_true hlevel⟩

theorem mem_approvedAsks_of_permitted {env : Env} {input : RoundInput} {e : Entry} (h : input.Permitted env e)
    (hlevel : e.level env = .ask) : e ∈ approvedAsks input.asking env input.cache (input.asks env) := by
  rcases h.2 with halways | ⟨-, hd⟩
  · rw [hlevel] at halways
    exact absurd halways (by decide)
  · exact mem_approvedAsks.2 hd

theorem level_of_permitted {env : Env} {input : RoundInput} {e : Entry} (h : input.Permitted env e) :
    e.level env = .always ∨ e.level env = .ask :=
  h.2.imp_right And.left

/-- **Submission order.** The calls that had to ask run behind those that had not, so every schedule keeps the order of
submission exactly when they were submitted behind them. -/
theorem ordered_iff {env : Env} {input : RoundInput} {r : Round} (hr : r.approved = input.approved env) :
    (∀ trace, r.Schedules trace → Ordered env input trace) ↔ AsksLast env input := by
  constructor
  · intro hall e₁ e₂ k hp₁ hask hp₂ halways hg₁ hg₂ hlt
    have hbefore : [e₂, e₁].Sublist r.approved := by
      rw [hr]
      exact Schedule.before_append (mem_autos hp₂ halways) (mem_approvedAsks_of_permitted hp₁ hask)
    -- one unit after the other is a schedule
    have hs : r.Schedules ((bucketByConcurrencyGroup r.approved).map unitEvents).flatten := Interleaving.sequential _
    have hnd : ((bucketByConcurrencyGroup r.approved).map unitEvents).flatten.Nodup :=
      hs.perm.nodup_iff.2 (events_nodup (hr ▸ approved_nodup env input))
    have horder := hall _ hs e₁ e₂ k hp₁ hp₂ hg₁ hg₂ hlt
    have hrun := events_of_before hs hbefore hg₂ hg₁
    have hcross : [Event.start e₂.index, Event.stop e₁.index].Sublist (e₂.events ++ e₁.events) :=
      Schedule.before_append (by simp [Entry.events]) (by simp [Entry.events])
    exact Schedule.not_before_of_before hnd horder (hcross.trans hrun)
  · intro hlast trace hs e₁ e₂ k hp₁ hp₂ hg₁ hg₂ hlt
    have hbefore : [e₁, e₂].Sublist r.approved := by
      rw [hr, RoundInput.approved]
      rcases level_of_permitted hp₁ with hl₁ | hl₁
      · rcases level_of_permitted hp₂ with hl₂ | hl₂
        · refine List.Sublist.trans ?_ (List.sublist_append_left _ _)
          exact Schedule.before_of_lt ((entries_pairwise env input).sublist List.filter_sublist) (mem_autos hp₁ hl₁)
            (mem_autos hp₂ hl₂) hlt
        · exact Schedule.before_append (mem_autos hp₁ hl₁) (mem_approvedAsks_of_permitted hp₂ hl₂)
      · rcases level_of_permitted hp₂ with hl₂ | hl₂
        · exact absurd hlt (hlast e₁ e₂ k hp₁ hl₁ hp₂ hl₂ hg₁ hg₂)
        · refine List.Sublist.trans ?_ (List.sublist_append_right _ _)
          exact Schedule.before_of_lt ((entries_pairwise env input).sublist
            ((approvedAsks_sublist _ _ _ _).trans List.filter_sublist)) (mem_approvedAsks_of_permitted hp₁ hl₁)
            (mem_approvedAsks_of_permitted hp₂ hl₂) hlt
    have hcross : [Event.stop e₁.index, Event.start e₂.index].Sublist (e₁.events ++ e₂.events) :=
      Schedule.before_append (by simp [Entry.events]) (by simp [Entry.events])
    exact hcross.trans (events_of_before hs hbefore hg₁ hg₂)

/-! ## What a round owes its calls -/

/-- a round and the order in which its functions ran -/
structure Meets (env : Env) (input : RoundInput) (r : Round) (trace : List Event) : Prop where
  /-- every call has one result message, with its id -/
  answered : (r.log.answers.map Answer.key).Perm (input.calls.zipIdx.map fun c => (c.2, c.1.id))
  /-- no function runs twice -/
  once : trace.Nodup
  runs : ∀ i, Event.start i ∈ trace ↔ ∃ e, e.index = i ∧ input.Permitted env e
  /-- after an interruption nothing runs that has to ask -/
  interrupted : ∀ e e', (e, Decision.interrupted) ∈ input.decisions env → e' ∈ input.asks env → e.index < e'.index →
    Event.start e'.index ∉ trace
  ordered : Ordered env input trace
  /-- every call that is executed, denied or interrupted leaves one record, of its result -/
  recorded : ∀ e ∈ input.entries env, ∃ a ∈ r.log.answers, a.key = e.key ∧ a.Recorded ∧
    ∀ b ∈ r.log.answers, b.index = e.index → b = a

theorem zipIdx_index_nodup (calls : List ParsedToolCall) :
    ((calls.zipIdx.map fun c => (c.2, c.1.id)).map Prod.fst).Nodup := by
  have hsnd : (calls.zipIdx.map fun c => (c.2, c.1.id)).map Prod.fst = calls.zipIdx.map Prod.snd := by
    rw [List.map_map]
    rfl
  rw [hsnd, List.zipIdx_map_snd, List.range'_eq_map_range]
  simpa using List.nodup_range

/-- every call has one result message -/
theorem answers_perm {env : Env} {input : RoundInput} {r : Round} (hr : executeToolRound env input = some r) :
    (r.log.answers.map Answer.key).Perm (input.calls.zipIdx.map fun c => (c.2, c.1.id)) := by
  obtain ⟨-, rejected, answered, hlog, hall, hkeys, -⟩ := executeToolRound_answers hr
  rw [hlog, List.map_append]
  exact (hkeys.append_left _).trans hall

theorem answer_unique {env : Env} {input : RoundInput} {r : Round} (hr : executeToolRound env input = some r)
    {a b : Answer} (ha : a ∈ r.log.answers) (hb : b ∈ r.log.answers) (hindex : b.index = a.index) : b = a := by
  have hnd : (r.log.answers.map Answer.index).Nodup := by
    have h := ((answers_perm hr).map Prod.fst).nodup_iff.2 (zipIdx_index_nodup input.calls)
    rwa [List.map_map] at h
  exact List.inj_on_of_nodup_map hnd hb ha hindex

/-- the calls that run are the permitted ones -/
theorem start_mem_trace {env : Env} {input : RoundInput} {r : Round} (hr : executeToolRound env input = some r)
    {trace : List Event} (hs : r.Schedules trace) (i : ℕ) :
    Event.start i ∈ trace ↔ ∃ e, e.index = i ∧ input.Permitted env e := by
  rw [hs.perm.mem_iff, start_mem, (executeToolRound_answers hr).1]
  constructor
  · intro h
    obtain ⟨e, he, hi⟩ := h
    exact ⟨e, hi, mem_approved.1 he⟩
  · intro h
    obtain ⟨e, hi, he⟩ := h
    exact ⟨e, mem_approved.2 he, hi⟩

/-- everything but the order holds of every round -/
theorem meets_of_ordered {env : Env} {input : RoundInput} {r : Round} (hr : executeToolRound env input = some r)
    {trace : List Event} (hs : r.Schedules trace) (hordered : Ordered env input trace) : Meets env input r trace := by
  obtain ⟨happroved, rejected, answered, hlog, -, hkeys, -, hrec⟩ := executeToolRound_answers hr
  refine ⟨answers_perm hr, ?_, start_mem_trace hr hs, ?_, hordered, ?_⟩
  · exact hs.perm.nodup_iff.2 (events_nodup (happroved ▸ approved_nodup env input))
  · intro e e' hint hask hlt hstart
    obtain ⟨e'', hindex, hpermitted⟩ := (start_mem_trace hr hs _).1 hstart
    have hentry : e' ∈ input.entries env := (List.mem_filter.1 hask).1
    obtain rfl := eq_of_index (entries_pairwise env input) hpermitted.1 hentry hindex
    have hlevel : e''.level env = .ask := of_decide_eq_true (List.mem_filter.1 hask).2
    obtain ⟨decision, hdecision, -⟩ := mem_approvedAsks.1 (mem_approvedAsks_of_permitted hpermitted hlevel)
    -- the interrupted call is the last that is decided on
    obtain ⟨before, hbefore⟩ := last_of_interrupted hint
    have hdecided : ((input.decisions env).map Prod.fst).Pairwise fun a b => a.index < b.index :=
      (entries_pairwise env input).sublist ((decisionsUsed_initial _ _ _ _).sublist.trans List.filter_sublist)
    have hmem : e'' ∈ (input.decisions env).map Prod.fst := List.mem_map_of_mem (f := Prod.fst) hdecision
    rw [RoundInput.decisions, hbefore] at hdecided hmem
    rcases List.mem_append.1 hmem with hm | hm
    · have := (List.pairwise_append.1 hdecided).2.2 e'' hm e (List.mem_singleton_self e)
      omega
    · obtain rfl := List.mem_singleton.1 hm
      exact lt_irrefl _ hlt
  · intro e he
    obtain ⟨a, ha, hkey⟩ := List.mem_map.1 (hkeys.mem_iff.2 (List.mem_map_of_mem (f := Entry.key) he))
    have ha' : a ∈ r.log.answers := hlog ▸ List.mem_append_right _ ha
    refine ⟨a, ha', hkey, hrec a ha, fun b hb hindex => answer_unique hr ha' hb (hindex.trans ?_)⟩
    exact (congrArg Prod.fst hkey).symm

/-- a round returns unless it has to record arguments that are no object -/
theorem executeToolRound_returns (env : Env) (input : RoundInput) : (∃ r, executeToolRound env input = some r) ↔
    ∀ call ∈ input.calls, Recordable env (registerTools input.tools) call := by
  have hphase := (phase1_eq env (registerTools input.tools) input.responseTruncated ⟨[], [], input.delivered⟩
    input.calls.zipIdx).1
  have hzip : (∀ c ∈ input.calls.zipIdx, Recordable env (registerTools input.tools) c.1) ↔
      ∀ call ∈ input.calls, Recordable env (registerTools input.tools) call := by
    conv_rhs => rw [← List.zipIdx_map_fst 0 input.calls]
    rw [List.forall_mem_map]
  rw [← hzip, ← hphase]
  constructor
  · intro h
    obtain ⟨r, hr⟩ := h
    obtain ⟨p, hp, -⟩ := Option.map_eq_some_iff.1 hr
    exact ⟨p, hp⟩
  · intro h
    obtain ⟨p, hp⟩ := h
    exact ⟨_, by rw [executeToolRound, hp]; rfl⟩

/-- **A round of tool calls.** It returns, answers every call once, runs exactly the permitted calls, each once and in the
submission order of its group, and records them, if and only if no approved call that had to ask was submitted before
one of its group that had not, and all arguments that are rejected can be recorded. -/
theorem round_meets (env : Env) (input : RoundInput) :
    (∃ r, executeToolRound env input = some r ∧ ∀ trace, r.Schedules trace → Meets env input r trace) ↔
      AsksLast env input ∧ ∀ call ∈ input.calls, Recordable env (registerTools input.tools) call := by
  rw [← executeToolRound_returns]
  constructor
  · intro h
    obtain ⟨r, hr, hmeets⟩ := h
    exact ⟨(ordered_iff (executeToolRound_answers hr).1).1 fun trace hs => (hmeets trace hs).ordered, r, hr⟩
  · intro h
    obtain ⟨hlast, r, hr⟩ := h
    refine ⟨r, hr, fun trace hs => meets_of_ordered hr hs ?_⟩
    exact (ordered_iff (executeToolRound_answers hr).1).2 hlast trace hs

/-! ## A file that is deleted after it was written -/

/-- `_extract_path` -/
def extractPath (args : Dict Json) : Option Str :=
  match args.lookup "path".toList with
  | some (.str (c :: path)) => some (c :: path)
  | _ => none

/-- `_workspace_path_concurrency_key` -/
def workspacePathConcurrencyKey (args : Dict Json) : Option Str :=
  (extractPath args).map fun path => "workspace_path:".toList ++ path

/-- a workspace tool, whose parameters are texts -/
def workspaceTool (name : String) (level : PermissionLevel) : Tool where
  name := name.toList
  modelValidate := fun
    | .obj args => .ok args
    | input => .error [⟨[], "Input should be a valid dictionary".toList, "model_type".toList, input⟩]
  paramsSummary := []
  tags := []
  approvalPolicy := some ⟨level, some extractPath, none, none, none⟩
  concurrencyGroup := workspacePathConcurrencyKey

/-- no permission is stored -/
def workspaceEnv : Env where
  str := fun _ => []
  scrubSecrets := id
  checkPermission := fun _ _ level => level
  specialistFactory := fun _ => none
  skillInstructions := fun _ => none

/-- a file is deleted and written anew, and the user approves the deletion -/
def deleteThenWrite : RoundInput where
  tools := [workspaceTool "write_file" .always, workspaceTool "delete_file" .ask]
  calls := [
    ⟨"c1".toList, "delete_file".toList, .obj [("path".toList, .str "notes.md".toList)]⟩,
    ⟨"c2".toList, "write_file".toList,
      .obj [("path".toList, .str "notes.md".toList), ("content".toList, .str "new".toList)]⟩]
  responseTruncated := false
  asking := ⟨true, fun _ => .approved⟩
  cache := []
  delivered := []
  outcome := fun _ => .returned ⟨"ok".toList, false, none, [], none⟩

set_option maxRecDepth 20000 in
/-- the file is written first and then deleted -/
theorem written_then_deleted : ∃ r, executeToolRound workspaceEnv deleteThenWrite = some r ∧
    r.Schedules [.start 1, .stop 1, .start 0, .stop 0] ∧
    ¬∀ trace, r.Schedules trace → Meets workspaceEnv deleteThenWrite r trace := by
  have hrow : (deleteThenWrite.approved workspaceEnv).map (fun e => (e.index, e.level workspaceEnv, e.group)) =
      [(1, .always, some "workspace_path:notes.md".toList), (0, .ask, some "workspace_path:notes.md".toList)] := by
    decide
  have hunits : (bucketByConcurrencyGroup (deleteThenWrite.approved workspaceEnv)).map unitEvents =
      [[.start 1, .stop 1, .start 0, .stop 0]] := by
    decide
  obtain ⟨r, hr⟩ := Option.isSome_iff_exists.1 (show (executeToolRound workspaceEnv deleteThenWrite).isSome = true by decide)
  have happroved := (executeToolRound_answers hr).1
  refine ⟨r, hr, ?_, fun hmeets => ?_⟩
  · rw [Round.Schedules, happroved, hunits]
    exact Interleaving.sequential [[Event.start 1, .stop 1, .start 0, .stop 0]]
  · have hlast := (ordered_iff happroved).1 fun trace hs => (hmeets trace hs).ordered
    obtain ⟨e, he, hdelete⟩ := List.mem_map.1 (hrow ▸ List.mem_cons_of_mem _ List.mem_cons_self :
      (0, PermissionLevel.ask, some "workspace_path:notes.md".toList) ∈ _)
    obtain ⟨e', he', hwrite⟩ := List.mem_map.1 (hrow ▸ List.mem_cons_self :
      (1, PermissionLevel.always, some "workspace_path:notes.md".toList) ∈ _)
    simp only [Prod.mk.injEq] at hdelete hwrite
    refine hlast e e' _ (mem_approved.1 he) hdelete.2.1 (mem_approved.1 he') hwrite.2.1 hdelete.2.2 hwrite.2.2 ?_
    omega

end Clawbolt.Agent
