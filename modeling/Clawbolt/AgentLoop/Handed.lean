/-
What a turn hands to compaction.

The first trim drops from the rendered history; every retry after an overflow trims the messages of the turn again, without
the updates that were laid on them, and the loop goes on with the messages it had. So a second overflow can drop the same
messages once more.

- `inv_callLlm`: a retry drops messages as they were before the updates were laid;
- `handed_stored`: what is handed over are messages of the history, the current turn without its update, and the messages of
  the loop, and with at most one retry each of them once; taking the updates off gives the messages as they were;
- `handed_twice`: two overflows hand a stored message over twice, and the current turn with it.
-/
import Mathlib.Tactic
import Clawbolt.AgentLoop.Process

namespace Clawbolt.AgentLoop

open Text (Str)
open Agent (MessageResponse)
open History (AgentMessage)

/-! ## The invariant of a turn -/

theorem stripped_congr {l l' : Option Layout} (h : l'.map Layout.sent = l.map Layout.sent) (ms : List Obj) :
    stripped l' ms = stripped l ms := by
  cases l with
  | none =>
    obtain rfl : l' = none := by simpa using h
    rfl
  | some l =>
    obtain ⟨x, rfl, hx⟩ := Option.map_eq_some_iff.1 h
    simp only [stripped, Layout.strip, hx]

/-- the messages that the loop added -/
def Assembled.own (a : Assembled) (s : St) : List Obj := s.messages.drop a.messages.length

/-- the messages of a turn are its prompt and what the loop added, and the retries dropped from those without updates -/
structure Inv (a : Assembled) (rows : List Obj) (plain : Obj) (s : St) : Prop where
  layout : s.layout.map Layout.sent = a.layout.map Layout.sent
  messages : s.messages = a.messages ++ a.own s
  next : a.next ≤ s.next
  fresh : ∀ m ∈ a.own s, a.next ≤ m.ref ∧ m.ref < s.next
  nodup : ((a.own s).map Obj.ref).Nodup
  reactive : s.reactive = s.trims.flatten
  trims : ∀ d ∈ s.trims, d.Sublist (rows ++ [plain] ++ a.own s)
  sent : ∀ ms ∈ s.sent, ∃ own, ms = a.messages ++ own ∧ ∀ m ∈ own, a.next ≤ m.ref

section

variable {c : Config} {t : TurnInput} {a : Assembled} {rows : List Obj} {plain : Obj} {s : St}

theorem inv_start (a : Assembled) (rows : List Obj) (plain : Obj) (maxTokens : Option ℕ) :
    Inv a rows plain (a.start maxTokens) where
  layout := rfl
  messages := by simp [Assembled.own, Assembled.start]
  next := le_rfl
  fresh := by simp [Assembled.own, Assembled.start]
  nodup := by simp [Assembled.own, Assembled.start]
  reactive := rfl
  trims := by simp [Assembled.start]
  sent := by simp [Assembled.start]

theorem own_append (h : Inv a rows plain s) (ms : List AgentMessage) :
    a.own (s.append ms) = a.own s ++ allocate s.next ms := by
  have hmessages : (s.append ms).messages = a.messages ++ (a.own s ++ allocate s.next ms) := by
    rw [← List.append_assoc, ← h.messages]
    rfl
  rw [Assembled.own, hmessages, List.drop_left]

theorem inv_append (h : Inv a rows plain s) (ms : List AgentMessage) : Inv a rows plain (s.append ms) where
  layout := h.layout
  messages := by
    rw [own_append h, ← List.append_assoc, ← h.messages]
    rfl
  next := h.next.trans (Nat.le_add_right _ _)
  fresh := by
    intro m hm
    rw [own_append h] at hm
    show a.next ≤ m.ref ∧ m.ref < s.next + ms.length
    rcases List.mem_append.1 hm with hm | hm
    · have := h.fresh m hm
      omega
    · have := ref_of_allocate hm
      have := h.next
      omega
  nodup := by
    rw [own_append h, List.map_append, List.nodup_append]
    refine ⟨h.nodup, nodup_allocate _ _, ?_⟩
    intro r hr r' hr' heq
    obtain ⟨m, hm, rfl⟩ := List.mem_map.1 hr
    obtain ⟨m', hm', rfl⟩ := List.mem_map.1 hr'
    have := h.fresh m hm
    have := ref_of_allocate hm'
    omega
  reactive := h.reactive
  trims := by
    intro d hd
    rw [own_append h, ← List.append_assoc]
    exact (h.trims d hd).trans (List.sublist_append_left _ _)
  sent := h.sent

theorem trimObjs_next (env : History.Env) (cfg : History.Settings) (next : ℕ) (messages : List Obj) (k : Option ℕ) :
    next ≤ (trimObjs env cfg next messages k).next := by
  cases messages with
  | nil => exact le_rfl
  | cons first body => exact (trim_split env cfg next first body k).2.1

theorem lay_next (diff : Workspace.UnifiedDiff) (l : Layout) (next : ℕ) (messages : List Obj) :
    next ≤ (l.lay diff next messages).next := by
  unfold Layout.lay
  split
  · exact Nat.le_add_right _ _
  · dsimp only
    omega

/-- what a retry trims -/
def retryTrim (c : Config) (s : St) (messages : List Obj) : Trimmed :=
  trimObjs c.env c.retrySettings s.next (stripped s.layout messages)
    (some (if s.lastInputTokens = 0 then c.maxInputTokens else s.lastInputTokens))

/-- what a retry changes of the state -/
theorem trimAndRetry_spec (c : Config) (s : St) (messages : List Obj) :
    let s' := s.trimAndRetry c messages
    s'.messages = s.messages ∧ s'.layout.map Layout.sent = s.layout.map Layout.sent ∧ s'.sent = s.sent ∧
      s.next ≤ s'.next ∧ s'.reactive = s.reactive ++ (retryTrim c s messages).dropped ∧
      s'.trims = s.trims ++ [(retryTrim c s messages).dropped] := by
  have hnext : s.next ≤ (retryTrim c s messages).next := trimObjs_next _ _ _ _ _
  unfold St.trimAndRetry
  dsimp only
  cases hl : s.layout with
  | none =>
    simp only [retryTrim, hl, Option.map_none] at hnext ⊢
    exact ⟨trivial, trivial, trivial, hnext, trivial, trivial⟩
  | some l =>
    simp only [retryTrim, hl, Option.map_some] at hnext ⊢
    exact ⟨trivial, rfl, trivial, hnext.trans (lay_next _ _ _ _), trivial, trivial⟩

/-- a call of the model on messages of the turn keeps the invariant, if what a retry drops is in its messages -/
theorem inv_call (h : Inv a rows plain s) {messages : List Obj}
    (hmessages : ∃ own, messages = a.messages ++ own ∧ ∀ m ∈ own, a.next ≤ m.ref)
    (hdropped : ∀ s' : St, s'.layout = s.layout → ((retryTrim c s' messages).dropped).Sublist (rows ++ [plain] ++ a.own s))
    (call : Call) : Inv a rows plain (s.callLlm c messages call) := by
  have hsent : ∀ ms ∈ s.sent ++ [messages], ∃ own, ms = a.messages ++ own ∧ ∀ m ∈ own, a.next ≤ m.ref := by
    intro ms hms
    rcases List.mem_append.1 hms with hms | hms
    · exact h.sent ms hms
    · rw [List.mem_singleton.1 hms]
      exact hmessages
  unfold St.callLlm
  dsimp only
  split_ifs
  · obtain ⟨h1, h2, h3, h4, h5, h6⟩ := trimAndRetry_spec c
      { s with requests := s.requests ++ [valuesOf messages], sent := s.sent ++ [messages] } messages
    generalize ({ s with requests := s.requests ++ [valuesOf messages], sent := s.sent ++ [messages] } : St).trimAndRetry c
      messages = s' at h1 h2 h3 h4 h5 h6 ⊢
    have hown : a.own s' = a.own s := by rw [Assembled.own, h1]; rfl
    refine ⟨h2.trans h.layout, ?_, h.next.trans h4, ?_, ?_, ?_, ?_, ?_⟩
    · rw [h1, hown]
      exact h.messages
    · rw [hown]
      intro m hm
      have := h.fresh m hm
      exact ⟨this.1, this.2.trans_le h4⟩
    · rw [hown]
      exact h.nodup
    · rw [h5, h6, List.flatten_append, ← h.reactive]
      simp
    · rw [h6, hown]
      intro d hd
      rcases List.mem_append.1 hd with hd | hd
      · exact h.trims d hd
      · rw [List.mem_singleton.1 hd]
        exact hdropped _ rfl
    · rw [h3]
      exact hsent
  · exact ⟨h.layout, h.messages, h.next, h.fresh, h.nodup, h.reactive, h.trims, hsent⟩

/-- **A retry drops messages as they were before the updates were laid.** -/
theorem inv_callLlm (hl : Lays t c.env c.cfg a rows plain) (h : Inv a rows plain s) (call : Call) :
    Inv a rows plain (s.callLlm c s.messages call) := by
  refine inv_call h ⟨a.own s, h.messages, fun m hm => (h.fresh m hm).1⟩ (fun s' hs' => ?_) call
  have hstripped : stripped s'.layout s.messages = t.systemObj :: (rows ++ [plain] ++ a.own s) := by
    rw [hs', stripped_congr h.layout, h.messages]
    exact hl.strip (a.own s) fun m hm => (h.fresh m hm).1
  unfold retryTrim
  rw [hstripped]
  obtain ⟨-, -, k, hk, -⟩ := trim_split c.env c.retrySettings s'.next t.systemObj (rows ++ [plain] ++ a.own s)
    (some (if s'.lastInputTokens = 0 then c.maxInputTokens else s'.lastInputTokens))
  rw [hk]
  exact List.take_sublist _ _

/-- the instruction of the wrap-up stays when its call is trimmed -/
theorem inv_wrapUp (hl : Lays t c.env c.cfg a rows plain) (h : Inv a rows plain s) (call : Call) :
    Inv a rows plain (s.wrapUp c call).1 := by
  have hnext : Inv a rows plain { s with next := s.next + 1 } :=
    { h with
      next := h.next.trans (Nat.le_succ _)
      fresh := fun m hm => ⟨(h.fresh m hm).1, (h.fresh m hm).2.trans (Nat.lt_succ_self _)⟩ }
  have hown : ∀ m ∈ a.own s ++ [⟨s.next, .user maxRoundsWrapUpInstruction none⟩], a.next ≤ m.ref := by
    intro m hm
    rcases List.mem_append.1 hm with hm | hm
    · exact (h.fresh m hm).1
    · rw [List.mem_singleton.1 hm]
      exact h.next
  refine inv_call hnext ⟨a.own s ++ [⟨s.next, .user maxRoundsWrapUpInstruction none⟩], ?_, hown⟩ (fun s' hs' => ?_) call
  · rw [← List.append_assoc, ← h.messages]
  · have hstripped : stripped s'.layout (s.messages ++ [⟨s.next, .user maxRoundsWrapUpInstruction none⟩]) =
        t.systemObj :: (rows ++ [plain] ++ a.own s ++ [⟨s.next, .user maxRoundsWrapUpInstruction none⟩]) := by
      rw [hs', stripped_congr h.layout, h.messages, List.append_assoc, hl.strip _ hown]
      simp
    unfold retryTrim
    rw [hstripped]
    obtain ⟨-, k, hk, -⟩ := trim_prompt c.env c.retrySettings s'.next 0 s.next t.system (rows ++ [plain] ++ a.own s)
      maxRoundsWrapUpInstruction (some (if s'.lastInputTokens = 0 then c.maxInputTokens else s'.lastInputTokens))
    rw [TurnInput.systemObj, hk]
    exact List.take_sublist _ _

theorem inv_rule (hl : Lays t c.env c.cfg a rows plain) :
    Rule c (fun _ => True) (Inv a rows plain) (Inv a rows plain) where
  append := fun _ ms h _ => inv_append h ms
  call := fun _ call h => inv_callLlm hl h call
  noting := fun _ _ _ _ _ _ h => { h with }
  done := fun _ h => h
  raised := fun _ ms h => inv_append h ms
  wrapUp := fun _ call h => inv_wrapUp hl h call

end

/-! ## The messages that compaction gets -/

/-- the messages of the turn that no update is laid on are different ones -/
theorem nodup_turn {t : TurnInput} {env : History.Env} {cfg : History.Settings} {a : Assembled} {rows : List Obj}
    {plain : Obj} {s : St} (hl : Lays t env cfg a rows plain) (h : Inv a rows plain s) :
    (a.dropped ++ (rows ++ [plain] ++ a.own s)).Nodup := by
  refine List.Nodup.of_map Obj.ref ?_
  rw [← List.append_assoc, List.map_append, List.nodup_append]
  refine ⟨hl.nodup, h.nodup, ?_⟩
  intro r hr r' hr' heq
  obtain ⟨m, hm, rfl⟩ := List.mem_map.1 hr
  obtain ⟨m', hm', rfl⟩ := List.mem_map.1 hr'
  have := hl.below m hm
  have := h.fresh m' hm'
  omega

/-- **What a turn hands to compaction.** Messages of the rendered history or of the history that the shed rendered, the
current turn without its update, and messages of the loop; with at most one retry each of them once. And taking the updates
off the messages of any call gives the history as it was, the current turn without its update, and the messages of the loop. -/
theorem handed_stored (c : Config) (t : TurnInput) (script : TurnScript) :
    let r := processMessage c t script
    ∃ rows plain, Lays t c.env c.cfg r.assembled rows plain ∧
      (∀ handed, r.handed = some handed →
        (∀ o ∈ handed, o ∈ t.rendered ∨ o ∈ rows ∨ o = plain ∨ o ∈ r.assembled.own r.state) ∧
        (r.state.trims.length ≤ 1 → handed.Nodup)) ∧
      ∀ ms ∈ r.state.sent, ∃ own, ms = r.assembled.messages ++ own ∧
        stripped r.assembled.layout ms = t.systemObj :: (rows ++ [plain] ++ own) := by
  intro r
  obtain ⟨rows, plain, hl⟩ := assemble_cases t c.env c.cfg c.diff
  have hinv : Inv r.assembled rows plain r.state :=
    processMessage_rule (inv_rule hl) t script (fun _ => ⟨trivial, trivial, fun _ _ _ _ _ _ _ _ _ => trivial⟩)
      (inv_start _ rows plain script.maxTokens)
  have hla : Lays t c.env c.cfg r.assembled rows plain := hl
  refine ⟨rows, plain, hla, ?_, ?_⟩
  · intro handed hhanded
    have heq : handed = r.assembled.dropped ++ r.state.reactive := by
      have hdef : r.handed = if r.ending = .raised ∨ r.assembled.dropped ++ r.state.reactive = [] then none
        else some (r.assembled.dropped ++ r.state.reactive) := rfl
      rw [hdef] at hhanded
      split_ifs at hhanded
      exact (Option.some.inj hhanded).symm
    refine ⟨fun o ho => ?_, fun hone => ?_⟩
    · rw [heq] at ho
      rcases List.mem_append.1 ho with ho | ho
      · obtain ⟨text, note, ref, hsource, -, -⟩ := hla.source
        rcases hsource with ⟨k, hk, -⟩ | ⟨hnil, -⟩
        · rw [hk] at ho
          exact Or.inl (List.mem_of_mem_take ho)
        · simp [hnil] at ho
      · rw [hinv.reactive] at ho
        obtain ⟨d, hd, ho⟩ := List.mem_flatten.1 ho
        have hmem := (hinv.trims d hd).subset ho
        simp only [List.append_assoc, List.mem_append, List.mem_singleton] at hmem
        exact Or.inr hmem
    · -- a single retry drops a sublist of what the first trim kept
      have hsub : r.state.reactive.Sublist (rows ++ [plain] ++ r.assembled.own r.state) := by
        rw [hinv.reactive]
        cases htrims : r.state.trims with
        | nil => exact List.nil_sublist _
        | cons d ds =>
          obtain rfl : ds = [] := by
            rw [htrims, List.length_cons] at hone
            exact List.length_eq_zero_iff.1 (by omega)
          simpa using hinv.trims d (by rw [htrims]; exact List.mem_cons_self)
      rw [heq]
      exact (nodup_turn hla hinv).sublist (List.Sublist.append_left hsub _)
  · intro ms hms
    obtain ⟨own, rfl, hown⟩ := hinv.sent ms hms
    exact ⟨own, rfl, hla.strip own hown⟩

/-! ## Two overflows -/

def plainConfig : Config where
  env := History.sampleEnv [] []
  cfg := History.Settings.default
  diff := fun _ _ => []
  maxToolRounds := 15
  maxToolRounds_pos := by decide
  maxInputTokens := 600000
  llmMaxTokensAgent := 8192

/-- a turn after one exchange. MEMORY.md has changed since the epoch began. -/
def afterOneExchange : TurnInput where
  system := "S".toList
  dynamic := []
  workspace := some (⟨1, Workspace.noteAdded false, []⟩, Workspace.noteAdded true, some 3)
  timeContext := "T".toList
  messageContext := "M".toList
  history := [.user "How much does Acme owe?".toList (some 1), .assistant (some "120".toList) [] (some 2)]
  shedHistory := none
  inputTokens := none

/-- a response with a tool call, or the reply -/
def callOrReply (call : Bool) : MessageResponse where
  id := []
  model := []
  content := if call then [.toolUse "a".toList "find".toList (.obj [])] else [.text "ok".toList]
  stopReason := some (if call then "tool_use".toList else "end_turn".toList)
  stopSequence := none
  usage := []

/-- a round without tools and without messages that come in, whose call overflows or not -/
def bareRound (overflow : Bool) (response : MessageResponse) : RoundScript where
  folded := []
  call := ⟨overflow, some response⟩
  late := []
  tools := []
  toolEnv := ⟨fun _ => [], id, fun _ _ _ => .always, fun _ => none, fun _ => none⟩
  asking := ⟨false, fun _ => .denied⟩
  outcome := fun _ => .raised []

/-- the calls of the first two rounds overflow -/
def twoOverflows : TurnScript where
  rounds := fun i => bareRound true (callOrReply (i = 0))
  wrapUpOnMaxRounds := true
  wrapUp := ⟨false, none⟩
  maxTokens := none

set_option maxRecDepth 20000 in
/-- both retries drop the history, and the second one the current turn too, which is not of the history. And the current
turn comes back without its update. -/
theorem handed_twice :
    let r := processMessage plainConfig afterOneExchange twoOverflows
    (∃ handed ∈ r.handed, (∃ o ∈ handed, o ∉ afterOneExchange.rendered) ∧
      ∃ o ∈ afterOneExchange.rendered, handed.count o = 2) ∧
    stripped r.assembled.layout r.assembled.messages ≠ r.assembled.trimmed := by
  decide +kernel

end Clawbolt.AgentLoop
