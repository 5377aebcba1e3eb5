/-
A render, row by row. Whether a result is old depends on the seq of its row alone, and what is sent for an old result on the
calls of its row alone, so a render sends each row as a function of the row and of what the rows before it carry on.

- `render_messages`, `render_tokens`: the messages and the inherited tokens of a render;
- `estimate_le`: making more rows old never adds a token, if no tool name is longer than the threshold allows.
-/
import Mathlib.Tactic
import Mathlib.Data.Nat.Digits.Defs
import Clawbolt.History.WriteResults

namespace Clawbolt.History

open Text (Str)

/-! ## What is sent for a row -/

/-- what is sent for an old result of a row with these calls -/
def sentText (tools : Dict Tool) (tcs : List StoredToolInteraction) (id content : Str) : Str :=
  let content := stripSkillGuidance content
  match lastCall tcs id with
  | none => content
  | some last =>
    if elideMinChars < content.length ∧ isWrite tools last.name last.args = false then
      elidedResultStub last.name content.length
    else content

/-- a message of a row, old or not -/
def sentMessage (tools : Dict Tool) (tcs : List StoredToolInteraction) (old : Bool) (m : AgentMessage) : AgentMessage :=
  match m with
  | .toolResult id content isError => .toolResult id (if old then sentText tools tcs id content else content) isError
  | m => m

section

variable (env : Env) (tzName : Str) (tools : Dict Tool)

/-- the messages of a row -/
def sentRow (old : Bool) (c : Carry) (row : StoredMessage) : List AgentMessage :=
  (convertRow env tzName c row).1.map (sentMessage tools (rowInteractions env row) old)

/-- the rows that are sent, of which `sent` are part of the count -/
def sender (old sent : ℕ → Bool) : Passes.Pass Carry StoredMessage AgentMessage :=
  ⟨fun c row => if sent row.seq then sentRow env tzName tools (old row.seq) c row else [], (converter env tzName).next⟩

end

/-- the rows of the seq are old -/
def RenderArgs.oldSeq (p : RenderArgs) (q : ℕ) : Bool :=
  (p.groupOf q).any (· < p.verbatimFrom) || p.stubBefore.any (q < ·)

/-- the rows of the seq are inherited -/
def RenderArgs.inheritedSeq (p : RenderArgs) (q : ℕ) : Bool := (p.groupOf q).isSome

/-! ## One row -/

section

variable (env : Env) (tzName : Str) (p : RenderArgs) (c : Carry) (row : StoredMessage)

theorem old_see {s : RenderState} {m : AgentMessage} {q : ℕ} (hq : m.seq? = some q) : p.old (p.see s m) = p.oldSeq q := by
  have hgroup : (p.see s m).group = p.groupOf q := by rw [see_group, hq]
  have hrow : (p.see s m).rowSeq = some q := by
    cases m <;> simp_all [RenderArgs.see, AgentMessage.seq?]
  unfold RenderArgs.old RenderArgs.oldSeq
  rw [hgroup, hrow]
  simp

/-- messages of one row, the first of which carries its seq, are inherited or not as the row is -/
theorem inherited_row {q : ℕ} {s : RenderState} {ms : List AgentMessage} (hhead : ∀ m ∈ ms.head?, m.seq? = some q)
    (hseq : ∀ m ∈ ms, ∀ q', m.seq? = some q' → q' = q) : ∀ y ∈ p.renderPass.out s ms, y.inherited = p.inheritedSeq q := by
  cases ms with
  | nil => simp
  | cons m ms =>
    have hfirst : (p.see s m).group = p.groupOf q := by rw [see_group, hhead m rfl]
    have hkeep : ∀ s : RenderState, ∀ x ∈ ms, s.group = p.groupOf q → (p.see s x).group = p.groupOf q := by
      intro s x hx hs
      rw [see_group]
      cases hq : x.seq? with
      | none => exact hs
      | some q' => rw [hseq x (List.mem_cons_of_mem _ hx) q' hq]
    intro y hy
    rcases List.mem_append.1 hy with hy | hy
    · simp only [RenderArgs.renderPass, List.mem_singleton] at hy
      rw [hy, rendered_inherited, hfirst]
      rfl
    · refine Passes.Pass.out_all p.renderPass (I := fun s => s.group = p.groupOf q)
        (Q := fun y => y.inherited = p.inheritedSeq q) hfirst hkeep (fun s x hx hs y hy => ?_) y hy
      simp only [RenderArgs.renderPass, List.mem_singleton] at hy
      simp only [hy, rendered_inherited, hkeep s x hx hs]
      rfl

theorem inherited_emit {s : RenderState} :
    ∀ y ∈ p.renderPass.out s (convertRow env tzName c row).1, y.inherited = p.inheritedSeq row.seq := by
  refine inherited_row p (fun m hm => ?_) fun m hm q hq => seq_of_emit env tzName c row hm hq
  cases he : (convertRow env tzName c row).1 with
  | nil => rw [he] at hm; cases hm
  | cons x xs =>
    rw [he] at hm
    obtain rfl := Option.some.inj hm
    exact head_emit_seq env tzName c row he

/-- what is sent for a result of the row -/
theorem resultText_sent {s : RenderState} {tcs : List StoredToolInteraction} {tc : StoredToolInteraction} (h : tc ∈ tcs) (seq : ℕ) :
    p.resultText (p.see s (callMessage tcs seq)) tc =
      if p.oldSeq seq then sentText p.toolsByName tcs tc.toolCallId tc.result else tc.result := by
  obtain ⟨last, hlast⟩ := exists_lastCall h
  rw [resultText_eq p hlast, old_see p (q := seq) rfl]
  unfold sentText
  rw [hlast]

/-- **One row.** Its messages are those that are sent for it. -/
theorem row_messages (s : RenderState) :
    (p.renderPass.out s (convertRow env tzName c row).1).map Rendered.message =
      sentRow env tzName p.toolsByName (p.oldSeq row.seq) c row := by
  unfold sentRow
  by_cases h : rowInteractions env row = []
  · rcases emit_plain env tzName c row h with he | ⟨m, he, hm⟩
    · rw [he]
      rfl
    · rw [he]
      have hsent : sentMessage p.toolsByName (rowInteractions env row) (p.oldSeq row.seq) m = m := by
        refine hm _ ?_
        cases m <;> first | rfl | exact ⟨_, rfl⟩
      rw [List.map_singleton, hsent, Passes.Pass.out_cons, Passes.Pass.out_nil, List.append_nil]
      exact congrArg (fun x => [x]) (hm _ (sameShape_rendered p (p.see s m) m))
  · obtain ⟨text, he⟩ := emit_expand env tzName c row h
    rw [he, out_expand]
    simp only [expandOutboundWithTools, List.map_append, List.map_cons, List.map_map, List.map_nil, List.cons_append]
    refine congrArg₂ _ rfl (congrArg₂ _ (List.map_congr_left fun tc htc => ?_) rfl)
    rw [resultText_sent p htc]
    rfl

end

/-! ## A list of rows -/

section

variable (env : Env) (tzName : Str) (p : RenderArgs)

/-- every row is part of the count -/
def allSent : ℕ → Bool := fun _ => true

theorem out_messages (c : Carry) (s : RenderState) (rows : List StoredMessage) :
    (p.renderPass.out s ((converter env tzName).out c rows)).map Rendered.message =
      (sender env tzName p.toolsByName p.oldSeq allSent).out c rows := by
  induction rows generalizing c s with
  | nil => rfl
  | cons row rows ih =>
    rw [Passes.Pass.out_cons, Passes.Pass.out_append, List.map_append, ih]
    exact congrArg₂ _ (row_messages env tzName p c row s) rfl

theorem out_inherited (c : Carry) (s : RenderState) (rows : List StoredMessage) :
    ((p.renderPass.out s ((converter env tzName).out c rows)).filter Rendered.inherited).map Rendered.message =
      (sender env tzName p.toolsByName p.oldSeq p.inheritedSeq).out c rows := by
  induction rows generalizing c s with
  | nil => rfl
  | cons row rows ih =>
    rw [Passes.Pass.out_cons, Passes.Pass.out_append, List.filter_append, List.map_append, ih]
    refine congrArg₂ _ ?_ rfl
    have hall := inherited_emit env tzName p c row (s := s)
    simp only [sender]
    split_ifs with hsent
    · rw [← row_messages env tzName p c row s]
      exact congrArg _ (List.filter_eq_self.2 fun y hy => by rw [hall y hy, hsent])
    · rw [List.filter_eq_nil_iff.2 fun y hy => by rw [hall y hy]; exact hsent]
      rfl

end

section

variable (c : Ctx) (preGroups : List (List StoredMessage)) (post preceding : List StoredMessage) (verbatimFrom : ℕ)
  (stubBefore : Option ℕ)

/-- the old rows of a render -/
def oldRows (q : ℕ) : Bool := (groupOf preGroups q).any (· < verbatimFrom) || stubBefore.any (q < ·)

theorem render_messages : (c.render preGroups post verbatimFrom preceding stubBefore).messages =
    (sender c.env c.tzName c.toolsByName (oldRows preGroups verbatimFrom stubBefore) allSent).out (stateAfter c.env preceding)
      (preGroups.flatten ++ post) :=
  out_messages c.env c.tzName ⟨c.toolsByName, groupOf preGroups, verbatimFrom, stubBefore⟩ _ _ _

theorem render_tokens : (c.render preGroups post verbatimFrom preceding stubBefore).tokens =
    estimateTokens c.env ((sender c.env c.tzName c.toolsByName (oldRows preGroups verbatimFrom stubBefore)
      fun q => (groupOf preGroups q).isSome).out (stateAfter c.env preceding) (preGroups.flatten ++ post)) :=
  congrArg (estimateTokens c.env)
    (out_inherited c.env c.tzName ⟨c.toolsByName, groupOf preGroups, verbatimFrom, stubBefore⟩ _ _ _)

end

/-! ## The length of what is sent -/

theorem dropBlocks_sublist (skip : ℕ) (t : Str) : (dropBlocks skip t).1.Sublist t := by
  induction t generalizing skip with
  | nil => cases skip <;> exact List.Sublist.refl _
  | cons c cs ih =>
    cases skip with
    | succ skip => exact (ih skip).cons c
    | zero =>
      unfold dropBlocks
      split
      · exact (ih _).cons c
      · exact (ih 0).cons_cons c

theorem prefix_of_beforeLegacyBlock {skip : ℕ} {t u : Str} (h : beforeLegacyBlock skip t = some u) : u <+: t := by
  have hcons : ∀ {skip : ℕ} {c : Char} {cs u : Str}, (∀ skip u, beforeLegacyBlock skip cs = some u → u <+: cs) →
      (beforeLegacyBlock skip cs).map (c :: ·) = some u → u <+: c :: cs := by
    intro skip c cs u ih hu
    obtain ⟨v, hv, rfl⟩ := Option.map_eq_some_iff.1 hu
    exact (List.prefix_cons_inj c).2 (ih skip v hv)
  induction t generalizing skip u with
  | nil => cases skip <;> cases h
  | cons c cs ih =>
    cases skip with
    | succ skip => exact hcons (fun skip u => ih) h
    | zero =>
      unfold beforeLegacyBlock at h
      split at h
      · split at h
        · rename_i v hv
          obtain rfl := Option.some.inj h
          exact (List.prefix_cons_inj c).2 (ih hv)
        · obtain rfl := Option.some.inj h
          exact List.nil_prefix
      · exact hcons (fun skip u => ih) h

theorem length_stripSkillGuidance_le (t : Str) : (stripSkillGuidance t).length ≤ t.length := by
  unfold stripSkillGuidance
  simp only
  split_ifs
  · exact (dropBlocks_sublist 0 t).length_le
  · cases h : beforeLegacyBlock 0 t with
    | none => exact le_rfl
    | some u => exact (prefix_of_beforeLegacyBlock h).length_le

/-- the longest tool name whose stub is never longer than the result it replaces -/
def maxNameChars : ℕ := 238

theorem length_toString_le {n : ℕ} (h : elideMinChars < n) : (toString n).toList.length + 298 ≤ n := by
  have hdigits : ∀ e, 0 < e → n < 10 ^ e → (toString n).toList.length ≤ e := fun e he hlt => Nat.repr_length n e he hlt
  unfold elideMinChars at h
  by_cases hsmall : n < 10 ^ 3
  · have := hdigits 3 (by decide) hsmall
    omega
  · obtain ⟨m, rfl⟩ : ∃ m, n = 10 ^ 3 + m := ⟨n - 10 ^ 3, by omega⟩
    have hlt : m < 2 ^ m := Nat.lt_two_pow_self
    have hle : 2 ^ m ≤ 10 ^ m := Nat.pow_le_pow_left (by decide) m
    have := hdigits (m + 4) (by omega) (by rw [pow_add]; omega)
    omega

theorem elidedResultStub_eq (name : Str) (n : ℕ) : elidedResultStub name n =
    "[tool result elided: ".toList ++ name ++ ", ".toList ++ (toString n).toList ++
      " chars; re-run only if it just reads]".toList := rfl

theorem length_elidedResultStub_le {name : Str} {n : ℕ} (hname : name.length ≤ maxNameChars) (h : elideMinChars < n) :
    (elidedResultStub name n).length ≤ n := by
  have hdigits := length_toString_le h
  have h1 : "[tool result elided: ".toList.length = 21 := by simp
  have h2 : ", ".toList.length = 2 := by simp
  have h3 : " chars; re-run only if it just reads]".toList.length = 37 := by simp
  rw [elidedResultStub_eq]
  simp only [List.length_append, h1, h2, h3]
  unfold maxNameChars at hname
  omega

/-- no tool has a name so long that a stub is longer than what it replaces -/
def ShortNames (tools : Dict Tool) : Prop := ∀ name tool, tools.lookup name = some tool → name.length ≤ maxNameChars

theorem lookup_of_not_isWrite {tools : Dict Tool} {name : Str} {args : Args} (h : isWrite tools name args = false) :
    ∃ tool, tools.lookup name = some tool := by
  unfold isWrite at h
  split at h
  · cases h
  · rename_i tool htool
    exact ⟨tool, htool⟩

theorem length_sentText_le {tools : Dict Tool} (hnames : ShortNames tools) (tcs : List StoredToolInteraction) (id content : Str) :
    (sentText tools tcs id content).length ≤ content.length := by
  have hstrip := length_stripSkillGuidance_le content
  unfold sentText
  simp only
  split
  · exact hstrip
  · split_ifs with helide
    · obtain ⟨tool, htool⟩ := lookup_of_not_isWrite helide.2
      exact (length_elidedResultStub_le (hnames _ tool htool) helide.1).trans hstrip
    · exact hstrip

section

variable (env : Env) (tzName : Str) {tools : Dict Tool}

theorem messageChars_sentMessage_le (hnames : ShortNames tools) (tcs : List StoredToolInteraction) {old old' : Bool}
    (hold : old = true → old' = true) (m : AgentMessage) :
    messageChars env (sentMessage tools tcs old' m) ≤ messageChars env (sentMessage tools tcs old m) := by
  cases m with
  | toolResult id content isError =>
    simp only [sentMessage, messageChars]
    cases old with
    | true =>
      rw [hold rfl]
    | false =>
      cases old' with
      | true => exact length_sentText_le hnames tcs id content
      | false => exact le_rfl
  | system content => exact le_rfl
  | user content seq => exact le_rfl
  | assistant content toolCalls seq => exact le_rfl

/-- **More old rows are not longer.** -/
theorem sender_chars_le (hnames : ShortNames tools) {old old' sent sent' : ℕ → Bool} {rows : List StoredMessage}
    (hold : ∀ row ∈ rows, sent' row.seq = true → old row.seq = true → old' row.seq = true)
    (hsent : ∀ row ∈ rows, sent' row.seq = true → sent row.seq = true)
    (c : Carry) :
    (((sender env tzName tools old' sent').out c rows).map (messageChars env)).sum ≤
      (((sender env tzName tools old sent).out c rows).map (messageChars env)).sum := by
  induction rows generalizing c with
  | nil => exact le_rfl
  | cons row rows ih =>
    have hrest := ih (fun r hr => hold r (List.mem_cons_of_mem _ hr)) (fun r hr => hsent r (List.mem_cons_of_mem _ hr))
      ((converter env tzName).next c row)
    have hrow : (((sender env tzName tools old' sent').emit c row).map (messageChars env)).sum ≤
        (((sender env tzName tools old sent).emit c row).map (messageChars env)).sum := by
      simp only [sender]
      by_cases hs : sent' row.seq = true
      · rw [if_pos hs, if_pos (hsent row List.mem_cons_self hs)]
        simp only [sentRow, List.map_map]
        refine List.sum_le_sum fun m _ => ?_
        exact messageChars_sentMessage_le env hnames _ (hold row List.mem_cons_self hs) m
      · rw [if_neg hs]
        exact Nat.zero_le _
    simp only [Passes.Pass.out_cons, List.map_append, List.sum_append]
    exact Nat.add_le_add hrow hrest

theorem estimate_le (hnames : ShortNames tools) {old old' sent sent' : ℕ → Bool} {rows : List StoredMessage}
    (hold : ∀ row ∈ rows, sent' row.seq = true → old row.seq = true → old' row.seq = true)
    (hsent : ∀ row ∈ rows, sent' row.seq = true → sent row.seq = true)
    (c : Carry) :
    estimateTokens env ((sender env tzName tools old' sent').out c rows) ≤
      estimateTokens env ((sender env tzName tools old sent).out c rows) :=
  Nat.div_le_div_right (sender_chars_le env tzName hnames hold hsent c)

end

end Clawbolt.History
