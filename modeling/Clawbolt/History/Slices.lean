/-
The same row in two slices: what a row of a window becomes, whichever watermark and window it was loaded under.

`convert_append` makes the messages of a row a function of the rows before it. The loader hands over at most
`_PRECEDING_LOOKBACK_ROWS` of them, which is enough as long as one of these renders.

- `stateAfter_lookback`: the look-back leaves the state of the whole conversation when it holds a row that renders;
- `convert_window`: then the window becomes the messages of its rows in the conversation, one row after the other;
- `marker_after_hidden_run`: behind a run of that many hidden rows a row gets a time marker that it does not have in the
  larger window.
-/
import Mathlib.Tactic
import Clawbolt.History.Window

namespace Clawbolt.History

open Text (Str)

/-! ## The state behind a look-back -/

section

variable (env : Env) (tzName : Str)

theorem stateAfter_singleton_append (pre : List StoredMessage) (msg : StoredMessage) :
    stateAfter env (pre ++ [msg]) =
      ⟨if isVisibleRow env msg (stateAfter env pre).lastWasApprovalPrompt then msg.timestamp
        else (stateAfter env pre).prevIso, isApprovalPromptRow env msg⟩ := by
  rw [stateAfter_snoc env [], next_eq]

theorem lastWasApprovalPrompt_append {rows : List StoredMessage} (h : rows ≠ []) (pre : List StoredMessage) :
    (stateAfter env (pre ++ rows)).lastWasApprovalPrompt = (stateAfter env rows).lastWasApprovalPrompt := by
  unfold stateAfter
  rw [List.getLast?_append_of_ne_nil _ h]

/-- nothing renders: the state holds no timestamp -/
theorem prevIso_of_rendering_nil {rows : List StoredMessage} (h : rendering env [] rows = []) :
    (stateAfter env rows).prevIso = [] := by
  induction rows using List.reverseRecOn with
  | nil => rfl
  | append_singleton rows msg ih =>
    rw [rendering_append, List.append_eq_nil_iff] at h
    have hv : isVisibleRow env msg (stateAfter env rows).lastWasApprovalPrompt = false := by
      simpa [rendering, stateAfter] using h.2
    rw [stateAfter_singleton_append, hv]
    exact ih h.1

/-- a look-back with a row that renders has its timestamp, as the whole conversation has -/
theorem prevIso_of_rendering {pre rows : List StoredMessage} (h : rendering env pre rows ≠ []) :
    (stateAfter env (pre ++ rows)).prevIso = (stateAfter env rows).prevIso := by
  induction rows using List.reverseRecOn with
  | nil => exact absurd rfl h
  | append_singleton rows msg ih =>
    rw [← List.append_assoc, stateAfter_singleton_append, stateAfter_singleton_append]
    rw [rendering_append] at h
    by_cases hnil : rows = []
    · -- the only row renders after `pre`, so it renders after nothing
      subst hnil
      have hv : isVisibleRow env msg (stateAfter env pre).lastWasApprovalPrompt = true := by
        by_contra hv
        simp [rendering, stateAfter] at h hv
        simp [h] at hv
      have hv' : isVisibleRow env msg (stateAfter env []).lastWasApprovalPrompt = true :=
        isVisibleRow_mono env hv fun _ hp => by simp [stateAfter] at hp
      rw [List.append_nil, if_pos hv, if_pos hv']
    · rw [lastWasApprovalPrompt_append env hnil]
      split_ifs with hv
      · rfl
      · refine ih fun hrows => h ?_
        have hv' : isVisibleRow env msg ((pre ++ rows).getLast?.any (isApprovalPromptRow env)) = false := by
          rw [List.getLast?_append_of_ne_nil _ hnil]
          simpa [stateAfter] using hv
        rw [hrows, rendering, hv']
        rfl

/-- a look-back that shows what the rows before it have shown: all of them, one that renders, or that none renders -/
def Shows (pre rows : List StoredMessage) : Prop :=
  pre = [] ∨ rendering env pre rows ≠ [] ∨ rows ≠ [] ∧ rendering env [] pre = [] ∧ rendering env [] rows = []

instance (pre rows : List StoredMessage) : Decidable (Shows env pre rows) := by unfold Shows; infer_instance

theorem rendering_nil_of_alone {pre rows : List StoredMessage} (h : rendering env [] rows = []) :
    rendering env pre rows = [] := by
  refine List.eq_nil_iff_forall_not_mem.2 fun r hr => ?_
  obtain ⟨a, b, rfl, hv⟩ := (mem_rendering env).1 hr
  have hmem : r ∈ rendering env [] (a ++ r :: b) := by
    refine (mem_rendering env).2 ⟨a, b, rfl, isVisibleRow_mono env hv fun _ hp => ?_⟩
    cases a using List.reverseRecOn with
    | nil => simp at hp
    | append_singleton a x => simpa [← List.append_assoc] using hp
  rw [h] at hmem
  exact List.not_mem_nil hmem

/-- **The look-back.** It leaves the state that the whole conversation leaves. -/
theorem stateAfter_lookback {pre rows : List StoredMessage} (h : Shows env pre rows) :
    stateAfter env (pre ++ rows) = stateAfter env rows := by
  obtain rfl | h | ⟨hne, hpre, hrows⟩ := h
  · rfl
  · have hne : rows ≠ [] := by
      intro hnil
      simp [hnil, rendering] at h
    have h1 := prevIso_of_rendering env h
    have h2 := lastWasApprovalPrompt_append env hne pre
    cases h3 : stateAfter env (pre ++ rows)
    cases h4 : stateAfter env rows
    simp_all
  · have h0 : rendering env [] (pre ++ rows) = [] := by
      rw [rendering_append, hpre]
      exact rendering_nil_of_alone env hrows
    have h1 := prevIso_of_rendering_nil env h0
    have h2 := prevIso_of_rendering_nil env hrows
    have h3 := lastWasApprovalPrompt_append env hne pre
    cases h4 : stateAfter env (pre ++ rows)
    cases h5 : stateAfter env rows
    simp_all

end

/-! ## A window -/

namespace Loaded

variable (l : Loaded) (cfg : Settings)

/-- the rows of the conversation before the window -/
def before : List StoredMessage := l.below ++ l.history.take (l.windowStart cfg)

/-- the rows handed over as preceding show what the conversation before the window has shown -/
def LooksBack (env : Env) : Prop := ∃ x, l.before cfg = x ++ l.preceding cfg ∧ Shows env x (l.preceding cfg)

/-- the messages of a row after the rows before it in the conversation -/
def messagesOf (env : Env) (tzName : Str) (m : StoredMessage) : List AgentMessage :=
  storedMessagesToAgentMessages env [m] tzName (l.seen.filter (·.seq < m.seq))

theorem seen_split : ∃ u, l.seen = l.before cfg ++ l.window cfg ++ u := by
  obtain ⟨u, hu⟩ := l.history_prefix
  refine ⟨u, ?_⟩
  rw [seen_eq, ← hu, window_eq, before, List.append_assoc l.below, List.take_append_drop, List.append_assoc]

theorem seen_increasing : l.seen.Pairwise (·.seq < ·.seq) := l.transcript.increasing.sublist List.filter_sublist

/-- in an increasing list the rows before a row are those with smaller seqs -/
theorem filter_lt_of_increasing {a b : List StoredMessage} {m : StoredMessage}
    (h : (a ++ m :: b).Pairwise (·.seq < ·.seq)) : (a ++ m :: b).filter (·.seq < m.seq) = a := by
  obtain ⟨-, h2, h3⟩ := List.pairwise_append.1 h
  have ha : a.filter (·.seq < m.seq) = a :=
    List.filter_eq_self.2 fun x hx => decide_eq_true (h3 x hx m List.mem_cons_self)
  have hb : b.filter (·.seq < m.seq) = [] := by
    refine List.filter_eq_nil_iff.2 fun x hx => ?_
    have hlt := (List.pairwise_cons.1 h2).1 x hx
    simp only [decide_eq_true_eq, not_lt]
    exact hlt.le
  rw [List.filter_append, ha, List.filter_cons, hb]
  simp

/-- rows of the conversation, after all the rows before them, become their messages -/
theorem convert_seen (env : Env) (tzName : Str) (rest : List StoredMessage) :
    ∀ done, done ++ rest <+: l.seen →
      storedMessagesToAgentMessages env rest tzName done = rest.flatMap (l.messagesOf env tzName) := by
  induction rest with
  | nil =>
    intro done _
    rfl
  | cons m rest ih =>
    intro done hdone
    have hbefore : l.seen.filter (·.seq < m.seq) = done := by
      obtain ⟨u, hu⟩ := hdone
      have hinc := l.seen_increasing
      have hsplit : l.seen = done ++ m :: (rest ++ u) := by rw [← hu]; simp
      rw [hsplit] at hinc ⊢
      exact filter_lt_of_increasing hinc
    calc storedMessagesToAgentMessages env (m :: rest) tzName done
        = storedMessagesToAgentMessages env [m] tzName done ++
            storedMessagesToAgentMessages env rest tzName (done ++ [m]) := convert_append env tzName done [m] rest
      _ = l.messagesOf env tzName m ++ rest.flatMap (l.messagesOf env tzName) := by
          rw [ih (done ++ [m]) (by simpa using hdone), messagesOf, hbefore]
      _ = (m :: rest).flatMap (l.messagesOf env tzName) := rfl

/-- **The messages of a window.** Behind a look-back that shows enough, the first rows of the window become the messages
that they become in the conversation. -/
theorem convert_window (env : Env) (tzName : Str) (h : l.LooksBack cfg env) {rows rest : List StoredMessage}
    (hw : l.window cfg = rows ++ rest) :
    storedMessagesToAgentMessages env rows tzName (l.preceding cfg) = rows.flatMap (l.messagesOf env tzName) := by
  obtain ⟨x, hx, hshows⟩ := h
  obtain ⟨u, hu⟩ := l.seen_split cfg
  have hstate : storedMessagesToAgentMessages env rows tzName (l.preceding cfg) =
      storedMessagesToAgentMessages env rows tzName (l.before cfg) := by
    unfold storedMessagesToAgentMessages
    rw [hx, stateAfter_lookback env hshows]
  rw [hstate]
  apply l.convert_seen env tzName rows (l.before cfg)
  rw [hu, hw]
  exact ⟨rest ++ u, by simp⟩

/-- rows that are appended to the conversation leave the messages of its rows as they were -/
theorem messagesOf_grown {l' : Loaded} (h : l.seen <+: l'.seen) (env : Env) (tzName : Str) {m : StoredMessage}
    (hm : m ∈ l.seen) : l'.messagesOf env tzName m = l.messagesOf env tzName m := by
  obtain ⟨t, ht⟩ := h
  obtain ⟨a, b, hab⟩ := List.append_of_mem hm
  have h1 := l.seen_increasing
  have h2 := l'.seen_increasing
  rw [← ht, hab, List.append_assoc, List.cons_append] at h2
  rw [hab] at h1
  unfold messagesOf
  rw [← ht, hab, List.append_assoc, List.cons_append, filter_lt_of_increasing h2, filter_lt_of_increasing h1]

end Loaded

/-- **Slices convert alone.** The conversion of two slices is that of the first and then of the second, with the first
among the rows before it. So, where the look-back shows enough, a row of a window becomes the messages that it becomes in
the conversation, and a window that starts later, after more rows, starts with the messages the earlier one ended with. -/
theorem slices_convert_alone (env : Env) (tzName : Str) :
    (∀ pre a b, storedMessagesToAgentMessages env (a ++ b) tzName pre =
      storedMessagesToAgentMessages env a tzName pre ++ storedMessagesToAgentMessages env b tzName (pre ++ a)) ∧
    (∀ (l : Loaded) (cfg : Settings), l.LooksBack cfg env →
      storedMessagesToAgentMessages env (l.window cfg) tzName (l.preceding cfg) =
        (l.window cfg).flatMap (l.messagesOf env tzName)) ∧
    ∀ (l l' : Loaded) (cfg cfg' : Settings), l.LooksBack cfg env → l'.LooksBack cfg' env → l.seen <+: l'.seen →
      ∀ dropped kept added, l.window cfg = dropped ++ kept → l'.window cfg' = kept ++ added →
        ∃ cached, storedMessagesToAgentMessages env (l.window cfg) tzName (l.preceding cfg) =
            storedMessagesToAgentMessages env dropped tzName (l.preceding cfg) ++ cached ∧
          cached <+: storedMessagesToAgentMessages env (l'.window cfg') tzName (l'.preceding cfg') := by
  refine ⟨convert_append env tzName, fun l cfg h => l.convert_window cfg env tzName h (List.append_nil _).symm, ?_⟩
  intro l l' cfg cfg' h h' hgrown dropped kept added hw hw'
  have hkept : kept.flatMap (l'.messagesOf env tzName) = kept.flatMap (l.messagesOf env tzName) := by
    refine List.flatMap_congr fun m hm => l.messagesOf_grown hgrown env tzName ?_
    obtain ⟨u, hu⟩ := l.seen_split cfg
    rw [hu, hw]
    simp [hm]
  refine ⟨kept.flatMap (l.messagesOf env tzName), ?_, ?_⟩
  · rw [l.convert_window cfg env tzName h hw, l.convert_window cfg env tzName h (List.append_nil _).symm, hw,
      List.flatMap_append]
  · rw [l'.convert_window cfg' env tzName h' (List.append_nil _).symm, hw', List.flatMap_append, hkept]
    exact List.prefix_append _ _

/-! ## Behind a run of hidden rows -/

/-- two times, a minute apart -/
def minuteApart : Env :=
  sampleEnv [("2026-09-01T09:00:00+00:00", 1788253200000000, "Tuesday, 2026-09-01 09:00 AM"),
    ("2026-09-01T09:01:00+00:00", 1788253260000000, "Tuesday, 2026-09-01 09:01 AM")] []

/-- a message at nine, or without a text -/
def atNine (body : String) (seq : ℕ) : StoredMessage :=
  ⟨.inbound, body.toList, [], [], [], "2026-09-01T09:00:00+00:00".toList, seq⟩

/-- a message, `n` attachments without a text, and two messages a minute later -/
def hiddenRunRows (n : ℕ) : List StoredMessage :=
  atNine "hello" 1 :: (List.range n).map (fun i => atNine "" (i + 2)) ++
    [⟨.inbound, "again".toList, [], [], [], "2026-09-01T09:01:00+00:00".toList, n + 2⟩,
      ⟨.inbound, "and now".toList, [], [], [], "2026-09-01T09:01:00+00:00".toList, n + 3⟩]

set_option maxRecDepth 20000 in
/-- the turn of the last of the messages, all of them above the watermark or the last two -/
def hiddenRun (lastTrimSeq : Option ℕ) : Loaded :=
  ⟨⟨hiddenRunRows 20, by decide⟩, lastTrimSeq,
    ⟨.inbound, "and now".toList, [], [], [], "2026-09-01T09:01:00+00:00".toList, 23⟩⟩

set_option maxRecDepth 20000 in
/-- message 22 has no time marker with row 1 in the window, and has one when the window starts behind the twenty blank rows -/
theorem marker_after_hidden_run :
    ¬ ∀ (env : Env) (tzName : Str) (l l' : Loaded) (cfg : Settings), l.seen = l'.seen →
      ∀ dropped, l.window cfg = dropped ++ l'.window cfg →
        storedMessagesToAgentMessages env (l.window cfg) tzName (l.preceding cfg) =
          storedMessagesToAgentMessages env dropped tzName (l.preceding cfg) ++
            storedMessagesToAgentMessages env (l'.window cfg) tzName (l'.preceding cfg) := by
  intro h
  have hall := h minuteApart [] (hiddenRun none) (hiddenRun (some 21)) Settings.default (by decide)
    ((hiddenRunRows 20).take 21) (by decide)
  have h1 : storedMessagesToAgentMessages minuteApart ((hiddenRun none).window Settings.default) []
      ((hiddenRun none).preceding Settings.default) =
      [.user "[Tuesday, 2026-09-01 09:00 AM]\nhello".toList (some 1), .user "again".toList (some 22)] := by decide
  have h2 : storedMessagesToAgentMessages minuteApart ((hiddenRun (some 21)).window Settings.default) []
      ((hiddenRun (some 21)).preceding Settings.default) =
      [.user "[Tuesday, 2026-09-01 09:01 AM]\nagain".toList (some 22)] := by decide
  rw [h1, h2] at hall
  revert hall
  decide

set_option maxRecDepth 20000 in
/-- `slices_convert_alone` with the watermark moved behind row 1, whose rows are looked back for -/
theorem slices_convert_alone_after_trim :
    (hiddenRun none).LooksBack Settings.default minuteApart ∧
      (hiddenRun (some 1)).LooksBack Settings.default minuteApart ∧
      ∃ cached, storedMessagesToAgentMessages minuteApart ((hiddenRun none).window Settings.default) []
            ((hiddenRun none).preceding Settings.default) =
          storedMessagesToAgentMessages minuteApart [atNine "hello" 1] []
            ((hiddenRun none).preceding Settings.default) ++ cached ∧
        cached <+: storedMessagesToAgentMessages minuteApart ((hiddenRun (some 1)).window Settings.default) []
          ((hiddenRun (some 1)).preceding Settings.default) := by
  have h1 : (hiddenRun none).LooksBack Settings.default minuteApart := ⟨[], by decide, Or.inl rfl⟩
  have h2 : (hiddenRun (some 1)).LooksBack Settings.default minuteApart := ⟨[], by decide, Or.inl rfl⟩
  exact ⟨h1, h2, (slices_convert_alone minuteApart []).2.2 _ _ _ _ h1 h2 (by decide) _
    ((hiddenRun (some 1)).window Settings.default) [] (by decide) (by decide)⟩

end Clawbolt.History
