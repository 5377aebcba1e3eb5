/-
The cold-start rebuild is a fixed point, and histories grow only by appending.

The rebuild drops the oldest turns of the inherited history and compacts them; the next turn loads what is left, with the
rows appended since, and runs the same three-step search on it. Both runs render the same turns after the same rows, so
they estimate the same tokens: the search of the second run finds what the first ended with.

- `groupTurns_drop`: the turns that remain after a drop are the turns of the rows that remain;
- `render_append`: appended rows append messages and leave the inherited tokens as they are;
- `start_settled`: where the drop loop stops, the widest window fits, or one turn is left;
- `rebuild_fixed_point`: the next turn of the epoch drops nothing, has the same epoch key, and its history has this one
  as a prefix.
-/
import Mathlib.Tactic
import Clawbolt.History.Rebuild

namespace Clawbolt.History

open Text (Str)

/-! ## Turns -/

theorem flatten_groupTurns (rows : List StoredMessage) : (groupTurns rows).flatten = rows := Groups.flatten_group _ rows

/-- turns are not empty, and each but the first starts at an inbound row -/
structure IsTurns (groups : List (List StoredMessage)) : Prop where
  nonempty : ∀ g ∈ groups, g ≠ []
  inbound : ∀ g ∈ groups.tail, (g.head?.any fun r => r.direction = .inbound) = true

theorem isTurns_groupTurns (rows : List StoredMessage) : IsTurns (groupTurns rows) := by
  refine ⟨Groups.nonempty_group _ rows, fun g hg => ?_⟩
  obtain ⟨r, hr, -, hin⟩ := Groups.starts_group _ rows g hg
  rw [hr]
  simpa using hin

/-- **Turns that remain.** Grouping the rows of the last turns gives those turns. -/
theorem groupTurns_drop (rows : List StoredMessage) (s : ℕ) :
    groupTurns ((groupTurns rows).drop s).flatten = (groupTurns rows).drop s := Groups.group_drop _ rows s

theorem groupTurns_ne_nil {rows : List StoredMessage} (h : rows ≠ []) : groupTurns rows ≠ [] :=
  Groups.group_ne_nil _ h

/-! ## Renders -/

theorem groupOf_lt {groups : List (List StoredMessage)} {q g : ℕ} (h : groupOf groups q = some g) : g < groups.length :=
  (lastIndex_eq_some.1 h).1

/-- a row of no turn has no group -/
theorem groupOf_eq_none {groups : List (List StoredMessage)} {q : ℕ} (h : ∀ r ∈ groups.flatten, r.seq ≠ q) :
    groupOf groups q = none := by
  refine lastIndex_eq_none.2 fun i hi => ?_
  rw [List.getD_eq_getElem?_getD, List.getElem?_eq_getElem hi, Option.getD_some, List.any_eq_false]
  exact fun r hr => by simpa using h r (List.mem_flatten.2 ⟨_, List.getElem_mem hi, hr⟩)

section

variable (p : RenderArgs)

theorem see_group (s : RenderState) (m : AgentMessage) :
    (p.see s m).group = match m.seq? with
      | some q => p.groupOf q
      | none => s.group := by
  cases m with
  | assistant c t q => cases q <;> rfl
  | user c q => cases q <;> rfl
  | system c => rfl
  | toolResult i c e => rfl

theorem rendered_inherited (s : RenderState) (m : AgentMessage) : (p.rendered s m).inherited = s.group.isSome := by
  unfold RenderArgs.rendered
  split
  · split_ifs <;> rfl
  · rfl

/-- messages whose rows belong to no turn are not inherited -/
theorem inherited_out {s : RenderState} {ms : List AgentMessage} (hs : s.group = none)
    (hm : ∀ m ∈ ms, ∀ q, m.seq? = some q → p.groupOf q = none) :
    ∀ y ∈ p.renderPass.out s ms, y.inherited = false := by
  have hsee : ∀ s : RenderState, ∀ m ∈ ms, s.group = none → (p.see s m).group = none := fun s m hmem h => by
    rw [see_group]
    cases hq : m.seq? with
    | none => exact h
    | some q => exact hm m hmem q hq
  refine Passes.Pass.out_all (I := fun s => s.group = none) _ hs hsee fun s m hmem h y hy => ?_
  simp only [RenderArgs.renderPass, List.mem_singleton] at hy
  rw [hy, rendered_inherited, hsee s m hmem h]
  rfl

/-- the same, from any state, when the first message starts a row -/
theorem inherited_out_row {s : RenderState} {ms : List AgentMessage} (hhead : ∀ m ∈ ms.head?, ∃ q, m.seq? = some q)
    (hm : ∀ m ∈ ms, ∀ q, m.seq? = some q → p.groupOf q = none) :
    ∀ y ∈ p.renderPass.out s ms, y.inherited = false := by
  cases ms with
  | nil => simp
  | cons m ms =>
    obtain ⟨q, hq⟩ := hhead m rfl
    have hg : (p.see s m).group = none := by rw [see_group, hq]; exact hm m List.mem_cons_self q hq
    intro y hy
    rcases List.mem_append.1 hy with hy | hy
    · simp only [RenderArgs.renderPass, List.mem_singleton] at hy
      rw [hy, rendered_inherited, hg]; rfl
    · exact inherited_out p hg (fun x hx => hm x (List.mem_cons_of_mem _ hx)) y hy

/-- two verbatim windows that hold no turn render the same -/
theorem renderPass_all_old {n m : ℕ} (hgroup : ∀ q g, p.groupOf q = some g → g < n ∧ g < m) {s : RenderState}
    (hs : ∀ g, s.group = some g → g < n ∧ g < m) (ms : List AgentMessage) :
    ({ p with verbatimFrom := n } : RenderArgs).renderPass.out s ms =
      ({ p with verbatimFrom := m } : RenderArgs).renderPass.out s ms := by
  have hsee : ∀ s : RenderState, (∀ g, s.group = some g → g < n ∧ g < m) → ∀ x g, (p.see s x).group = some g →
      g < n ∧ g < m := fun s h x g hg => by
    rw [see_group] at hg
    cases hq : x.seq? with
    | none => rw [hq] at hg; exact h g hg
    | some q => rw [hq] at hg; exact hgroup q g hg
  have h := Passes.Pass.forall₂_out ({ p with verbatimFrom := n } : RenderArgs).renderPass
    ({ p with verbatimFrom := m } : RenderArgs).renderPass (R := fun s t => s = t ∧ ∀ g, s.group = some g → g < n ∧ g < m)
    (T := Eq) (l := ms) ⟨rfl, hs⟩ ?_ ?_
  · exact List.forall₂_eq_eq_eq ▸ h
  · rintro s t x - ⟨rfl, h⟩
    exact ⟨rfl, hsee s h x⟩
  · rintro s t x - ⟨rfl, h⟩
    have hold : ({ p with verbatimFrom := n } : RenderArgs).old (p.see s x) =
        ({ p with verbatimFrom := m } : RenderArgs).old (p.see s x) := by
      unfold RenderArgs.old
      cases hg : (p.see s x).group with
      | none => rfl
      | some g =>
        obtain ⟨h1, h2⟩ := hsee s h x g hg
        simp [h1, h2]
    refine List.Forall₂.cons ?_ List.Forall₂.nil
    show ({ p with verbatimFrom := n } : RenderArgs).rendered (p.see s x) x =
      ({ p with verbatimFrom := m } : RenderArgs).rendered (p.see s x) x
    unfold RenderArgs.rendered
    rw [hold]
    rfl

end

section

variable (c : Ctx) (kept : List (List StoredMessage)) (post more preceding : List StoredMessage) (stubBefore : Option ℕ)

/-- rows after the turns, none of which belongs to one -/
def Outside (rows : List StoredMessage) : Prop := ∀ r ∈ rows, groupOf kept r.seq = none

theorem Outside.messages {kept : List (List StoredMessage)} {rows : List StoredMessage} (h : Outside kept rows)
    (env : Env) (tzName : Str) (pre : List StoredMessage) :
    ∀ m ∈ storedMessagesToAgentMessages env rows tzName pre, ∀ q, m.seq? = some q → groupOf kept q = none := by
  intro m hm q hq
  obtain ⟨r, hr, rfl⟩ := (mem_convert_seq env tzName pre rows q).1 ⟨m, hm, hq⟩
  exact h r (rendering_subset env pre rows r hr)

/-- **Appended rows.** They append messages, and leave the inherited tokens as they are. -/
theorem render_append (verbatimFrom : ℕ) (h : Outside kept (post ++ more)) :
    (c.render kept (post ++ more) verbatimFrom preceding stubBefore).tokens =
        (c.render kept post verbatimFrom preceding stubBefore).tokens ∧
      (c.render kept post verbatimFrom preceding stubBefore).messages <+:
        (c.render kept (post ++ more) verbatimFrom preceding stubBefore).messages := by
  have hmore : Outside kept more := fun r hr => h r (List.mem_append_right _ hr)
  -- the messages of the appended rows are not inherited
  have hnil : ∀ s, ((RenderArgs.mk c.toolsByName (groupOf kept) verbatimFrom stubBefore).renderPass.out s
      (storedMessagesToAgentMessages c.env more c.tzName (preceding ++ (kept.flatten ++ post)))).filter
        Rendered.inherited = [] := fun s => List.filter_eq_nil_iff.2 fun y hy => by
    rw [inherited_out_row _ (head_convert_seq c.env c.tzName _ more) (hmore.messages c.env c.tzName _) y hy]
    simp
  unfold Ctx.render Ctx.renderOut
  rw [← List.append_assoc, convert_append c.env c.tzName preceding (kept.flatten ++ post) more,
    Passes.Pass.out_append]
  refine ⟨?_, ?_⟩
  · simp only [viewOf, List.filter_append, hnil, List.append_nil]
  · simp only [viewOf, List.map_append]
    exact List.prefix_append _ _

/-- with every turn before the window, its start does not matter -/
theorem render_all_old {n m : ℕ} (hn : kept.length ≤ n) (hm : kept.length ≤ m) :
    c.render kept post n preceding stubBefore = c.render kept post m preceding stubBefore := by
  have h := renderPass_all_old ⟨c.toolsByName, groupOf kept, n, stubBefore⟩ (n := n) (m := m)
    (fun q g hg => by have := groupOf_lt hg; omega) (s := ⟨none, none, []⟩) (by simp)
    (storedMessagesToAgentMessages c.env (kept.flatten ++ post) c.tzName preceding)
  unfold Ctx.render Ctx.renderOut
  rw [h]

/-! ## The search -/

theorem fitVerbatim_append (h : Outside kept (post ++ more)) (verbatim : ℕ) :
    (c.fitVerbatim kept (post ++ more) preceding stubBefore verbatim).tokens =
        (c.fitVerbatim kept post preceding stubBefore verbatim).tokens ∧
      (c.fitVerbatim kept post preceding stubBefore verbatim).messages <+:
        (c.fitVerbatim kept (post ++ more) preceding stubBefore verbatim).messages := by
  induction verbatim with
  | zero => exact render_append c kept post more preceding stubBefore _ h
  | succ verbatim ih =>
    have hr := render_append c kept post more preceding stubBefore (kept.length - (verbatim + 1)) h
    simp only [Ctx.fitVerbatim, hr.1]
    split_ifs
    · exact hr
    · exact ih

/-- a search that ends over budget ended with no window -/
theorem fitVerbatim_over (verbatim : ℕ) :
    (c.fitVerbatim kept post preceding stubBefore verbatim).tokens ≤ c.cfg.coldStartHistoryBudgetTokens ∨
      c.fitVerbatim kept post preceding stubBefore verbatim = c.render kept post kept.length preceding stubBefore := by
  induction verbatim with
  | zero => exact Or.inr rfl
  | succ verbatim ih =>
    simp only [Ctx.fitVerbatim]
    split_ifs with ht
    · exact Or.inl ht
    · exact ih

end

section

variable (c : Ctx) (groups : List (List StoredMessage)) (post preceding : List StoredMessage) (stubBefore : Option ℕ)

/-- the tokens the drop loop compares after `start` drops -/
def Ctx.droppedTokens (start : ℕ) : ℕ :=
  (c.render (groups.drop start) post groups.length (preceding ++ (groups.take start).flatten) stubBefore).tokens

/-- **Where the drop loop stops**: it dropped all it may, or it is within the lower budget and the turn limit. -/
theorem dropTurns_spec (left start tokens : ℕ) :
    let s := c.dropTurns groups post preceding stubBefore left start tokens
    s = start + left ∨
      (start ≤ s ∧ s ≤ start + left ∧
        (if s = start then tokens else c.droppedTokens groups post preceding stubBefore s) ≤ c.cfg.dropTo ∧
        groups.length - s ≤ c.cfg.contextTrimTargetTurns) := by
  induction left generalizing start tokens with
  | zero => exact Or.inl rfl
  | succ left ih =>
    by_cases hc : c.cfg.dropTo < tokens ∨ c.cfg.contextTrimTargetTurns < groups.length - start
    · have hstep : c.dropTurns groups post preceding stubBefore (left + 1) start tokens =
          c.dropTurns groups post preceding stubBefore left (start + 1)
            (c.droppedTokens groups post preceding stubBefore (start + 1)) := if_pos hc
      have hih := ih (start + 1) (c.droppedTokens groups post preceding stubBefore (start + 1))
      simp only [hstep]
      generalize c.dropTurns groups post preceding stubBefore left (start + 1)
        (c.droppedTokens groups post preceding stubBefore (start + 1)) = s at hih ⊢
      rcases hih with h | ⟨h1, h2, h3, h4⟩
      · left; omega
      · refine Or.inr ⟨by omega, by omega, ?_, h4⟩
        rw [if_neg (by omega)]
        by_cases hs : s = start + 1
        · rw [if_pos hs] at h3; rwa [hs]
        · rwa [if_neg hs] at h3
    · have hstep : c.dropTurns groups post preceding stubBefore (left + 1) start tokens = start := if_neg hc
      simp only [hstep]
      exact Or.inr ⟨le_rfl, by omega, by rw [if_pos trivial]; omega, by omega⟩

theorem dropTo_le : c.cfg.dropTo ≤ c.cfg.coldStartHistoryBudgetTokens := by unfold Settings.dropTo; omega

/-- **Where the rebuild ends.** One turn is left, or the widest window of the turns that are left is not too long. -/
theorem start_settled :
    let s := c.start groups post preceding stubBefore
    s ≤ groups.length - 1 ∧ ((groups.drop s).length ≤ 1 ∨
      ¬ c.tooLong (groups.drop s) (c.fitFrom groups post preceding stubBefore s)) := by
  unfold Ctx.start
  simp only
  split_ifs with hlong
  · rcases dropTurns_spec c groups post preceding stubBefore (groups.length - 1) 0
      (c.fitFrom groups post preceding stubBefore 0).tokens with h | ⟨h1, h2, h3, h4⟩
    · rw [h]
      exact ⟨by omega, Or.inl (by rw [List.length_drop]; omega)⟩
    · generalize c.dropTurns groups post preceding stubBefore (groups.length - 1) 0
        (c.fitFrom groups post preceding stubBefore 0).tokens = s at h1 h2 h3 h4
      have hb := dropTo_le c
      refine ⟨by omega, Or.inr ?_⟩
      rintro (ht | ht)
      · split_ifs at h3 with h0
        · subst h0
          rcases hlong with hl | hl <;> omega
        · -- the loop's last render had no window either
          have hsame : c.droppedTokens groups post preceding stubBefore s =
              (c.render (groups.drop s) post (groups.drop s).length (preceding ++ (groups.take s).flatten)
                stubBefore).tokens := by
            unfold Ctx.droppedTokens
            rw [render_all_old c (groups.drop s) post _ stubBefore (n := groups.length)
              (by rw [List.length_drop]; omega) le_rfl]
          rcases fitVerbatim_over c (groups.drop s) post (preceding ++ (groups.take s).flatten) stubBefore
            (min c.cfg.coldStartVerbatimTurns (groups.drop s).length) with h | h
          · exact absurd ht (not_lt.2 h)
          · unfold Ctx.fitFrom at ht
            rw [h, ← hsame] at ht
            omega
      · rw [List.length_drop] at ht
        omega
  · exact ⟨Nat.zero_le _, Or.inr (by simpa using hlong)⟩

/-- nothing is dropped from turns that are within budget, or from one turn -/
theorem start_eq_zero (h : groups.length ≤ 1 ∨ ¬ c.tooLong groups (c.fitFrom groups post preceding stubBefore 0)) :
    c.start groups post preceding stubBefore = 0 := by
  unfold Ctx.start
  simp only
  split_ifs with hlong
  · rcases h with h | h
    · have h0 : groups.length - 1 = 0 := by omega
      rw [h0]; rfl
    · exact absurd hlong h
  · rfl

end

/-! ## Results -/

section

variable (c : Ctx)

/-- the search of the next turn, on the turns that the drop left -/
theorem fitFrom_append (groups : List (List StoredMessage)) {post more : List StoredMessage}
    (preceding : List StoredMessage) (stubBefore : Option ℕ) {s : ℕ} (h : Outside (groups.drop s) (post ++ more)) :
    (c.fitFrom (groups.drop s) (post ++ more) (preceding ++ (groups.take s).flatten) stubBefore 0).tokens =
        (c.fitFrom groups post preceding stubBefore s).tokens ∧
      (c.fitFrom groups post preceding stubBefore s).messages <+:
        (c.fitFrom (groups.drop s) (post ++ more) (preceding ++ (groups.take s).flatten) stubBefore 0).messages := by
  have hf := fitVerbatim_append c (groups.drop s) post more (preceding ++ (groups.take s).flatten) stubBefore h
    (min c.cfg.coldStartVerbatimTurns (groups.drop s).length)
  unfold Ctx.fitFrom
  simpa using hf

/-- rows of a list with distinct seqs, apart from the turns at its start -/
theorem outside_of_nodup {kept : List (List StoredMessage)} {rows : List StoredMessage}
    (h : ((kept.flatten ++ rows).map StoredMessage.seq).Nodup) : Outside kept rows := by
  rw [List.map_append, List.nodup_append] at h
  intro r hr
  refine groupOf_eq_none fun x hx heq => ?_
  exact h.2.2 _ (List.mem_map_of_mem hx) _ (List.mem_map_of_mem hr) heq

/-- the epoch of the grown history is the epoch of this one -/
theorem epoch_grown (dropped kept further : List StoredMessage) {current current' : StoredMessage}
    (hcur : current.direction = .inbound)
    (hlater : ∀ i, 0 < i → opensEpoch c.env c.cfg (current :: (further ++ [current'])) i = false)
    (hdrop : dropped = [] ∨ ((kept ++ [current]).head?.any (·.direction = .inbound) = true ∧
      dropped.length < (findEpoch c.env c.cfg (dropped ++ kept) current).2)) :
    (findEpoch c.env c.cfg (dropped ++ kept) current).2 =
        dropped.length + (findEpoch c.env c.cfg (kept ++ current :: further) current').2 ∧
      (findEpoch c.env c.cfg (kept ++ current :: further) current').1.key =
        (findEpoch c.env c.cfg (dropped ++ kept) current).1.key := by
  have hseq : kept ++ current :: further ++ [current'] = kept ++ [current] ++ (further ++ [current']) := by simp
  simp only [findEpoch, hseq, List.append_assoc dropped] at hdrop ⊢
  have hb := boundary_append c.env c.cfg hcur hlater hdrop
  refine ⟨hb, ?_⟩
  have hlt := boundary_lt c.env c.cfg (dropped ++ (kept ++ [current])) (by simp)
  rw [hb, List.length_append] at hlt
  have h1 : (dropped ++ (kept ++ [current]))[dropped.length +
      boundary c.env c.cfg (kept ++ [current] ++ (further ++ [current']))]? =
      (kept ++ [current])[boundary c.env c.cfg (kept ++ [current] ++ (further ++ [current']))]? := by
    rw [List.getElem?_append_right (by omega), Nat.add_sub_cancel_left]
  rw [hb, h1, List.getElem?_append_left (by omega)]

/-- the turn that a later one answers, with no cold gap since: the later turn loads the rows the rebuild left -/
theorem rebuild_grows (rows further preceding : List StoredMessage) (current current' : StoredMessage)
    (stubBefore : Option ℕ) (hcur : current.direction = .inbound)
    (hseq : ((rows ++ current :: (further ++ [current'])).map StoredMessage.seq).Pairwise (· < ·))
    (hlater : ∀ i, 0 < i → opensEpoch c.env c.cfg (current :: (further ++ [current'])) i = false) :
    let v := c.buildHistoryView rows (some current) true preceding stubBefore
    ∃ kept, rows = v.droppedRows ++ kept ∧
      let w := c.buildHistoryView (kept ++ current :: further) (some current') true (preceding ++ v.droppedRows) stubBefore
      w.droppedRows = [] ∧ w.epoch.key = v.epoch.key ∧ v.messages <+: w.messages := by
  by_cases h0 : (findEpoch c.env c.cfg rows current).2 = 0
  · -- the whole window is one epoch, for this turn and the next
    obtain ⟨hb, hkey⟩ := epoch_grown c [] rows further hcur hlater (Or.inl rfl)
    simp only [List.nil_append, List.length_nil, Nat.zero_add] at hb hkey
    have h0' : (findEpoch c.env c.cfg (rows ++ current :: further) current').2 = 0 := hb ▸ h0
    cases stubBefore with
    | none =>
      rw [buildHistoryView_plain c rows current preceding none (Or.inr ⟨h0, rfl⟩)]
      refine ⟨rows, rfl, ?_⟩
      simp only [List.append_nil]
      rw [buildHistoryView_plain c _ current' preceding none (Or.inr ⟨h0', rfl⟩), convert_append]
      exact ⟨rfl, hkey, List.prefix_append _ _⟩
    | some q =>
      rw [buildHistoryView_stubbed c rows current preceding (some q) h0 (by simp)]
      refine ⟨rows, rfl, ?_⟩
      simp only [List.append_nil]
      rw [buildHistoryView_stubbed c _ current' preceding (some q) h0' (by simp)]
      exact ⟨rfl, hkey, (render_append c [] rows (current :: further) preceding (some q) 0 fun r _ => rfl).2⟩
  · -- the inherited turns `groups[start:]` are what the next turn inherits
    rw [buildHistoryView_rebuilt c rows current preceding stubBefore h0]
    generalize hbd : (findEpoch c.env c.cfg rows current).2 = b at h0 ⊢
    have hble : b ≤ rows.length := by
      have hlt := boundary_lt c.env c.cfg (rows ++ [current]) (by simp)
      rw [List.length_append, List.length_singleton] at hlt
      exact hbd ▸ Nat.lt_succ_iff.1 hlt
    have hne : groupTurns (rows.take b) ≠ [] := groupTurns_ne_nil (by
      intro h
      have hl := congrArg List.length h
      rw [List.length_take, List.length_nil] at hl
      omega)
    obtain ⟨hs, hsettled⟩ := start_settled c (groupTurns (rows.take b)) (rows.drop b) preceding stubBefore
    generalize c.start (groupTurns (rows.take b)) (rows.drop b) preceding stubBefore = s at hs hsettled ⊢
    have hflat : ((groupTurns (rows.take b)).take s).flatten ++ ((groupTurns (rows.take b)).drop s).flatten =
        rows.take b := by
      rw [← List.flatten_append, List.take_append_drop, flatten_groupTurns]
    have hgroups := groupTurns_drop (rows.take b) s
    have hturns := isTurns_groupTurns (rows.take b)
    generalize groupTurns (rows.take b) = groups at hne hs hsettled hflat hgroups hturns ⊢
    have hrows : rows = (groups.take s).flatten ++ ((groups.drop s).flatten ++ rows.drop b) := by
      rw [← List.append_assoc, hflat, List.take_append_drop]
    obtain ⟨g, gs, hg⟩ := List.exists_cons_of_ne_nil (l := groups.drop s) (by
      have := List.length_pos_iff.2 hne
      intro h
      rw [List.drop_eq_nil_iff] at h; omega)
    have hgne : g ≠ [] := hturns.nonempty g (List.mem_of_mem_drop (hg ▸ List.mem_cons_self))
    have hpos : 0 < (groups.drop s).flatten.length := by
      rw [hg, List.flatten_cons, List.length_append]
      have := List.length_pos_iff.2 hgne; omega
    have hlen : b = ((groups.take s).flatten).length + (groups.drop s).flatten.length := by
      have := congrArg List.length hflat
      simp only [List.length_append, List.length_take] at this; omega
    refine ⟨(groups.drop s).flatten ++ rows.drop b, hrows, ?_⟩
    obtain ⟨hb, hkey⟩ := epoch_grown c (groups.take s).flatten ((groups.drop s).flatten ++ rows.drop b) further hcur
      hlater (by
        rcases Nat.eq_zero_or_pos s with rfl | hs0
        · exact Or.inl (by simp)
        · refine Or.inr ⟨?_, by rw [← hrows, hbd]; omega⟩
          have hgt : g ∈ groups.tail := by
            rw [← List.drop_one]
            exact List.mem_of_mem_drop (i := s - 1) (by rw [List.drop_drop, show 1 + (s - 1) = s by omega, hg]; simp)
          have := hturns.inbound g hgt
          obtain ⟨r, g, rfl⟩ := List.exists_cons_of_ne_nil hgne
          simpa [hg] using this)
    rw [← hrows] at hkey
    replace hb : (groups.drop s).flatten.length =
        (findEpoch c.env c.cfg ((groups.drop s).flatten ++ rows.drop b ++ current :: further) current').2 := by
      rw [← hrows, hbd] at hb; omega
    have hb0 : (findEpoch c.env c.cfg ((groups.drop s).flatten ++ rows.drop b ++ current :: further) current').2 ≠ 0 := by
      omega
    have htake : ((groups.drop s).flatten ++ rows.drop b ++ current :: further).take
        (groups.drop s).flatten.length = (groups.drop s).flatten := by
      rw [List.append_assoc, List.take_left]
    have hdrop : ((groups.drop s).flatten ++ rows.drop b ++ current :: further).drop
        (groups.drop s).flatten.length = rows.drop b ++ current :: further := by
      rw [List.append_assoc, List.drop_left]
    have hout : Outside (groups.drop s) (rows.drop b ++ current :: further) := outside_of_nodup (by
      have hnd : ((rows ++ current :: (further ++ [current'])).map StoredMessage.seq).Nodup := hseq.imp ne_of_lt
      refine hnd.sublist (List.Sublist.map _ ?_)
      conv_rhs => rw [hrows]
      rw [← List.append_assoc]
      simp only [List.append_assoc]
      refine List.Sublist.trans ?_ (List.sublist_append_right _ _)
      simp)
    have hfit := fitFrom_append c groups preceding stubBefore hout
    have hstart : c.start (groups.drop s) (rows.drop b ++ current :: further) (preceding ++ (groups.take s).flatten)
        stubBefore = 0 := start_eq_zero c _ _ _ _ (hsettled.imp_right fun h => by
      unfold Ctx.tooLong at h ⊢
      rwa [hfit.1])
    simp only
    rw [buildHistoryView_rebuilt c _ current' _ stubBefore hb0, ← hb, htake, hdrop, hgroups, hstart]
    exact ⟨by simp, hkey, hfit.2⟩

/-- a warm row after the answered one is warm on its own -/
theorem later_of_warm {rows further : List StoredMessage} {current current' : StoredMessage}
    (hcur : current.direction = .inbound)
    (hwarm : ∀ i, rows.length < i → opensEpoch c.env c.cfg (rows ++ current :: (further ++ [current'])) i = false) :
    ∀ i, 0 < i → opensEpoch c.env c.cfg (current :: (further ++ [current'])) i = false := by
  intro i hi
  rw [← opensEpoch_append_right c.env c.cfg (a := rows) (r := current) rfl hcur hi]
  exact hwarm _ (by omega)

/-- **The rebuild is a fixed point.** The next turn of the epoch, on the rows the rebuild left, the row it answered and
any rows since, drops nothing, reports the same epoch, and sends a history that has this one as a prefix. -/
theorem rebuild_fixed_point (rows further preceding : List StoredMessage) (current current' : StoredMessage)
    (stubBefore : Option ℕ) (hcur : current.direction = .inbound)
    (hseq : ((rows ++ current :: (further ++ [current'])).map StoredMessage.seq).Pairwise (· < ·))
    (hwarm : ∀ i, rows.length < i → opensEpoch c.env c.cfg (rows ++ current :: (further ++ [current'])) i = false) :
    let v := c.buildHistoryView rows (some current) true preceding stubBefore
    ∃ kept, rows = v.droppedRows ++ kept ∧
      let w := c.buildHistoryView (kept ++ current :: further) (some current') true (preceding ++ v.droppedRows) stubBefore
      w.droppedRows = [] ∧ w.epoch.key = v.epoch.key ∧ v.messages <+: w.messages :=
  rebuild_grows c rows further preceding current current' stubBefore hcur hseq (later_of_warm c hcur hwarm)

end

/-- two days of a conversation -/
def twoDaysCtx : Ctx where
  env := sampleEnv
    [("2026-09-01T09:00:00+00:00", 1788253200000000, "Tuesday, 2026-09-01 09:00 AM"),
      ("2026-09-01T09:01:00+00:00", 1788253260000000, "Tuesday, 2026-09-01 09:01 AM"),
      ("2026-09-03T09:00:00+00:00", 1788426000000000, "Thursday, 2026-09-03 09:00 AM"),
      ("2026-09-03T09:01:00+00:00", 1788426060000000, "Thursday, 2026-09-03 09:01 AM"),
      ("2026-09-03T09:02:00+00:00", 1788426120000000, "Thursday, 2026-09-03 09:02 AM")] []
  cfg := Settings.default
  toolsByName := []
  tzName := []

/-- the rows of the first day -/
def firstDay : List StoredMessage :=
  [⟨.inbound, "Hi".toList, [], [], [], "2026-09-01T09:00:00+00:00".toList, 1⟩,
    ⟨.outbound, "Hello".toList, [], [], [], "2026-09-01T09:01:00+00:00".toList, 2⟩]

/-- the first message of the second day -/
def secondDay : StoredMessage := ⟨.inbound, "Back".toList, [], [], [], "2026-09-03T09:00:00+00:00".toList, 3⟩

def secondDayReply : StoredMessage := ⟨.outbound, "Ok".toList, [], [], [], "2026-09-03T09:01:00+00:00".toList, 4⟩

def secondDayNext : StoredMessage := ⟨.inbound, "Thanks".toList, [], [], [], "2026-09-03T09:02:00+00:00".toList, 5⟩

theorem rebuild_fixed_point_two_days :
    let v := twoDaysCtx.buildHistoryView firstDay (some secondDay) true [] none
    ∃ kept, firstDay = v.droppedRows ++ kept ∧
      let w := twoDaysCtx.buildHistoryView (kept ++ secondDay :: [secondDayReply]) (some secondDayNext) true
        ([] ++ v.droppedRows) none
      w.droppedRows = [] ∧ w.epoch.key = v.epoch.key ∧ v.messages <+: w.messages :=
  rebuild_fixed_point twoDaysCtx firstDay [secondDayReply] [] secondDay secondDayNext none rfl (by decide) fun i hi => by
    rcases Nat.lt_or_ge i 5 with h | h
    · obtain rfl | rfl : i = 3 ∨ i = 4 := by simp [firstDay] at hi; omega
      · decide
      · decide
    · exact opensEpoch_of_length_le _ _ h

end Clawbolt.History
