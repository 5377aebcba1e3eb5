/-
What the usage counters count.

- `usage_counted`: when every increment of a tracking transaction finds the row of its period, the counters of every period
  are what was tracked in it; and the model is called for an admin, or for a user whose counters were below the limits of the
  plan when the turn was checked;
- `uncounted_and_unlimited`: the first turn of a period is not counted, and an admin has no limit.
-/
import Mathlib.Tactic
import Clawbolt.Core.Runs
import Clawbolt.Billing.Quota

namespace Clawbolt.Billing

open Text (Str)
open Runs

/-- an increment finds the row of its period -/
def Found (s : Sys) : Op → Prop
  | .stmt t period =>
    match s.phase t with
    | .tracking tx => tx.todo.head? = none ∨ tx.todo.head? = some .ensure ∨ tx.finds s.rows period = true
    | _ => True
  | _ => True

instance (s : Sys) : (op : Op) → Decidable (Found s op)
  | .stmt t period => by
    unfold Found
    dsimp only
    split <;> infer_instance
  | .start .. | .checkMessages .. | .checkTokens .. | .checkCap .. | .respond .. | .heartbeat .. | .commit .. =>
    inferInstanceAs (Decidable True)

/-! ## The counters -/

section

variable {c : Config} {s : Sys} {t : ℕ} {tx : Tracking} {ph : Phase}

/-- a row holds what was tracked; without a row nothing was -/
def Counts (s : Sys) (userId : Str) (period : ℕ) : Option UsageQuota → Prop
  | none => s.messages userId period = 0 ∧ s.tokens userId period = 0
  | some q => q.messagesUsed = s.messages userId period ∧ q.tokensUsed = s.tokens userId period

/-- a row that a transaction inserted is its own, and its increments found rows -/
structure Sound (s : Sys) (tx : Tracking) : Prop where
  inserted : ∀ p, tx.inserted = some p → s.rows tx.userId p = none ∧ (tx.userId, p) ∈ s.inserting
  messages : ∀ p found, tx.messages = some (p, found) → found = true ∧ tx.finds s.rows p = true
  tokens : ∀ p found, tx.tokens = some (p, found) → found = true ∧ tx.finds s.rows p = true
  ensure : tx.todo.head? = some .ensure → tx.inserted = none
  once : .ensure ∉ tx.todo.tail

structure Inv (s : Sys) : Prop where
  rows : ∀ userId period, Counts s userId period (s.rows userId period)
  sound : ∀ t tx, s.phase t = .tracking tx → Sound s tx
  apart : ∀ t t' tx tx' p, s.phase t = .tracking tx → s.phase t' = .tracking tx' → tx.userId = tx'.userId →
    tx.inserted = some p → tx'.inserted = some p → t = t'

theorem inv_init : Inv Sys.init := by
  refine ⟨fun _ _ => ⟨rfl, rfl⟩, fun t tx h => ?_, fun t _ tx _ _ h => ?_⟩ <;> cases h

theorem phase_goto {t' : ℕ} : (s.goto t ph).phase t' = if t' = t then ph else s.phase t' := by
  simp [Sys.goto, Function.update_apply]

/-- the transactions of another state with these rows and inserts are as sound -/
theorem Sound.congr {s' : Sys} (h : Sound s tx) (hrows : s'.rows = s.rows) (hins : s.inserting ⊆ s'.inserting) : Sound s' tx where
  inserted := fun p hp => by
    rw [hrows]
    exact ⟨(h.inserted p hp).1, hins (h.inserted p hp).2⟩
  messages := hrows ▸ h.messages
  tokens := hrows ▸ h.tokens
  ensure := h.ensure
  once := h.once

/-- a step of one task, which inserts no row -/
theorem inv_goto (h : Inv s) (hsound : ∀ tx, ph = .tracking tx → Sound s tx)
    (hinserted : ∀ tx p, ph = .tracking tx → tx.inserted = some p →
      ∃ tx', s.phase t = .tracking tx' ∧ tx'.userId = tx.userId ∧ tx'.inserted = some p) : Inv (s.goto t ph) := by
  refine ⟨h.rows, fun t' tx htx => ?_, fun t₁ t₂ tx₁ tx₂ p h₁ h₂ huser hp₁ hp₂ => ?_⟩
  · rw [phase_goto] at htx
    split_ifs at htx with ht
    · exact (hsound tx htx).congr rfl (List.Subset.refl _)
    · exact (h.sound t' tx htx).congr rfl (List.Subset.refl _)
  · -- the task had the row before
    have hbefore : ∀ {t' tx'}, (s.goto t ph).phase t' = .tracking tx' → tx'.inserted = some p →
        ∃ tx'', s.phase t' = .tracking tx'' ∧ tx''.userId = tx'.userId ∧ tx''.inserted = some p := by
      intro t' tx' htx hp
      rw [phase_goto] at htx
      split_ifs at htx with ht
      · rw [ht]
        exact hinserted tx' p htx hp
      · exact ⟨tx', htx, rfl, hp⟩
    obtain ⟨x₁, hx₁, hu₁, hi₁⟩ := hbefore h₁ hp₁
    obtain ⟨x₂, hx₂, hu₂, hi₂⟩ := hbefore h₂ hp₂
    exact h.apart t₁ t₂ x₁ x₂ p hx₁ hx₂ (hu₁.trans (huser.trans hu₂.symm)) hi₁ hi₂

/-- a step of a task that does not track -/
theorem inv_goto_idle (h : Inv s) (hph : ∀ tx, ph ≠ .tracking tx) : Inv (s.goto t ph) :=
  inv_goto h (fun tx htx => absurd htx (hph tx)) fun tx _ htx => absurd htx (hph tx)

/-- a transaction begins -/
theorem inv_goto_begin (h : Inv s) (userId : Str) (totalTokens : ℕ) {todo : List Stmt} (honce : .ensure ∉ todo.tail) :
    Inv (s.goto t (.tracking ⟨userId, totalTokens, todo, none, none, none⟩)) := by
  refine inv_goto h (fun tx htx => ?_) fun tx p htx hp => ?_
  · obtain rfl := Phase.tracking.inj htx
    exact ⟨nofun, nofun, nofun, fun _ => rfl, honce⟩
  · obtain rfl := Phase.tracking.inj htx
    cases hp

/-- a transaction goes on with the row it has -/
theorem inv_goto_tx (h : Inv s) (htx : s.phase t = .tracking tx) {tx' : Tracking} (hsound : Sound s tx')
    (huser : tx'.userId = tx.userId) (hinserted : tx'.inserted = tx.inserted) : Inv (s.goto t (.tracking tx')) := by
  refine inv_goto h (fun x hx => ?_) fun x p hx hp => ?_
  · obtain rfl := Phase.tracking.inj hx
    exact hsound
  · obtain rfl := Phase.tracking.inj hx
    exact ⟨tx, htx, huser.symm, hinserted ▸ hp⟩

/-- a row that is inserted is nobody else's -/
theorem inv_insert (h : Inv s) (htx : s.phase t = .tracking tx) {todo : List Stmt} (htodo : tx.todo = .ensure :: todo)
    {period : ℕ} (hrow : s.rows tx.userId period = none) (hfree : (tx.userId, period) ∉ s.inserting) :
    Inv { s.goto t (.tracking { tx with todo := todo, inserted := some period }) with
      inserting := (tx.userId, period) :: s.inserting } := by
  have hsound := h.sound t tx htx
  have hnone : tx.inserted = none := hsound.ensure (by rw [htodo]; rfl)
  have honce : .ensure ∉ todo := by
    have := hsound.once
    rwa [htodo] at this
  have hfinds : ∀ p, tx.finds s.rows p = true → (({ tx with todo := todo, inserted := some period } : Tracking)).finds s.rows p =
      true := by
    intro p hp
    simp only [Tracking.finds, hnone, Bool.or_eq_true, decide_eq_true_eq, reduceCtorEq, or_false] at hp ⊢
    exact Or.inl hp
  refine ⟨h.rows, fun t' tx' htx' => ?_, fun t₁ t₂ tx₁ tx₂ p h₁ h₂ huser hp₁ hp₂ => ?_⟩
  · dsimp only at htx'
    rw [phase_goto] at htx'
    split_ifs at htx' with ht
    · obtain rfl := Phase.tracking.inj htx'
      refine ⟨fun p hp => ?_, fun p found hp => ?_, fun p found hp => ?_, fun hhead => ?_, fun hmem => ?_⟩
      · obtain rfl := Option.some.inj hp
        exact ⟨hrow, List.mem_cons_self⟩
      · exact ⟨(hsound.messages p found hp).1, hfinds p (hsound.messages p found hp).2⟩
      · exact ⟨(hsound.tokens p found hp).1, hfinds p (hsound.tokens p found hp).2⟩
      · exact absurd (List.mem_of_mem_head? hhead) honce
      · exact absurd (List.mem_of_mem_tail hmem) honce
    · exact (h.sound t' tx' htx').congr rfl (List.subset_cons_self _ _)
  · -- the others hold inserts, and this key was free
    have hheld : ∀ {t' tx'}, t' ≠ t → s.phase t' = .tracking tx' → tx'.userId = tx.userId → tx'.inserted ≠ some period := by
      intro t' tx' _ htx' huser' hp
      have hmem := ((h.sound t' tx' htx').inserted period hp).2
      rw [huser'] at hmem
      exact hfree hmem
    dsimp only at h₁ h₂
    rw [phase_goto] at h₁ h₂
    split_ifs at h₁ with ht₁ <;> split_ifs at h₂ with ht₂
    · exact ht₁.trans ht₂.symm
    · obtain rfl := Phase.tracking.inj h₁
      obtain rfl := Option.some.inj hp₁
      exact absurd hp₂ (hheld ht₂ h₂ huser.symm)
    · obtain rfl := Phase.tracking.inj h₂
      obtain rfl := Option.some.inj hp₂
      exact absurd hp₁ (hheld ht₁ h₁ huser)
    · exact h.apart t₁ t₂ tx₁ tx₂ p h₁ h₂ huser hp₁ hp₂

theorem inv_stmt (h : Inv s) (htx : s.phase t = .tracking tx) {period : ℕ}
    (hfound : tx.todo.head? = none ∨ tx.todo.head? = some .ensure ∨ tx.finds s.rows period = true) :
    Inv (s.stmt t period tx) := by
  have hsound := h.sound t tx htx
  have hrest : ∀ {stmt todo}, tx.todo = stmt :: todo → .ensure ∉ todo := by
    intro stmt todo htodo
    have := hsound.once
    rwa [htodo] at this
  unfold Sys.stmt
  split
  · exact h
  · rename_i todo htodo
    have honce := hrest htodo
    split_ifs with hwaits hrow
    · exact h
    · exact inv_goto_tx h htx ⟨hsound.inserted, hsound.messages, hsound.tokens,
        fun hhead => absurd (List.mem_of_mem_head? hhead) honce, fun hmem => absurd (List.mem_of_mem_tail hmem) honce⟩ rfl rfl
    · have hnone : s.rows tx.userId period = none := by simpa using hrow
      refine inv_insert h htx htodo hnone fun hmem => hwaits ?_
      simp [Sys.waits, hnone, hmem]
  · rename_i todo htodo
    have honce := hrest htodo
    have hfinds : tx.finds s.rows period = true := by simpa [htodo] using hfound
    refine inv_goto_tx h htx ⟨hsound.inserted, fun p found hp => ?_, hsound.tokens,
      fun hhead => absurd (List.mem_of_mem_head? hhead) honce, fun hmem => absurd (List.mem_of_mem_tail hmem) honce⟩ rfl rfl
    obtain ⟨rfl, rfl⟩ := Prod.mk.inj (Option.some.inj hp)
    exact ⟨hfinds, hfinds⟩
  · rename_i todo htodo
    have honce := hrest htodo
    have hfinds : tx.finds s.rows period = true := by simpa [htodo] using hfound
    refine inv_goto_tx h htx ⟨hsound.inserted, hsound.messages, fun p found hp => ?_,
      fun hhead => absurd (List.mem_of_mem_head? hhead) honce, fun hmem => absurd (List.mem_of_mem_tail hmem) honce⟩ rfl rfl
    obtain ⟨rfl, rfl⟩ := Prod.mk.inj (Option.some.inj hp)
    exact ⟨hfinds, hfinds⟩

theorem apply_of_ne {rows : Rows} {userId : Str} {period : ℕ} (h : userId ≠ tx.userId) :
    tx.apply c rows userId period = rows userId period := if_neg h

theorem apply_none {rows : Rows} {period : ℕ} (hins : tx.inserted ≠ some period) (hrow : rows tx.userId period = none) :
    tx.apply c rows tx.userId period = none := by
  rw [Tracking.apply, if_pos rfl, if_neg hins, hrow]
  rfl

/-- rows stay -/
theorem apply_isSome {rows : Rows} {userId : Str} {period : ℕ} (h : (rows userId period).isSome = true) :
    (tx.apply c rows userId period).isSome = true := by
  unfold Tracking.apply
  by_cases huser : userId = tx.userId
  · rw [if_pos huser, Option.isSome_map]
    by_cases hins : tx.inserted = some period
    · rw [if_pos hins]
      rfl
    · rw [if_neg hins]
      exact h
  · rw [if_neg huser]
    exact h

theorem messages_commit (userId : Str) (period : ℕ) :
    (s.commit c t tx).messages userId period =
      s.messages userId period + if tx.userId = userId ∧ tx.messages.map Prod.fst = some period then 1 else 0 := by
  simp only [Sys.messages, Sys.commit, List.countP_append, List.countP_singleton, decide_eq_true_eq]

theorem tokens_commit (userId : Str) (period : ℕ) :
    (s.commit c t tx).tokens userId period = s.tokens userId period +
      if tx.userId = userId ∧ tx.tokens.map Prod.fst = some period then tx.totalTokens else 0 := by
  simp only [Sys.tokens, Sys.commit, List.filter_append, List.map_append, List.sum_append]
  by_cases h : tx.userId = userId ∧ tx.tokens.map Prod.fst = some period
  · rw [if_pos h, List.filter_cons_of_pos (by simpa using h)]
    rfl
  · rw [if_neg h, List.filter_cons_of_neg (by simpa using h)]
    rfl

/-- an increment of a sound transaction is applied -/
theorem fst_eq_some {o : Option (ℕ × Bool)} (period : ℕ) (h : ∀ p found, o = some (p, found) → found = true) :
    o.map Prod.fst = some period ↔ o = some (period, true) := by
  constructor
  · intro ho
    obtain ⟨⟨p, found⟩, rfl, rfl⟩ := Option.map_eq_some_iff.1 ho
    rw [h p found rfl]
  · rintro rfl
    rfl

theorem inv_commit (h : Inv s) (htx : s.phase t = .tracking tx) : Inv (s.commit c t tx) := by
  have hsound := h.sound t tx htx
  have hother : ∀ t' tx', (s.commit c t tx).phase t' = .tracking tx' → t' ≠ t ∧ s.phase t' = .tracking tx' := by
    intro t' tx' htx'
    have hphase : (s.goto t .over).phase t' = .tracking tx' := htx'
    rw [phase_goto] at hphase
    split_ifs at hphase with ht
    exact ⟨ht, hphase⟩
  refine ⟨fun userId period => ?_, fun t' tx' htx' => ?_, fun t₁ t₂ tx₁ tx₂ p h₁ h₂ => ?_⟩
  · have hcounts := h.rows userId period
    show Counts _ userId period (tx.apply c s.rows userId period)
    unfold Tracking.apply
    by_cases huser : userId = tx.userId
    · subst huser
      rw [if_pos rfl]
      have hm := fst_eq_some period fun p found hp => (hsound.messages p found hp).1
      have hk := fst_eq_some period fun p found hp => (hsound.tokens p found hp).1
      by_cases hins : tx.inserted = some period
      · rw [if_pos hins]
        rw [(hsound.inserted period hins).1] at hcounts
        simp only [Option.map_some, Counts, messages_commit, tokens_commit, true_and, hm, hk, hcounts.1, hcounts.2, newQuotaFor]
      · rw [if_neg hins]
        cases hrow : s.rows tx.userId period with
        | none =>
          -- no update found a row
          have hmiss : tx.finds s.rows period ≠ true := by simp [Tracking.finds, hrow, hins]
          have hm' : tx.messages ≠ some (period, true) := fun hp => hmiss (hsound.messages period true hp).2
          have hk' : tx.tokens ≠ some (period, true) := fun hp => hmiss (hsound.tokens period true hp).2
          rw [hrow] at hcounts
          simp only [Option.map_none, Counts, messages_commit, tokens_commit, true_and, hm, hk, if_neg hm', if_neg hk',
            Nat.add_zero]
          exact hcounts
        | some q =>
          rw [hrow] at hcounts
          simp only [Option.map_some, Counts, messages_commit, tokens_commit, true_and, hm, hk, hcounts.1, hcounts.2]
    · rw [if_neg huser]
      have hne : tx.userId ≠ userId := fun h => huser h.symm
      cases hrow : s.rows userId period with
      | none =>
        rw [hrow] at hcounts
        simpa only [Counts, messages_commit, tokens_commit, hne, false_and, if_false, Nat.add_zero] using hcounts
      | some q =>
        rw [hrow] at hcounts
        simpa only [Counts, messages_commit, tokens_commit, hne, false_and, if_false, Nat.add_zero] using hcounts
  · obtain ⟨hne, htx'⟩ := hother t' tx' htx'
    have hsound' := h.sound t' tx' htx'
    have hapart : tx'.userId = tx.userId → ∀ p, tx'.inserted = some p → tx.inserted ≠ some p :=
      fun huser p hp hp' => hne (h.apart t' t tx' tx p htx' htx huser hp hp')
    have hfinds : ∀ p, tx'.finds s.rows p = true → tx'.finds (tx.apply c s.rows) p = true := by
      intro p hp
      simp only [Tracking.finds, Bool.or_eq_true, decide_eq_true_eq] at hp ⊢
      exact hp.imp_left apply_isSome
    refine ⟨fun p hp => ⟨?_, ?_⟩, fun p found hp => ?_, fun p found hp => ?_, hsound'.ensure, hsound'.once⟩
    · by_cases huser : tx'.userId = tx.userId
      · have hnone := (hsound'.inserted p hp).1
        rw [huser] at hnone ⊢
        exact apply_none (hapart huser p hp) hnone
      · exact (apply_of_ne huser).trans (hsound'.inserted p hp).1
    · refine List.mem_filter.2 ⟨(hsound'.inserted p hp).2, ?_⟩
      simp only [ne_eq, decide_eq_true_eq]
      intro hkey
      obtain ⟨q, hq, hpair⟩ := Option.map_eq_some_iff.1 hkey.symm
      obtain ⟨huser, rfl⟩ := Prod.mk.inj hpair
      exact hapart huser.symm q hp hq
    · exact ⟨(hsound'.messages p found hp).1, hfinds p (hsound'.messages p found hp).2⟩
    · exact ⟨(hsound'.tokens p found hp).1, hfinds p (hsound'.tokens p found hp).2⟩
  · obtain ⟨-, h₁⟩ := hother t₁ tx₁ h₁
    obtain ⟨-, h₂⟩ := hother t₂ tx₂ h₂
    exact h.apart t₁ t₂ tx₁ tx₂ p h₁ h₂

theorem inv_step (h : Inv s) {op : Op} (hfound : Found s op) : Inv (step c s op) := by
  cases op with
  | start t userId =>
    simp only [step]
    split
    · exact inv_goto_idle h (by simp)
    · exact h
  | checkMessages t period =>
    simp only [step]
    split
    · split_ifs
      · exact inv_goto_idle h (by simp)
      · exact h
      · exact inv_goto_idle h (by simp)
      · exact inv_goto_idle h (by simp)
    · exact h
  | checkTokens t period =>
    simp only [step]
    split
    · split_ifs
      · exact inv_goto_idle h (by simp)
      · exact h
      · exact inv_goto_idle h (by simp)
      · exact inv_goto_idle h (by simp)
    · exact h
  | checkCap t period =>
    simp only [step]
    split
    · rename_i userId _
      split_ifs
      · have hgoto : Inv (s.goto t (.running userId)) := inv_goto_idle h (by simp)
        exact ⟨hgoto.rows, fun t' tx htx => (hgoto.sound t' tx htx).congr rfl (List.Subset.refl _), hgoto.apart⟩
      · exact inv_goto_idle h (by simp)
    · exact h
  | respond t response =>
    simp only [step]
    split
    · split
      · refine inv_goto_begin h _ _ ?_
        simp only [turnStmts, List.tail_cons]
        split_ifs <;> simp
      · exact inv_goto_idle h (by simp)
    · exact h
  | heartbeat t userId totalTokens sentReply =>
    simp only [step]
    split
    · refine inv_goto_begin h _ _ ?_
      simp only [heartbeatStmts, List.tail_cons]
      split_ifs <;> simp
    · exact h
  | stmt t period =>
    simp only [step]
    split
    · rename_i tx htx
      simp only [Found, htx] at hfound
      exact inv_stmt h htx hfound
    · exact h
  | commit t =>
    simp only [step]
    split
    · rename_i tx htx
      split_ifs
      · exact inv_commit h htx
      · exact h
    · exact h

/-! ## The calls of the model -/

/-- the rows have the limits of the plan -/
def Limited (c : Config) (rows : Rows) : Prop :=
  ∀ userId period q, rows userId period = some q →
    q.messagesLimit = (c.limits userId).messagesPerMonth ∧ q.tokensLimit = (c.limits userId).tokensPerMonth

theorem limited_apply {rows : Rows} (h : Limited c rows) : Limited c (tx.apply c rows) := by
  intro userId period q hq
  by_cases huser : userId = tx.userId
  · rw [Tracking.apply, if_pos huser] at hq
    obtain ⟨q', hq', rfl⟩ := Option.map_eq_some_iff.1 hq
    by_cases hins : tx.inserted = some period
    · rw [if_pos hins] at hq'
      obtain rfl := Option.some.inj hq'
      exact ⟨rfl, rfl⟩
    · rw [if_neg hins] at hq'
      exact h userId period q' hq'
  · rw [apply_of_ne huser] at hq
    exact h userId period q hq

/-- a check reads the limits of the plan -/
theorem limits_currentQuota {rows : Rows} (h : Limited c rows) (userId : Str) (period : ℕ) :
    (currentQuota c rows userId period).messagesLimit = (c.limits userId).messagesPerMonth ∧
      (currentQuota c rows userId period).tokensLimit = (c.limits userId).tokensPerMonth := by
  unfold currentQuota
  cases hq : rows userId period with
  | none => exact ⟨rfl, rfl⟩
  | some q => exact h userId period q hq

/-- what a step of a task that is checked, or called, does -/
inductive Moved (c : Config) (s : Sys) (t : ℕ) : Op → Phase → Phase → Prop where
  | stays (op : Op) (ph : Phase) : Moved c s t op ph ph
  | bypassMessages {userId : Str} (period : ℕ) : c.isAdmin userId = true →
      Moved c s t (.checkMessages t period) (.checking userId) (.checkedMessages userId none)
  | messages {userId : Str} {period : ℕ} :
      (currentQuota c s.rows userId period).messagesUsed < (currentQuota c s.rows userId period).messagesLimit →
      Moved c s t (.checkMessages t period) (.checking userId)
        (.checkedMessages userId (some (period, currentQuota c s.rows userId period)))
  | bypassTokens {userId : Str} (held : Option (ℕ × UsageQuota)) (period : ℕ) : c.isAdmin userId = true →
      Moved c s t (.checkTokens t period) (.checkedMessages userId held) (.checkedTokens userId)
  | tokens {userId : Str} {held : Option (ℕ × UsageQuota)} {period : ℕ} :
      (tokenQuota c s.rows userId held period).tokensUsed < (tokenQuota c s.rows userId held period).tokensLimit →
      Moved c s t (.checkTokens t period) (.checkedMessages userId held) (.checkedTokens userId)
  | other {op : Op} {ph ph' : Phase} : (∀ userId held, ph' ≠ .checkedMessages userId held) →
      (∀ userId, ph' ≠ .checkedTokens userId) → Moved c s t op ph ph'

theorem moved_goto {op : Op} {t' : ℕ} (hmoved : Moved c s t op (s.phase t) ph) :
    Moved c s t' op (s.phase t') ((s.goto t ph).phase t') := by
  rw [phase_goto]
  split_ifs with ht
  · subst ht
    exact hmoved
  · exact .stays _ _

theorem moved_other {op : Op} {t' : ℕ} (h₁ : ∀ userId held, ph ≠ .checkedMessages userId held)
    (h₂ : ∀ userId, ph ≠ .checkedTokens userId) : Moved c s t' op (s.phase t') ((s.goto t ph).phase t') :=
  moved_goto (.other h₁ h₂)

theorem moved_step (c : Config) (s : Sys) (op : Op) (t : ℕ) : Moved c s t op (s.phase t) ((step c s op).phase t) := by
  cases op with
  | start t' userId =>
    simp only [step]
    split
    · exact moved_other (by simp) (by simp)
    · exact .stays _ _
  | checkMessages t' period =>
    simp only [step]
    split
    · rename_i userId hph
      split_ifs with hadmin hwaits hused
      · exact moved_goto (hph ▸ .bypassMessages period hadmin)
      · exact .stays _ _
      · exact moved_goto (hph ▸ .messages hused)
      · exact moved_other (by simp) (by simp)
    · exact .stays _ _
  | checkTokens t' period =>
    simp only [step]
    split
    · rename_i userId held hph
      split_ifs with hadmin hwaits hused
      · exact moved_goto (hph ▸ .bypassTokens held period hadmin)
      · exact .stays _ _
      · exact moved_goto (hph ▸ .tokens hused)
      · exact moved_other (by simp) (by simp)
    · exact .stays _ _
  | checkCap t' period =>
    simp only [step]
    split
    · split_ifs
      · exact moved_other (by simp) (by simp)
      · exact moved_other (by simp) (by simp)
    · exact .stays _ _
  | respond t' response =>
    simp only [step]
    split
    · split
      · exact moved_other (by simp) (by simp)
      · exact moved_other (by simp) (by simp)
    · exact .stays _ _
  | heartbeat t' userId totalTokens sentReply =>
    simp only [step]
    split
    · exact moved_other (by simp) (by simp)
    · exact .stays _ _
  | stmt t' period =>
    simp only [step]
    split
    · unfold Sys.stmt
      split
      · exact .stays _ _
      · split_ifs
        · exact .stays _ _
        · exact moved_other (by simp) (by simp)
        · exact moved_other (by simp) (by simp)
      · exact moved_other (by simp) (by simp)
      · exact moved_other (by simp) (by simp)
    · exact .stays _ _
  | commit t' =>
    simp only [step]
    split
    · split_ifs
      · exact moved_other (by simp) (by simp)
      · exact .stays _ _
    · exact .stays _ _

/-- a step writes rows when a transaction commits -/
theorem rows_step (c : Config) (s : Sys) (op : Op) :
    (step c s op).rows = s.rows ∨ ∃ tx : Tracking, (step c s op).rows = tx.apply c s.rows := by
  cases op with
  | commit t =>
    simp only [step]
    split
    · rename_i tx _
      split_ifs
      · exact Or.inr ⟨tx, rfl⟩
      · exact Or.inl rfl
    · exact Or.inl rfl
  | stmt t period =>
    refine Or.inl ?_
    simp only [step]
    split
    · unfold Sys.stmt
      split
      · rfl
      · split_ifs <;> rfl
      · rfl
      · rfl
    · rfl
  | checkMessages t period | checkTokens t period | checkCap t period =>
    refine Or.inl ?_
    simp only [step]
    split
    · split_ifs <;> rfl
    · rfl
  | respond t response =>
    refine Or.inl ?_
    simp only [step]
    split
    · split <;> rfl
    · rfl
  | start t userId | heartbeat t userId totalTokens sentReply =>
    refine Or.inl ?_
    simp only [step]
    split <;> rfl

/-- the model is called after the checks -/
theorem calls_step (c : Config) (s : Sys) (op : Op) (call : ℕ × Str) (h : call ∈ (step c s op).calls) :
    call ∈ s.calls ∨ s.phase call.1 = .checkedTokens call.2 := by
  cases op with
  | checkCap t period =>
    simp only [step] at h
    split at h
    · rename_i userId hph
      split_ifs at h
      · rcases List.mem_append.1 h with h | h
        · exact Or.inl h
        · rw [List.mem_singleton.1 h]
          exact Or.inr hph
      · exact Or.inl h
    · exact Or.inl h
  | stmt t period =>
    refine Or.inl ?_
    simp only [step] at h
    split at h
    · unfold Sys.stmt at h
      split at h
      · exact h
      · split_ifs at h <;> exact h
      · exact h
      · exact h
    · exact h
  | checkMessages t period | checkTokens t period | commit t =>
    refine Or.inl ?_
    simp only [step] at h
    split at h
    · split_ifs at h <;> exact h
    · exact h
  | respond t response =>
    refine Or.inl ?_
    simp only [step] at h
    split at h
    · split at h <;> exact h
    · exact h
  | start t userId | heartbeat t userId totalTokens sentReply =>
    refine Or.inl ?_
    simp only [step] at h
    split at h <;> exact h

/-- the counter of the messages was below the limit when the turn was checked -/
def BelowMessages (c : Config) (ops : List Op) (t : ℕ) (userId : Str) : Prop :=
  ∃ before period, before ++ [.checkMessages t period] <+: ops ∧
    (currentQuota c (run (step c) .init before).rows userId period).messagesUsed < (c.limits userId).messagesPerMonth

/-- the counter of the tokens was: the session of the check keeps what it read for the messages -/
def BelowTokens (c : Config) (ops : List Op) (t : ℕ) (userId : Str) : Prop :=
  ∃ before period, (before ++ [.checkMessages t period] <+: ops ∨ before ++ [.checkTokens t period] <+: ops) ∧
    (currentQuota c (run (step c) .init before).rows userId period).tokensUsed < (c.limits userId).tokensPerMonth

/-- the quota that a check holds is the one that it read -/
def Held (c : Config) (ops : List Op) (t : ℕ) (userId : Str) (held : Option (ℕ × UsageQuota)) : Prop :=
  ∀ period q, held = some (period, q) → ∃ before, before ++ [.checkMessages t period] <+: ops ∧
    q = currentQuota c (run (step c) .init before).rows userId period

structure Checked (c : Config) (ops : List Op) : Prop where
  limited : Limited c (run (step c) .init ops).rows
  held : ∀ t userId held, (run (step c) .init ops).phase t = .checkedMessages userId held →
    Held c ops t userId held ∧ (c.isAdmin userId = true ∨ BelowMessages c ops t userId)
  checked : ∀ t userId, (run (step c) .init ops).phase t = .checkedTokens userId →
    c.isAdmin userId = true ∨ BelowMessages c ops t userId ∧ BelowTokens c ops t userId
  calls : ∀ call ∈ (run (step c) .init ops).calls,
    c.isAdmin call.2 = true ∨ BelowMessages c ops call.1 call.2 ∧ BelowTokens c ops call.1 call.2

theorem BelowMessages.snoc {ops : List Op} {userId : Str} (h : BelowMessages c ops t userId) (op : Op) :
    BelowMessages c (ops ++ [op]) t userId := by
  obtain ⟨before, period, hpre, hbelow⟩ := h
  exact ⟨before, period, hpre.trans (List.prefix_append _ _), hbelow⟩

theorem BelowTokens.snoc {ops : List Op} {userId : Str} (h : BelowTokens c ops t userId) (op : Op) :
    BelowTokens c (ops ++ [op]) t userId := by
  obtain ⟨before, period, hpre, hbelow⟩ := h
  exact ⟨before, period, hpre.imp (·.trans (List.prefix_append _ _)) (·.trans (List.prefix_append _ _)), hbelow⟩

theorem Held.snoc {ops : List Op} {userId : Str} {held : Option (ℕ × UsageQuota)} (h : Held c ops t userId held) (op : Op) :
    Held c (ops ++ [op]) t userId held := by
  intro period q hq
  obtain ⟨before, hpre, heq⟩ := h period q hq
  exact ⟨before, hpre.trans (List.prefix_append _ _), heq⟩

/-- what the check for the tokens reads is what is stored, or was when the check for the messages read it -/
theorem belowTokens_of_read {ops : List Op} {userId : Str} {held : Option (ℕ × UsageQuota)} {period : ℕ}
    (h : Checked c ops) (hheld : Held c ops t userId held)
    (hused : (tokenQuota c (run (step c) .init ops).rows userId held period).tokensUsed <
      (tokenQuota c (run (step c) .init ops).rows userId held period).tokensLimit)
    (hlimited : ∀ before, before <+: ops → Limited c (run (step c) .init before).rows) :
    BelowTokens c (ops ++ [.checkTokens t period]) t userId := by
  have hnow : (currentQuota c (run (step c) .init ops).rows userId period).tokensUsed <
      (currentQuota c (run (step c) .init ops).rows userId period).tokensLimit →
      BelowTokens c (ops ++ [.checkTokens t period]) t userId := by
    intro hlt
    refine ⟨ops, period, Or.inr (List.prefix_refl _), ?_⟩
    rwa [(limits_currentQuota h.limited userId period).2] at hlt
  match held, hheld, hused with
  | none, _, hused => exact hnow hused
  | some (p, q), hheld, hused =>
    simp only [tokenQuota] at hused
    by_cases hp : p = period
    · rw [if_pos hp] at hused
      obtain ⟨before, hpre, rfl⟩ := hheld p q rfl
      have hbefore : before <+: ops := (List.prefix_append _ _).trans hpre
      rw [(limits_currentQuota (hlimited before hbefore) userId p).2] at hused
      exact ⟨before, p, Or.inl (hpre.trans (List.prefix_append _ _)), hused⟩
    · rw [if_neg hp] at hused
      exact hnow hused

theorem limited_run (c : Config) (ops : List Op) : Limited c (run (step c) .init ops).rows := by
  refine run_inv_all (I := fun s => Limited c s.rows) (fun s op h => ?_) Sys.init ops (fun _ _ _ hq => by cases hq)
  rcases rows_step c s op with hrows | ⟨tx, hrows⟩
  · exact hrows ▸ h
  · rw [hrows]
    exact limited_apply h

theorem checked_run (c : Config) (ops : List Op) : Checked c ops := by
  induction ops using List.reverseRecOn with
  | nil => exact ⟨limited_run c [], nofun, nofun, nofun⟩
  | append_singleton ops op ih =>
    have hmoved := moved_step c (run (step c) .init ops) op
    refine ⟨limited_run c _, fun t userId held hph => ?_, fun t userId hph => ?_, fun call hcall => ?_⟩
    · have ht := hmoved t
      rw [run_snoc] at hph
      rw [hph] at ht
      generalize hbefore : (run (step c) .init ops).phase t = ph at ht
      cases ht with
      | stays _ _ =>
        obtain ⟨hheld, hbelow⟩ := ih.held t userId held hbefore
        exact ⟨hheld.snoc op, hbelow.imp_right fun h => h.snoc op⟩
      | bypassMessages period hadmin => exact ⟨nofun, Or.inl hadmin⟩
      | @messages _ period hused =>
        refine ⟨fun p q hq => ?_, Or.inr ⟨ops, period, List.prefix_refl _, ?_⟩⟩
        · obtain ⟨rfl, rfl⟩ := Prod.mk.inj (Option.some.inj hq)
          exact ⟨ops, List.prefix_refl _, rfl⟩
        · rwa [(limits_currentQuota ih.limited userId period).1] at hused
      | other h₁ _ => exact absurd rfl (h₁ userId held)
    · have ht := hmoved t
      rw [run_snoc] at hph
      rw [hph] at ht
      generalize hbefore : (run (step c) .init ops).phase t = ph at ht
      cases ht with
      | stays _ _ => exact (ih.checked t userId hbefore).imp_right fun h => ⟨h.1.snoc op, h.2.snoc op⟩
      | bypassTokens held period hadmin => exact Or.inl hadmin
      | @tokens _ held period hused =>
        obtain ⟨hheld, hbelow⟩ := ih.held t userId held hbefore
        exact hbelow.imp_right fun h =>
          ⟨h.snoc _, belowTokens_of_read ih hheld hused fun before _ => limited_run c before⟩
      | other _ h₂ => exact absurd rfl (h₂ userId)
    · rw [run_snoc] at hcall
      rcases calls_step c _ op call hcall with hcall | hph
      · exact (ih.calls call hcall).imp_right fun h => ⟨h.1.snoc op, h.2.snoc op⟩
      · exact (ih.checked call.1 call.2 hph).imp_right fun h => ⟨h.1.snoc op, h.2.snoc op⟩

/-! ## The theorem -/

/-- **The quota counts every turn** whose increments find the row of their period; and the model is called for an admin, or
for a user whose counters were below the limits of the plan. -/
theorem usage_counted (c : Config) (ops : List Op) :
    let s := run (step c) Sys.init ops
    (Meets (step c) Found Sys.init ops → ∀ userId period,
      ((s.rows userId period).map UsageQuota.messagesUsed).getD 0 = s.messages userId period ∧
        ((s.rows userId period).map UsageQuota.tokensUsed).getD 0 = s.tokens userId period) ∧
    ∀ call ∈ s.calls, c.isAdmin call.2 = true ∨ BelowMessages c ops call.1 call.2 ∧ BelowTokens c ops call.1 call.2 := by
  intro s
  refine ⟨fun hfound userId period => ?_, (checked_run c ops).calls⟩
  have hinv : Inv (run (step c) Sys.init ops) := run_inv (I := Inv) (fun _ _ h hf => inv_step h hf) hfound inv_init
  have hcounts := hinv.rows userId period
  cases hrow : s.rows userId period with
  | none =>
    rw [hrow] at hcounts
    exact ⟨hcounts.1.symm, hcounts.2.symm⟩
  | some q =>
    rw [hrow] at hcounts
    exact hcounts

end

/-! ## Two months -/

/-- a user on the free plan, and an admin -/
def sampleConfig : Config :=
  ⟨[⟨"u1".toList, "user".toList, "free".toList, "active".toList⟩, ⟨"root".toList, "admin".toList, "free".toList, "active".toList⟩], 0⟩

def checks (t : ℕ) (userId : Str) (period : ℕ) : List Op :=
  [.start t userId, .checkMessages t period, .checkTokens t period, .checkCap t period]

/-- a heartbeat of the period, tracked -/
def heartbeatOps (t : ℕ) (userId : Str) (period : ℕ) : List Op :=
  [.heartbeat t userId 7 false, .stmt t period, .stmt t period, .commit t]

/-- a turn that starts in the first month and ends in the second, in which a heartbeat came first; and a turn of the first
month beside it -/
def overlapping : List Op :=
  heartbeatOps 0 "u1".toList 0 ++ checks 1 "u1".toList 0 ++ checks 2 "u1".toList 0 ++ heartbeatOps 3 "u1".toList 1 ++
    [.respond 1 (some 20), .respond 2 (some 30), .stmt 1 1, .stmt 2 0, .stmt 2 0, .commit 2, .stmt 1 1, .commit 1]

theorem usage_counted_overlapping :
    let s := run (step sampleConfig) Sys.init overlapping
    ((s.rows "u1".toList 0).map UsageQuota.tokensUsed).getD 0 = 37 ∧
      ((s.rows "u1".toList 1).map UsageQuota.tokensUsed).getD 0 = 27 := by
  intro s
  have hcounted := (usage_counted sampleConfig overlapping).1 (by decide +kernel)
  refine ⟨(hcounted "u1".toList 0).2.trans ?_, (hcounted "u1".toList 1).2.trans ?_⟩ <;> decide +kernel

def firstTurn : List Op :=
  checks 0 "u1".toList 0 ++ [.respond 0 (some 5), .stmt 0 0, .stmt 0 0, .commit 0]

/-- a turn of an admin that uses up the tokens of the plan -/
def usedUp : List Op :=
  heartbeatOps 0 "root".toList 0 ++ checks 1 "root".toList 0 ++ [.respond 1 (some 9999993), .stmt 1 0, .stmt 1 0, .commit 1]

/-- the first turn of a month leaves no row, so it is counted nowhere; and an admin whose tokens are used up is served -/
theorem uncounted_and_unlimited :
    ((run (step sampleConfig) Sys.init firstTurn).messages "u1".toList 0 = 1 ∧
      (run (step sampleConfig) Sys.init firstTurn).tokens "u1".toList 0 = 5 ∧
      (run (step sampleConfig) Sys.init firstTurn).rows "u1".toList 0 = none) ∧
    ((run (step sampleConfig) Sys.init usedUp).rows "root".toList 0).map UsageQuota.tokensUsed =
      some (sampleConfig.limits "root".toList).tokensPerMonth ∧
    (run (step sampleConfig) Sys.init (usedUp ++ checks 2 "root".toList 0)).phase 2 = .running "root".toList := by
  decide +kernel

end Clawbolt.Billing
