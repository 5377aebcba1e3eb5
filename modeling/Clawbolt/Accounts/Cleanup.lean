/-
Which accounts the cleanup of inactive users deletes.

A recorded login hides later chat messages from `_get_last_activity`, a message leaves a warning that was given before it
standing, and an account that nobody warned in time is never warned.

- `deleted_when_warned`: in every run in which, when the cleanup deletes an account, the last recorded login and the warning
  are no older than its messages, every deleted account is on the free plan, inactive for the whole window, and was warned
  and left alone for the grace period; and a free user who was never moved to the free plan too late, and is quiet for good,
  is warned and deleted in bounded time;
- `deleted_in_use`: a user who signed in once and chats every day is deleted; and one who comes to the free plan after the
  window is never warned.
-/
import Mathlib.Tactic
import Clawbolt.Core.Runs
import Clawbolt.Accounts.Inactivity

namespace Clawbolt.Accounts

open Text (Str)
open Runs

/-! ## What is claimed, and when -/

section

variable (c : Config) (id : Str)

/-- an operation that deletes the account finds it on the free plan, without activity in the window, and warned the grace
period before, with no activity since -/
def Proper (s : Sys) (op : Op) : Prop :=
  ∀ a ∈ s.accounts id, a.isActive = true → ((step c s op).accounts id).any Account.isActive = false →
    a.plan = free ∧ (∀ x ∈ s.logins id ++ a.inbound, x + c.deleteWindow < s.now op) ∧
      ∃ w ∈ s.warnings id, w + warningGrace ≤ s.now op ∧ ∀ x ∈ s.logins id ++ a.inbound, x ≤ w

/-- an account that the cleanup is about to delete has no message newer than its last login, or than the warning -/
def Undisturbed (s : Sys) (op : Op) : Prop :=
  op.action = .cleanup → ∀ a ∈ s.accounts id, a.cleanable c (s.now op) = true →
    (∀ t ∈ a.lastLoginAt, ∀ m ∈ a.inbound, m ≤ t) ∧ ∀ w ∈ a.inactivityWarnedAt, ∀ m ∈ a.inbound, m ≤ w

/-- both jobs run once a day -/
def Daily (s : Sys) (op : Op) : Prop := s.now op ≤ s.lastWarn + day ∧ s.now op ≤ s.lastCleanup + day

/-- the user does not come to the free plan when the time to be warned is over -/
def Timely (s : Sys) (op : Op) : Prop :=
  match op.action with
  | .setPlan id' plan => id' = id → plan = free → ∀ a ∈ s.accounts id,
      a.plan = free ∨ a.inactivityWarnedAt.isSome = true ∨ s.now op ≤ a.getLastActivity + c.warnWindow
  | _ => True

/-- the user does nothing, and a message to the user does not count as the user's activity -/
def Quiet (s : Sys) (op : Op) : Prop :=
  match op.action with
  | .login id' | .message id' | .setPlan id' _ => id' ≠ id
  | .reply id' => id' = id → ∀ a ∈ s.accounts id, a.lastLoginAt.isSome = true ∨ a.inbound ≠ []
  | _ => True

/-- when a user whose last activity was at `last` is deleted at the latest, from a state with this clock -/
def deadline (clock last : ℕ) : ℕ :=
  max (max clock (last + c.warnWindow + day) + warningGrace) (last + c.deleteWindow) + day

end

/-! ## What the rows say -/

section

variable {c : Config} {s : Sys} {id : Str} {a : Account}

/-- the login that is recorded is the last one, and the warning that is recorded came after it -/
structure Sound (s : Sys) (id : Str) (a : Account) : Prop where
  logins : ∀ x ∈ s.logins id, ∃ t ∈ a.lastLoginAt, x ≤ t
  login : ∀ t ∈ a.lastLoginAt, t ≤ s.clock
  warned : ∀ w ∈ a.inactivityWarnedAt, w ∈ s.warnings id ∧ ∀ t ∈ a.lastLoginAt, t ≤ w
  warning : ∀ w ∈ a.inactivityWarnedAt, w ≤ s.clock
  status : a.isActive = true → a.status = active

/-- the rows of a user -/
def SoundAt (s : Sys) (id : Str) : Prop :=
  match s.accounts id with
  | none => s.logins id = []
  | some a => Sound s id a

/-- a write to an account that records what it writes -/
theorem soundAt_alter {s' : Sys} {f : Account → Account} (h : SoundAt s id) (haccounts : s'.accounts id = (s.accounts id).map f)
    (hnone : s.accounts id = none → s'.logins id = s.logins id) (hsome : ∀ a, s.accounts id = some a → Sound s id a →
      Sound s' id (f a)) : SoundAt s' id := by
  unfold SoundAt at h ⊢
  rw [haccounts]
  cases ha : s.accounts id with
  | none =>
    rw [ha] at h
    exact (hnone ha).trans h
  | some a =>
    rw [ha] at h
    exact hsome a ha h

/-- nothing is written for the user but time, and warnings to others -/
theorem Sound.mono {s' : Sys} (h : Sound s id a) (hlogins : s'.logins id = s.logins id) (hclock : s.clock ≤ s'.clock)
    (hwarnings : s.warnings id ⊆ s'.warnings id) : Sound s' id a where
  logins := hlogins ▸ h.logins
  login := fun t ht => (h.login t ht).trans hclock
  warned := fun w hw => ⟨hwarnings (h.warned w hw).1, (h.warned w hw).2⟩
  warning := fun w hw => (h.warning w hw).trans hclock
  status := h.status

theorem soundAt_mono {s' : Sys} (h : SoundAt s id) (haccounts : s'.accounts id = s.accounts id)
    (hlogins : s'.logins id = s.logins id) (hclock : s.clock ≤ s'.clock) (hwarnings : s.warnings id ⊆ s'.warnings id) :
    SoundAt s' id :=
  soundAt_alter (f := fun a => a) h (by rw [haccounts, Option.map_id']) (fun _ => hlogins) fun _ _ h =>
    h.mono hlogins hclock hwarnings

/-- the accounts after a write to one of them -/
theorem accounts_alter {f : Account → Account} {id' : Str} :
    (s.alter id f).accounts id' = if id' = id then (s.accounts id').map f else s.accounts id' := by
  show Function.update s.accounts id ((s.accounts id).map f) id' = _
  rw [Function.update_apply]
  split_ifs with h
  · rw [h]
  · rfl

/-- a write to a user's messages or plan -/
theorem soundAt_alterOne {id' : Str} {f : Account → Account} (h : SoundAt s id')
    (hf : ∀ a, (f a).lastLoginAt = a.lastLoginAt ∧ (f a).inactivityWarnedAt = a.inactivityWarnedAt ∧
      (f a).isActive = a.isActive ∧ (f a).status = a.status) : SoundAt (s.alter id f) id' := by
  by_cases hid : id' = id
  · refine soundAt_alter h (by rw [accounts_alter, if_pos hid]) (fun _ => rfl) fun a _ ha => ?_
    obtain ⟨h1, h2, h3, h4⟩ := hf a
    exact ⟨h1 ▸ ha.logins, h1 ▸ ha.login, h1 ▸ h2 ▸ ha.warned, h2 ▸ ha.warning, h3 ▸ h4 ▸ ha.status⟩
  · exact soundAt_mono h (by rw [accounts_alter, if_neg hid]) rfl le_rfl (List.Subset.refl _)

theorem warn_eq (c : Config) (now : ℕ) (a : Account) :
    a.warn c now = a ∨ (a.warn c now = { a with inactivityWarnedAt := some now } ∧ a.inactivityWarnedAt = none) := by
  unfold Account.warn
  split_ifs with h1 h2 h3
  · exact Or.inl rfl
  · exact Or.inl rfl
  · exact Or.inr ⟨rfl, by simpa using h3⟩
  · exact Or.inl rfl

theorem soundAt_act (h : SoundAt s id) (action : Action) : SoundAt (act c s action) id := by
  cases action with
  | signUp id' =>
    simp only [act]
    split
    · exact h
    · rename_i hnone
      by_cases hid : id = id'
      · subst hid
        have hlogins : s.logins id = [] := by
          unfold SoundAt at h
          rwa [hnone] at h
        unfold SoundAt
        simp only [Function.update_self]
        exact ⟨by simp [hlogins], by simp [newAccount], by simp [newAccount], by simp [newAccount], fun _ => rfl⟩
      · exact soundAt_mono h (Function.update_of_ne hid _ _) rfl le_rfl (List.Subset.refl _)
  | login id' =>
    by_cases hid : id = id'
    · subst hid
      refine soundAt_alter (f := Account.login s.clock) h (by simp [act, accounts_alter]) (fun hnone => ?_) fun a ha hs => ?_
      · simp [act, hnone]
      · by_cases hactive : a.isActive = true
        · have hlogin : a.login s.clock = { a with lastLoginAt := some s.clock, inactivityWarnedAt := none } := if_pos hactive
          rw [hlogin]
          refine ⟨fun x hx => ⟨s.clock, rfl, ?_⟩, fun t ht => ?_, nofun, nofun, hs.status⟩
          · simp only [act, ha, Option.any_some, hactive, if_true, Function.update_self, List.mem_append,
              List.mem_singleton] at hx
            rcases hx with hx | rfl
            · obtain ⟨t, ht, hle⟩ := hs.logins x hx
              exact hle.trans (hs.login t ht)
            · exact le_rfl
          · obtain rfl := Option.some.inj ht
            exact le_rfl
        · have hlogin : a.login s.clock = a := if_neg hactive
          rw [hlogin]
          exact hs.mono (by simp [act, ha, hactive]) le_rfl (List.Subset.refl _)
    · refine soundAt_mono h ?_ (Function.update_of_ne hid _ _) le_rfl (List.Subset.refl _)
      simp [act, accounts_alter, hid]
  | message id' => exact soundAt_alterOne h fun a => ⟨rfl, rfl, rfl, rfl⟩
  | reply id' => exact soundAt_alterOne h fun a => ⟨rfl, rfl, rfl, rfl⟩
  | setPlan id' plan => exact soundAt_alterOne h fun a => ⟨rfl, rfl, rfl, rfl⟩
  | warn =>
    refine soundAt_alter (f := Account.warn c s.clock) h rfl (fun _ => rfl) fun a ha hs => ?_
    rcases warn_eq c s.clock a with heq | ⟨heq, hnone⟩
    · rw [heq]
      exact hs.mono rfl le_rfl (List.subset_append_left _ _)
    · have hwarned : Sys.warnedBy c s.clock a = true := by simp [Sys.warnedBy, hnone, heq]
      rw [heq]
      refine ⟨hs.logins, hs.login, fun w hw => ?_, fun w hw => ?_, hs.status⟩
      · obtain rfl := Option.some.inj hw
        refine ⟨?_, hs.login⟩
        simp [act, ha, hwarned]
      · obtain rfl := Option.some.inj hw
        exact le_rfl
  | cleanup =>
    refine soundAt_alter (f := Account.cleanup c s.clock) h rfl (fun _ => rfl) fun a _ hs => ?_
    unfold Account.cleanup
    split_ifs
    · exact ⟨hs.logins, hs.login, hs.warned, hs.warning, nofun⟩
    · exact hs.mono rfl le_rfl (List.Subset.refl _)

theorem soundAt_step (h : SoundAt s id) (op : Op) : SoundAt (step c s op) id := by
  have hclock : SoundAt { s with clock := s.now op } id :=
    soundAt_mono h rfl rfl (Nat.le_add_right _ _) (List.Subset.refl _)
  exact soundAt_act hclock op.action

/-! ## Deletions -/

theorem cleanable_iff {now : ℕ} : a.cleanable c now = true ↔
    (a.plan = free ∧ a.status = active ∧ a.isActive = true ∧ a.getLastActivity + c.deleteWindow < now) ∧
      ∃ w, a.inactivityWarnedAt = some w ∧ w + warningGrace ≤ now := by
  rw [Account.cleanable, Account.inactiveFree, Bool.and_eq_true, decide_eq_true_eq, Option.any_eq_true]
  simp only [decide_eq_true_eq]

/-- the last activity of an account whose last login, if there is one, is newer than its messages -/
theorem activity_le (hs : Sound s id a) (hmessages : ∀ t ∈ a.lastLoginAt, ∀ m ∈ a.inbound, m ≤ t) :
    ∀ x ∈ s.logins id ++ a.inbound, x ≤ a.getLastActivity := by
  intro x hx
  unfold Account.getLastActivity
  cases hlogin : a.lastLoginAt with
  | some t =>
    rcases List.mem_append.1 hx with hx | hx
    · obtain ⟨t', ht', hle⟩ := hs.logins x hx
      rw [hlogin] at ht'
      obtain rfl := Option.some.inj ht'
      exact hle
    · exact hmessages t hlogin x hx
  | none =>
    rcases List.mem_append.1 hx with hx | hx
    · obtain ⟨t', ht', -⟩ := hs.logins x hx
      rw [hlogin] at ht'
      cases ht'
    · cases hmax : a.inbound.max? with
      | some t => exact (List.max?_eq_some_iff.1 hmax).2 x hx
      | none =>
        rw [List.max?_eq_none_iff.1 hmax] at hx
        cases hx

/-- what an action makes of an account that is there -/
def write (c : Config) (now : ℕ) (id : Str) (a : Account) : Action → Account
  | .signUp _ => a
  | .login id' => if id = id' then a.login now else a
  | .message id' => if id = id' then { a with inbound := a.inbound ++ [now] } else a
  | .reply id' => if id = id' then { a with outbound := a.outbound ++ [now] } else a
  | .setPlan id' plan => if id = id' then { a with plan := plan } else a
  | .warn => a.warn c now
  | .cleanup => a.cleanup c now

theorem accounts_step (ha : s.accounts id = some a) (op : Op) :
    (step c s op).accounts id = some (write c (s.now op) id a op.action) := by
  have halter : ∀ id' f, (({ s with clock := s.now op } : Sys).alter id' f).accounts id =
      some (if id = id' then f a else a) := by
    intro id' f
    rw [accounts_alter]
    split_ifs <;> simp [ha]
  obtain ⟨after, action⟩ := op
  cases action with
  | signUp id' =>
    simp only [step, act, write]
    split
    · exact ha
    · rename_i hnone
      have hid : id ≠ id' := by
        rintro rfl
        simp [ha] at hnone
      rw [← ha]
      exact Function.update_of_ne hid _ _
  | login id' => exact halter id' _
  | message id' => exact halter id' _
  | reply id' => exact halter id' _
  | setPlan id' plan => exact halter id' _
  | warn => simp [step, act, write, Sys.alterAll, ha]
  | cleanup => simp [step, act, write, Sys.alterAll, ha]

theorem warn_isActive (c : Config) (now : ℕ) (a : Account) : (a.warn c now).isActive = a.isActive := by
  rcases warn_eq c now a with heq | ⟨heq, -⟩ <;> rw [heq]

/-- only the cleanup deletes -/
theorem cleanup_of_deleted {op : Op} (ha : s.accounts id = some a) (hactive : a.isActive = true)
    (hdeleted : ((step c s op).accounts id).any Account.isActive = false) :
    op.action = .cleanup ∧ a.cleanable c (s.now op) = true := by
  rw [accounts_step ha, Option.any_some] at hdeleted
  cases haction : op.action with
  | cleanup =>
    rw [haction] at hdeleted
    simp only [write, Account.cleanup] at hdeleted
    refine ⟨rfl, ?_⟩
    by_contra hne
    rw [if_neg hne, hactive] at hdeleted
    cases hdeleted
  | warn =>
    rw [haction] at hdeleted
    simp [write, warn_isActive, hactive] at hdeleted
  | signUp id' =>
    rw [haction] at hdeleted
    simp [write, hactive] at hdeleted
  | login id' | message id' | reply id' | setPlan id' plan =>
    rw [haction] at hdeleted
    simp only [write, Account.login] at hdeleted
    split_ifs at hdeleted <;> simp [hactive] at hdeleted

theorem proper_of_sound {op : Op} (h : SoundAt s id) (hcond : Undisturbed c id s op) : Proper c id s op := by
  intro a ha hactive hdeleted
  obtain ⟨haction, hclean⟩ := cleanup_of_deleted ha hactive hdeleted
  obtain ⟨hlogin, hwarned⟩ := hcond haction a ha hclean
  have hs : Sound s id a := by
    unfold SoundAt at h
    rwa [ha] at h
  obtain ⟨⟨hplan, -, -, hlast⟩, w, hw, hgrace⟩ := cleanable_iff.1 hclean
  obtain ⟨hmem, hafter⟩ := hs.warned w hw
  refine ⟨hplan, fun x hx => ?_, w, hmem, hgrace, fun x hx => ?_⟩
  · have := activity_le hs hlogin x hx
    omega
  · rcases List.mem_append.1 hx with hx | hx
    · obtain ⟨t, ht, hle⟩ := hs.logins x hx
      exact hle.trans (hafter t ht)
    · exact hwarned w hw x hx

/-! ## Warned in time -/

/-- a free user who is not warned was not due when the job ran last -/
structure Due (c : Config) (s : Sys) (id : Str) : Prop where
  unwarned : ∀ a, s.accounts id = some a → a.isActive = true → a.plan = free → a.inactivityWarnedAt = none →
    s.lastWarn ≤ a.getLastActivity + c.warnWindow
  warn : s.lastWarn ≤ s.clock
  cleanup : s.lastCleanup ≤ s.clock

theorem lastWarn_act (action : Action) : (act c s action).lastWarn = if action = .warn then s.clock else s.lastWarn := by
  cases action with
  | signUp id' =>
    simp only [act]
    split <;> rfl
  | _ => rfl

theorem lastCleanup_act (action : Action) :
    (act c s action).lastCleanup = if action = .cleanup then s.clock else s.lastCleanup := by
  cases action with
  | signUp id' =>
    simp only [act]
    split <;> rfl
  | _ => rfl

theorem clock_act (action : Action) : (act c s action).clock = s.clock := by
  cases action with
  | signUp id' =>
    simp only [act]
    split <;> rfl
  | _ => rfl

theorem clock_step (op : Op) : (step c s op).clock = s.now op := clock_act op.action

theorem lastWarn_step (op : Op) : (step c s op).lastWarn = if op.action = .warn then s.now op else s.lastWarn :=
  lastWarn_act op.action

theorem lastCleanup_step (op : Op) : (step c s op).lastCleanup = if op.action = .cleanup then s.now op else s.lastCleanup :=
  lastCleanup_act op.action

/-- a message that counts is the last activity -/
theorem le_getLastActivity_message {now : ℕ} (a : Account) :
    ({ a with inbound := a.inbound ++ [now] } : Account).getLastActivity = a.getLastActivity ∨
      now ≤ ({ a with inbound := a.inbound ++ [now] } : Account).getLastActivity := by
  unfold Account.getLastActivity
  cases a.lastLoginAt with
  | some t => exact Or.inl rfl
  | none =>
    right
    cases hmax : (a.inbound ++ [now]).max? with
    | some t => exact (List.max?_eq_some_iff.1 hmax).2 now (by simp)
    | none => simp at hmax

theorem le_getLastActivity_reply {now : ℕ} (a : Account) :
    ({ a with outbound := a.outbound ++ [now] } : Account).getLastActivity = a.getLastActivity ∨
      now ≤ ({ a with outbound := a.outbound ++ [now] } : Account).getLastActivity := by
  unfold Account.getLastActivity
  cases a.lastLoginAt with
  | some t => exact Or.inl rfl
  | none =>
    dsimp only
    cases a.inbound.max? with
    | some t => exact Or.inl rfl
    | none =>
      right
      cases hmax : (a.outbound ++ [now]).max? with
      | some t => exact (List.max?_eq_some_iff.1 hmax).2 now (by simp)
      | none => simp at hmax

/-- the job warns a user who is due, and not yet past the delete window -/
theorem warn_due (c : Config) {now : ℕ} (hactive : a.isActive = true) (hstatus : a.status = active) (hplan : a.plan = free)
    (hdue : a.getLastActivity + c.warnWindow < now) (hlate : now ≤ a.getLastActivity + c.deleteWindow) :
    (a.warn c now).inactivityWarnedAt ≠ none := by
  unfold Account.warn
  rw [if_pos (by simp [Account.inactiveFree, hplan, hstatus, hactive, hdue]), if_neg (by omega)]
  split_ifs with hwarned
  · exact Option.isSome_iff_ne_none.1 hwarned
  · simp

/-- an account that a step made or left -/
theorem accounts_step_cases (op : Op) {a' : Account} (ha' : (step c s op).accounts id = some a') :
    (∃ a, s.accounts id = some a ∧ a' = write c (s.now op) id a op.action) ∨ a' = newAccount (s.now op) := by
  cases ha : s.accounts id with
  | some a =>
    rw [accounts_step ha] at ha'
    exact Or.inl ⟨a, rfl, (Option.some.inj ha').symm⟩
  | none =>
    right
    obtain ⟨after, action⟩ := op
    have halter : ∀ id' f, (({ s with clock := s.now ⟨after, action⟩ } : Sys).alter id' f).accounts id ≠ some a' := by
      intro id' f
      rw [accounts_alter]
      split_ifs <;> simp [ha]
    cases action with
    | signUp id' =>
      simp only [step, act] at ha'
      split at ha'
      · simp [ha] at ha'
      · by_cases hid : id = id'
        · subst hid
          simpa using ha'.symm
        · simp [Function.update_of_ne hid, ha] at ha'
    | login id' => exact absurd ha' (halter id' _)
    | message id' => exact absurd ha' (halter id' _)
    | reply id' => exact absurd ha' (halter id' _)
    | setPlan id' plan => exact absurd ha' (halter id' _)
    | warn => simp [step, act, Sys.alterAll, ha] at ha'
    | cleanup => simp [step, act, Sys.alterAll, ha] at ha'

theorem due_step (hc : c.warnWindow + day ≤ c.deleteWindow) (hs : SoundAt s id) (h : Due c s id) {op : Op}
    (hdaily : Daily s op) (htimely : Timely c id s op) : Due c (step c s op) id := by
  have hclock : s.clock ≤ s.now op := Nat.le_add_right _ _
  have hnow : s.lastWarn ≤ s.now op := h.warn.trans hclock
  refine ⟨fun a' ha' hactive hplan hnone => ?_, ?_, ?_⟩
  · rw [lastWarn_step]
    rcases accounts_step_cases op ha' with ⟨a, ha, rfl⟩ | rfl
    · have hsound : Sound s id a := by
        unfold SoundAt at hs
        rwa [ha] at hs
      -- a step that moves the last activity moves it to now
      have hlate : ∀ {x : ℕ}, x = a.getLastActivity ∨ s.now op ≤ x → a.isActive = true → a.plan = free →
          a.inactivityWarnedAt = none → s.lastWarn ≤ x + c.warnWindow := by
        rintro x (rfl | hx) h1 h2 h3
        · exact h.unwarned a ha h1 h2 h3
        · omega
      cases haction : op.action with
      | signUp id' =>
        rw [haction] at hactive hplan hnone
        rw [if_neg (by simp)]
        exact hlate (Or.inl rfl) hactive hplan hnone
      | login id' =>
        rw [haction] at hactive hplan hnone
        rw [if_neg (by simp)]
        simp only [write, Account.login] at hactive hplan hnone ⊢
        split_ifs at hactive hplan hnone ⊢ with hid hon
        · simp only [Account.getLastActivity]
          omega
        · exact hlate (Or.inl rfl) hactive hplan hnone
        · exact hlate (Or.inl rfl) hactive hplan hnone
      | message id' =>
        rw [haction] at hactive hplan hnone
        rw [if_neg (by simp)]
        simp only [write] at hactive hplan hnone ⊢
        split_ifs at hactive hplan hnone ⊢ with hid
        · exact hlate (le_getLastActivity_message a) hactive hplan hnone
        · exact hlate (Or.inl rfl) hactive hplan hnone
      | reply id' =>
        rw [haction] at hactive hplan hnone
        rw [if_neg (by simp)]
        simp only [write] at hactive hplan hnone ⊢
        split_ifs at hactive hplan hnone ⊢ with hid
        · exact hlate (le_getLastActivity_reply a) hactive hplan hnone
        · exact hlate (Or.inl rfl) hactive hplan hnone
      | setPlan id' plan =>
        rw [haction] at hactive hplan hnone
        rw [if_neg (by simp)]
        simp only [write] at hactive hplan hnone ⊢
        split_ifs at hactive hplan hnone ⊢ with hid
        · subst hid
          simp only [Timely, haction] at htimely
          rcases htimely trivial hplan a ha with hold | hold | hold
          · exact h.unwarned a ha hactive hold hnone
          · rw [hnone] at hold
            cases hold
          · exact hnow.trans hold
        · exact hlate (Or.inl rfl) hactive hplan hnone
      | warn =>
        rw [haction] at hactive hplan hnone
        rw [if_pos rfl]
        simp only [write] at hactive hplan hnone ⊢
        rcases warn_eq c (s.now op) a with heq | ⟨heq, -⟩
        · by_contra hlt
          rw [heq] at hactive hplan hnone hlt
          have hlast := h.unwarned a ha hactive hplan hnone
          have hnotLate : s.now op ≤ a.getLastActivity + c.deleteWindow := by
            have := hdaily.1
            omega
          have hdue := warn_due c hactive (hsound.status hactive) hplan (by omega) hnotLate
          rw [heq] at hdue
          exact hdue hnone
        · rw [heq] at hnone
          cases hnone
      | cleanup =>
        rw [haction] at hactive hplan hnone
        rw [if_neg (by simp)]
        simp only [write, Account.cleanup] at hactive hplan hnone ⊢
        split_ifs at hactive hplan hnone ⊢
        · cases hactive
        · exact hlate (Or.inl rfl) hactive hplan hnone
    · have hge : s.now op ≤ (newAccount (s.now op)).getLastActivity := le_rfl
      split_ifs <;> omega
  · rw [lastWarn_step, clock_step]
    split_ifs
    · exact le_rfl
    · exact hnow
  · rw [lastCleanup_step, clock_step]
    split_ifs
    · exact le_rfl
    · exact h.cleanup.trans hclock

/-! ## Quiet for good -/

/-- both jobs ran during the last day -/
structure Fresh (s : Sys) : Prop where
  warn : s.clock ≤ s.lastWarn + day
  cleanup : s.clock ≤ s.lastCleanup + day

theorem fresh_step {op : Op} (hdaily : Daily s op) : Fresh (step c s op) := by
  obtain ⟨hw, hc⟩ := hdaily
  constructor
  · rw [clock_step, lastWarn_step]
    split_ifs <;> omega
  · rw [clock_step, lastCleanup_step]
    split_ifs <;> omega

/-- when the quiet user was warned at the latest -/
def warnedBy (c : Config) (clock last : ℕ) : ℕ := max clock (last + c.warnWindow + day)

/-- an account that is left alone: it waits for its warning, or for the end of the grace period, and then it is deleted -/
structure Waits (c : Config) (clock last : ℕ) (s : Sys) (id : Str) (a : Account) : Prop where
  plan : a.plan = free
  activity : a.getLastActivity = last
  warned : a.isActive = true → (a.inactivityWarnedAt = none ∧ s.lastWarn ≤ last + c.warnWindow) ∨
    ∃ w, a.inactivityWarnedAt = some w ∧ w ≤ warnedBy c clock last
  cleanup : a.isActive = true → s.lastCleanup ≤ max (warnedBy c clock last + warningGrace) (last + c.deleteWindow)
  deleted : a.isActive = false → s.warnings id ≠ []

theorem warnings_act (action : Action) : s.warnings id ⊆ (act c s action).warnings id := by
  cases action with
  | signUp id' =>
    simp only [act]
    split <;> exact List.Subset.refl _
  | warn => exact List.subset_append_left _ _
  | _ => exact List.Subset.refl _

theorem warnings_step (op : Op) : s.warnings id ⊆ (step c s op).warnings id := warnings_act (s := { s with clock := s.now op }) op.action

theorem ne_nil_of_subset {α : Type} {l m : List α} (h : l ⊆ m) (hl : l ≠ []) : m ≠ [] := by
  rintro rfl
  exact hl (List.subset_nil.1 h)

/-- an account that a step leaves as it was goes on waiting -/
theorem Waits.stays {clock last : ℕ} (h : Waits c clock last s id a) {op : Op} (hwarn : op.action ≠ .warn)
    (hcleanup : op.action ≠ .cleanup) : Waits c clock last (step c s op) id a where
  plan := h.plan
  activity := h.activity
  warned := by
    rw [lastWarn_step, if_neg hwarn]
    exact h.warned
  cleanup := by
    rw [lastCleanup_step, if_neg hcleanup]
    exact h.cleanup
  deleted := fun hd => ne_nil_of_subset (warnings_step op) (h.deleted hd)

theorem waits_warn {clock last : ℕ} (hc : c.warnWindow + day ≤ c.deleteWindow) (hs : Sound s id a)
    (h : Waits c clock last s id a) {op : Op} (hop : op.action = .warn) (hdaily : Daily s op) :
    Waits c clock last (step c s op) id (a.warn c (s.now op)) := by
  have hcleanup : (step c s op).lastCleanup = s.lastCleanup := by rw [lastCleanup_step, hop, if_neg (by simp)]
  have hwarn : (step c s op).lastWarn = s.now op := by rw [lastWarn_step, if_pos hop]
  have hlast : (a.warn c (s.now op)).getLastActivity = a.getLastActivity := by
    rcases warn_eq c (s.now op) a with heq | ⟨heq, -⟩
    · rw [heq]
    · rw [heq]
      rfl
  have hplan : (a.warn c (s.now op)).plan = a.plan := by
    rcases warn_eq c (s.now op) a with heq | ⟨heq, -⟩ <;> rw [heq]
  refine ⟨hplan.trans h.plan, hlast.trans h.activity, fun hactive => ?_, fun hactive => ?_, fun hd => ?_⟩
  · rw [warn_isActive] at hactive
    rw [hwarn]
    rcases h.warned hactive with ⟨hnone, hlw⟩ | ⟨w, hw, hle⟩
    · have hnow : s.now op ≤ last + c.warnWindow + day := by
        have := hdaily.1
        omega
      by_cases hdue : last + c.warnWindow < s.now op
      · right
        rcases warn_eq c (s.now op) a with heq | ⟨heq, -⟩
        · have hne := warn_due c hactive (hs.status hactive) h.plan (h.activity.symm ▸ hdue)
            (show s.now op ≤ a.getLastActivity + c.deleteWindow by rw [h.activity]; omega)
          rw [heq] at hne
          exact absurd hnone hne
        · exact ⟨s.now op, by rw [heq], hnow.trans (le_max_right _ _)⟩
      · rcases warn_eq c (s.now op) a with heq | ⟨heq, -⟩
        · exact Or.inl ⟨by rw [heq]; exact hnone, by omega⟩
        · exact Or.inr ⟨s.now op, by rw [heq], hnow.trans (le_max_right _ _)⟩
    · rcases warn_eq c (s.now op) a with heq | ⟨-, hnone⟩
      · exact Or.inr ⟨w, by rw [heq]; exact hw, hle⟩
      · rw [hnone] at hw
        cases hw
  · rw [warn_isActive] at hactive
    rw [hcleanup]
    exact h.cleanup hactive
  · rw [warn_isActive] at hd
    exact ne_nil_of_subset (warnings_step op) (h.deleted hd)

theorem waits_cleanup {clock last : ℕ} (hs : Sound s id a) (h : Waits c clock last s id a) {op : Op}
    (hop : op.action = .cleanup) (hdaily : Daily s op) : Waits c clock last (step c s op) id (a.cleanup c (s.now op)) := by
  have hlastCleanup : (step c s op).lastCleanup = s.now op := by rw [lastCleanup_step, if_pos hop]
  have hwarn : (step c s op).lastWarn = s.lastWarn := by rw [lastWarn_step, hop, if_neg (by simp)]
  unfold Account.cleanup
  by_cases hclean : a.cleanable c (s.now op) = true
  · rw [if_pos hclean]
    obtain ⟨-, w, hw, -⟩ := cleanable_iff.1 hclean
    refine ⟨h.plan, h.activity, nofun, nofun, fun _ => ?_⟩
    exact ne_nil_of_subset (warnings_step op) (List.ne_nil_of_mem (hs.warned w hw).1)
  · rw [if_neg hclean]
    refine ⟨h.plan, h.activity, fun hactive => ?_, fun hactive => ?_, fun hd => ?_⟩
    · rw [hwarn]
      exact h.warned hactive
    · rw [hlastCleanup]
      rcases h.warned hactive with ⟨-, hlw⟩ | ⟨w, hw, hle⟩
      · have hnow := hdaily.1
        have hbound : last + c.warnWindow + day ≤ warnedBy c clock last := le_max_right _ _
        exact le_trans (by omega) (le_max_left _ _)
      · by_contra hlt
        rw [not_le, max_lt_iff] at hlt
        refine hclean (cleanable_iff.2 ⟨⟨h.plan, hs.status hactive, hactive, ?_⟩, w, hw, ?_⟩)
        · rw [h.activity]
          exact hlt.2
        · omega
    · exact ne_nil_of_subset (warnings_step op) (h.deleted hd)

/-- a message to a user who was active by a login or a message changes nothing -/
theorem getLastActivity_reply {now : ℕ} (h : a.lastLoginAt.isSome = true ∨ a.inbound ≠ []) :
    ({ a with outbound := a.outbound ++ [now] } : Account).getLastActivity = a.getLastActivity := by
  unfold Account.getLastActivity
  cases hl : a.lastLoginAt with
  | some t => rfl
  | none =>
    rw [hl] at h
    cases hmax : a.inbound.max? with
    | some t => simp
    | none => simp [List.max?_eq_none_iff.1 hmax] at h

theorem waits_step {clock last : ℕ} (hc : c.warnWindow + day ≤ c.deleteWindow) (hs : Sound s id a)
    (h : Waits c clock last s id a) {op : Op} (hquiet : Quiet id s op) (ha : s.accounts id = some a) (hdaily : Daily s op) :
    Waits c clock last (step c s op) id (write c (s.now op) id a op.action) := by
  simp only [Quiet] at hquiet
  cases haction : op.action with
  | signUp id' => exact h.stays (by simp [haction]) (by simp [haction])
  | login id' | message id' | setPlan id' plan =>
    rw [haction] at hquiet
    rw [write, if_neg (Ne.symm hquiet)]
    exact h.stays (by simp [haction]) (by simp [haction])
  | reply id' =>
    rw [haction] at hquiet
    have hstays : Waits c clock last (step c s op) id a := h.stays (by simp [haction]) (by simp [haction])
    rw [write]
    split_ifs with hid
    · exact { hstays with activity := (getLastActivity_reply (hquiet hid.symm a ha)).trans h.activity }
    · exact hstays
  | warn => exact waits_warn hc hs h haction hdaily
  | cleanup => exact waits_cleanup hs h haction hdaily

/-- the rows of a user who waits -/
def WaitsAt (c : Config) (clock last : ℕ) (id : Str) (s : Sys) : Prop :=
  SoundAt s id ∧ Fresh s ∧ ∃ a, s.accounts id = some a ∧ Waits c clock last s id a

theorem waitsAt_step {clock last : ℕ} (hc : c.warnWindow + day ≤ c.deleteWindow) (h : WaitsAt c clock last id s) {op : Op}
    (hquiet : Quiet id s op) (hdaily : Daily s op) : WaitsAt c clock last id (step c s op) := by
  obtain ⟨hs, -, a, ha, hw⟩ := h
  have hsound : Sound s id a := by
    unfold SoundAt at hs
    rwa [ha] at hs
  exact ⟨soundAt_step hs op, fresh_step hdaily, _, accounts_step ha op, waits_step hc hsound hw hquiet ha hdaily⟩

/-- a user who waits past the deadline is deleted, and was warned -/
theorem deleted_of_waits {clock last : ℕ} (h : WaitsAt c clock last id s)
    (hlate : deadline c clock last < s.clock) :
    ∃ a ∈ s.accounts id, a.isActive = false ∧ s.warnings id ≠ [] := by
  obtain ⟨-, hfresh, a, ha, hw⟩ := h
  refine ⟨a, ha, ?_⟩
  cases hactive : a.isActive with
  | false => exact ⟨rfl, hw.deleted hactive⟩
  | true =>
    exfalso
    have hcleanup := hw.cleanup hactive
    have hclock := hfresh.cleanup
    have hdeadline : deadline c clock last = max (warnedBy c clock last + warningGrace) (last + c.deleteWindow) + day := rfl
    omega

/-! ## Runs -/

theorem soundAt_init : SoundAt Sys.init id := rfl

/-- **The cleanup deletes warned, inactive accounts.** In every run that meets the condition every deletion is proper. And
when both jobs run daily and the warn window is shorter, a free user who came to the free plan in time and is quiet for good
is warned and deleted by the deadline. -/
theorem deleted_when_warned (c : Config) (id : Str) (ops : List Op) :
    (Meets (step c) (Undisturbed c id) Sys.init ops → Meets (step c) (Proper c id) Sys.init ops) ∧
    (c.inactiveWarnMonths < c.inactiveDeleteMonths →
      Meets (step c) (fun s op => Daily s op ∧ Timely c id s op) Sys.init ops →
      ∀ a ∈ (run (step c) Sys.init ops).accounts id, a.isActive = true → a.plan = free →
      ∀ later, Meets (step c) (fun s op => Daily s op ∧ Quiet id s op) (run (step c) Sys.init ops) later →
      deadline c (run (step c) Sys.init ops).clock a.getLastActivity < (run (step c) Sys.init (ops ++ later)).clock →
      ∃ a' ∈ (run (step c) Sys.init (ops ++ later)).accounts id, a'.isActive = false ∧
        (run (step c) Sys.init (ops ++ later)).warnings id ≠ []) := by
  constructor
  · exact meets_mono (I := fun s => SoundAt s id) (fun _ op h => soundAt_step h op)
      (fun _ _ h hcond => proper_of_sound h hcond) soundAt_init
  · intro hmonths hops a ha hactive hplan later hlater hlate
    have hc : c.warnWindow + day ≤ c.deleteWindow := by
      have hmul := Nat.mul_le_mul_right (30 * day) (Nat.succ_le_of_lt hmonths)
      unfold Config.warnWindow Config.deleteWindow
      unfold day at hmul ⊢
      omega
    -- the state in which the user falls silent
    have hstart : SoundAt (run (step c) Sys.init ops) id ∧ Fresh (run (step c) Sys.init ops) ∧
        Due c (run (step c) Sys.init ops) id :=
      run_inv (I := fun s => SoundAt s id ∧ Fresh s ∧ Due c s id)
        (fun _ op h hmeets => ⟨soundAt_step h.1 op, fresh_step hmeets.1, due_step hc h.1 h.2.2 hmeets.1 hmeets.2⟩)
        hops ⟨soundAt_init, ⟨Nat.zero_le _, Nat.zero_le _⟩, nofun, le_rfl, le_rfl⟩
    obtain ⟨hs, hfresh, hdue⟩ := hstart
    have hwaits : WaitsAt c (run (step c) Sys.init ops).clock a.getLastActivity id (run (step c) Sys.init ops) := by
      have hsound : Sound (run (step c) Sys.init ops) id a := by
        unfold SoundAt at hs
        rwa [ha] at hs
      refine ⟨hs, hfresh, a, ha, hplan, rfl, fun _ => ?_, fun _ => ?_, fun hd => ?_⟩
      · cases hw : a.inactivityWarnedAt with
        | none => exact Or.inl ⟨rfl, hdue.unwarned a ha hactive hplan hw⟩
        | some w => exact Or.inr ⟨w, rfl, (hsound.warning w hw).trans (le_max_left _ _)⟩
      · have hclock : (run (step c) Sys.init ops).clock ≤ warnedBy c (run (step c) Sys.init ops).clock a.getLastActivity :=
          le_max_left _ _
        exact (hdue.cleanup.trans (by omega)).trans (le_max_left _ _)
      · rw [hactive] at hd
        cases hd
    rw [run_append] at hlate ⊢
    exact deleted_of_waits (run_inv (I := WaitsAt c _ _ id) (fun _ _ h hmeets => waitsAt_step hc h hmeets.2 hmeets.1)
      hlater hwaits) hlate

end

/-! ## Decided -/

section

variable (c : Config) (id : Str) (s : Sys)

instance (op : Op) : Decidable (Proper c id s op) :=
  inferInstanceAs (Decidable (∀ a ∈ s.accounts id, a.isActive = true →
    ((step c s op).accounts id).any Account.isActive = false →
    a.plan = free ∧ (∀ x ∈ s.logins id ++ a.inbound, x + c.deleteWindow < s.now op) ∧
      ∃ w ∈ s.warnings id, w + warningGrace ≤ s.now op ∧ ∀ x ∈ s.logins id ++ a.inbound, x ≤ w))

instance (op : Op) : Decidable (Undisturbed c id s op) :=
  inferInstanceAs (Decidable (op.action = .cleanup → ∀ a ∈ s.accounts id, a.cleanable c (s.now op) = true →
    (∀ t ∈ a.lastLoginAt, ∀ m ∈ a.inbound, m ≤ t) ∧ ∀ w ∈ a.inactivityWarnedAt, ∀ m ∈ a.inbound, m ≤ w))

instance (op : Op) : Decidable (Daily s op) :=
  inferInstanceAs (Decidable (s.now op ≤ s.lastWarn + day ∧ s.now op ≤ s.lastCleanup + day))

instance (op : Op) : Decidable (Timely c id s op) := by
  unfold Timely
  split <;> infer_instance

instance (op : Op) : Decidable (Quiet id s op) := by
  unfold Quiet
  split <;> infer_instance

end

/-! ## Deleted in use, and never deleted -/

/-- the defaults of the settings -/
def defaults : Config := ⟨11, 12⟩

def u1 : Str := "u1".toList

/-- `n` days later -/
def days (n : ℕ) (action : Action) : Op := ⟨n * day, action⟩

/-- a login, and a year later a message on the day before the cleanup -/
def chatting : List Op :=
  [days 0 (.signUp u1), days 0 (.login u1), days 334 (.message u1), days 1 .warn, days 30 (.message u1), days 1 .cleanup]

/-- a user of the pro plan who is moved to the free plan when the window is over -/
def movedLate : List Op := [days 0 (.signUp u1), days 0 (.login u1), days 1 (.setPlan u1 "pro".toList), days 400 (.setPlan u1 free)]

/-- both jobs, on each of `n` days -/
def jobs (n : ℕ) : List Op := (List.replicate n [days 1 .warn, days 0 .cleanup]).flatten

/-- a user who is past the window without a warning, and stays so -/
def Missed (c : Config) (id : Str) (s : Sys) : Prop :=
  ∃ a ∈ s.accounts id, (a.plan = free ∧ a.isActive = true ∧ a.inactivityWarnedAt = none) ∧
    a.getLastActivity + c.deleteWindow < s.clock

theorem missed_step {c : Config} {id : Str} {s : Sys} {op : Op} (h : Missed c id s)
    (hop : op.action = .warn ∨ op.action = .cleanup) : Missed c id (step c s op) := by
  obtain ⟨a, ha, hrow, hlate⟩ := h
  have hnow : a.getLastActivity + c.deleteWindow < s.now op := hlate.trans_le (Nat.le_add_right _ _)
  refine ⟨a, (accounts_step ha op).trans (congrArg some ?_), hrow, by rw [clock_step]; exact hnow⟩
  rcases hop with hop | hop
  · have hwarn : a.warn c (s.now op) = a := by
      unfold Account.warn
      rw [if_pos hnow, ite_self]
    rw [hop, write, hwarn]
  · have hclean : ¬a.cleanable c (s.now op) = true := by
      rw [cleanable_iff]
      simp [hrow.2.2]
    rw [hop, write, Account.cleanup, if_neg hclean]

theorem jobs_action (n : ℕ) : ∀ op ∈ jobs n, op.action = .warn ∨ op.action = .cleanup := by
  intro op hop
  obtain ⟨l, hl, hmem⟩ := List.mem_flatten.1 hop
  obtain rfl := List.eq_of_mem_replicate hl
  rcases List.mem_cons.1 hmem with rfl | hmem
  · exact Or.inl rfl
  · rw [List.mem_singleton.1 hmem]
    exact Or.inr rfl

/-- the jobs run daily, and nobody does anything -/
theorem meets_jobs (c : Config) (id : Str) (n : ℕ) {s : Sys} (hwarn : s.clock ≤ s.lastWarn) (hcleanup : s.clock ≤ s.lastCleanup) :
    Meets (step c) (fun s op => Daily s op ∧ Quiet id s op) s (jobs n) ∧
      (run (step c) s (jobs n)).clock = s.clock + n * day := by
  induction n generalizing s with
  | zero => exact ⟨trivial, by simp [jobs]⟩
  | succ n ih =>
    have hjobs : jobs (n + 1) = days 1 .warn :: days 0 .cleanup :: jobs n := rfl
    have hw : s.now (days 1 .warn) = s.clock + day := congrArg (s.clock + ·) (Nat.one_mul day)
    have hc : (step c s (days 1 .warn)).now (days 0 .cleanup) = s.clock + day := by
      rw [Sys.now, clock_step, hw]
      exact Nat.add_zero _
    have hlastWarn : (step c s (days 1 .warn)).lastWarn = s.clock + day := by
      rw [lastWarn_step, if_pos (by rfl), hw]
    have hlastCleanup : (step c s (days 1 .warn)).lastCleanup = s.lastCleanup := by rw [lastCleanup_step, if_neg (by decide)]
    obtain ⟨hmeets, hclock⟩ := ih (s := step c (step c s (days 1 .warn)) (days 0 .cleanup))
      (by rw [clock_step, lastWarn_step, if_neg (by decide), hc, hlastWarn])
      (by rw [clock_step, lastCleanup_step, if_pos (by rfl)])
    rw [hjobs, run_cons, run_cons]
    refine ⟨⟨⟨⟨?_, ?_⟩, trivial⟩, ⟨⟨?_, ?_⟩, trivial⟩, hmeets⟩, ?_⟩
    · omega
    · omega
    · omega
    · omega
    · rw [hclock, clock_step, hc, Nat.add_one_mul]
      omega

def signedInOnce : List Op := [days 0 (.signUp u1), days 0 (.login u1)]

/-- a user who signs in once is deleted after a year -/
theorem deleted_when_warned_once :
    ∃ a ∈ (run (step defaults) Sys.init (signedInOnce ++ jobs 363)).accounts u1,
      a.isActive = false ∧ (run (step defaults) Sys.init (signedInOnce ++ jobs 363)).warnings u1 ≠ [] := by
  obtain ⟨hmeets, hclock⟩ := meets_jobs defaults u1 363 (s := run (step defaults) Sys.init signedInOnce)
    (by decide +kernel) (by decide +kernel)
  refine (deleted_when_warned defaults u1 signedInOnce).2 (by decide) (by decide +kernel)
    ⟨0, true, free, active, some 0, none, [], []⟩ (by decide +kernel) rfl rfl (jobs 363) hmeets ?_
  rw [run_append, hclock]
  decide +kernel

/-- a user who chatted yesterday is deleted, because the login is a year old. And a user who is moved to the free plan a year
after the last activity is never warned, and never deleted. -/
theorem deleted_in_use :
    ¬Meets (step defaults) (Proper defaults u1) Sys.init chatting ∧
    ∀ n, ∃ a ∈ (run (step defaults) Sys.init (movedLate ++ jobs n)).accounts u1,
      a.plan = free ∧ a.isActive = true ∧ a.inactivityWarnedAt = none := by
  refine ⟨by decide +kernel, fun n => ?_⟩
  have hmissed : Missed defaults u1 (run (step defaults) Sys.init movedLate) :=
    ⟨⟨0, true, free, active, some 0, none, [], []⟩, by decide +kernel, by decide, by decide +kernel⟩
  have hrun : Missed defaults u1 (run (step defaults) Sys.init (movedLate ++ jobs n)) := by
    rw [run_append]
    exact run_inv (I := Missed defaults u1) (fun _ _ h hop => missed_step h hop)
      (meets_of_forall (C := fun _ op => op.action = .warn ∨ op.action = .cleanup) (fun op hop _ => jobs_action n op hop) _)
      hmissed
  obtain ⟨a, ha, hrow, -⟩ := hrun
  exact ⟨a, ha, hrow⟩

end Clawbolt.Accounts
