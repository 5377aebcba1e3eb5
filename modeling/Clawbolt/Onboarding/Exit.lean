/-
When onboarding ends (agent/onboarding.py, with `load_history_step` of agent/router.py and the reload of the user in
agent/ingestion.py).

A turn judges twice: `is_onboarding_needed` at its start, on the user as loaded, and the subscriber at its end, on the loaded
user with the two texts read again. The first has no message floor; what it calls complete, the subscriber completes without
removing BOOTSTRAP.md.

- `ends_properly_iff`: a run ends onboarding once, for a reason that holds of the stored profile, with BOOTSTRAP.md gone,
  exactly when each turn that ends finds its loaded timezone still stored where it decides, and no turn starts with a
  complete profile, unless its end has a reason anyway;
- `two_message_exit`: a profile that is complete after the first message ends onboarding with the second one, and
  BOOTSTRAP.md stays.
-/
import Mathlib.Tactic
import Clawbolt.Core.Runs
import Clawbolt.Core.Text

namespace Clawbolt.Onboarding

open Text (Str)
open Runs

/-! ## The profile -/

/-- `MIN_ONBOARDING_USER_MESSAGES` -/
def minOnboardingUserMessages : ℕ := 10

/-- `MIN_USER_MESSAGES_FOR_AUTO_EXIT` -/
def minUserMessagesForAutoExit : ℕ := 4

/-- `MAX_ONBOARDING_USER_MESSAGES` -/
def maxOnboardingUserMessages : ℕ := 50

/-- what `load_prompt` returns -/
structure Prompts where
  defaultSoul : Str
  defaultUser : Str

/-- a row of users, or a copy of it; a column that is null is empty -/
structure User where
  userText : Str
  soulText : Str
  timezone : Str
  onboardingComplete : Bool
deriving DecidableEq, Repr

/-- a space or a tab -/
def isBlank (c : Char) : Bool := c = ' ' || c = '\t'

/-- `[ \t]*-?[ \t]*Name:[ \t]+\S` at the start of a line -/
def isNameLine (line : Str) : Bool :=
  let rest := line.dropWhile isBlank
  let rest := ((if rest.head? = some '-' then rest.drop 1 else rest)).dropWhile isBlank
  if Text.startsWith "Name:".toList rest = false then false
  else
    let value := rest.drop "Name:".length
    value.head?.any isBlank && ((value.dropWhile isBlank).head?.any fun c => !Text.isSpace c)

/-- `_has_real_user_profile` -/
def hasRealUserProfile (user : User) : Bool := (user.userText.splitOn '\n').any isNameLine

/-- `_has_user_timezone` -/
def hasUserTimezone (user : User) : Bool := Text.strip user.timezone ≠ []

/-- `_has_custom_soul` -/
def hasCustomSoul (p : Prompts) (user : User) : Bool :=
  let content := Text.strip user.soulText
  if content = [] then false
  else decide (content ≠ p.defaultSoul ∧ content ≠ "# Soul\n\n".toList ++ p.defaultSoul)

def isReadyForAutoExit (user : User) : Bool := hasRealUserProfile user && hasUserTimezone user

def isOnboardingCompleteHeuristic (p : Prompts) (user : User) : Bool :=
  hasRealUserProfile user && hasUserTimezone user && hasCustomSoul p user

/-! ## Turns -/

inductive Direction where
  | inbound
  | outbound
deriving DecidableEq, Repr

/-- the turn that holds the lock of the user -/
structure Turn where
  /-- the row as reloaded -/
  user : User
  /-- the rows of the reloaded session -/
  messages : List Direction
  /-- `is_onboarding_needed`, once `load_history_step` has asked -/
  wasOnboarding : Option Bool
  /-- whether BOOTSTRAP.md was deleted since the turn began -/
  removed : Bool
deriving DecidableEq, Repr

structure World where
  row : User
  /-- BOOTSTRAP.md exists -/
  bootstrap : Bool
  messages : List Direction
  turn : Option Turn
deriving DecidableEq, Repr

/-- a provisioned user: the default texts, no timezone -/
def provisioned (p : Prompts) : World where
  row := ⟨"# User\n\n".toList ++ p.defaultUser ++ "\n".toList, "# Soul\n\n".toList ++ p.defaultSoul ++ "\n".toList, [], false⟩
  bootstrap := true
  messages := []
  turn := none

inductive Event where
  /-- a message is stored -/
  | message (d : Direction)
  /-- the conversation is deleted -/
  | forget
  /-- a turn takes the lock and reloads the user and the session -/
  | load
  /-- its `load_history_step` -/
  | decide
  /-- writes to the profile, by a tool or from the dashboard -/
  | setUserText (text : Str)
  | setSoulText (text : Str)
  | setTimezone (tz : Str)
  | deleteBootstrap
  | writeBootstrap
  /-- the agent ends -/
  | agentEnd
  /-- the turn fails or times out before -/
  | abort
deriving DecidableEq, Repr

/-- `user_message_count` -/
def Turn.userMessageCount (t : Turn) : ℕ := t.messages.countP (· = .inbound)

/-- `is_onboarding_needed`, and the file it writes -/
def isOnboardingNeeded (p : Prompts) (user : User) (bootstrap : Bool) : Bool × Bool :=
  if user.onboardingComplete then (false, bootstrap)
  else if isOnboardingCompleteHeuristic p user then (false, bootstrap)
  else (true, true)

/-- `_mark_onboarding_complete` -/
def World.markOnboardingComplete (w : World) : World := { w with row := { w.row with onboardingComplete := true } }

/-- the loaded user with the texts read again -/
def Turn.refreshed (t : Turn) (row : User) : User :=
  if t.wasOnboarding = some true then { t.user with userText := row.userText, soulText := row.soulText } else t.user

/-- `_on_agent_end` -/
def onAgentEnd (p : Prompts) (w : World) (t : Turn) : World :=
  let was := t.wasOnboarding = some true
  let user := t.refreshed w.row
  if t.user.onboardingComplete then w
  else if was ∧ w.bootstrap = false then w.markOnboardingComplete
  else if was ∧ minUserMessagesForAutoExit ≤ t.userMessageCount ∧ isReadyForAutoExit user then
    { w with bootstrap := false }.markOnboardingComplete
  else if was ∧ minOnboardingUserMessages ≤ t.userMessageCount ∧ isOnboardingCompleteHeuristic p user then
    { w with bootstrap := false }.markOnboardingComplete
  else if was ∧ maxOnboardingUserMessages ≤ t.userMessageCount then { w with bootstrap := false }.markOnboardingComplete
  else if ¬ was ∧ isOnboardingCompleteHeuristic p user then w.markOnboardingComplete
  else w

def step (p : Prompts) (w : World) : Event → World
  | .message d => { w with messages := w.messages ++ [d] }
  | .forget => { w with messages := [] }
  | .load => if w.turn.isSome then w else { w with turn := some ⟨w.row, w.messages, none, false⟩ }
  | .decide =>
    match w.turn with
    | none => w
    | some t =>
      if t.wasOnboarding.isSome then w
      else
        let (needed, bootstrap) := isOnboardingNeeded p t.user w.bootstrap
        { w with bootstrap := bootstrap, turn := some { t with wasOnboarding := some needed } }
  | .setUserText text => { w with row := { w.row with userText := text } }
  | .setSoulText text => { w with row := { w.row with soulText := text } }
  | .setTimezone tz => { w with row := { w.row with timezone := tz } }
  | .deleteBootstrap => { w with bootstrap := false, turn := w.turn.map fun t => { t with removed := t.removed || w.bootstrap } }
  | .writeBootstrap => { w with bootstrap := true }
  | .agentEnd =>
    match w.turn with
    | none => w
    | some t => if t.wasOnboarding.isNone then w else { onAgentEnd p w t with turn := none }
  | .abort => { w with turn := none }

/-! ## What is claimed, and when -/

/-- a reason to end onboarding with this turn, on the profile as stored -/
def Reason (p : Prompts) (w : World) (t : Turn) : Prop :=
  t.removed = true ∨
    minUserMessagesForAutoExit ≤ t.userMessageCount ∧ isReadyForAutoExit w.row = true ∨
    minOnboardingUserMessages ≤ t.userMessageCount ∧ isOnboardingCompleteHeuristic p w.row = true ∨
    maxOnboardingUserMessages ≤ t.userMessageCount

/-- what a step owes: the flag is set once, for a reason, with the file gone; and no turn is in onboarding mode after it -/
structure Proper (p : Prompts) (w : World) (e : Event) : Prop where
  stays : w.row.onboardingComplete = true → (step p w e).row.onboardingComplete = true
  later : w.row.onboardingComplete = true → ∀ t ∈ (step p w e).turn, t.wasOnboarding ≠ some true
  reason : w.row.onboardingComplete = false → (step p w e).row.onboardingComplete = true →
    e = .agentEnd ∧ (∃ t ∈ w.turn, Reason p w t) ∧ (step p w e).bootstrap = false

/-- where an onboarding turn is decided by the name and the timezone, the timezone it loaded is still stored -/
def Turn.ZoneKept (t : Turn) (w : World) : Prop :=
  w.bootstrap = true → minUserMessagesForAutoExit ≤ t.userMessageCount → t.userMessageCount < maxOnboardingUserMessages →
    hasRealUserProfile w.row = true → hasUserTimezone t.user = true → t.removed = false → hasUserTimezone w.row = true

/-- where a turn that started with a complete profile ends, BOOTSTRAP.md is gone and there is a reason -/
def Turn.LateReason (p : Prompts) (t : Turn) (w : World) : Prop :=
  isOnboardingCompleteHeuristic p t.user = true → w.bootstrap = false ∧ Reason p w t

/-- the step does not end a turn that lost its timezone, or that started with a complete profile -/
def Calm (p : Prompts) (w : World) (e : Event) : Prop :=
  e = .agentEnd → ∀ t ∈ w.turn, t.user.onboardingComplete = false →
    (t.wasOnboarding = some true → t.ZoneKept w) ∧ (t.wasOnboarding = some false → t.LateReason p w)


/-! ## The end of a turn -/

theorem isOnboardingCompleteHeuristic_ready {p : Prompts} {user : User} (h : isOnboardingCompleteHeuristic p user = true) :
    isReadyForAutoExit user = true := by
  unfold isOnboardingCompleteHeuristic at h
  exact (Bool.and_eq_true_iff.1 h).1

/-- the strict heuristic asks for more than the auto-exit, so it decides nothing -/
theorem onAgentEnd_onboarding (p : Prompts) (w : World) (t : Turn) (hwas : t.wasOnboarding = some true)
    (hflag : t.user.onboardingComplete = false) :
    onAgentEnd p w t =
      if w.bootstrap = false then w.markOnboardingComplete
      else if minUserMessagesForAutoExit ≤ t.userMessageCount ∧ isReadyForAutoExit (t.refreshed w.row) = true ∨
          maxOnboardingUserMessages ≤ t.userMessageCount then { w with bootstrap := false }.markOnboardingComplete
      else w := by
  unfold onAgentEnd
  simp only [hflag, hwas, true_and, not_true_eq_false, false_and, if_false, Bool.false_eq_true]
  by_cases hfile : w.bootstrap = false
  · rw [if_pos hfile, if_pos hfile]
  · rw [if_neg hfile, if_neg hfile]
    by_cases hauto : minUserMessagesForAutoExit ≤ t.userMessageCount ∧ isReadyForAutoExit (t.refreshed w.row) = true
    · rw [if_pos hauto, if_pos (Or.inl hauto)]
    · have hstrict : ¬ (minOnboardingUserMessages ≤ t.userMessageCount ∧
          isOnboardingCompleteHeuristic p (t.refreshed w.row) = true) := by
        rintro ⟨hcount, h⟩
        exact hauto ⟨by unfold minOnboardingUserMessages at hcount; unfold minUserMessagesForAutoExit; omega,
          isOnboardingCompleteHeuristic_ready h⟩
      rw [if_neg hauto, if_neg hstrict]
      simp only [hauto, false_or]

theorem onAgentEnd_other (p : Prompts) (w : World) (t : Turn) (hwas : t.wasOnboarding = some false)
    (hflag : t.user.onboardingComplete = false) :
    onAgentEnd p w t = if isOnboardingCompleteHeuristic p t.user then w.markOnboardingComplete else w := by
  unfold onAgentEnd Turn.refreshed
  simp [hflag, hwas]

theorem onAgentEnd_complete (p : Prompts) (w : World) (t : Turn) (hflag : t.user.onboardingComplete = true) :
    onAgentEnd p w t = w := by
  unfold onAgentEnd
  simp [hflag]

/-- an onboarding turn decides on the stored texts and the loaded timezone -/
theorem ready_refreshed {t : Turn} (hwas : t.wasOnboarding = some true) (row : User) :
    isReadyForAutoExit (t.refreshed row) = (hasRealUserProfile row && hasUserTimezone t.user) := by
  unfold Turn.refreshed
  rw [if_pos hwas]
  rfl

/-! ## Runs -/

/-- the loaded flag is the stored one, and an onboarding turn began with the file -/
structure Inv (w : World) : Prop where
  flag : ∀ t ∈ w.turn, t.user.onboardingComplete = w.row.onboardingComplete
  file : ∀ t ∈ w.turn, t.wasOnboarding = some true → t.user.onboardingComplete = false ∧ (w.bootstrap = true ∨ t.removed = true)

theorem inv_provisioned (p : Prompts) : Inv (provisioned p) := ⟨nofun, nofun⟩

theorem step_inv (p : Prompts) (w : World) (e : Event) (h : Inv w) : Inv (step p w e) := by
  cases e with
  | message d => exact ⟨h.flag, h.file⟩
  | forget => exact ⟨h.flag, h.file⟩
  | setUserText text => exact ⟨h.flag, h.file⟩
  | setSoulText text => exact ⟨h.flag, h.file⟩
  | setTimezone tz => exact ⟨h.flag, h.file⟩
  | writeBootstrap => exact ⟨h.flag, fun t ht hwas => ⟨(h.file t ht hwas).1, Or.inl rfl⟩⟩
  | abort => exact ⟨nofun, nofun⟩
  | load =>
    cases hturn : w.turn with
    | some t =>
      rw [show step p w .load = w by simp [step, hturn]]
      exact h
    | none =>
      rw [show step p w .load = { w with turn := some ⟨w.row, w.messages, none, false⟩ } by simp [step, hturn]]
      constructor
      · intro t ht
        cases ht
        rfl
      · intro t ht hwas
        cases ht
        cases hwas
  | decide =>
    cases hturn : w.turn with
    | none =>
      rw [show step p w .decide = w by simp [step, hturn]]
      exact h
    | some t =>
      have hflag := h.flag t (by rw [hturn]; rfl)
      by_cases hasked : t.wasOnboarding.isSome = true
      · rw [show step p w .decide = w by simp [step, hturn, hasked]]
        exact h
      · simp only [step, hturn, if_neg hasked]
        constructor
        · intro t' ht'
          cases ht'
          exact hflag
        · intro t' ht' hwas
          cases ht'
          simp only [Option.some.injEq] at hwas
          unfold isOnboardingNeeded at hwas ⊢
          split_ifs at hwas ⊢ with hcomplete hheuristic
          exact ⟨Bool.eq_false_iff.2 hcomplete, Or.inl rfl⟩
  | deleteBootstrap =>
    constructor
    · intro t ht
      obtain ⟨t', ht', rfl⟩ := Option.mem_map.1 ht
      exact h.flag t' ht'
    · intro t ht hwas
      obtain ⟨t', ht', rfl⟩ := Option.mem_map.1 ht
      obtain ⟨hflag, hfile⟩ := h.file t' ht' hwas
      refine ⟨hflag, Or.inr ?_⟩
      rcases hfile with hfile | hremoved
      · simp [hfile]
      · simp [hremoved]
  | agentEnd =>
    cases hturn : w.turn with
    | none =>
      rw [show step p w .agentEnd = w by simp [step, hturn]]
      exact h
    | some t =>
      by_cases hasked : t.wasOnboarding.isNone = true
      · rw [show step p w .agentEnd = w by simp [step, hturn, hasked]]
        exact h
      · simp only [step, hturn, if_neg hasked]
        exact ⟨nofun, nofun⟩

/-- only the end of a turn that was asked about sets the flag -/
theorem flag_step (p : Prompts) (w : World) {e : Event} (h : e ≠ .agentEnd) :
    (step p w e).row.onboardingComplete = w.row.onboardingComplete := by
  cases e with
  | agentEnd => exact absurd rfl h
  | load =>
    simp only [step]
    split_ifs <;> rfl
  | decide =>
    simp only [step]
    cases w.turn with
    | none => rfl
    | some t =>
      simp only
      split_ifs <;> rfl
  | _ => rfl

/-- what the end of a turn does to the flag and the file -/
theorem agentEnd_proper (p : Prompts) (w : World) (t : Turn) (b : Bool) (h : Inv w) (hturn : w.turn = some t)
    (hwas : t.wasOnboarding = some b) (hflag : t.user.onboardingComplete = false) :
    ((onAgentEnd p w t).row.onboardingComplete = true → Reason p w t ∧ (onAgentEnd p w t).bootstrap = false) ↔
      if b then t.ZoneKept w else t.LateReason p w := by
  have hrow : w.row.onboardingComplete = false := by rw [← h.flag t hturn, hflag]
  cases b with
  | false =>
    rw [onAgentEnd_other p w t hwas hflag, if_neg Bool.false_ne_true]
    unfold Turn.LateReason
    by_cases hheuristic : isOnboardingCompleteHeuristic p t.user = true
    · rw [if_pos hheuristic]
      exact ⟨fun hp _ => (hp rfl).symm, fun hp _ => (hp hheuristic).symm⟩
    · rw [if_neg hheuristic]
      refine iff_of_true (fun hset => ?_) (fun hset => absurd hset hheuristic)
      rw [hrow] at hset
      cases hset
  | true =>
    obtain ⟨-, hfile⟩ := h.file t hturn hwas
    rw [onAgentEnd_onboarding p w t hwas hflag, if_pos rfl, ready_refreshed hwas]
    by_cases hgone : w.bootstrap = false
    · rw [if_pos hgone]
      have hremoved : t.removed = true := by
        rcases hfile with hfile | hremoved
        · rw [hgone] at hfile
          cases hfile
        · exact hremoved
      refine iff_of_true (fun _ => ⟨Or.inl hremoved, hgone⟩) (fun hthere => ?_)
      rw [hgone] at hthere
      cases hthere
    · rw [if_neg hgone]
      unfold Turn.ZoneKept
      split_ifs with hexit
      · constructor
        · intro hp _ hmin hmax hname hzone hkept
          obtain ⟨hreason, -⟩ := hp rfl
          rcases hreason with hremoved | ⟨-, hready⟩ | ⟨-, hstrict⟩ | hmany
          · rw [hkept] at hremoved
            cases hremoved
          · exact (Bool.and_eq_true_iff.1 hready).2
          · exact (Bool.and_eq_true_iff.1 (isOnboardingCompleteHeuristic_ready hstrict)).2
          · exact absurd hmany (by omega)
        · intro hp _
          refine ⟨?_, rfl⟩
          by_cases hmany : maxOnboardingUserMessages ≤ t.userMessageCount
          · exact Or.inr (Or.inr (Or.inr hmany))
          · obtain ⟨hmin, hready⟩ := hexit.resolve_right hmany
            obtain ⟨hname, hzone⟩ := Bool.and_eq_true_iff.1 hready
            cases hremoved : t.removed with
            | true => exact Or.inl hremoved
            | false =>
              have hstored := hp (Bool.eq_true_of_not_eq_false hgone) hmin (by omega) hname hzone hremoved
              refine Or.inr (Or.inl ⟨hmin, ?_⟩)
              unfold isReadyForAutoExit
              rw [hname, hstored]
              rfl
      · refine iff_of_true (fun hset => ?_) (fun _ hmin _ hname hzone _ => ?_)
        · rw [hrow] at hset
          cases hset
        · exact absurd (Or.inl ⟨hmin, by rw [hname, hzone]; rfl⟩) hexit

/-- **One step.** It is proper exactly when it is calm. -/
theorem proper_iff (p : Prompts) (w : World) (e : Event) (h : Inv w) : Proper p w e ↔ Calm p w e := by
  by_cases hend : e = .agentEnd
  · subst hend
    -- a step that leaves the world is proper
    have hidle : step p w .agentEnd = w → (∀ t ∈ w.turn, t.wasOnboarding ≠ some true ∨ w.row.onboardingComplete = false) →
        Proper p w .agentEnd := by
      intro hw hturns
      refine ⟨fun hset => by rw [hw, hset], fun hset t ht => ?_, fun hunset hset => ?_⟩
      · rw [hw] at ht
        refine (hturns t ht).resolve_right fun hunset => ?_
        rw [hset] at hunset
        cases hunset
      · rw [hw, hunset] at hset
        cases hset
    cases hturn : w.turn with
    | none =>
      refine iff_of_true (hidle (by simp [step, hturn]) (by simp [hturn])) (fun _ t ht => ?_)
      rw [hturn] at ht
      cases ht
    | some t =>
      cases hwas : t.wasOnboarding with
      | none =>
        refine iff_of_true (hidle (by simp [step, hturn, hwas]) fun t' ht' => ?_) (fun _ t' ht' _ => ?_)
        · rw [hturn] at ht'
          cases ht'
          exact Or.inl (by rw [hwas]; nofun)
        · rw [hturn] at ht'
          cases ht'
          rw [hwas]
          exact ⟨nofun, nofun⟩
      | some b =>
        have hstep : step p w .agentEnd = { onAgentEnd p w t with turn := none } := by simp [step, hturn, hwas]
        cases hflag : t.user.onboardingComplete with
        | true =>
          have hrow : w.row.onboardingComplete = true := by rw [← h.flag t hturn, hflag]
          refine iff_of_true ⟨fun _ => ?_, fun _ t' ht' => ?_, fun hunset => ?_⟩ (fun _ t' ht' hunset => ?_)
          · rw [hstep, onAgentEnd_complete p w t hflag, ← hrow]
          · rw [hstep] at ht'
            cases ht'
          · rw [hrow] at hunset
            cases hunset
          · rw [hturn] at ht'
            cases ht'
            rw [hflag] at hunset
            cases hunset
        | false =>
          have hrow : w.row.onboardingComplete = false := by rw [← h.flag t hturn, hflag]
          have hend := agentEnd_proper p w t b h hturn hwas hflag
          constructor
          · intro hproper _ t' ht' _
            rw [hturn] at ht'
            cases ht'
            have hjust := hend.1 fun hset => by
              obtain ⟨-, ⟨t', ht', hreason⟩, hfile⟩ := hproper.reason hrow (by rw [hstep]; exact hset)
              rw [hturn] at ht'
              cases ht'
              exact ⟨hreason, by rwa [hstep] at hfile⟩
            rw [hwas]
            cases b with
            | true => exact ⟨fun _ => hjust, nofun⟩
            | false => exact ⟨nofun, fun _ => hjust⟩
          · intro hcalm
            have hgiven := hcalm rfl t hturn hflag
            rw [hwas] at hgiven
            have hjust := hend.2 (by
              cases b with
              | true => exact hgiven.1 rfl
              | false => exact hgiven.2 rfl)
            refine ⟨fun hset => ?_, fun hset => ?_, fun _ hset => ?_⟩
            · rw [hrow] at hset
              cases hset
            · rw [hrow] at hset
              cases hset
            · rw [hstep] at hset ⊢
              obtain ⟨hreason, hfile⟩ := hjust hset
              exact ⟨rfl, ⟨t, hturn, hreason⟩, hfile⟩
  · have hafter := step_inv p w e h
    have hflag := flag_step p w hend
    refine iff_of_true ⟨fun hset => by rw [hflag, hset], fun hset t ht hwas => ?_, fun hunset hset => ?_⟩
      (fun he => absurd he hend)
    · have hcopy := (hafter.file t ht hwas).1
      rw [hafter.flag t ht, hflag, hset] at hcopy
      cases hcopy
    · rw [hflag, hunset] at hset
      cases hset

/-- **Onboarding ends properly** exactly in the runs of calm steps. -/
theorem ends_properly_iff (p : Prompts) (events : List Event) :
    Meets (step p) (Proper p) (provisioned p) events ↔ Meets (step p) (Calm p) (provisioned p) events :=
  meets_iff (I := Inv) (fun w e h => proper_iff p w e h) (fun w e h _ => step_inv p w e h) (inv_provisioned p)

/-- the first message brings the whole profile, the second one comes -/
def quickProfile : List Event :=
  [.message .inbound, .load, .decide, .setUserText "# User\n\nName: Ada".toList, .setSoulText "Be brief.".toList,
    .setTimezone "Europe/Berlin".toList, .agentEnd, .message .outbound, .message .inbound, .load, .decide]

/-- **The second message ends onboarding.** No floor is met, and BOOTSTRAP.md stays. -/
theorem two_message_exit : ¬ ∀ (p : Prompts) (events : List Event), Meets (step p) (Proper p) (provisioned p) events := by
  intro h
  have hend := ((meets_append _ _ _ _ _).1 (h ⟨"Be helpful.".toList, "- Name:".toList⟩ (quickProfile ++ [.agentEnd]))).2.1
  obtain ⟨-, -, hfile⟩ := hend.reason (by decide +kernel) (by decide +kernel)
  revert hfile
  decide +kernel

end Clawbolt.Onboarding
