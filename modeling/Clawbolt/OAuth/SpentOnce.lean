/-
The refreshers of one process (`Clawbolt.OAuth.Refresh`) with a provider that rotates the refresh token: inline loads, the
sweep and mid-call refreshes, with nobody connecting or disconnecting meanwhile.

- `spent_once`: in every run a refresh token gets one answer that counts, a refused grant is told to the user once, and a
  refresher that had the lock ends with what was the newest access token when it released it, or with its failure;
- `ends_without`: a refresher that waits for the lock in vain ends with neither, one may be overtaken between its release
  and its end, and a user without an active route gets no notice.
-/
import Mathlib.Tactic
import Clawbolt.OAuth.Reconnect

namespace Clawbolt.OAuth

open Text (Str)
open Runs

/-- the row after the first connect -/
def connected (configured : Bool) (first : Token) : Sys := step (Sys.init configured) (.connect first)

/-- a refresh token that was never there before -/
def Rotated (s : Sys) : Option Str → Prop
  | none => False
  | some x => x ≠ [] ∧ ∀ e ∈ s.seen, e.1 ≠ x

/-- refreshes only, and each grant rotates the refresh token -/
def Refreshing (s : Sys) : Op → Prop
  | .connect _ | .disconnect _ => False
  | .answer t (.granted data) => ∀ _tok ∈ (s.phase t).asked, Rotated s data.refreshToken
  | _ => True

/-- the answers after which the posted token is of no use -/
def Answer.decisive : Answer → Bool
  | failed => false
  | _ => true

/-- the refresh tokens that got such an answer, in order -/
def spent (s : Sys) : List Str := (s.answers.filter fun e => e.2.decisive).map Prod.fst

/-- how a refresher may end: a load that needs no refresh and a wait in vain aside, with the access token that was the
newest one when it released the lock, with the failure it met, or with nothing to refresh -/
def Ended (first : Token) (s : Sys) (t : ℕ) (c : Caller) (o : Outcome) : Prop :=
  match s.released t with
  | none => o = .contended ∨ c = .inline
  | some newest =>
    match o with
    | .token tok => tok.accessToken = newest
    | .refused tok => (tok.refreshToken, Answer.refused) ∈ s.answers
    | .failed => ∃ x, (x, Answer.failed) ∈ s.answers
    | .nothing => s.row = none ∨ first.refreshToken = [] ∨ s.configured = false
    | .gone => s.row = none
    | .contended => False

namespace Phase

/-- between the acquisition and the release of the lock -/
def inside : Phase → Bool
  | locked _ | read _ _ | posting _ _ | granted _ _ _ | reread _ _ _ _ | saving _ _ _ | refused _ _ | retiring _ _ _
  | unlocking _ _ => true
  | _ => false

/-- the provider has refused, and the row is not deleted yet -/
def retires : Phase → Bool
  | refused _ _ | retiring _ _ _ => true
  | _ => false

/-- the provider has refused, and the user is not told yet -/
def telling : Phase → Bool
  | refused _ _ | retiring _ _ _ | unlocking _ (.refused _) | closing _ (.refused _) | handling _ _ | removing _ _ _
  | notifying _ _ => true
  | _ => false

/-- the lock is not released yet -/
def early : Phase → Bool
  | away | loading | loaded _ | locking _ => true
  | p => p.inside

/-- a disconnect -/
def revokes : Phase → Bool
  | revoking | revokingRow _ => true
  | _ => false

def caller : Phase → Option Caller
  | locking c | locked c | read c _ | posting c _ | granted c _ _ | reread c _ _ _ | saving c _ _ | refused c _
  | retiring c _ _ | unlocking c _ | closing c _ | handling c _ | removing c _ _ | notifying c _ | checking c
  | checked c _ | done c _ => some c
  | _ => none

end Phase

/-! ## The invariant -/

/-- the row, if there is one, holds the newest access token and a refresh token that is not spent -/
def Clean (s : Sys) : Prop := ∀ tok, s.stored = some tok → tok.accessToken = s.newest ∧ tok.refreshToken ∉ spent s

/-- the row still holds what was posted, and the token in hand is the newest one -/
structure InHand (s : Sys) (tok : Token) (posted : Str) : Prop where
  row : s.stored.map Token.refreshToken = some posted
  newest : tok.accessToken = s.newest
  unspent : tok.refreshToken ∉ spent s
  known : tok.refreshToken ∈ s.seen.map Prod.fst
  full : tok.refreshToken ≠ []

/-- what a refresher knows where it is -/
def Place (first : Token) (s : Sys) (t : ℕ) : Phase → Prop
  | .locked _ => Clean s
  | .read _ row => Clean s ∧ row = s.stored
  | .posting _ tok => Clean s ∧ s.stored = some tok ∧ tok.refreshToken ≠ []
  | .granted _ tok posted | .saving _ tok posted => InHand s tok posted
  | .reread _ tok posted row => InHand s tok posted ∧ row = s.stored
  | .refused _ tok => s.row ≠ none ∧ (tok.refreshToken, Answer.refused) ∈ s.answers
  | .retiring _ tok i => s.row.map Row.id = some i ∧ (tok.refreshToken, Answer.refused) ∈ s.answers
  | .unlocking _ o =>
    Clean s ∧
      match o with
      | .token tok => s.stored = some tok
      | .refused tok => s.row = none ∧ (tok.refreshToken, Answer.refused) ∈ s.answers
      | .failed => ∃ x, (x, Answer.failed) ∈ s.answers
      | .nothing => s.row = none ∨ first.refreshToken = [] ∨ s.configured = false
      | .contended | .gone => False
  | .closing c o => Ended first s t c o ∧ ∀ tok, o = .refused tok → s.row = none ∧ s.released t ≠ none
  | .handling _ tok | .notifying _ tok =>
    s.row = none ∧ s.released t ≠ none ∧ (tok.refreshToken, Answer.refused) ∈ s.answers
  | .removing _ _ _ => False
  | .checking _ =>
    (s.row = none ∨ first.refreshToken = [] ∨ s.configured = false) ∧ s.released t ≠ none
  | .checked _ row =>
    (s.row = none ∨ first.refreshToken = [] ∨ s.configured = false) ∧ s.released t ≠ none ∧ (row = none → s.row = none)
  | .done c o => Ended first s t c o
  | _ => True

/-- one refusal at most, which one refresher tells the user -/
structure Told (s : Sys) : Prop where
  most : s.refusals.length ≤ 1
  one : ∀ t t', (s.phase t).telling = true → (s.phase t').telling = true → t = t'
  silent : ∀ t, (s.phase t).telling = true → s.notices = [] ∧ s.refusals.length = 1
  told : (∀ t, (s.phase t).telling = false) → s.notices.length = s.refusals.length

structure Turns (first : Token) (s : Sys) : Prop where
  mutex : ∀ t, (s.phase t).inside = true ↔ s.lock = some t
  calm : ∀ t, (s.phase t).revokes = false
  early : ∀ t, (s.phase t).early = true → s.released t = none
  known : ∀ x ∈ spent s, x ∈ s.seen.map Prod.fst
  nodup : (spent s).Nodup
  row : ∀ tok, s.stored = some tok →
    tok.refreshToken ∈ s.seen.map Prod.fst ∧ (tok.refreshToken = [] → first.refreshToken = [])
  free : s.lock = none → Clean s
  dead : s.refusals ≠ [] → s.row = none ∨ ∃ t, (s.phase t).retires = true
  place : ∀ t, Place first s t (s.phase t)
  told : Told s

theorem turns_connected (configured : Bool) (first : Token) : Turns first (connected configured first) where
  mutex := fun t => ⟨fun h => (by cases h), fun h => (by cases h)⟩
  calm := fun t => rfl
  early := fun t _ => rfl
  known := fun t h => by cases h
  nodup := List.nodup_nil
  row := by
    intro tok htok
    cases htok
    exact ⟨by simp [connected, step, Sys.init, Sys.upsert], id⟩
  free := by
    intro _ tok htok
    cases htok
    exact ⟨rfl, fun h => by cases h⟩
  dead := fun h => absurd rfl h
  place := fun t => trivial
  told := ⟨Nat.zero_le _, fun _ _ h => (by cases h), fun _ h => (by cases h), fun _ => rfl⟩

/-! ## What the steps of others leave -/

/-- the row and what the provider said are the same -/
structure Alike (s s' : Sys) : Prop where
  row : s'.row = s.row
  newest : s'.newest = s.newest
  answers : s'.answers = s.answers
  seen : s'.seen = s.seen
  configured : s'.configured = s.configured

theorem Alike.spent {s s' : Sys} (h : Alike s s') : spent s' = spent s := by simp only [OAuth.spent, h.answers]

theorem Alike.clean {s s' : Sys} (h : Alike s s') (hc : Clean s) : Clean s' := by
  intro tok htok
  rw [Sys.stored, h.row] at htok
  rw [h.newest, h.spent]
  exact hc tok htok

theorem Alike.inHand {s s' : Sys} (h : Alike s s') {tok : Token} {posted : Str} (hi : InHand s tok posted) :
    InHand s' tok posted := by
  refine ⟨?_, ?_, ?_, ?_, hi.full⟩
  · rw [Sys.stored, h.row]; exact hi.row
  · rw [h.newest]; exact hi.newest
  · rw [h.spent]; exact hi.unspent
  · rw [h.seen]; exact hi.known

theorem ended_of {first : Token} {s s' : Sys} {t : ℕ} {c : Caller} {o : Outcome} (hrow : s.row = none → s'.row = none)
    (hans : s.answers ⊆ s'.answers) (hrel : s'.released t = s.released t) (hconf : s'.configured = s.configured)
    (h : Ended first s t c o) : Ended first s' t c o := by
  unfold Ended at h ⊢
  rw [hrel]
  split
  · next hr => rw [hr] at h; exact h
  · next newest hr =>
    rw [hr] at h
    cases o with
    | token tok => exact h
    | refused tok => exact hans h
    | failed => exact h.imp fun x hx => hans hx
    | nothing => rw [hconf]; exact h.imp hrow id
    | gone => exact hrow h
    | contended => exact h

/-- outside the lock a task only relies on what does not come back -/
theorem Place.outside {first : Token} {s s' : Sys} {t : ℕ} {p : Phase} (hout : p.inside = false)
    (hrow : s.row = none → s'.row = none) (hans : s.answers ⊆ s'.answers) (hrel : s'.released t = s.released t)
    (hconf : s'.configured = s.configured) (h : Place first s t p) : Place first s' t p := by
  cases p with
  | closing c o =>
    refine ⟨ended_of hrow hans hrel hconf h.1, fun tok htok => ?_⟩
    rw [hrel]
    exact ⟨hrow (h.2 tok htok).1, (h.2 tok htok).2⟩
  | handling c tok => exact ⟨hrow h.1, by rw [hrel]; exact h.2.1, hans h.2.2⟩
  | notifying c tok => exact ⟨hrow h.1, by rw [hrel]; exact h.2.1, hans h.2.2⟩
  | removing c tok i => exact h
  | checking c => exact ⟨by rw [hconf]; exact h.1.imp hrow id, by rw [hrel]; exact h.2⟩
  | checked c row =>
    exact ⟨by rw [hconf]; exact h.1.imp hrow id, by rw [hrel]; exact h.2.1, fun hr => hrow (h.2.2 hr)⟩
  | done c o => exact ended_of hrow hans hrel hconf h
  | away => trivial
  | loading => trivial
  | loaded row => trivial
  | locking c => trivial
  | revoking => trivial
  | revokingRow i => trivial
  | locked c => cases hout
  | read c row => cases hout
  | posting c tok => cases hout
  | granted c tok posted => cases hout
  | reread c tok posted row => cases hout
  | saving c tok posted => cases hout
  | refused c tok => cases hout
  | retiring c tok i => cases hout
  | unlocking c o => cases hout

theorem Place.alike {first : Token} {s s' : Sys} {t : ℕ} {p : Phase} (ha : Alike s s') (hrel : s'.released t = s.released t)
    (h : Place first s t p) : Place first s' t p := by
  by_cases hout : p.inside = false
  · exact h.outside hout (fun hr => ha.row.trans hr) (by rw [ha.answers]; exact List.Subset.refl _) hrel ha.configured
  · cases p with
    | locked c => exact ha.clean h
    | read c row => exact ⟨ha.clean h.1, by rw [Sys.stored, ha.row]; exact h.2⟩
    | posting c tok => exact ⟨ha.clean h.1, by rw [Sys.stored, ha.row]; exact h.2.1, h.2.2⟩
    | granted c tok posted => exact ha.inHand h
    | reread c tok posted row => exact ⟨ha.inHand h.1, by rw [Sys.stored, ha.row]; exact h.2⟩
    | saving c tok posted => exact ha.inHand h
    | refused c tok => exact ⟨by rw [ha.row]; exact h.1, by rw [ha.answers]; exact h.2⟩
    | retiring c tok i => exact ⟨by rw [ha.row]; exact h.1, by rw [ha.answers]; exact h.2⟩
    | unlocking c o =>
      refine ⟨ha.clean h.1, ?_⟩
      cases o with
      | token tok => exact (congrArg (Option.map Row.token) ha.row).trans h.2
      | refused tok => exact ⟨ha.row.trans h.2.1, by rw [ha.answers]; exact h.2.2⟩
      | failed => rw [ha.answers]; exact h.2
      | nothing =>
        rw [ha.row, ha.configured]
        exact h.2
      | contended => exact h.2
      | gone => exact h.2
    | _ => exact absurd rfl hout

/-- nothing that concerns the notices has changed -/
theorem Told.congr {s s' : Sys} (h : Told s) (htell : ∀ t, (s'.phase t).telling = (s.phase t).telling)
    (hn : s'.notices = s.notices) (hr : s'.refusals = s.refusals) : Told s' := by
  refine ⟨by rw [hr]; exact h.most, ?_, ?_, ?_⟩
  · intro t t' ht ht'
    exact h.one t t' ((htell t).symm.trans ht) ((htell t').symm.trans ht')
  · intro t ht
    rw [hn, hr]
    exact h.silent t ((htell t).symm.trans ht)
  · intro hall
    rw [hn, hr]
    exact h.told fun t => (htell t).symm.trans (hall t)

theorem telling_put {s : Sys} {t : ℕ} {p : Phase} (h : p.telling = (s.phase t).telling) (j : ℕ) :
    ((s.put t p).phase j).telling = (s.phase j).telling := by
  rw [phase_put]
  split_ifs with hj
  · rw [h, hj]
  · rfl

theorem inside_put {s : Sys} {t : ℕ} {p : Phase} (h : p.inside = (s.phase t).inside) (j : ℕ) :
    ((s.put t p).phase j).inside = (s.phase j).inside := by
  rw [phase_put]
  split_ifs with hj
  · rw [h, hj]
  · rfl

namespace Turns

variable {first : Token} {s : Sys} (h : Turns first s)
include h

/-- who is inside has the lock, so nobody else is -/
theorem outside {t : ℕ} (ht : (s.phase t).inside = true) {j : ℕ} (hj : j ≠ t) : (s.phase j).inside = false := by
  by_contra hin
  have h1 := (h.mutex t).1 ht
  have h2 := (h.mutex j).1 (by simpa using hin)
  exact hj (Option.some.inj (h2.symm.trans h1))

omit h in
theorem inside_of_retires {p : Phase} (hp : p.retires = true) : p.inside = true := by
  cases p with
  | refused c tok => rfl
  | retiring c tok i => rfl
  | _ => cases hp

/-- a row that is there was not refused, unless it is about to be deleted -/
theorem not_refused {t : ℕ} (ht : (s.phase t).inside = true) (hret : (s.phase t).retires = false) (hrow : s.row ≠ none) :
    s.refusals = [] := by
  by_contra hne
  rcases h.dead hne with hnone | ⟨j, hj⟩
  · exact hrow hnone
  · by_cases hjt : j = t
    · rw [hjt, hret] at hj
      cases hj
    · have hout := h.outside ht hjt
      rw [inside_of_retires hj] at hout
      cases hout

/-- a task goes on, and the row, the lock and the history are the same -/
theorem put {s' : Sys} {t : ℕ} {p : Phase} (hs : Same (s.put t p) s') (hin : p.inside = (s.phase t).inside)
    (htell : p.telling = (s.phase t).telling) (hcalm : p.revokes = false)
    (hearly : p.early = true → (s.phase t).early = true)
    (hret : (s.phase t).retires = true → p.retires = true ∨ s.row = none) (hplace : Place first s t p) :
    Turns first s' := by
  have ha : Alike s s' := ⟨hs.row, hs.newest, hs.answers, hs.seen, hs.configured⟩
  have hrel : ∀ j, s'.released j = s.released j := fun j => congrFun hs.released j
  refine ⟨?_, ?_, ?_, ?_, ?_, ?_, ?_, ?_, ?_, ?_⟩
  · intro j
    rw [hs.phase, inside_put hin, hs.lock]
    exact h.mutex j
  · intro j
    rw [hs.phase, phase_put]
    split_ifs
    · exact hcalm
    · exact h.calm j
  · intro j hj
    rw [hs.phase, phase_put] at hj
    rw [hrel]
    split_ifs at hj with hjt
    · rw [hjt]; exact h.early t (hearly hj)
    · exact h.early j hj
  · rw [ha.spent, ha.seen]; exact h.known
  · rw [ha.spent]; exact h.nodup
  · intro tok htok
    rw [Sys.stored, ha.row] at htok
    rw [ha.seen]
    exact h.row tok htok
  · intro hl
    exact ha.clean (h.free (hs.lock.symm.trans hl))
  · intro hne
    rw [hs.refusals] at hne
    rw [ha.row]
    rcases h.dead hne with hnone | ⟨j, hj⟩
    · exact Or.inl hnone
    · by_cases hjt : j = t
      · rcases hret (hjt ▸ hj) with hp | hnone
        · exact Or.inr ⟨t, by rw [hs.phase, phase_put_self]; exact hp⟩
        · exact Or.inl hnone
      · exact Or.inr ⟨j, by rw [hs.phase, phase_put, if_neg hjt]; exact hj⟩
  · intro j
    rw [hs.phase, phase_put]
    split_ifs with hjt
    · rw [hjt]; exact hplace.alike ha (hrel t)
    · exact (h.place j).alike ha (hrel j)
  · refine h.told.congr (fun j => ?_) hs.notices hs.refusals
    rw [hs.phase, telling_put htell]

theorem same {s' : Sys} (hs : Same s s') : Turns first s' := by
  have heq : s.put 0 (s.phase 0) = s := by
    unfold Sys.put
    rw [Function.update_eq_self]
  have hs0 : Same (s.put 0 (s.phase 0)) s' := by rw [heq]; exact hs
  exact h.put hs0 rfl rfl (h.calm 0) id Or.inl (h.place 0)

theorem place_of {t : ℕ} {p : Phase} (ht : s.phase t = p) : Place first s t p := ht ▸ h.place t

theorem afterLoad {t : ℕ} {p : Phase} (row : Option Token) {s' : Sys} (ht : s.phase t = p) (hp : p = .away ∨ p = .loaded row)
    (hs : Same (s.put t (afterLoad s row)) s') : Turns first s' := by
  have hearly : (s.phase t).early = true := by rcases hp with rfl | rfl <;> rw [ht] <;> rfl
  have hrel := h.early t hearly
  have hdone : ∀ o, Place first s t (.done .inline o) := by
    intro o
    change Ended first s t .inline o
    unfold Ended
    rw [hrel]
    exact Or.inr rfl
  have hin : (s.phase t).inside = false := by rcases hp with rfl | rfl <;> rw [ht] <;> rfl
  have htell : (s.phase t).telling = false := by rcases hp with rfl | rfl <;> rw [ht] <;> rfl
  have hret : (s.phase t).retires = true → ∀ q : Phase, q.retires = true ∨ s.row = none := by
    rcases hp with rfl | rfl <;> rw [ht] <;> exact nofun
  have hcases : (∃ o, OAuth.afterLoad s row = .done .inline o) ∨ OAuth.afterLoad s row = .locking .inline := by
    cases row with
    | none => exact Or.inl ⟨_, rfl⟩
    | some tok =>
      unfold OAuth.afterLoad
      dsimp only
      split_ifs
      · exact Or.inl ⟨_, rfl⟩
      · exact Or.inl ⟨_, rfl⟩
      · exact Or.inr rfl
  rcases hcases with ⟨o, ho⟩ | ho
  · rw [ho] at hs
    exact h.put hs hin.symm htell.symm rfl nofun (fun hr => hret hr _) (hdone o)
  · rw [ho] at hs
    exact h.put hs hin.symm htell.symm rfl (fun _ => hearly) (fun hr => hret hr _) trivial

theorem afterRead {t : ℕ} {c : Caller} {row : Option Token} {s' : Sys} (ht : s.phase t = .read c row)
    (hs : Same (s.put t (afterRead s c row)) s') : Turns first s' := by
  obtain ⟨hclean, rfl⟩ : Clean s ∧ row = s.stored := h.place_of ht
  have hgo : ∀ p : Phase, p.inside = true → p.telling = false → p.revokes = false → Place first s t p →
      OAuth.afterRead s c s.stored = p → Turns first s' := by
    intro p hin htell hcalm hplace hp
    rw [hp] at hs
    refine h.put hs (by rw [ht]; exact hin) (by rw [ht]; exact htell) hcalm (fun _ => by rw [ht]; rfl) ?_ hplace
    rw [ht]
    exact nofun
  cases hst : s.stored with
  | none =>
    refine hgo (.unlocking c .nothing) rfl rfl rfl ⟨hclean, Or.inl ?_⟩ (by rw [hst]; rfl)
    exact Option.map_eq_none_iff.1 hst
  | some tok =>
    by_cases hempty : tok.refreshToken = []
    · refine hgo (.unlocking c .nothing) rfl rfl rfl ⟨hclean, Or.inr (Or.inl ((h.row tok hst).2 hempty))⟩ ?_
      rw [hst]
      exact if_pos hempty
    · by_cases hpeer : peerRefreshed s c tok = true
      · refine hgo (.unlocking c (.token tok)) rfl rfl rfl ⟨hclean, hst⟩ ?_
        rw [hst]
        exact (if_neg hempty).trans (if_pos hpeer)
      · by_cases hconf : s.configured = false
        · refine hgo (.unlocking c .nothing) rfl rfl rfl ⟨hclean, Or.inr (Or.inr hconf)⟩ ?_
          rw [hst]
          exact (if_neg hempty).trans ((if_neg hpeer).trans (if_pos hconf))
        · refine hgo (.posting c tok) rfl rfl rfl ⟨hclean, hst, hempty⟩ ?_
          rw [hst]
          exact (if_neg hempty).trans ((if_neg hpeer).trans (if_neg hconf))

/-- **The row is what was posted.** Under the lock nobody else writes it, so the second read finds it unchanged. -/
theorem afterReread {t : ℕ} {c : Caller} {tok : Token} {posted : Str} {row : Option Token} {s' : Sys}
    (ht : s.phase t = .reread c tok posted row) (hs : Same (s.put t (afterReread c tok posted row)) s') :
    Turns first s' := by
  obtain ⟨hhand, rfl⟩ : InHand s tok posted ∧ row = s.stored := h.place_of ht
  obtain ⟨current, hcur, hposted⟩ := Option.map_eq_some_iff.1 hhand.row
  have hp : OAuth.afterReread c tok posted s.stored = .saving c { tok with extra := current.extra } posted := by
    rw [hcur]
    exact if_neg (not_not.2 hposted)
  rw [hp] at hs
  refine h.put hs (by rw [ht]; rfl) (by rw [ht]; rfl) rfl (fun _ => by rw [ht]; rfl) (by rw [ht]; exact nofun) ?_
  exact ⟨hhand.row, hhand.newest, hhand.unspent, hhand.known, hhand.full⟩

theorem afterClose {t : ℕ} {c : Caller} {o : Outcome} {s' : Sys} (ht : s.phase t = .closing c o)
    (hs : Same (s.put t (afterClose c o)) s') : Turns first s' := by
  obtain ⟨hended, hgone⟩ : Ended first s t c o ∧ ∀ tok, o = .refused tok → s.row = none ∧ s.released t ≠ none :=
    h.place_of ht
  have hdone : OAuth.afterClose c o = .done c o → (∀ tok, o ≠ .refused tok) → Turns first s' := by
    intro hp ho
    rw [hp] at hs
    refine h.put hs (by rw [ht]; rfl) ?_ rfl nofun (by rw [ht]; exact nofun) hended
    rw [ht]
    cases o with
    | refused tok => exact absurd rfl (ho tok)
    | _ => rfl
  cases o with
  | refused tok =>
    obtain ⟨hrow, hrel⟩ := hgone tok rfl
    refine h.put hs (by rw [ht]; rfl) (by rw [ht]; rfl) rfl nofun (by rw [ht]; exact nofun) ⟨hrow, hrel, ?_⟩
    obtain ⟨newest, hnewest⟩ := Option.ne_none_iff_exists'.1 hrel
    rw [Ended, hnewest] at hended
    exact hended
  | nothing =>
    cases c with
    | inline => exact hdone rfl nofun
    | sweep => exact hdone rfl nofun
    | midCall rejected =>
      refine h.put hs (by rw [ht]; rfl) (by rw [ht]; rfl) rfl nofun (by rw [ht]; exact nofun) ?_
      cases hrel : s.released t with
      | none =>
        rw [Ended, hrel] at hended
        rcases hended with hno | hno <;> cases hno
      | some newest =>
        rw [Ended, hrel] at hended
        exact ⟨hended, by rw [hrel]; exact nofun⟩
  | token tok => exact hdone rfl nofun
  | contended => exact hdone rfl nofun
  | failed => exact hdone rfl nofun
  | gone => exact hdone rfl nofun

theorem walk {t : ℕ} {p p' : Phase} {s' : Sys} (ht : s.phase t = p) (hw : Walk s p p') (hs : Same (s.put t p') s') :
    Turns first s' := by
  cases hw with
  | hit row => exact h.afterLoad row ht (Or.inl rfl) hs
  | load => exact h.put hs (by rw [ht]; rfl) (by rw [ht]; rfl) rfl (fun _ => by rw [ht]; rfl) (by rw [ht]; exact nofun) trivial
  | begin c =>
    exact h.put hs (by rw [ht]; rfl) (by rw [ht]; rfl) rfl (fun _ => by rw [ht]; rfl) (by rw [ht]; exact nofun) trivial
  | loaded => exact h.put hs (by rw [ht]; rfl) (by rw [ht]; rfl) rfl (fun _ => by rw [ht]; rfl) (by rw [ht]; exact nofun) trivial
  | afterLoad row => exact h.afterLoad row ht (Or.inr rfl) hs
  | giveUp c =>
    refine h.put hs (by rw [ht]; rfl) (by rw [ht]; rfl) rfl nofun (by rw [ht]; exact nofun) ⟨?_, nofun⟩
    rw [Ended, h.early t (by rw [ht]; rfl)]
    exact Or.inl rfl
  | read c =>
    have hclean : Clean s := h.place_of ht
    exact h.put hs (by rw [ht]; rfl) (by rw [ht]; rfl) rfl (fun _ => by rw [ht]; rfl) (by rw [ht]; exact nofun) ⟨hclean, rfl⟩
  | afterRead c row => exact h.afterRead ht hs
  | reread c tok posted =>
    have hhand : InHand s tok posted := h.place_of ht
    exact h.put hs (by rw [ht]; rfl) (by rw [ht]; rfl) rfl (fun _ => by rw [ht]; rfl) (by rw [ht]; exact nofun) ⟨hhand, rfl⟩
  | afterReread c tok posted row => exact h.afterReread ht hs
  | noRow c tok hrow => exact absurd hrow (h.place_of ht).1
  | retire c tok r hrow =>
    refine h.put hs (by rw [ht]; rfl) (by rw [ht]; rfl) rfl (fun _ => by rw [ht]; rfl) (fun _ => Or.inl rfl) ⟨?_, (h.place_of ht).2⟩
    rw [hrow]
    rfl
  | noRowLeft c tok hrow =>
    obtain ⟨hnone, hrel, hans⟩ := h.place_of ht
    exact h.put hs (by rw [ht]; rfl) (by rw [ht]; rfl) rfl nofun (by rw [ht]; exact nofun) ⟨hnone, hrel, hans⟩
  | remove c tok r hrow =>
    have hnone := (h.place_of ht).1
    rw [hrow] at hnone
    cases hnone
  | check c =>
    obtain ⟨hwhy, hrel⟩ := h.place_of ht
    exact h.put hs (by rw [ht]; rfl) (by rw [ht]; rfl) rfl nofun (by rw [ht]; exact nofun)
      ⟨hwhy, hrel, Option.map_eq_none_iff.1⟩
  | checked c row =>
    obtain ⟨hwhy, hrel, hnone⟩ := h.place_of ht
    refine h.put hs (by rw [ht]; rfl) (by rw [ht]; rfl) rfl nofun (by rw [ht]; exact nofun) ?_
    obtain ⟨newest, hnewest⟩ := Option.ne_none_iff_exists'.1 hrel
    change Ended first s t c _
    rw [Ended, hnewest]
    by_cases hr : row = none
    · rw [if_pos hr]; exact hnone hr
    · rw [if_neg hr]; exact hwhy
  | close c o => exact h.afterClose ht hs

/-! ## The steps that write -/

theorem calm_put {t : ℕ} {p : Phase} (hp : p.revokes = false) (j : ℕ) : ((s.put t p).phase j).revokes = false := by
  rw [phase_put]
  split_ifs
  · exact hp
  · exact h.calm j

theorem early_put {t : ℕ} {p : Phase} (hp : p.early = true → (s.phase t).early = true) (j : ℕ)
    (hj : ((s.put t p).phase j).early = true) : s.released j = none := by
  rw [phase_put] at hj
  split_ifs at hj with hjt
  · rw [hjt]; exact h.early t (hp hj)
  · exact h.early j hj

/-- under the lock the others are outside, and rely on little -/
theorem place_put {s' : Sys} {t : ℕ} {p : Phase} (ht : (s.phase t).inside = true) (hphase : s'.phase = (s.put t p).phase)
    (hrow : s.row = none → s'.row = none) (hans : s.answers ⊆ s'.answers) (hrel : s'.released = s.released)
    (hconf : s'.configured = s.configured) (hp : Place first s' t p) (j : ℕ) : Place first s' j (s'.phase j) := by
  rw [hphase, phase_put]
  split_ifs with hjt
  · rw [hjt]; exact hp
  · exact (h.place j).outside (h.outside ht hjt) hrow hans (congrFun hrel j) hconf

theorem lock {t : ℕ} {c : Caller} (ht : s.phase t = .locking c) (hfree : s.lock = none) :
    Turns first { s.put t (.locked c) with lock := some t } := by
  have ha : Alike s { s.put t (.locked c) with lock := some t } := ⟨rfl, rfl, rfl, rfl, rfl⟩
  refine ⟨?_, h.calm_put rfl, h.early_put fun _ => by rw [ht]; rfl, h.known, h.nodup, h.row, nofun, ?_, ?_, ?_⟩
  · intro j
    change ((s.put t (.locked c)).phase j).inside = true ↔ some t = some j
    rw [phase_put]
    split_ifs with hjt
    · rw [hjt]; simp [Phase.inside]
    · rw [h.mutex j, hfree]
      simpa using fun hj => hjt hj.symm
  · intro hne
    rcases h.dead hne with hnone | ⟨j, hj⟩
    · exact Or.inl hnone
    · have hin := (h.mutex j).1 (inside_of_retires hj)
      rw [hfree] at hin
      cases hin
  · intro j
    change Place first _ j ((s.put t (.locked c)).phase j)
    rw [phase_put]
    split_ifs
    · exact ha.clean (h.free hfree)
    · exact (h.place j).alike ha rfl
  · exact h.told.congr (telling_put (by rw [ht]; rfl)) rfl rfl

theorem granted {t : ℕ} {c : Caller} {tok : Token} {data : Data} (ht : s.phase t = .posting c tok)
    (hrot : Rotated s data.refreshToken) :
    Turns first { s.put t (.granted c (tok.refreshed data s.now) tok.refreshToken) with
      answers := s.answers ++ [(tok.refreshToken, .granted data)]
      seen := s.seen ++ [((tok.refreshed data s.now).refreshToken, tok.grant)]
      newest := data.accessToken } := by
  obtain ⟨hclean, hst, hfull⟩ := h.place_of ht
  have hin : (s.phase t).inside = true := by rw [ht]; rfl
  have hlock := (h.mutex t).1 hin
  have hknown := (h.row tok hst).1
  obtain ⟨x, hx, hxfull, hxnew⟩ : ∃ x, data.refreshToken = some x ∧ x ≠ [] ∧ ∀ e ∈ s.seen, e.1 ≠ x := by
    cases hd : data.refreshToken with
    | none => rw [hd] at hrot; exact hrot.elim
    | some x => rw [hd] at hrot; exact ⟨x, rfl, hrot⟩
  have href : (tok.refreshed data s.now).refreshToken = x := by rw [Token.refreshed, hx]; rfl
  have hxseen : x ∉ s.seen.map Prod.fst := by
    intro hmem
    obtain ⟨e, he, hex⟩ := List.mem_map.1 hmem
    exact hxnew e he hex
  have hrefusals := h.not_refused hin (by rw [ht]; rfl) (fun hnone => by rw [Sys.stored, hnone] at hst; cases hst)
  set s' : Sys := { s.put t (.granted c (tok.refreshed data s.now) tok.refreshToken) with
      answers := s.answers ++ [(tok.refreshToken, .granted data)]
      seen := s.seen ++ [((tok.refreshed data s.now).refreshToken, tok.grant)]
      newest := data.accessToken } with hs'
  have hspent : spent s' = spent s ++ [tok.refreshToken] := by
    simp [spent, hs', Answer.decisive]
  refine ⟨?_, h.calm_put rfl, h.early_put fun _ => by rw [ht]; rfl, ?_, ?_, ?_, ?_, ?_, ?_, ?_⟩
  · intro j
    exact (iff_of_eq (congrArg (· = true) (inside_put (by rw [ht]; rfl) j))).trans (h.mutex j)
  · intro y hy
    rw [hspent, List.mem_append, List.mem_singleton] at hy
    rw [show s'.seen = s.seen ++ _ from rfl, List.map_append]
    rcases hy with hy | rfl
    · exact List.mem_append_left _ (h.known y hy)
    · exact List.mem_append_left _ hknown
  · rw [hspent]
    exact List.nodup_append.2 ⟨h.nodup, by simp, by
      intro y hy z hz hyz
      rw [List.mem_singleton.1 hz] at hyz
      exact (hclean tok hst).2 (hyz ▸ hy)⟩
  · intro tok' htok'
    obtain ⟨hin', hempty⟩ := h.row tok' htok'
    exact ⟨by rw [show s'.seen = s.seen ++ _ from rfl, List.map_append]; exact List.mem_append_left _ hin', hempty⟩
  · intro hnone
    have : s.lock = none := hnone
    rw [hlock] at this
    cases this
  · exact fun hne => absurd hrefusals hne
  · refine h.place_put hin rfl id (List.subset_append_left _ _) rfl rfl ⟨?_, rfl, ?_, ?_, ?_⟩
    · exact (congrArg (Option.map Token.refreshToken) hst)
    · rw [hspent, href, List.mem_append, List.mem_singleton]
      rintro (hy | hy)
      · exact hxseen (h.known x hy)
      · exact hxseen (hy ▸ hknown)
    · rw [show s'.seen = s.seen ++ _ from rfl, List.map_append]
      exact List.mem_append_right _ (List.mem_singleton_self _)
    · rw [href]; exact hxfull
  · exact h.told.congr (telling_put (by rw [ht]; rfl)) rfl rfl

/-- **The first refusal.** The row was still there, so nobody was refused before. -/
theorem refused {t : ℕ} {c : Caller} {tok : Token} (ht : s.phase t = .posting c tok) :
    Turns first { s.put t (.refused c tok) with
      answers := s.answers ++ [(tok.refreshToken, .refused)], refusals := s.refusals ++ [tok.grant] } := by
  obtain ⟨hclean, hst, hfull⟩ := h.place_of ht
  have hin : (s.phase t).inside = true := by rw [ht]; rfl
  have hlock := (h.mutex t).1 hin
  have hrow : s.row ≠ none := fun hnone => by rw [Sys.stored, hnone] at hst; cases hst
  have hrefusals := h.not_refused hin (by rw [ht]; rfl) hrow
  have hquiet : ∀ j, (s.phase j).telling = false := by
    intro j
    by_contra htell
    have hone := (h.told.silent j (by simpa using htell)).2
    rw [hrefusals] at hone
    cases hone
  have hnotices : s.notices = [] := by
    have hlen := h.told.told hquiet
    rw [hrefusals] at hlen
    exact List.eq_nil_of_length_eq_zero hlen
  set s' : Sys := { s.put t (.refused c tok) with
      answers := s.answers ++ [(tok.refreshToken, .refused)], refusals := s.refusals ++ [tok.grant] } with hs'
  have hspent : spent s' = spent s ++ [tok.refreshToken] := by
    simp [spent, hs', Answer.decisive]
  have hone : s'.refusals.length = 1 := by simp [hs', hrefusals]
  have htell : ∀ j, (s'.phase j).telling = true → j = t := by
    intro j hj
    by_contra hjt
    have hold : (s'.phase j).telling = (s.phase j).telling := congrArg Phase.telling (Function.update_of_ne hjt _ _)
    rw [hold, hquiet j] at hj
    cases hj
  refine ⟨?_, h.calm_put rfl, h.early_put fun _ => by rw [ht]; rfl, ?_, ?_, h.row, ?_, ?_, ?_, ?_⟩
  · intro j
    exact (iff_of_eq (congrArg (· = true) (inside_put (by rw [ht]; rfl) j))).trans (h.mutex j)
  · intro y hy
    rw [hspent, List.mem_append, List.mem_singleton] at hy
    rcases hy with hy | rfl
    · exact h.known y hy
    · exact (h.row tok hst).1
  · rw [hspent]
    exact List.nodup_append.2 ⟨h.nodup, by simp, by
      intro y hy z hz hyz
      rw [List.mem_singleton.1 hz] at hyz
      exact (hclean tok hst).2 (hyz ▸ hy)⟩
  · intro hnone
    have : s.lock = none := hnone
    rw [hlock] at this
    cases this
  · exact fun _ => Or.inr ⟨t, congrArg Phase.retires (phase_put_self _ _ _)⟩
  · refine h.place_put hin rfl id (List.subset_append_left _ _) rfl rfl ⟨hrow, ?_⟩
    exact List.mem_append_right _ (List.mem_singleton_self _)
  · refine ⟨le_of_eq hone, ?_, fun _ _ => ⟨hnotices, hone⟩, ?_⟩
    · intro j j' hj hj'
      rw [htell j hj, htell j' hj']
    · intro hall
      have htrue : (s'.phase t).telling = true := congrArg Phase.telling (phase_put_self _ _ _)
      rw [hall t] at htrue
      cases htrue

theorem failed {t : ℕ} {c : Caller} {tok : Token} (ht : s.phase t = .posting c tok) :
    Turns first { s.put t (.unlocking c .failed) with answers := s.answers ++ [(tok.refreshToken, .failed)] } := by
  obtain ⟨hclean, hst, hfull⟩ := h.place_of ht
  have hin : (s.phase t).inside = true := by rw [ht]; rfl
  have hlock := (h.mutex t).1 hin
  set s' : Sys := { s.put t (.unlocking c .failed) with answers := s.answers ++ [(tok.refreshToken, .failed)] } with hs'
  have hspent : spent s' = spent s := by simp [spent, hs', Answer.decisive]
  have hrefusals := h.not_refused hin (by rw [ht]; rfl) (fun hnone => by rw [Sys.stored, hnone] at hst; cases hst)
  refine ⟨?_, h.calm_put rfl, h.early_put fun _ => by rw [ht]; rfl, ?_, ?_, h.row, ?_, ?_, ?_, ?_⟩
  · intro j
    exact (iff_of_eq (congrArg (· = true) (inside_put (by rw [ht]; rfl) j))).trans (h.mutex j)
  · rw [hspent]; exact h.known
  · rw [hspent]; exact h.nodup
  · intro hnone
    have : s.lock = none := hnone
    rw [hlock] at this
    cases this
  · exact fun hne => absurd hrefusals hne
  · refine h.place_put hin rfl id (List.subset_append_left _ _) rfl rfl ⟨?_, tok.refreshToken, ?_⟩
    · intro tok' htok'
      rw [hspent]
      exact hclean tok' htok'
    · exact List.mem_append_right _ (List.mem_singleton_self _)
  · exact h.told.congr (telling_put (by rw [ht]; rfl)) rfl rfl

/-- **The new token is saved.** It replaces the one that was posted. -/
theorem saved {t : ℕ} {c : Caller} {tok : Token} {posted : Str} (ht : s.phase t = .saving c tok posted) :
    Turns first ((s.put t (.unlocking c (.token tok))).upsert tok) := by
  have hhand : InHand s tok posted := h.place_of ht
  have hin : (s.phase t).inside = true := by rw [ht]; rfl
  have hlock := (h.mutex t).1 hin
  have hrow : s.row ≠ none := by
    intro hnone
    have := hhand.row
    rw [Sys.stored, hnone] at this
    cases this
  have hrefusals := h.not_refused hin (by rw [ht]; rfl) hrow
  obtain ⟨i, n, hup⟩ := upsert_same (s.put t (.unlocking c (.token tok))) tok
  rw [hup]
  refine ⟨?_, h.calm_put rfl, h.early_put fun _ => by rw [ht]; rfl, h.known, h.nodup, ?_, ?_, ?_, ?_, ?_⟩
  · intro j
    exact (iff_of_eq (congrArg (· = true) (inside_put (by rw [ht]; rfl) j))).trans (h.mutex j)
  · intro tok' htok'
    cases htok'
    exact ⟨hhand.known, fun hempty => absurd hempty hhand.full⟩
  · intro hnone
    have : s.lock = none := hnone
    rw [hlock] at this
    cases this
  · exact fun hne => absurd hrefusals hne
  · refine h.place_put hin rfl (fun hnone => absurd hnone hrow) (List.Subset.refl _) rfl rfl ⟨?_, rfl⟩
    intro tok' htok'
    cases htok'
    exact ⟨hhand.newest, hhand.unspent⟩
  · exact h.told.congr (telling_put (by rw [ht]; rfl)) rfl rfl

/-- **The refused row is deleted**, before the lock is released. -/
theorem retired {t : ℕ} {c : Caller} {tok : Token} {i : ℕ} (ht : s.phase t = .retiring c tok i) :
    Turns first ((s.put t (.unlocking c (.refused tok))).deleteRow i) := by
  obtain ⟨hid, hans⟩ := h.place_of ht
  have hin : (s.phase t).inside = true := by rw [ht]; rfl
  have hlock := (h.mutex t).1 hin
  have hnone : ((s.put t (.unlocking c (.refused tok))).deleteRow i).row = none := if_pos hid
  have hclean : Clean ((s.put t (.unlocking c (.refused tok))).deleteRow i) := by
    intro tok' htok'
    rw [Sys.stored, hnone] at htok'
    cases htok'
  refine ⟨?_, h.calm_put rfl, h.early_put fun _ => by rw [ht]; rfl, h.known, h.nodup, ?_, fun _ => hclean,
    fun _ => Or.inl hnone, ?_, ?_⟩
  · intro j
    exact (iff_of_eq (congrArg (· = true) (inside_put (by rw [ht]; rfl) j))).trans (h.mutex j)
  · intro tok' htok'
    rw [Sys.stored, hnone] at htok'
    cases htok'
  · exact h.place_put hin rfl (fun _ => hnone) (List.Subset.refl _) rfl rfl ⟨hclean, hnone, hans⟩
  · exact h.told.congr (telling_put (by rw [ht]; rfl)) rfl rfl

theorem unlock {t : ℕ} {c : Caller} {o : Outcome} (ht : s.phase t = .unlocking c o) :
    Turns first
      { s.put t (.closing c o) with lock := none, released := Function.update s.released t (some s.newest) } := by
  obtain ⟨hclean, hwhy⟩ := h.place_of ht
  have hin : (s.phase t).inside = true := by rw [ht]; rfl
  have hlock := (h.mutex t).1 hin
  have hrel : ∀ j, j ≠ t → Function.update s.released t (some s.newest) j = s.released j :=
    fun j hj => Function.update_of_ne hj _ _
  refine ⟨?_, h.calm_put rfl, ?_, h.known, h.nodup, h.row, fun _ => hclean, ?_, ?_, ?_⟩
  · intro j
    change ((s.put t (.closing c o)).phase j).inside = true ↔ none = some j
    rw [phase_put]
    split_ifs with hjt
    · simp [Phase.inside]
    · rw [h.outside hin hjt]; simp
  · intro j hj
    have hjt : j ≠ t := by
      rintro rfl
      have hclosing := congrArg Phase.early (phase_put_self s j (.closing c o))
      exact absurd (hclosing.symm.trans hj) Bool.false_ne_true
    exact (hrel j hjt).trans (h.early_put (t := t) (p := .closing c o) nofun j hj)
  · intro hne
    rcases h.dead hne with hnone | ⟨j, hj⟩
    · exact Or.inl hnone
    · by_cases hjt : j = t
      · rw [hjt, ht] at hj
        cases hj
      · exact Or.inr ⟨j, (congrArg Phase.retires (Function.update_of_ne hjt _ _)).trans hj⟩
  · intro j
    change Place first _ j ((s.put t (.closing c o)).phase j)
    rw [phase_put]
    split_ifs with hjt
    · rw [hjt]
      have hnow : Function.update s.released t (some s.newest) t = some s.newest := Function.update_self _ _ _
      refine ⟨?_, ?_⟩
      · rw [Ended]
        simp only [hnow]
        cases o with
        | token tok => exact (hclean tok hwhy).1
        | refused tok => exact hwhy.2
        | failed => exact hwhy
        | nothing => exact hwhy
        | contended => exact hwhy.elim
        | gone => exact hwhy.elim
      · rintro tok rfl
        exact ⟨hwhy.1, by simp only [hnow]; exact nofun⟩
    · exact Place.alike (s := s) ⟨rfl, rfl, rfl, rfl, rfl⟩ (hrel j hjt) (h.place j)
  · refine h.told.congr (telling_put ?_) rfl rfl
    rw [ht]
    cases o <;> rfl

/-- **The notice.** It is the one that the refusal asks for. -/
theorem notify {t : ℕ} {c : Caller} {tok : Token} {route : Bool} (ht : s.phase t = .notifying c tok) :
    Turns first { s.put t (.done c (.refused tok)) with notices := s.notices ++ [route] } := by
  obtain ⟨hnone, hrel, hans⟩ := h.place_of ht
  have htelling : (s.phase t).telling = true := by rw [ht]; rfl
  obtain ⟨hnotices, hone⟩ := h.told.silent t htelling
  have ha : Alike s { s.put t (.done c (.refused tok)) with notices := s.notices ++ [route] } := ⟨rfl, rfl, rfl, rfl, rfl⟩
  have hquiet : ∀ j, ((s.put t (.done c (.refused tok))).phase j).telling = false := by
    intro j
    rw [phase_put]
    split_ifs with hjt
    · rfl
    · by_contra htell
      exact hjt (h.told.one j t (by simpa using htell) htelling)
  refine ⟨?_, h.calm_put rfl, h.early_put nofun, h.known, h.nodup, h.row, h.free, ?_, ?_, ?_⟩
  · intro j
    exact (iff_of_eq (congrArg (· = true) (inside_put (by rw [ht]; rfl) j))).trans (h.mutex j)
  · exact fun _ => Or.inl hnone
  · intro j
    change Place first _ j ((s.put t (.done c (.refused tok))).phase j)
    rw [phase_put]
    split_ifs with hjt
    · rw [hjt]
      refine Place.alike ha rfl ?_
      obtain ⟨newest, hnewest⟩ := Option.ne_none_iff_exists'.1 hrel
      change Ended first s t c _
      rw [Ended, hnewest]
      exact hans
    · exact (h.place j).alike ha rfl
  · refine ⟨h.told.most, ?_, ?_, ?_⟩
    · intro j j' hj
      exact absurd ((hquiet j).symm.trans hj) Bool.false_ne_true
    · intro j hj
      exact absurd ((hquiet j).symm.trans hj) Bool.false_ne_true
    · intro _
      change (s.notices ++ [route]).length = s.refusals.length
      rw [hnotices, hone]
      rfl

end Turns

theorem Move.turns {first : Token} {s s' : Sys} {o : Op} (hm : Move s o s') (hr : Refreshing s o) (h : Turns first s) :
    Turns first s' := by
  cases hm with
  | same hs => exact h.same hs
  | walk ht hw hs => exact h.walk ht hw hs
  | lock ht hfree => exact h.lock ht hfree
  | @granted t c tok data ht => exact h.granted ht (hr tok (by rw [ht]; rfl))
  | refused ht => exact h.refused ht
  | failed ht => exact h.failed ht
  | saved ht => exact h.saved ht
  | retired ht => exact h.retired ht
  | removed ht => exact (h.place_of ht).elim
  | disconnect ht => exact hr.elim
  | @revoke t r ht hrow =>
    have hcalm := h.calm t
    rw [ht] at hcalm
    cases hcalm
  | @revoked t i ht =>
    have hcalm := h.calm t
    rw [ht] at hcalm
    cases hcalm
  | @absent t ht hrow =>
    have hcalm := h.calm t
    rw [ht] at hcalm
    cases hcalm
  | unlock ht => exact h.unlock ht
  | notify ht => exact h.notify ht
  | connect => exact hr.elim

theorem step_turns {first : Token} {s : Sys} {o : Op} (h : Turns first s) (hr : Refreshing s o) : Turns first (step s o) :=
  (step_move s o).turns hr h

/-! ## The hooks -/

theorem Walk.caller {s : Sys} {p p' : Phase} (hw : Walk s p p') {c : Caller} (hc : p.caller = some c) :
    p'.caller = some c := by
  cases hw with
  | hit row => cases hc
  | load => cases hc
  | begin c => cases hc
  | loaded => cases hc
  | afterLoad row => cases hc
  | afterRead c' row =>
    cases hc
    cases row with
    | none => rfl
    | some tok =>
      unfold OAuth.afterRead
      dsimp only
      split_ifs <;> rfl
  | afterReread c' tok posted row =>
    cases hc
    cases row with
    | none => rfl
    | some current =>
      unfold OAuth.afterReread
      dsimp only
      split_ifs <;> rfl
  | close c' o =>
    cases hc
    cases o with
    | nothing => cases c <;> rfl
    | _ => rfl
  | _ => exact hc

theorem caller_put {s : Sys} {t : ℕ} {p : Phase} {c : Caller} (hp : (s.phase t).caller = some c → p.caller = some c) {j : ℕ}
    (hj : (s.phase j).caller = some c) : ((s.put t p).phase j).caller = some c := by
  rw [phase_put]
  split_ifs with hjt
  · exact hp (hjt ▸ hj)
  · exact hj

/-- whoever started a refresh, it stays theirs -/
theorem Move.caller {s s' : Sys} {o : Op} (hm : Move s o s') {j : ℕ} {c : Caller} (hj : (s.phase j).caller = some c) :
    (s'.phase j).caller = some c := by
  cases hm with
  | same hs => rw [hs.phase]; exact hj
  | @walk _ t p p' _ ht hw hs =>
    rw [hs.phase]
    exact caller_put (fun hc => hw.caller (ht ▸ hc)) hj
  | lock ht hfree => exact caller_put (fun hc => by rw [ht] at hc; exact hc) hj
  | granted ht => exact caller_put (fun hc => by rw [ht] at hc; exact hc) hj
  | refused ht => exact caller_put (fun hc => by rw [ht] at hc; exact hc) hj
  | failed ht => exact caller_put (fun hc => by rw [ht] at hc; exact hc) hj
  | @saved t c' tok posted ht =>
    obtain ⟨i, n, hup⟩ := upsert_same (s.put t (.unlocking c' (.token tok))) tok
    rw [hup]
    exact caller_put (fun hc => by rw [ht] at hc; exact hc) hj
  | retired ht => exact caller_put (fun hc => by rw [ht] at hc; exact hc) hj
  | removed ht => exact caller_put (fun hc => by rw [ht] at hc; exact hc) hj
  | disconnect ht => exact caller_put (fun hc => by rw [ht] at hc; cases hc) hj
  | revoke ht hrow => exact caller_put (fun hc => by rw [ht] at hc; cases hc) hj
  | revoked ht => exact caller_put (fun hc => by rw [ht] at hc; cases hc) hj
  | absent ht hrow => exact caller_put (fun hc => by rw [ht] at hc; cases hc) hj
  | unlock ht => exact caller_put (fun hc => by rw [ht] at hc; exact hc) hj
  | notify ht => exact caller_put (fun hc => by rw [ht] at hc; exact hc) hj
  | @connect tok =>
    obtain ⟨i, n, hup⟩ := upsert_same s { tok with grant := s.grants }
    rw [hup]
    exact hj

/-- what a hook has in flight, and what its callers await, are refreshes after a 401 -/
structure Hooks (s : Sys) : Prop where
  inFlight : ∀ hook rejected t, s.inFlight hook rejected = some t → (s.phase t).caller = some (.midCall rejected)
  waits : ∀ w t, s.waits w = some t → ∃ rejected, (s.phase t).caller = some (.midCall rejected)

theorem Hooks.keep {s s' : Sys} (h : Hooks s) (hf : s'.inFlight = s.inFlight) (hw : s'.waits = s.waits)
    (hc : ∀ j c, (s.phase j).caller = some c → (s'.phase j).caller = some c) : Hooks s' := by
  refine ⟨?_, ?_⟩
  · intro hook rejected t ht
    rw [hf] at ht
    exact hc t _ (h.inFlight hook rejected t ht)
  · intro w t ht
    rw [hw] at ht
    exact (h.waits w t ht).imp fun rejected hr => hc t _ hr

theorem hooks_same (s : Sys) (o : Op) :
    ((∃ w hook rejected t, o = .call w hook rejected t) ∨ ∃ hook rejected, o = .forget hook rejected) ∨
      (step s o).inFlight = s.inFlight ∧ (step s o).waits = s.waits := by
  cases o with
  | call w hook rejected t => exact Or.inl (Or.inl ⟨w, hook, rejected, t, rfl⟩)
  | forget hook rejected => exact Or.inl (Or.inr ⟨hook, rejected, rfl⟩)
  | connect tok =>
    obtain ⟨i, n, hup⟩ := upsert_same s { tok with grant := s.grants }
    refine Or.inr ?_
    simp only [step]
    rw [hup]
    exact ⟨rfl, rfl⟩
  | save t =>
    refine Or.inr ?_
    simp only [step]
    split
    · next c tok posted ht =>
      obtain ⟨i, n, hup⟩ := upsert_same (s.put t (.unlocking c (.token tok))) tok
      rw [hup]
      exact ⟨rfl, rfl⟩
    · exact ⟨rfl, rfl⟩
  | read t =>
    refine Or.inr ?_
    simp only [step, readRow]
    split <;> (try split) <;> exact ⟨rfl, rfl⟩
  | resume t =>
    refine Or.inr ?_
    simp only [step, resume]
    split <;> exact ⟨rfl, rfl⟩
  | answer t a =>
    refine Or.inr ?_
    simp only [step, answer]
    split <;> (try split) <;> exact ⟨rfl, rfl⟩
  | delete t =>
    refine Or.inr ?_
    simp only [step, delete]
    split <;> exact ⟨rfl, rfl⟩
  | clock now => exact Or.inr ⟨rfl, rfl⟩
  | expire => exact Or.inr ⟨rfl, rfl⟩
  | _ =>
    refine Or.inr ?_
    simp only [step]
    split <;> (try split) <;> exact ⟨rfl, rfl⟩

theorem hooks_call {s : Sys} (h : Hooks s) (w hook : ℕ) (rejected : Str) (t : ℕ) :
    Hooks (step s (.call w hook rejected t)) := by
  simp only [step]
  split
  · next j hj =>
    -- the caller joins the refresh of its token
    refine ⟨h.inFlight, fun w' t' ht' => ?_⟩
    change Function.update s.waits w (some j) w' = some t' at ht'
    rw [Function.update_apply] at ht'
    split_ifs at ht'
    · cases ht'
      exact ⟨rejected, h.inFlight hook rejected _ hj⟩
    · exact h.waits w' t' ht'
  · split
    · next ht =>
      have hstarted : ((s.put t (.locking (.midCall rejected))).phase t).caller = some (.midCall rejected) :=
        congrArg Phase.caller (phase_put_self _ _ _)
      have hold : ∀ j c, (s.phase j).caller = some c →
          ((s.put t (.locking (.midCall rejected))).phase j).caller = some c :=
        fun j c hj => caller_put (fun hc => by rw [ht] at hc; cases hc) hj
      refine ⟨fun hook' rejected' t' ht' => ?_, fun w' t' ht' => ?_⟩
      · change Function.update s.inFlight hook (Function.update (s.inFlight hook) rejected (some t)) hook' rejected' =
          some t' at ht'
        rw [Function.update_apply] at ht'
        split_ifs at ht' with hhook
        · rw [Function.update_apply] at ht'
          split_ifs at ht' with hrej
          · cases ht'
            rw [hrej]
            exact hstarted
          · exact hold t' _ (h.inFlight hook rejected' t' ht')
        · exact hold t' _ (h.inFlight hook' rejected' t' ht')
      · change Function.update s.waits w (some t) w' = some t' at ht'
        rw [Function.update_apply] at ht'
        split_ifs at ht'
        · cases ht'
          exact ⟨rejected, hstarted⟩
        · exact (h.waits w' t' ht').imp fun r hr => hold t' _ hr
    · exact h

theorem hooks_forget {s : Sys} (h : Hooks s) (hook : ℕ) (rejected : Str) : Hooks (step s (.forget hook rejected)) := by
  simp only [step]
  split
  · split
    · refine ⟨fun hook' rejected' t' ht' => ?_, h.waits⟩
      change Function.update s.inFlight hook (Function.update (s.inFlight hook) rejected none) hook' rejected' =
        some t' at ht'
      rw [Function.update_apply] at ht'
      split_ifs at ht' with hhook
      · rw [Function.update_apply] at ht'
        split_ifs at ht' with hrej
        exact h.inFlight hook rejected' t' ht'
      · exact h.inFlight hook' rejected' t' ht'
    · exact h
  · exact h

theorem step_hooks {s : Sys} (o : Op) (h : Hooks s) : Hooks (step s o) := by
  rcases hooks_same s o with (⟨w, hook, rejected, t, rfl⟩ | ⟨hook, rejected, rfl⟩) | ⟨hf, hw⟩
  · exact hooks_call h w hook rejected t
  · exact hooks_forget h hook rejected
  · exact h.keep hf hw fun j c hj => (step_move s o).caller hj

/-! ## Runs -/

structure SpentOnce (first : Token) (s : Sys) : Prop where
  /-- a refresh token gets one grant or refusal -/
  once : (spent s).Nodup
  /-- and is not posted after it -/
  unspent : ∀ t, ∀ tok ∈ (s.phase t).asked, tok.refreshToken ∉ spent s
  ended : ∀ t c o, s.phase t = .done c o → Ended first s t c o
  /-- a caller of a hook gets the outcome of a refresh after a 401 -/
  hooked : ∀ w t c o, s.waits w = some t → s.phase t = .done c o → ∃ rejected, c = .midCall rejected
  /-- a refused grant is told once -/
  told : s.refusals.length ≤ 1 ∧ ((∀ t, (s.phase t).telling = false) → s.notices.length = s.refusals.length)

/-- **A rotating refresh token is spent once.** -/
theorem spent_once (configured : Bool) (first : Token) (ops : List Op)
    (h : Meets step Refreshing (connected configured first) ops) :
    SpentOnce first (run step (connected configured first) ops) := by
  have hturns : Turns first (run step (connected configured first) ops) :=
    run_inv (fun _ _ ht hr => step_turns ht hr) h (turns_connected configured first)
  have hhooks : Hooks (run step (connected configured first) ops) :=
    run_inv_all (fun _ o hh => step_hooks o hh) _ _ ⟨nofun, nofun⟩
  refine ⟨hturns.nodup, ?_, ?_, ?_, hturns.told.most, hturns.told.told⟩
  · intro t tok htok
    cases hp : (run step (connected configured first) ops).phase t with
    | posting c asked =>
      rw [hp] at htok
      obtain ⟨hclean, hst, -⟩ := hturns.place_of hp
      rw [← Option.some.inj htok]
      exact (hclean asked hst).2
    | _ => rw [hp] at htok; cases htok
  · intro t c o hp
    exact hturns.place_of hp
  · intro w t c o hw hp
    obtain ⟨rejected, hr⟩ := hhooks.waits w t hw
    rw [hp] at hr
    exact ⟨rejected, Option.some.inj hr⟩

instance (s : Sys) : (x : Option Str) → Decidable (Rotated s x)
  | none => isFalse id
  | some x => inferInstanceAs (Decidable (x ≠ [] ∧ ∀ e ∈ s.seen, e.1 ≠ x))

instance (s : Sys) : (o : Op) → Decidable (Refreshing s o)
  | .connect _ | .disconnect _ => isFalse id
  | .answer t (.granted data) => inferInstanceAs (Decidable (∀ _tok ∈ (s.phase t).asked, Rotated s data.refreshToken))
  | .answer _ .refused | .answer _ .failed | .clock _ | .expire | .load _ | .begin _ _ | .call _ _ _ _ | .forget _ _
  | .lock _ | .giveUp _ | .read _ | .resume _ | .save _ | .delete _ | .unlock _ | .close _ | .notify _ _ => isTrue trivial

/-- a refresh that goes through -/
def refresh (t : ℕ) (a : Answer) : List Op :=
  [.lock t, .read t, .resume t, .answer t a, .read t, .resume t, .save t]

/-- two calls are rejected with the same token, and the sweep comes after them -/
def sharedRefresh : List Op :=
  [.call 0 0 firstGrant.accessToken 0, .call 1 0 firstGrant.accessToken 1, .begin 2 .sweep] ++ refresh 0 rotated ++
    [.unlock 0, .close 0, .forget 0 firstGrant.accessToken, .lock 2, .read 2, .resume 2, .unlock 2, .close 2]

theorem spent_once_sharedRefresh :
    Meets step Refreshing (connected true firstGrant) sharedRefresh ∧
      (run step (connected true firstGrant) sharedRefresh).waits 1 = some 0 ∧
      spent (run step (connected true firstGrant) sharedRefresh) = [firstGrant.refreshToken] ∧
      SpentOnce firstGrant (run step (connected true firstGrant) sharedRefresh) :=
  ⟨by decide, by decide, by decide, spent_once true firstGrant sharedRefresh (by decide)⟩

/-- a call is rejected while the sweep refreshes, and waits for the lock in vain -/
def contendedCall : List Op :=
  [.begin 0 .sweep, .lock 0, .read 0, .resume 0, .begin 1 (.midCall firstGrant.accessToken), .giveUp 1, .close 1,
    .answer 0 rotated, .read 0, .resume 0, .save 0, .unlock 0, .close 0]

def rotatedAgain : Answer := .granted ⟨"a2".toList, some "r2".toList, 3600, 0⟩

/-- the token of the sweep is rejected and refreshed before the sweep has closed its connection -/
def overtaken : List Op :=
  [.begin 0 .sweep] ++ refresh 0 rotated ++ [.unlock 0, .begin 1 (.midCall "a1".toList)] ++ refresh 1 rotatedAgain ++
    [.unlock 1, .close 1, .close 0]

/-- the grant is refused, and the user has no active route -/
def unrouted : List Op :=
  [.begin 0 .sweep, .lock 0, .read 0, .resume 0, .answer 0 .refused, .read 0, .delete 0, .unlock 0, .close 0, .read 0,
    .notify 0 false]

/-- the newest access token, or the failure -/
def NewestOrFailure (s : Sys) : Outcome → Prop
  | .token tok => tok.accessToken = s.newest
  | .refused _ | .failed => True
  | _ => False

theorem ends_without :
    ¬ (∀ ops, Meets step Refreshing (connected true firstGrant) ops → ∀ t c o,
        (run step (connected true firstGrant) ops).phase t = .done c o →
          NewestOrFailure (run step (connected true firstGrant) ops) o) ∧
      ((run step (connected true firstGrant) contendedCall).phase 1 =
          .done (.midCall firstGrant.accessToken) .contended ∧
        (run step (connected true firstGrant) contendedCall).stored.map Token.accessToken = some "a1".toList) ∧
      ((((run step (connected true firstGrant) overtaken).released 0) = some "a1".toList) ∧
        (run step (connected true firstGrant) overtaken).newest = "a2".toList) ∧
      (run step (connected true firstGrant) unrouted).notices = [false] := by
  refine ⟨?_, by decide, by decide, by decide⟩
  intro h
  exact h contendedCall (by decide) 1 (.midCall firstGrant.accessToken) .contended (by decide)

end Clawbolt.OAuth
