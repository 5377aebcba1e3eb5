/-
What an old refresh may do to a reconnected account, over the steps of `Clawbolt.OAuth.Refresh`.

- `stands_run`: in every run whose refreshes save and delete only the grant they read, a connect stands until the next
  connect or disconnect, or until the provider refuses its own grant; and a disconnect stands until the next connect;
- `undone`: a refused refresh deletes the connection made meanwhile, under the lock and again after it; and a reconnect
  or a disconnect between the second read and the save is overwritten.
-/
import Mathlib.Tactic
import Clawbolt.OAuth.Refresh

namespace Clawbolt.OAuth

open Text (Str)
open Runs

/-- **The last connect or disconnect stands.** -/
structure Stands (s : Sys) : Prop where
  connected : ∀ g, s.last = .connected g →
    (∃ r, s.row = some r ∧ r.token.grant = g) ∨ (s.row = none ∧ g ∈ s.refusals)
  disconnected : s.last = .disconnected → s.row = none

namespace Phase

/-- the token whose refresh token the provider has been posted -/
def asked : Phase → Option Token
  | posting _ tok => some tok
  | _ => none

/-- the refresh token that a refresh posted before it saves -/
def saves : Phase → Option Str
  | saving _ _ posted => some posted
  | _ => none

/-- the refused token for which a refresh deletes the row -/
def deletes : Phase → Option (Token × ℕ)
  | retiring _ tok i | removing _ tok i => some (tok, i)
  | _ => none

end Phase

/-- a refresh token belongs to one grant: every connect brings one of its own, and the answer to a refresh one of the same
grant -/
def Provider (s : Sys) : Op → Prop
  | .connect tok => tok.refreshToken = [] ∨ ∀ e ∈ s.seen, e.1 ≠ tok.refreshToken
  | .answer t (.granted data) => ∀ tok ∈ (s.phase t).asked, ∀ x ∈ data.refreshToken,
      x = [] ∨ ∀ e ∈ s.seen, e.1 = x → e.2 = tok.grant
  | _ => True

/-- when a refresh saves, the row still holds the refresh token it posted; when it deletes a row, that row still holds the
refresh token that was refused -/
def Undisturbed (s : Sys) : Op → Prop
  | .save t => ∀ posted ∈ (s.phase t).saves, s.stored.map Token.refreshToken = some posted
  | .delete t => ∀ e ∈ (s.phase t).deletes, ∀ r ∈ s.row, r.id = e.2 → r.token.refreshToken = e.1.refreshToken
  | _ => True

/-! ## Whose tokens the tasks have -/

/-- the refresh token of the grant -/
def Mine (s : Sys) (tok : Token) : Prop := (tok.refreshToken, tok.grant) ∈ s.seen

/-- the provider has refused it -/
structure Refusal (s : Sys) (tok : Token) : Prop where
  own : Mine s tok
  full : tok.refreshToken ≠ []
  refused : tok.grant ∈ s.refusals

/-- the refresh token that was posted is of the grant of the token that came for it -/
structure Posted (s : Sys) (tok : Token) (posted : Str) : Prop where
  own : Mine s tok
  sent : (posted, tok.grant) ∈ s.seen
  full : posted ≠ []

def Sound (s : Sys) : Phase → Prop
  | .read _ (some tok) => Mine s tok
  | .posting _ tok => Mine s tok ∧ tok.refreshToken ≠ []
  | .granted _ tok posted | .reread _ tok posted _ | .saving _ tok posted => Posted s tok posted
  | .refused _ tok | .retiring _ tok _ | .handling _ tok | .removing _ tok _ | .notifying _ tok => Refusal s tok
  | .unlocking _ (.refused tok) | .closing _ (.refused tok) => Refusal s tok
  | _ => True

structure Inv (s : Sys) : Prop where
  one : ∀ x g g', x ≠ [] → (x, g) ∈ s.seen → (x, g') ∈ s.seen → g = g'
  row : ∀ tok, s.stored = some tok → Mine s tok
  sound : ∀ t, Sound s (s.phase t)
  stands : Stands s

theorem inv_init (configured : Bool) : Inv (Sys.init configured) :=
  ⟨nofun, nofun, fun _ => trivial, nofun, nofun⟩

/-- what grows only -/
structure Grows (s s' : Sys) : Prop where
  seen : s.seen ⊆ s'.seen
  refusals : s.refusals ⊆ s'.refusals

theorem Grows.mine {s s' : Sys} (h : Grows s s') {tok : Token} (hm : Mine s tok) : Mine s' tok := h.seen hm

theorem Grows.refusal {s s' : Sys} (h : Grows s s') {tok : Token} (hr : Refusal s tok) : Refusal s' tok :=
  ⟨h.seen hr.own, hr.full, h.refusals hr.refused⟩

theorem Grows.posted {s s' : Sys} (h : Grows s s') {tok : Token} {posted : Str} (hp : Posted s tok posted) :
    Posted s' tok posted := ⟨h.seen hp.own, h.seen hp.sent, hp.full⟩

theorem Grows.sound {s s' : Sys} (h : Grows s s') {p : Phase} (hp : Sound s p) : Sound s' p := by
  unfold Sound at hp ⊢
  split
  · exact h.mine hp
  · exact ⟨h.mine hp.1, hp.2⟩
  · exact h.posted hp
  · exact h.posted hp
  · exact h.posted hp
  · exact h.refusal hp
  · exact h.refusal hp
  · exact h.refusal hp
  · exact h.refusal hp
  · exact h.refusal hp
  · exact h.refusal hp
  · exact h.refusal hp
  · trivial

theorem sound_afterLoad (s : Sys) (row : Option Token) : Sound s (afterLoad s row) := by
  cases row with
  | none => trivial
  | some tok =>
    unfold afterLoad
    dsimp only
    split_ifs <;> trivial

theorem sound_afterRead {s : Sys} {c : Caller} {row : Option Token} (h : ∀ tok, row = some tok → Mine s tok) :
    Sound s (afterRead s c row) := by
  cases row with
  | none => trivial
  | some tok =>
    unfold afterRead
    dsimp only
    split_ifs with hempty
    · trivial
    · trivial
    · trivial
    · exact ⟨h tok rfl, hempty⟩

theorem sound_afterReread {s : Sys} {c : Caller} {tok : Token} {posted : Str} {row : Option Token}
    (h : Posted s tok posted) : Sound s (afterReread c tok posted row) := by
  cases row with
  | none => trivial
  | some current =>
    unfold afterReread
    dsimp only
    split_ifs
    · trivial
    · exact ⟨h.own, h.sent, h.full⟩

theorem sound_afterClose {s : Sys} {c : Caller} {o : Outcome} (h : Sound s (.closing c o)) : Sound s (afterClose c o) := by
  cases o with
  | refused tok => exact h
  | nothing => cases c <;> trivial
  | token tok => trivial
  | contended => trivial
  | failed => trivial
  | gone => trivial

theorem Walk.sound {s : Sys} {p p' : Phase} (hw : Walk s p p') (hrow : ∀ tok, s.stored = some tok → Mine s tok)
    (h : Sound s p) : Sound s p' := by
  cases hw with
  | hit row => exact sound_afterLoad s row
  | afterLoad row => exact sound_afterLoad s row
  | read c =>
    cases hs : s.stored with
    | none => trivial
    | some tok => exact hrow tok hs
  | afterRead c row =>
    refine sound_afterRead ?_
    rintro tok rfl
    exact h
  | reread c tok posted => exact h
  | afterReread c tok posted row => exact sound_afterReread h
  | noRow c tok hr => exact h
  | retire c tok r hr => exact h
  | noRowLeft c tok hr => exact h
  | remove c tok r hr => exact h
  | close c o => exact sound_afterClose h
  | _ => trivial

/-! ## The steps -/

namespace Inv

variable {s : Sys} (h : Inv s)
include h

theorem sounds {s' : Sys} (hg : Grows s s') (hphase : s'.phase = s.phase) (t : ℕ) : Sound s' (s'.phase t) := by
  rw [hphase]
  exact hg.sound (h.sound t)

theorem congr {s' : Sys} (hrow : s'.row = s.row) (hphase : s'.phase = s.phase) (hlast : s'.last = s.last)
    (hseen : s'.seen = s.seen) (href : s'.refusals = s.refusals) : Inv s' := by
  have hg : Grows s s' := ⟨hseen ▸ List.Subset.refl _, href ▸ List.Subset.refl _⟩
  refine ⟨?_, ?_, ?_, ?_, ?_⟩
  · rw [hseen]; exact h.one
  · intro tok htok
    rw [Sys.stored, hrow] at htok
    exact hg.mine (h.row tok htok)
  · exact h.sounds hg hphase
  · rw [hlast, hrow, href]; exact h.stands.connected
  · rw [hlast, hrow]; exact h.stands.disconnected

theorem same {s' : Sys} (hs : Same s s') : Inv s' := h.congr hs.row hs.phase hs.last hs.seen hs.refusals

theorem put {t : ℕ} {p : Phase} (hp : Sound s p) : Inv (s.put t p) := by
  have hg : Grows s (s.put t p) := ⟨List.Subset.refl _, List.Subset.refl _⟩
  refine ⟨h.one, h.row, fun j => hg.sound ?_, h.stands.connected, h.stands.disconnected⟩
  rw [phase_put]
  split_ifs
  · exact hp
  · exact h.sound j

/-- the history grows, and the refresh tokens still belong to one grant each -/
theorem grow (seen : List (Str × ℕ)) (answers : List (Str × Answer)) {refusals : List ℕ} (newest : Str)
    (hone : ∀ x g g', x ≠ [] → (x, g) ∈ seen → (x, g') ∈ seen → g = g') (hseen : s.seen ⊆ seen)
    (href : s.refusals ⊆ refusals) :
    Inv { s with seen := seen, answers := answers, refusals := refusals, newest := newest } := by
  have hg : Grows s { s with seen := seen, answers := answers, refusals := refusals, newest := newest } := ⟨hseen, href⟩
  refine ⟨hone, fun tok htok => hg.mine (h.row tok htok), h.sounds hg rfl, ?_, h.stands.disconnected⟩
  intro g hl
  exact (h.stands.connected g hl).imp id fun hr => ⟨hr.1, href hr.2⟩

/-- a token of the row's own grant is saved -/
theorem upsert {tok : Token} (hmine : Mine s tok) (hrow : ∃ old, s.stored = some old ∧ old.grant = tok.grant) :
    Inv (s.upsert tok) := by
  obtain ⟨old, hold, hgrant⟩ := hrow
  obtain ⟨r, hr, rfl⟩ : ∃ r, s.row = some r ∧ r.token = old := by simpa [Sys.stored] using hold
  obtain ⟨i, n, hup⟩ := upsert_same s tok
  rw [hup]
  refine ⟨h.one, ?_, h.sounds ⟨List.Subset.refl _, List.Subset.refl _⟩ rfl, ?_, ?_⟩
  · intro tok' htok'
    cases htok'
    exact hmine
  · intro g hl
    rcases h.stands.connected g hl with ⟨r', hr', hg⟩ | ⟨hnone, -⟩
    · rw [hr] at hr'
      cases hr'
      exact Or.inl ⟨_, rfl, hgrant.symm.trans hg⟩
    · rw [hr] at hnone
      cases hnone
  · intro hl
    have hnone := h.stands.disconnected hl
    rw [hr] at hnone
    cases hnone

/-- the row of a refused grant is deleted -/
theorem deleteRow {tok : Token} {i : ℕ} (href : Refusal s tok)
    (hrow : ∀ r, s.row = some r → r.id = i → r.token.refreshToken = tok.refreshToken) : Inv (s.deleteRow i) := by
  by_cases hi : s.row.map Row.id = some i
  · obtain ⟨r, hr, hid⟩ : ∃ r, s.row = some r ∧ r.id = i := by simpa using hi
    have hnone : (s.deleteRow i).row = none := if_pos hi
    refine ⟨h.one, ?_, h.sounds ⟨List.Subset.refl _, List.Subset.refl _⟩ rfl, ?_, fun _ => hnone⟩
    · intro tok' htok'
      rw [Sys.stored, hnone] at htok'
      cases htok'
    · intro g hl
      refine Or.inr ⟨hnone, ?_⟩
      rcases h.stands.connected g hl with ⟨r', hr', hg⟩ | ⟨-, hin⟩
      · rw [hr] at hr'
        cases hr'
        have hmine : (tok.refreshToken, r.token.grant) ∈ s.seen := by
          rw [← hrow r hr hid]
          exact h.row r.token (by rw [Sys.stored, hr]; rfl)
        have hsame := h.one _ _ _ href.full hmine href.own
        rw [← hg, hsame]
        exact href.refused
      · exact hin
  · have hsame : (s.deleteRow i).row = s.row := if_neg hi
    exact h.congr hsame rfl rfl rfl rfl

/-- **A connect.** Whatever the row holds is replaced. -/
theorem connect {tok : Token} (hnew : tok.refreshToken = [] ∨ ∀ e ∈ s.seen, e.1 ≠ tok.refreshToken) :
    Inv { s.upsert { tok with grant := s.grants } with
      last := .connected s.grants
      grants := s.grants + 1
      seen := s.seen ++ [(tok.refreshToken, s.grants)]
      newest := tok.accessToken } := by
  obtain ⟨i, n, hup⟩ := upsert_same s { tok with grant := s.grants }
  rw [hup]
  refine ⟨?_, ?_, h.sounds ⟨List.subset_append_left _ _, List.Subset.refl _⟩ rfl, ?_, nofun⟩
  · intro x g g' hx hin hin'
    rcases List.mem_append.1 hin with hin | hin <;> rcases List.mem_append.1 hin' with hin' | hin'
    · exact h.one x g g' hx hin hin'
    · cases List.mem_singleton.1 hin'
      exact absurd rfl (hnew.resolve_left hx _ hin)
    · cases List.mem_singleton.1 hin
      exact absurd rfl (hnew.resolve_left hx _ hin')
    · cases List.mem_singleton.1 hin
      cases List.mem_singleton.1 hin'
      rfl
  · intro tok' htok'
    cases htok'
    exact List.mem_append_right _ (List.mem_singleton_self _)
  · intro g hl
    cases hl
    exact Or.inl ⟨_, rfl, rfl⟩

theorem disconnect {s' : Sys} (hrow : s'.row = none) (hlast : s'.last = .disconnected) (hphase : ∀ t, Sound s (s'.phase t))
    (hseen : s'.seen = s.seen) (href : s'.refusals = s.refusals) : Inv s' := by
  have hg : Grows s s' := ⟨hseen ▸ List.Subset.refl _, href ▸ List.Subset.refl _⟩
  refine ⟨by rw [hseen]; exact h.one, ?_, fun t => hg.sound (hphase t), ?_, fun _ => hrow⟩
  · intro tok htok
    rw [Sys.stored, hrow] at htok
    cases htok
  · intro g hl
    rw [hlast] at hl
    cases hl

end Inv

theorem Move.inv {s s' : Sys} {o : Op} (hm : Move s o s') (hp : Provider s o) (hu : Undisturbed s o) (h : Inv s) :
    Inv s' := by
  cases hm with
  | same hs => exact h.same hs
  | @walk _ t p p' _ ht hw hs => exact (h.put (t := t) (hw.sound h.row (ht ▸ h.sound t))).same hs
  | @lock t c ht hfree => exact (h.put (t := t) (p := .locked c) trivial).congr rfl rfl rfl rfl rfl
  | @granted t c tok data ht =>
    have hsound := h.sound t
    rw [ht] at hsound
    have hgrow := h.grow (s.seen ++ [((tok.refreshed data s.now).refreshToken, tok.grant)])
      (s.answers ++ [(tok.refreshToken, .granted data)]) data.accessToken ?_
      (List.subset_append_left _ _) (List.Subset.refl _)
    · refine hgrow.put (t := t) (p := .granted c (tok.refreshed data s.now) tok.refreshToken) ⟨?_, ?_, hsound.2⟩
      · exact List.mem_append_right _ (List.mem_singleton_self _)
      · exact List.mem_append_left _ hsound.1
    · -- the new refresh token is of the grant, if it was seen before
      have hnew : ∀ x g, x ≠ [] → (x, g) ∈ s.seen ∨ (x, g) = ((tok.refreshed data s.now).refreshToken, tok.grant) →
          x = (tok.refreshed data s.now).refreshToken → g = tok.grant := by
        rintro x g hx (hin | heq) hxr
        · cases hd : data.refreshToken with
          | none =>
            have hxt : x = tok.refreshToken := by rw [hxr, Token.refreshed, hd]; rfl
            exact h.one x g tok.grant hx hin (hxt ▸ hsound.1)
          | some y =>
            have hxy : x = y := by rw [hxr, Token.refreshed, hd]; rfl
            rcases hp tok (by rw [ht]; rfl) y hd with hy | hy
            · exact absurd (hxy.trans hy) hx
            · exact hy _ hin hxy
        · exact congrArg Prod.snd heq
      intro x g g' hx hin hin'
      have hin := (List.mem_append.1 hin).imp id List.mem_singleton.1
      have hin' := (List.mem_append.1 hin').imp id List.mem_singleton.1
      by_cases hxr : x = (tok.refreshed data s.now).refreshToken
      · exact (hnew x g hx hin hxr).trans (hnew x g' hx hin' hxr).symm
      · refine h.one x g g' hx (hin.resolve_right ?_) (hin'.resolve_right ?_)
        · exact fun heq => hxr (congrArg Prod.fst heq)
        · exact fun heq => hxr (congrArg Prod.fst heq)
  | @refused t c tok ht =>
    have hsound := h.sound t
    rw [ht] at hsound
    have hgrow := h.grow s.seen (s.answers ++ [(tok.refreshToken, .refused)]) s.newest h.one
      (List.Subset.refl _) (List.subset_append_left s.refusals [tok.grant])
    refine hgrow.put (t := t) (p := .refused c tok) ⟨hsound.1, hsound.2, ?_⟩
    exact List.mem_append_right _ (List.mem_singleton_self _)
  | @failed t c tok ht => exact (h.put (t := t) (p := .unlocking c .failed) trivial).congr rfl rfl rfl rfl rfl
  | @saved t c tok posted ht =>
    have hsound := h.sound t
    rw [ht] at hsound
    refine (h.put (t := t) (p := .unlocking c (.token tok)) trivial).upsert hsound.own ?_
    obtain ⟨old, hold, hx⟩ := Option.map_eq_some_iff.1 (hu posted (by rw [ht]; rfl))
    refine ⟨old, hold, h.one posted old.grant tok.grant hsound.full ?_ hsound.sent⟩
    rw [← hx]
    exact h.row old hold
  | @retired t c tok i ht =>
    have hsound := h.sound t
    rw [ht] at hsound
    have href : Refusal s tok := hsound
    exact (h.put (t := t) (p := .unlocking c (.refused tok)) href).deleteRow ⟨href.own, href.full, href.refused⟩
      (hu (tok, i) (by rw [ht]; rfl))
  | @removed t c tok i ht =>
    have hsound := h.sound t
    rw [ht] at hsound
    have href : Refusal s tok := hsound
    exact (h.put (t := t) (p := .notifying c tok) href).deleteRow ⟨href.own, href.full, href.refused⟩
      (hu (tok, i) (by rw [ht]; rfl))
  | @disconnect t ht => exact h.put (t := t) (p := .revoking) trivial
  | @revoke t r ht hrow => exact h.put (t := t) (p := .revokingRow r.id) trivial
  | @revoked t i ht =>
    have hput : Inv (s.put t .away) := h.put trivial
    by_cases hi : s.row.map Row.id = some i
    · refine hput.disconnect (if_pos hi) (if_pos hi) hput.sound rfl rfl
    · exact hput.congr (if_neg hi) rfl (if_neg hi) rfl rfl
  | @absent t ht hrow =>
    have hput : Inv (s.put t .away) := h.put trivial
    exact hput.disconnect hrow rfl hput.sound rfl rfl
  | @unlock t c o ht =>
    have hsound := h.sound t
    rw [ht] at hsound
    refine (h.put (t := t) (p := .closing c o) ?_).congr rfl rfl rfl rfl rfl
    cases o with
    | refused tok => exact hsound
    | _ => trivial
  | @notify t c tok route ht =>
    exact (h.put (t := t) (p := .done c (.refused tok)) trivial).congr rfl rfl rfl rfl rfl
  | connect => exact h.connect hp

theorem step_inv {s : Sys} {o : Op} (h : Inv s) (ho : Provider s o ∧ Undisturbed s o) : Inv (step s o) :=
  (step_move s o).inv ho.1 ho.2 h

/-- **A reconnected account stands.** In every run whose refreshes save and delete only what they read: after a connect,
and until the next connect or disconnect, the row holds the connected grant, or the provider has refused that grant; after
a disconnect there is no row. -/
theorem stands_run (configured : Bool) (ops : List Op) (hp : Meets step Provider (Sys.init configured) ops)
    (hu : Meets step Undisturbed (Sys.init configured) ops) : Stands (run step (Sys.init configured) ops) :=
  (run_inv (fun _ _ => step_inv) (meets_and hp hu) (inv_init configured)).stands

instance (s : Sys) : (o : Op) → Decidable (Provider s o)
  | .connect tok => inferInstanceAs (Decidable (tok.refreshToken = [] ∨ ∀ e ∈ s.seen, e.1 ≠ tok.refreshToken))
  | .answer t (.granted data) => inferInstanceAs (Decidable (∀ tok ∈ (s.phase t).asked, ∀ x ∈ data.refreshToken,
      x = [] ∨ ∀ e ∈ s.seen, e.1 = x → e.2 = tok.grant))
  | .answer _ .refused | .answer _ .failed | .clock _ | .expire | .load _ | .begin _ _ | .call _ _ _ _ | .forget _ _
  | .lock _ | .giveUp _ | .read _ | .resume _ | .save _ | .delete _ | .unlock _ | .close _ | .notify _ _
  | .disconnect _ => isTrue trivial

instance (s : Sys) : (o : Op) → Decidable (Undisturbed s o)
  | .save t => inferInstanceAs (Decidable (∀ posted ∈ (s.phase t).saves, s.stored.map Token.refreshToken = some posted))
  | .delete t => inferInstanceAs (Decidable (∀ e ∈ (s.phase t).deletes, ∀ r ∈ s.row, r.id = e.2 →
      r.token.refreshToken = e.1.refreshToken))
  | .answer _ _ | .clock _ | .expire | .load _ | .begin _ _ | .call _ _ _ _ | .forget _ _ | .lock _ | .giveUp _
  | .read _ | .resume _ | .connect _ | .unlock _ | .close _ | .notify _ _ | .disconnect _ => isTrue trivial

/-- an expired token of the first company -/
def firstGrant : Token := ⟨"a0".toList, "r0".toList, 1, "company 1".toList, [], 0⟩

/-- the connection that the user makes instead -/
def secondGrant : Token := ⟨"b0".toList, "q0".toList, 1, "company 2".toList, [], 0⟩

/-- the account is connected, and the sweep has posted its refresh token -/
def swept : List Op := [.connect firstGrant, .begin 0 .sweep, .lock 0, .read 0, .resume 0]

def rotated : Answer := .granted ⟨"a1".toList, some "r1".toList, 3600, 0⟩

/-- the user reconnects during the POST, which is granted: its answer is dropped -/
def grantedTooLate : List Op :=
  swept ++ [.connect secondGrant, .answer 0 rotated, .read 0, .resume 0, .unlock 0, .close 0]

theorem stands_run_grantedTooLate :
    Meets step Provider (Sys.init true) grantedTooLate ∧ Meets step Undisturbed (Sys.init true) grantedTooLate ∧
      (run step (Sys.init true) grantedTooLate).last = .connected 1 ∧
      Stands (run step (Sys.init true) grantedTooLate) :=
  ⟨by decide, by decide, by decide, stands_run true grantedTooLate (by decide) (by decide)⟩

/-- the user reconnects during the POST, which is refused -/
def refusedTooLate : List Op := swept ++ [.connect secondGrant, .answer 0 .refused, .read 0, .delete 0]

/-- the user reconnects when the lock is released, and before the second delete -/
def deletedTwice : List Op :=
  swept ++ [.answer 0 .refused, .read 0, .delete 0, .unlock 0, .close 0, .connect secondGrant, .read 0, .delete 0]

/-- the user reconnects between the second read and the save -/
def savedOver : List Op := swept ++ [.answer 0 rotated, .read 0, .connect secondGrant, .resume 0, .save 0]

/-- the user disconnects there -/
def recreated : List Op :=
  swept ++ [.answer 0 rotated, .read 0, .disconnect 1, .read 1, .delete 1, .resume 0, .save 0]

theorem undone :
    ¬ (∀ ops, Meets step Provider (Sys.init true) ops → Stands (run step (Sys.init true) ops)) ∧
      ((run step (Sys.init true) refusedTooLate).last = .connected 1 ∧
        (run step (Sys.init true) refusedTooLate).row = none ∧
        (run step (Sys.init true) refusedTooLate).refusals = [0]) ∧
      ((run step (Sys.init true) deletedTwice).last = .connected 1 ∧
        (run step (Sys.init true) deletedTwice).row = none ∧
        (run step (Sys.init true) deletedTwice).refusals = [0]) ∧
      ((run step (Sys.init true) savedOver).last = .connected 1 ∧
        (run step (Sys.init true) savedOver).stored.map Token.realmId = some firstGrant.realmId) ∧
      (run step (Sys.init true) recreated).last = .disconnected ∧ (run step (Sys.init true) recreated).row ≠ none := by
  refine ⟨?_, by decide, by decide, by decide, by decide⟩
  intro h
  have hstands := (h refusedTooLate (by decide)).connected 1 (by decide)
  exact absurd hstands (by decide)

end Clawbolt.OAuth
