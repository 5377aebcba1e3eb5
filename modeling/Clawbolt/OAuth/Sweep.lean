/-
One sweep of `OAuthRefreshScheduler` (services/oauth.py) over the token table, with no other refresher: the locks are
acquired and the database calls succeed.

The clock is read once for the cutoff and, for each row, at the check under the lock and when the provider has answered.
`granted` is what the provider gave during the sweep.

- `refreshes_iff`: which rows a sweep refreshes that it selects.
-/
import Mathlib.Tactic
import Mathlib.Data.List.AList
import Clawbolt.OAuth.Refresh

namespace Clawbolt.OAuth.Sweep

open Text (Str)
open Runs

/-- user and integration -/
abbrev Key := Str × Str

/-- `oauth_tokens`, one row a key -/
abbrev Table := AList fun _ : Key => Token

structure Env where
  /-- the clock at the cutoff -/
  now : ℤ
  /-- the clock at the check under the lock -/
  checkedAt : Key → ℤ
  /-- the clock when the provider has answered -/
  answeredAt : Key → ℤ
  /-- the user wrote within the last days -/
  active : Str → Bool
  /-- there is a config or a registered grant for the integration -/
  configured : Str → Bool
  post : Key → Str → Answer

structure Sweeping where
  table : Table
  granted : List (Key × Data)

inductive Failure where
  | refused
  | failed
deriving DecidableEq

/-! ## The code -/

/-- `_REFRESH_LOOKAHEAD_SECONDS` -/
def lookahead : ℤ := 360

variable (E : Env)

def due (k : Key) (tok : Token) : Bool :=
  0 < tok.expiresAt && tok.expiresAt < E.now + lookahead && tok.refreshToken ≠ [] && E.active k.1

/-- the SELECT of the sweep, in any order -/
def selected (t : Table) : List Key := (t.entries.filter fun e => due E e.1 e.2).map Sigma.fst

/-- `refresh_token` without a rejected access token -/
def refreshToken (s : Sweeping) (k : Key) : Sweeping × Except Failure (Option Token) :=
  match s.table.lookup k with
  | none => (s, .ok none)
  | some tok =>
    if tok.refreshToken = [] then (s, .ok none)
    else if 0 < tok.expiresAt && !tok.isExpired (E.checkedAt k) then (s, .ok (some tok))
    else if E.configured k.2 = false then (s, .ok none)
    else
      match E.post k tok.refreshToken with
      | .failed => (s, .error .failed)
      | .refused => ({ s with table := s.table.erase k }, .error .refused)
      | .granted data =>
        let s := { s with granted := s.granted ++ [(k, data)] }
        match s.table.lookup k with
        | none => (s, .ok none)
        | some current =>
          if current.refreshToken ≠ tok.refreshToken then (s, .ok (some current))
          else
            let token := { tok.refreshed data (E.answeredAt k) with extra := current.extra }
            ({ s with table := s.table.insert k token }, .ok (some token))

/-- the loop of `sweep`: a row that fails for good is removed (`handle_permanent_refresh_failure`), the others stay -/
def sweepOver : List Key → Sweeping → Sweeping × ℕ
  | [], s => (s, 0)
  | k :: ks, s =>
    match refreshToken E s k with
    | (s, .error .refused) => sweepOver ks { s with table := s.table.erase k }
    | (s, .error .failed) => sweepOver ks s
    | (s, .ok none) => sweepOver ks s
    | (s, .ok (some _)) =>
      let (s, refreshed) := sweepOver ks s
      (s, refreshed + 1)

/-- a sweep over the rows in the order that the SELECT gave them -/
def sweep (t : Table) (keys : List Key) : Sweeping × ℕ := sweepOver E keys { table := t, granted := [] }

variable {E}

theorem mem_selected {t : Table} {k : Key} : k ∈ selected E t ↔ ∃ tok, t.lookup k = some tok ∧ due E k tok = true := by
  constructor
  · intro h
    obtain ⟨e, he, rfl⟩ := List.mem_map.1 h
    obtain ⟨hmem, hdue⟩ := List.mem_filter.1 he
    exact ⟨e.2, List.mem_dlookup t.nodupKeys hmem, hdue⟩
  · rintro ⟨tok, hlookup, hdue⟩
    exact List.mem_map.2 ⟨⟨k, tok⟩, List.mem_filter.2 ⟨List.of_mem_dlookup hlookup, hdue⟩, rfl⟩

theorem nodup_selected (t : Table) : (selected E t).Nodup := t.keys_nodup.sublist (List.filter_sublist.map _)

/-! ## One row -/

/-- the token that is stored when the provider has given `data` -/
def renewed (E : Env) (k : Key) (tok : Token) (data : Data) : Token := tok.refreshed data (E.answeredAt k)

/-- the row of the key is due, and the provider gives a new access token for it -/
structure Granted (E : Env) (k : Key) (tok : Token) (data : Data) : Prop where
  due : due E k tok = true
  configured : E.configured k.2 = true
  post : E.post k tok.refreshToken = .granted data
  new : data.accessToken ≠ tok.accessToken

theorem due_token {k : Key} {tok : Token} (h : due E k tok = true) : 0 < tok.expiresAt ∧ tok.refreshToken ≠ [] := by
  simp only [due, ne_eq, decide_not, Bool.and_eq_true, decide_eq_true_eq, Bool.not_eq_eq_eq_not, Bool.not_true,
    decide_eq_false_iff_not] at h
  exact ⟨h.1.1.1, h.1.2⟩

variable {s : Sweeping} {k : Key} {tok : Token} {data : Data}

theorem refreshToken_expired (hrow : s.table.lookup k = some tok) (h : Granted E k tok data)
    (hexpired : tok.isExpired (E.checkedAt k) = true) : refreshToken E s k =
      ({ table := s.table.insert k (renewed E k tok data), granted := s.granted ++ [(k, data)] },
        .ok (some (renewed E k tok data))) := by
  have hpeer : ¬ ((0 < tok.expiresAt && !tok.isExpired (E.checkedAt k)) = true) := by simp [hexpired]
  unfold refreshToken
  simp only [hrow, if_neg (due_token h.due).2, if_neg hpeer, h.configured, Bool.true_eq_false, if_false, h.post]
  rw [if_neg (not_not.2 rfl)]
  rfl

/-- the reloaded token carries a future expiry, and is taken for a peer's -/
theorem refreshToken_fresh (hrow : s.table.lookup k = some tok) (h : due E k tok = true)
    (hfresh : tok.isExpired (E.checkedAt k) = false) : refreshToken E s k = (s, .ok (some tok)) := by
  have hpeer : (0 < tok.expiresAt && !tok.isExpired (E.checkedAt k)) = true := by simp [hfresh, (due_token h).1]
  unfold refreshToken
  simp only [hrow, if_neg (due_token h).2, hpeer, if_true]

/-! ## The sweep -/

/-- the row of the key, and what the provider gave for it, are as they were -/
structure Untouched (s s' : Sweeping) (k : Key) : Prop where
  row : s'.table.lookup k = s.table.lookup k
  granted : ∀ data, (k, data) ∈ s'.granted ↔ (k, data) ∈ s.granted

/-- a key that is expired has its new token, another one is untouched -/
def Handled (E : Env) (s s' : Sweeping) (k : Key) : Prop :=
  ∀ tok data, s.table.lookup k = some tok → Granted E k tok data →
    if tok.isExpired (E.checkedAt k) then s'.table.lookup k = some (renewed E k tok data) ∧ (k, data) ∈ s'.granted
    else Untouched s s' k

theorem Handled.then_untouched {s s' s'' : Sweeping} {k : Key} (h : Handled E s s' k) (hu : Untouched s' s'' k) :
    Handled E s s'' k := by
  intro tok data hrow hg
  have hout := h tok data hrow hg
  split_ifs with hexpired
  · rw [if_pos hexpired] at hout
    exact ⟨hu.row.trans hout.1, (hu.granted data).2 hout.2⟩
  · rw [if_neg hexpired] at hout
    exact ⟨hu.row.trans hout.row, fun d => (hu.granted d).trans (hout.granted d)⟩

theorem Handled.of_untouched {s s' s'' : Sweeping} {k : Key} (hu : Untouched s s' k) (h : Handled E s' s'' k) :
    Handled E s s'' k := by
  intro tok data hrow hg
  have hout := h tok data (hu.row.trans hrow) hg
  split_ifs with hexpired
  · rwa [if_pos hexpired] at hout
  · rw [if_neg hexpired] at hout
    exact ⟨hout.row.trans hu.row, fun d => (hout.granted d).trans (hu.granted d)⟩

/-- one row: it is handled, the others are untouched, and it is reported -/
theorem refreshToken_handled (hrow : s.table.lookup k = some tok) (h : Granted E k tok data) :
    ∃ s' token, refreshToken E s k = (s', .ok (some token)) ∧ Handled E s s' k ∧ ∀ j, j ≠ k → Untouched s s' j := by
  have hdata : ∀ tok' data', s.table.lookup k = some tok' → Granted E k tok' data' → tok' = tok ∧ data' = data := by
    intro tok' data' hrow' h'
    obtain rfl := Option.some.inj (hrow'.symm.trans hrow)
    have hpost := h'.post.symm.trans h.post
    exact ⟨rfl, by injection hpost⟩
  cases hexpired : tok.isExpired (E.checkedAt k) with
  | true =>
    refine ⟨_, _, refreshToken_expired hrow h hexpired, ?_, fun j hj => ⟨AList.lookup_insert_ne hj, fun d => ?_⟩⟩
    · intro tok' data' hrow' h'
      obtain ⟨rfl, rfl⟩ := hdata tok' data' hrow' h'
      rw [if_pos hexpired]
      exact ⟨AList.lookup_insert _, List.mem_append_right _ (List.mem_singleton_self _)⟩
    · rw [List.mem_append, List.mem_singleton, Prod.mk.injEq]
      exact or_iff_left fun heq => hj heq.1
  | false =>
    refine ⟨s, tok, refreshToken_fresh hrow h.due hexpired, ?_, fun j _ => ⟨rfl, fun _ => Iff.rfl⟩⟩
    intro tok' data' hrow' h'
    obtain ⟨rfl, rfl⟩ := hdata tok' data' hrow' h'
    rw [hexpired]
    exact ⟨rfl, fun _ => Iff.rfl⟩

/-- what the loop makes of the rows -/
theorem sweepOver_handled {keys : List Key} (hnodup : keys.Nodup) (s : Sweeping)
    (hgranted : ∀ k ∈ keys, ∃ tok data, s.table.lookup k = some tok ∧ Granted E k tok data) :
    (∀ k ∈ keys, Handled E s (sweepOver E keys s).1 k) ∧ (∀ k ∉ keys, Untouched s (sweepOver E keys s).1 k) ∧
      (sweepOver E keys s).2 = keys.length := by
  induction keys generalizing s with
  | nil =>
    refine ⟨fun k hk => absurd hk List.not_mem_nil, fun k _ => ?_, rfl⟩
    exact ⟨rfl, fun _ => Iff.rfl⟩
  | cons k ks ih =>
    obtain ⟨hnew, hks⟩ := List.nodup_cons.1 hnodup
    obtain ⟨tok, data, hrow, hg⟩ := hgranted k List.mem_cons_self
    obtain ⟨s', token, hstep, hhandled, hothers⟩ := refreshToken_handled hrow hg
    have hne : ∀ j ∈ ks, j ≠ k := by
      rintro j hj rfl
      exact hnew hj
    obtain ⟨hrest, huntouched, hcount⟩ := ih hks s' (fun j hj => by
      obtain ⟨tok', data', hrow', hg'⟩ := hgranted j (List.mem_cons_of_mem k hj)
      exact ⟨tok', data', (hothers j (hne j hj)).row.trans hrow', hg'⟩)
    have hloop : sweepOver E (k :: ks) s = ((sweepOver E ks s').1, (sweepOver E ks s').2 + 1) := by
      rw [sweepOver, hstep]
    rw [hloop]
    refine ⟨?_, ?_, congrArg (· + 1) hcount⟩
    · intro j hj
      rcases List.mem_cons.1 hj with rfl | hj
      · exact hhandled.then_untouched (huntouched j hnew)
      · exact .of_untouched (hothers j (hne j hj)) (hrest j hj)
    · intro j hj
      obtain ⟨hjk, hjks⟩ := not_or.1 (fun h => hj (List.mem_cons.2 h))
      have hfirst := hothers j hjk
      have hlast := huntouched j hjks
      exact ⟨hlast.row.trans hfirst.row, fun d => (hlast.granted d).trans (hfirst.granted d)⟩

/-! ## What is refreshed -/

/-- the rows that the sweep selected hold an access token that the provider gave in it, the others are as they were, and it
reports as many rows as have changed -/
structure Refreshes (E : Env) (t : Table) (keys : List Key) : Prop where
  fresh : ∀ k ∈ keys, ∃ data, (k, data) ∈ (sweep E t keys).1.granted ∧
    ((sweep E t keys).1.table.lookup k).map Token.accessToken = some data.accessToken
  others : ∀ k ∉ keys, (sweep E t keys).1.table.lookup k = t.lookup k
  reported : (sweep E t keys).2 = (keys.filter fun k => (sweep E t keys).1.table.lookup k ≠ t.lookup k).length

/-- **What a sweep refreshes.** It refreshes what it selects, and reports it, when every row of it is within the buffer of
its expiry at the check under the lock. -/
theorem refreshes_iff (E : Env) (t : Table) (keys : List Key) (hkeys : keys.Perm (selected E t))
    (hgranted : ∀ k ∈ selected E t, ∀ tok, t.lookup k = some tok → ∃ data, Granted E k tok data) :
    Refreshes E t keys ↔ ∀ k ∈ selected E t, ∀ tok, t.lookup k = some tok → tok.isExpired (E.checkedAt k) = true := by
  have hrows : ∀ k ∈ keys, ∃ tok data, t.lookup k = some tok ∧ Granted E k tok data := by
    intro k hk
    obtain ⟨tok, hrow, -⟩ := mem_selected.1 (hkeys.mem_iff.1 hk)
    obtain ⟨data, hg⟩ := hgranted k (hkeys.mem_iff.1 hk) tok hrow
    exact ⟨tok, data, hrow, hg⟩
  obtain ⟨hhandled, huntouched, hcount⟩ :=
    sweepOver_handled (hkeys.nodup_iff.2 (nodup_selected t)) { table := t, granted := [] } hrows
  constructor
  · intro h k hk tok hrow
    obtain ⟨data, hg⟩ := hgranted k hk tok hrow
    have hout := hhandled k (hkeys.mem_iff.2 hk) tok data hrow hg
    by_contra hexpired
    rw [if_neg hexpired] at hout
    obtain ⟨data', hmem, -⟩ := h.fresh k (hkeys.mem_iff.2 hk)
    exact absurd ((hout.granted data').1 hmem) List.not_mem_nil
  · intro hexpired
    have hall : ∀ k ∈ keys, ∃ tok data, t.lookup k = some tok ∧ Granted E k tok data ∧
        (sweep E t keys).1.table.lookup k = some (renewed E k tok data) ∧ (k, data) ∈ (sweep E t keys).1.granted := by
      intro k hk
      obtain ⟨tok, data, hrow, hg⟩ := hrows k hk
      have hout := hhandled k hk tok data hrow hg
      rw [if_pos (hexpired k (hkeys.mem_iff.1 hk) tok hrow)] at hout
      exact ⟨tok, data, hrow, hg, hout⟩
    refine ⟨?_, fun k hk => (huntouched k hk).row, ?_⟩
    · intro k hk
      obtain ⟨tok, data, -, -, hlookup, hmem⟩ := hall k hk
      refine ⟨data, hmem, ?_⟩
      rw [hlookup]
      rfl
    · have hchanged : ∀ k ∈ keys, (sweep E t keys).1.table.lookup k ≠ t.lookup k := by
        intro k hk heq
        obtain ⟨tok, data, hrow, hg, hlookup, -⟩ := hall k hk
        have htok := Option.some.inj (hlookup.symm.trans (heq.trans hrow))
        exact hg.new (congrArg Token.accessToken htok)
      rw [List.filter_eq_self.2 fun k hk => decide_eq_true (hchanged k hk)]
      exact hcount

/-- one token of an active user, with the seconds it has left -/
def oneRow (left : ℤ) : Table := AList.insert ("u".toList, "gmail".toList) ⟨"a".toList, "r".toList, 1000 + left, [], [], 0⟩ ∅

def quiet : Env where
  now := 1000
  checkedAt _ := 1000
  answeredAt _ := 1000
  active _ := true
  configured _ := true
  post _ _ := .granted ⟨"b".toList, none, 3600, 0⟩

theorem eq_of_lookup_oneRow {left : ℤ} {k : Key} {tok : Token} (h : (oneRow left).lookup k = some tok) :
    k = ("u".toList, "gmail".toList) ∧ tok = ⟨"a".toList, "r".toList, 1000 + left, [], [], 0⟩ := by
  have hk : k = ("u".toList, "gmail".toList) := by
    by_contra hne
    rw [oneRow, AList.lookup_insert_ne hne] at h
    cases h
  subst hk
  rw [oneRow, AList.lookup_insert] at h
  exact ⟨rfl, (Option.some.inj h).symm⟩

theorem granted_oneRow {left : ℤ} : ∀ k ∈ selected quiet (oneRow left), ∀ tok, (oneRow left).lookup k = some tok →
    ∃ data, Granted quiet k tok data := by
  intro k hk tok hrow
  obtain ⟨tok', hrow', hdue⟩ := mem_selected.1 hk
  obtain rfl := Option.some.inj (hrow.symm.trans hrow')
  refine ⟨_, hdue, rfl, rfl, ?_⟩
  rw [(eq_of_lookup_oneRow hrow).2]
  simp

theorem refreshes_oneRow : Refreshes quiet (oneRow 200) (selected quiet (oneRow 200)) := by
  refine (refreshes_iff quiet (oneRow 200) _ (List.Perm.refl _) granted_oneRow).2 ?_
  intro k _ tok hrow
  obtain ⟨-, rfl⟩ := eq_of_lookup_oneRow hrow
  rfl

/-- a token with 330 seconds left is selected, and taken for a peer's -/
theorem not_refreshes : ¬ Refreshes quiet (oneRow 330) (selected quiet (oneRow 330)) ∧
    (sweep quiet (oneRow 330) (selected quiet (oneRow 330))).2 = 1 := by
  refine ⟨fun h => ?_, by decide +kernel⟩
  have hempty : (sweep quiet (oneRow 330) (selected quiet (oneRow 330))).1.granted = [] := by decide +kernel
  obtain ⟨data, hmem, -⟩ := h.fresh ("u".toList, "gmail".toList) (by decide +kernel)
  rw [hempty] at hmem
  cases hmem

end Clawbolt.OAuth.Sweep
