/-
Prompt-cache epochs (`is_cold_gap`, `_touches_cache`, `find_epoch` in agent/prompt_epoch.py), and the settings the history
reads.

`opensEpoch seq i` is the body of the scan of `find_epoch` at index `i`; the scan goes from the last row to the first and
takes the first index that opens an epoch, or 0.

- `opensEpoch_append_left`: whether a row opens an epoch does not depend on the rows after it;
- `opensEpoch_append_right`: nor on the rows before an earlier inbound row;
- `boundary_append`: rows appended after the last one leave the boundary where it is when none of them opens an epoch,
  and rows dropped from the front, down to an inbound row before the boundary, shift it by their number.
-/
import Mathlib.Tactic
import Clawbolt.History.Message

namespace Clawbolt.History

/-! ## Model -/

inductive CacheTTL where
  | fiveMinutes
  | oneHour
deriving DecidableEq, Repr

structure Settings where
  compactionEnabled : Bool
  conversationHistoryLimit : ℕ
  historyLimit_pos : 1 ≤ conversationHistoryLimit
  contextTrimTargetTokens : ℕ
  contextTrimTriggerTokens : ℕ
  contextTrimTargetTurns : ℕ
  targetTurns_min : 2 ≤ contextTrimTargetTurns
  /-- none resolves to the target plus 16 -/
  contextTrimTriggerTurns : Option ℤ
  llmCacheExtendedTtl : Bool
  llmCacheHistoryTtl : CacheTTL
  promptCacheIdleSeconds : Option ℕ
  coldStartCompactionEnabled : Bool
  coldStartHistoryBudgetTokens : ℕ
  historyBudget_min : 1000 ≤ coldStartHistoryBudgetTokens
  coldStartVerbatimTurns : ℕ

/-- the defaults of config.py -/
def Settings.default : Settings where
  compactionEnabled := true
  conversationHistoryLimit := 500
  historyLimit_pos := by decide
  contextTrimTargetTokens := 120000
  contextTrimTriggerTokens := 150000
  contextTrimTargetTurns := 200
  targetTurns_min := by decide
  contextTrimTriggerTurns := none
  llmCacheExtendedTtl := true
  llmCacheHistoryTtl := .oneHour
  promptCacheIdleSeconds := none
  coldStartCompactionEnabled := false
  coldStartHistoryBudgetTokens := 30000
  historyBudget_min := by decide
  coldStartVerbatimTurns := 4

/-- `breakpoint_ttls().history`: capped at the lifetime of the prefix -/
def Settings.historyTtl (cfg : Settings) : CacheTTL :=
  if cfg.llmCacheExtendedTtl then cfg.llmCacheHistoryTtl else .fiveMinutes

/-- `_CACHE_TTLS`, in microseconds -/
def CacheTTL.duration : CacheTTL → ℤ
  | .fiveMinutes => 5 * 60 * 1000000
  | .oneHour => 3600 * 1000000

def cacheIdleThreshold (cfg : Settings) : ℤ :=
  match cfg.promptCacheIdleSeconds with
  | some s => s * 1000000
  | none => cfg.historyTtl.duration

def isColdGap (cfg : Settings) (previous : Option Datetime) (current : Datetime) : Bool :=
  match previous with
  | none => true
  | some p => cacheIdleThreshold cfg < current.instant - p.instant

def touchesCache (rows : List StoredMessage) (index : ℕ) : Bool :=
  match rows[index]? with
  | none => false
  | some row =>
    row.direction = .inbound || (0 < index && (rows[index - 1]?).any fun r => r.direction = .inbound)

/-- the last index below `n` with `p` -/
def lastIndex (p : ℕ → Bool) : ℕ → Option ℕ
  | 0 => none
  | n + 1 => if p n then some n else lastIndex p n

/-- whether the row at an index opens an epoch: an inbound row after a cold gap -/
def opensEpoch (env : Env) (cfg : Settings) (seq : List StoredMessage) (index : ℕ) : Bool :=
  match seq[index]? with
  | none => false
  | some row =>
    row.direction = .inbound &&
      match parseTs env row.timestamp with
      | none => false
      | some at_ =>
        match lastIndex (touchesCache seq) index with
        | none => isColdGap cfg none at_
        | some b =>
          match (seq[b]?).bind fun r => parseTs env r.timestamp with
          | none => false
          | some previous => isColdGap cfg (some previous) at_

/-- the index of the row that opened the last epoch -/
def boundary (env : Env) (cfg : Settings) (seq : List StoredMessage) : ℕ :=
  (lastIndex (opensEpoch env cfg seq) seq.length).getD 0

structure PromptEpoch where
  key : ℕ
  coldStart : Bool
  turnSeq : Option ℕ
deriving DecidableEq, Repr

def findEpoch (env : Env) (cfg : Settings) (rows : List StoredMessage) (current : StoredMessage) : PromptEpoch × ℕ :=
  let seq := rows ++ [current]
  let b := boundary env cfg seq
  (⟨((seq[b]?).map StoredMessage.seq).getD 0, (seq.drop b).all fun r => r.direction = .inbound, some current.seq⟩, b)

/-! ## The last index -/

theorem lastIndex_eq_some {p : ℕ → Bool} {n b : ℕ} :
    lastIndex p n = some b ↔ b < n ∧ p b = true ∧ ∀ i, b < i → i < n → p i = false := by
  induction n with
  | zero => simp [lastIndex]
  | succ n ih =>
    simp only [lastIndex]
    by_cases hp : p n = true
    · simp only [hp, if_true, Option.some.injEq]
      constructor
      · rintro rfl
        exact ⟨Nat.lt_succ_self _, hp, fun i h1 h2 => by omega⟩
      · rintro ⟨h1, -, h3⟩
        by_contra hne
        have := h3 n (by omega) (Nat.lt_succ_self _)
        simp [hp] at this
    · simp only [hp, Bool.false_eq_true, if_false, ih]
      constructor
      · rintro ⟨h1, h2, h3⟩
        refine ⟨by omega, h2, fun i hbi hin => ?_⟩
        rcases Nat.lt_succ_iff_lt_or_eq.1 hin with h | rfl
        · exact h3 i hbi h
        · simpa using hp
      · rintro ⟨h1, h2, h3⟩
        have hbn : b ≠ n := fun h => hp (h ▸ h2)
        exact ⟨by omega, h2, fun i hbi hin => h3 i hbi (by omega)⟩

theorem lastIndex_eq_none {p : ℕ → Bool} {n : ℕ} : lastIndex p n = none ↔ ∀ i < n, p i = false := by
  induction n with
  | zero => simp [lastIndex]
  | succ n ih =>
    simp only [lastIndex]
    by_cases hp : p n = true
    · simp only [hp, if_true, reduceCtorEq, false_iff, not_forall]
      exact ⟨n, Nat.lt_succ_self _, by simp [hp]⟩
    · simp only [hp, Bool.false_eq_true, if_false, ih, Nat.lt_succ_iff_lt_or_eq]
      constructor
      · rintro h i (hi | rfl)
        · exact h i hi
        · simpa using hp
      · exact fun h i hi => h i (Or.inl hi)

theorem lastIndex_congr {p q : ℕ → Bool} {n : ℕ} (h : ∀ i < n, p i = q i) : lastIndex p n = lastIndex q n := by
  induction n with
  | zero => rfl
  | succ n ih => simp only [lastIndex, h n (Nat.lt_succ_self _), ih fun i hi => h i (by omega)]

/-- the last index of a shifted predicate, when the first index of the shifted part has it -/
theorem lastIndex_shift {p q : ℕ → Bool} {k n : ℕ} (h : ∀ i < n, p (k + i) = q i) (h0 : 0 < n → q 0 = true) (hn : 0 < n) :
    lastIndex p (k + n) = (lastIndex q n).map (k + ·) := by
  cases hq : lastIndex q n with
  | none => exact absurd (lastIndex_eq_none.1 hq 0 hn) (by simp [h0 hn])
  | some b =>
    obtain ⟨h1, h2, h3⟩ := lastIndex_eq_some.1 hq
    simp only [Option.map_some]
    refine lastIndex_eq_some.2 ⟨by omega, by rw [h b h1]; exact h2, fun i hi1 hi2 => ?_⟩
    obtain ⟨j, rfl⟩ : ∃ j, i = k + j := ⟨i - k, by omega⟩
    rw [h j (by omega)]
    exact h3 j (by omega) (by omega)

/-! ## Rows before and after -/

theorem touchesCache_append_left {a b : List StoredMessage} {i : ℕ} (h : i < a.length) :
    touchesCache (a ++ b) i = touchesCache a i := by
  have h1 : (a ++ b)[i]? = a[i]? := List.getElem?_append_left h
  have h2 : (a ++ b)[i - 1]? = a[i - 1]? := List.getElem?_append_left (by omega)
  unfold touchesCache
  rw [h1, h2]

theorem touchesCache_append_right {a b : List StoredMessage} {r : StoredMessage} (hr : b.head? = some r)
    (hin : r.direction = .inbound) (i : ℕ) : touchesCache (a ++ b) (a.length + i) = touchesCache b i := by
  have h1 : (a ++ b)[a.length + i]? = b[i]? := by
    rw [List.getElem?_append_right (by omega)]; congr 1; omega
  cases i with
  | zero =>
    have hb : b[0]? = some r := by rw [← hr, List.head?_eq_getElem?]
    unfold touchesCache
    rw [h1, hb]
    simp [hin]
  | succ i =>
    have h2 : (a ++ b)[a.length + (i + 1) - 1]? = b[i]? := by
      rw [List.getElem?_append_right (by omega)]; congr 1; omega
    unfold touchesCache
    rw [h1, h2]
    simp

section

variable (env : Env) (cfg : Settings)

theorem opensEpoch_append_left {a b : List StoredMessage} {i : ℕ} (h : i < a.length) :
    opensEpoch env cfg (a ++ b) i = opensEpoch env cfg a i := by
  have h1 : (a ++ b)[i]? = a[i]? := List.getElem?_append_left h
  have h2 : lastIndex (touchesCache (a ++ b)) i = lastIndex (touchesCache a) i :=
    lastIndex_congr fun j hj => touchesCache_append_left (by omega)
  unfold opensEpoch
  rw [h1, h2]
  cases hl : lastIndex (touchesCache a) i with
  | none => rfl
  | some j =>
    have hj : j < a.length := (lastIndex_eq_some.1 hl).1.trans h
    simp only [List.getElem?_append_left hj]

theorem opensEpoch_of_length_le {seq : List StoredMessage} {i : ℕ} (h : seq.length ≤ i) :
    opensEpoch env cfg seq i = false := by
  unfold opensEpoch
  rw [List.getElem?_eq_none h]

/-- with an inbound row first, a later row looks no further back -/
theorem opensEpoch_append_right {a b : List StoredMessage} {r : StoredMessage} (hr : b.head? = some r)
    (hin : r.direction = .inbound) {i : ℕ} (hi : 0 < i) :
    opensEpoch env cfg (a ++ b) (a.length + i) = opensEpoch env cfg b i := by
  have h1 : ∀ j, (a ++ b)[a.length + j]? = b[j]? := fun j => by
    rw [List.getElem?_append_right (by omega)]; congr 1; omega
  have h0 : touchesCache b 0 = true := by
    have hb : b[0]? = some r := by rw [← hr, List.head?_eq_getElem?]
    simp [touchesCache, hb, hin]
  have h2 : lastIndex (touchesCache (a ++ b)) (a.length + i) = (lastIndex (touchesCache b) i).map (a.length + ·) :=
    lastIndex_shift (fun j _ => touchesCache_append_right hr hin j) (fun _ => h0) hi
  unfold opensEpoch
  rw [h1, h2]
  cases lastIndex (touchesCache b) i with
  | none => rfl
  | some j => simp only [Option.map_some, h1]

theorem boundary_lt (seq : List StoredMessage) (h : seq ≠ []) : boundary env cfg seq < seq.length := by
  unfold boundary
  cases hl : lastIndex (opensEpoch env cfg seq) seq.length with
  | none => exact List.length_pos_iff.2 h
  | some b => exact (lastIndex_eq_some.1 hl).1

/-- **The boundary of a grown history.** `current` is an inbound row that ends `kept`, and no row of `later` opens an
epoch after it. Rows `dropped` before `kept` move the boundary by their number, as long as an inbound row of `kept` stays
before it. -/
theorem boundary_append {dropped kept later : List StoredMessage} {current : StoredMessage}
    (hcur : current.direction = .inbound) (hlater : ∀ i, 0 < i → opensEpoch env cfg (current :: later) i = false)
    (hdrop : dropped = [] ∨ ((kept ++ [current]).head?.any (·.direction = .inbound) = true ∧
      dropped.length < boundary env cfg (dropped ++ (kept ++ [current])))) :
    boundary env cfg (dropped ++ (kept ++ [current])) =
      dropped.length + boundary env cfg (kept ++ [current] ++ later) := by
  -- the rows of `later` see no further back than `current`
  have htail : ∀ i, (kept ++ [current]).length ≤ i → opensEpoch env cfg (kept ++ [current] ++ later) i = false := by
    intro i hi
    obtain ⟨j, rfl⟩ : ∃ j, i = kept.length + (j + 1) := ⟨i - kept.length - 1, by simp at hi; omega⟩
    rw [List.append_assoc, List.singleton_append,
      opensEpoch_append_right env cfg (r := current) rfl hcur (Nat.succ_pos j)]
    exact hlater _ (Nat.succ_pos j)
  have hhead : ∀ i, i < (kept ++ [current]).length →
      opensEpoch env cfg (kept ++ [current] ++ later) i = opensEpoch env cfg (kept ++ [current]) i :=
    fun i hi => opensEpoch_append_left env cfg hi
  have hgrow : lastIndex (opensEpoch env cfg (kept ++ [current] ++ later)) (kept ++ [current] ++ later).length =
      lastIndex (opensEpoch env cfg (kept ++ [current])) (kept ++ [current]).length := by
    cases hl : lastIndex (opensEpoch env cfg (kept ++ [current])) (kept ++ [current]).length with
    | none =>
      refine lastIndex_eq_none.2 fun i hi => ?_
      rcases Nat.lt_or_ge i (kept ++ [current]).length with h | h
      · rw [hhead i h]; exact lastIndex_eq_none.1 hl i h
      · exact htail i h
    | some b =>
      obtain ⟨h1, h2, h3⟩ := lastIndex_eq_some.1 hl
      refine lastIndex_eq_some.2 ⟨by simp at h1 ⊢; omega, by rw [hhead b h1]; exact h2, fun i hbi hi => ?_⟩
      rcases Nat.lt_or_ge i (kept ++ [current]).length with h | h
      · rw [hhead i h]; exact h3 i hbi h
      · exact htail i h
  have hb : boundary env cfg (kept ++ [current] ++ later) = boundary env cfg (kept ++ [current]) := by
    unfold boundary; rw [hgrow]
  rw [hb]
  rcases hdrop with rfl | ⟨hin, hlt⟩
  · simp
  -- the boundary opens an epoch after the first kept row, which is inbound
  obtain ⟨r, hr, hrin⟩ : ∃ r, (kept ++ [current]).head? = some r ∧ r.direction = .inbound := by
    cases hh : (kept ++ [current]).head? with
    | none => simp [hh] at hin
    | some r => exact ⟨r, rfl, by simpa [hh] using hin⟩
  have hshift : ∀ i, 0 < i → opensEpoch env cfg (dropped ++ (kept ++ [current])) (dropped.length + i) =
      opensEpoch env cfg (kept ++ [current]) i := fun i hi => opensEpoch_append_right env cfg hr hrin hi
  unfold boundary at hlt ⊢
  cases hl : lastIndex (opensEpoch env cfg (dropped ++ (kept ++ [current]))) (dropped ++ (kept ++ [current])).length with
  | none => simp only [hl, Option.getD_none, Nat.not_lt_zero] at hlt
  | some b =>
    obtain ⟨h1, h2, h3⟩ := lastIndex_eq_some.1 hl
    simp only [hl, Option.getD_some] at hlt ⊢
    obtain ⟨j, rfl, hj⟩ : ∃ j, b = dropped.length + j ∧ 0 < j := ⟨b - dropped.length, by omega, by omega⟩
    have hlast : lastIndex (opensEpoch env cfg (kept ++ [current])) (kept ++ [current]).length = some j := by
      refine lastIndex_eq_some.2 ⟨by simp at h1 ⊢; omega, by rw [← hshift j hj]; exact h2, fun i hji hi => ?_⟩
      rw [← hshift i (by omega)]
      exact h3 _ (by omega) (by simp at hi ⊢; omega)
    rw [hlast, Option.getD_some]

end

end Clawbolt.History
