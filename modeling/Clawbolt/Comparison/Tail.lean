/-
The rows that a comparison run loads (`_row_budget` and `build_fixture` of services/model_comparison/sampling.py).

Only the newest rows are read, as many as a run of its size is thought to need, unless they hold too few inbound rows or
too few rows in front of the oldest of these. A sample is a batch of inbound rows and a blank batch gives none, so the check
counts other things than the samples. Its condition is exact:

- `turns_split`: the turns of a tail are those of the whole transcript, up to the one that the cut goes through;
- `samples_iff`, `window_iff`: when the samples are those of the whole transcript, and when a history is;
- `tail_changes_nothing`: when a run on the tail is the run on the transcript;
- `blank_tail`: a tail that holds a blank message only.
-/
import Mathlib.Tactic
import Mathlib.Data.List.Sort
import Clawbolt.Comparison.Sampling

namespace Clawbolt.Sampling

open Text (Str)
open Clawbolt.History (Env Settings StoredMessage)

/-! ## Model -/

/-- `_ROWS_PER_TURN_ALLOWANCE` -/
def rowsPerTurnAllowance : ℕ := 6

/-- `_row_budget` -/
def rowBudget (cfg : Settings) (sampleLimit : ℕ) : ℕ := sampleLimit * rowsPerTurnAllowance + cfg.conversationHistoryLimit

/-- `rows.sort(key=lambda m: m.seq)` -/
def sortBySeq (rows : List StoredMessage) : List StoredMessage := rows.insertionSort fun a b => a.seq ≤ b.seq

/-- `get_recent_messages_async`: the last rows by their timestamp column, which the query orders by; equal ones in any order -/
structure Recent (time : StoredMessage → ℤ) (stored : List StoredMessage) (count : ℕ) (read : List StoredMessage) : Prop where
  rows : read.Subperm stored
  length : read.length = min count stored.length
  ordered : read.Pairwise fun a b => time a ≤ time b
  newest : ∀ r ∈ stored, r ∉ read → ∀ x ∈ read, time r ≤ time x

/-- `inbound_at` -/
def inboundAt (rows : List StoredMessage) : List ℕ := rows.findIdxs inbound

/-- a full window with too few inbound rows, or too few rows in front of the oldest of the last ones -/
def fallsBack (cfg : Settings) (sampleLimit : ℕ) (read : List StoredMessage) : Bool :=
  let shortOfTurns := (inboundAt read).length < sampleLimit
  let historyRows := if shortOfTurns then 0 else ((inboundAt read)[(inboundAt read).length - sampleLimit]?).getD 0
  shortOfTurns || historyRows < cfg.conversationHistoryLimit

/-- the rows of `build_fixture`, `read` being what `get_recent_messages_async` returns; no limit, or one of zero, reads all -/
def fixtureRows (cfg : Settings) (stored read : List StoredMessage) (sampleLimit : Option ℕ) : List StoredMessage :=
  let rows := match sampleLimit with
    | some limit =>
      if 0 < limit then (if read.length = rowBudget cfg limit ∧ fallsBack cfg limit read = true then [] else read) else []
    | none => []
  sortBySeq (if rows = [] then stored else rows)

/-! ## What is claimed, and when -/

/-- the samples of a run, their histories and the rows above these are those of the whole transcript -/
structure SameRun (env : Env) (cfg : Settings) (stored read : List StoredMessage) (limit : ℕ) : Prop where
  samples : selectSamples env (fixtureRows cfg stored read (some limit)) limit =
    selectSamples env (fixtureRows cfg stored read none) limit
  windows : ∀ s ∈ selectSamples env (fixtureRows cfg stored read none) limit,
    (historyWindow cfg (fixtureRows cfg stored read (some limit)) s).1 =
        (historyWindow cfg (fixtureRows cfg stored read none) s).1 ∧
      (historyWindow cfg (fixtureRows cfg stored read (some limit)) s).2.2.getLast? =
        (historyWindow cfg (fixtureRows cfg stored read none) s).2.2.getLast?

/-- the batches of a transcript, each with the rows after it -/
def batches (env : Env) : List StoredMessage → List (List StoredMessage × List StoredMessage)
  | [] => []
  | row :: rest =>
    if inbound row then (row :: (batchRest env row rest).1, (batchRest env row rest).2) :: batches env (batchRest env row rest).2
    else batches env rest
termination_by rows => rows.length
decreasing_by
  · exact Nat.lt_succ_of_le (batchRest_length env row rest)
  · exact Nat.lt_succ_self _

/-- the batches with a text -/
def textBatches (env : Env) (rows : List StoredMessage) : List (List StoredMessage × List StoredMessage) :=
  (batches env rows).filter fun t => t.1.any hasText

/-- the rows that the samples of a run are made from -/
def lastBatches (env : Env) (rows : List StoredMessage) (limit : ℕ) : List (List StoredMessage) :=
  ((textBatches env rows).drop ((textBatches env rows).length - limit)).map fun t => t.1.filter hasText

/-- a tail is enough: it has the texts of the last batches, and in front of the last text of each more rows than a history -/
def Enough (env : Env) (cfg : Settings) (stored tail : List StoredMessage) (limit : ℕ) : Prop :=
  ∀ texts ∈ lastBatches env stored limit, (∀ row ∈ texts, row ∈ tail) ∧
    ∀ last, texts.getLast? = some last → cfg.conversationHistoryLimit < (tail.filter fun r => r.seq < last.seq).length

/-- the last rows of a transcript -/
def tailRows (stored : List StoredMessage) (count : ℕ) : List StoredMessage := stored.drop (stored.length - count)

/-- the run reads a part of the transcript, and keeps it -/
def KeepsPart (cfg : Settings) (stored read : List StoredMessage) (limit : ℕ) : Prop :=
  rowBudget cfg limit < stored.length ∧ fallsBack cfg limit read = false

/-! ## Batches -/

section

variable {env : Env}

theorem batches_inbound {row : StoredMessage} (h : inbound row = true) (rest : List StoredMessage) :
    batches env (row :: rest) =
      (row :: (batchRest env row rest).1, (batchRest env row rest).2) :: batches env (batchRest env row rest).2 := by
  rw [batches, if_pos h]

theorem batches_outbound {row : StoredMessage} (h : inbound row = false) (rest : List StoredMessage) :
    batches env (row :: rest) = batches env rest := by
  rw [batches, if_neg (Bool.eq_false_iff.1 h)]

/-- the samples are those of the batches -/
theorem selectFrom_batches (rows : List StoredMessage) :
    selectFrom env rows = (batches env rows).filterMap fun t => sampleOf env t.1 t.2 := by
  induction rows using batches.induct env with
  | case1 => rw [selectFrom, batches]; rfl
  | case2 row rest hrow ih =>
    rw [selectFrom, if_pos hrow, batches_inbound hrow, List.filterMap_cons, ih]
    cases sampleOf env (row :: (batchRest env row rest).1) (batchRest env row rest).2 <;> rfl
  | case3 row rest hrow ih => rw [selectFrom, if_neg hrow, batches_outbound (Bool.eq_false_iff.2 hrow), ih]

/-- where a batch ends whose first rows are in front of a cut: in front of it too, or behind it -/
theorem batchRest_split (row : StoredMessage) (before tail : List StoredMessage) :
    (∃ later rest, before = later ++ rest ∧ batchRest env row (before ++ tail) = (later, rest ++ tail)) ∨
    ∃ first behind after, tail = first :: (behind ++ after) ∧ batchRest env first (behind ++ after) = (behind, after) ∧
      inbound first = true ∧ batchRest env row (before ++ tail) = (before ++ first :: behind, after) := by
  induction before generalizing row with
  | nil =>
    cases tail with
    | nil => exact Or.inl ⟨[], [], rfl, rfl⟩
    | cons first tail =>
      rw [List.nil_append, batchRest]
      split
      · rename_i h
        refine Or.inr ⟨first, (batchRest env first tail).1, (batchRest env first tail).2, ?_, ?_,
          (Bool.and_eq_true_iff.1 h).1, rfl⟩
        · rw [batchRest_append]
        · rw [batchRest_append]
      · exact Or.inl ⟨[], [], rfl, rfl⟩
  | cons next before ih =>
    rw [List.cons_append, batchRest]
    split
    · rcases ih next with ⟨later, rest, rfl, heq⟩ | ⟨first, behind, after, htail, hbehind, hinbound, heq⟩
      · exact Or.inl ⟨next :: later, rest, rfl, by rw [heq]⟩
      · exact Or.inr ⟨first, behind, after, htail, hbehind, hinbound, by rw [heq]; rfl⟩
    · exact Or.inl ⟨[], next :: before, rfl, rfl⟩

/-- the batches of a transcript and of its tail: those in front of the cut, and those behind it; a batch that the cut goes
through is longer in the transcript -/
theorem batches_split (before tail : List StoredMessage) :
    ∃ front, (∀ t ∈ front, ∀ r ∈ t.1, r ∈ before) ∧ (batches env (before ++ tail) = front ++ batches env tail ∨
      ∃ lost kept after rest, lost ≠ [] ∧ (∀ r ∈ lost, r ∈ before) ∧
        batches env (before ++ tail) = front ++ (lost ++ kept, after) :: rest ∧ batches env tail = (kept, after) :: rest) := by
  induction hlen : before.length using Nat.strong_induction_on generalizing before with
  | _ n ih =>
    cases before with
    | nil => exact ⟨[], by simp, Or.inl rfl⟩
    | cons row before =>
      rw [List.cons_append]
      rw [List.length_cons] at hlen
      cases hrow : inbound row with
      | false =>
        rw [batches_outbound hrow]
        obtain ⟨front, hfront, hcases⟩ := ih before.length (by omega) before rfl
        refine ⟨front, fun t ht r hr => List.mem_cons_of_mem _ (hfront t ht r hr), hcases.imp_right ?_⟩
        rintro ⟨lost, kept, after, rest, hne, hlost, hwhole, htail⟩
        exact ⟨lost, kept, after, rest, hne, fun r hr => List.mem_cons_of_mem _ (hlost r hr), hwhole, htail⟩
      | true =>
        rw [batches_inbound hrow]
        rcases @batchRest_split env row before tail with
          ⟨later, rest, rfl, heq⟩ | ⟨first, behind, after, rfl, hbehind, hinbound, heq⟩
        · rw [heq]
          obtain ⟨front, hfront, hcases⟩ := ih rest.length (by rw [List.length_append] at hlen; omega) rest rfl
          refine ⟨(row :: later, rest ++ tail) :: front, ?_, ?_⟩
          · intro t ht r hr
            rcases List.mem_cons.1 ht with rfl | ht
            · exact List.mem_cons.2 ((List.mem_cons.1 hr).imp_right fun h => List.mem_append_left _ h)
            · exact List.mem_cons_of_mem _ (List.mem_append_right _ (hfront t ht r hr))
          · refine hcases.imp (fun hwhole => by rw [hwhole]; rfl) ?_
            rintro ⟨lost, kept, after, rest', hne, hlost, hwhole, htail⟩
            exact ⟨lost, kept, after, rest', hne,
              fun r hr => List.mem_cons_of_mem _ (List.mem_append_right _ (hlost r hr)), by rw [hwhole]; rfl, htail⟩
        · refine ⟨[], by simp, Or.inr ⟨row :: before, first :: behind, after, batches env after, List.cons_ne_nil _ _,
            fun r hr => hr, ?_, ?_⟩⟩
          · rw [heq]
            rfl
          · rw [batches_inbound hinbound, hbehind]

theorem batches_mem (rows : List StoredMessage) : ∀ t ∈ batches env rows, ∀ r ∈ t.1, r ∈ rows := by
  induction rows using batches.induct env with
  | case1 => simp [batches]
  | case2 row rest hrow ih =>
    rw [batches_inbound hrow]
    have hrest := batchRest_append env row rest
    refine List.forall_mem_cons.2 ⟨?_, ?_⟩
    · intro r hr
      rw [← hrest]
      exact List.mem_cons.2 ((List.mem_cons.1 hr).imp_right fun h => List.mem_append_left _ h)
    · intro t ht r hr
      rw [← hrest]
      exact List.mem_cons_of_mem _ (List.mem_append_right _ (ih t ht r hr))
  | case3 row rest hrow ih =>
    rw [batches_outbound (Bool.eq_false_iff.2 hrow)]
    exact fun t ht r hr => List.mem_cons_of_mem _ (ih t ht r hr)

/-! ## Texts -/

theorem texts_append (a b after : List StoredMessage) :
    Sampling.texts (a ++ b) after = Sampling.texts a (b ++ after) ++ Sampling.texts b after := by
  induction a with
  | nil => rfl
  | cons row a ih =>
    rw [List.cons_append, Sampling.texts, Sampling.texts, ih, List.append_assoc]
    split <;> rfl

theorem texts_blank {batch : List StoredMessage} (h : batch.any hasText = false) (after : List StoredMessage) :
    Sampling.texts batch after = [] := by
  have hrows := texts_rows batch after
  have hnone : batch.filter hasText = [] := List.filter_eq_nil_iff.2 fun r hr => List.any_eq_false.1 h r hr
  rw [hnone] at hrows
  exact List.map_eq_nil_iff.1 hrows

/-- blank rows in front of a batch leave its sample as it is -/
theorem sampleOf_blank {lost : List StoredMessage} (h : lost.any hasText = false) (kept after : List StoredMessage) :
    sampleOf env (lost ++ kept) after = sampleOf env kept after := by
  rw [sampleOf, texts_append, texts_blank h, List.nil_append]
  rfl

/-- the sample of a batch: its row is the last one with a text, and it has all the texts -/
theorem sampleOf_some {batch after : List StoredMessage} {s : ReplaySample} (h : sampleOf env batch after = some s) :
    (∃ last, (batch.filter hasText).getLast? = some last ∧ s.seq = last.seq) ∧
      s.batchedMessages.length + 1 = (batch.filter hasText).length := by
  have hrows := texts_rows batch after
  rw [sampleOf] at h
  cases hlast : (Sampling.texts batch after).getLast? with
  | none =>
    rw [hlast] at h
    cases h
  | some t =>
    rw [hlast] at h
    obtain rfl := Option.some.inj h
    have hne : Sampling.texts batch after ≠ [] := fun hnil => by rw [hnil] at hlast; cases hlast
    refine ⟨⟨t.1, ?_, rfl⟩, ?_⟩
    · rw [← hrows, List.getLast?_map, hlast]
      rfl
    · have hpos := List.length_pos_of_ne_nil hne
      simp only [List.length_map, List.length_dropLast, ← hrows]
      omega

theorem sampleOf_isSome (batch after : List StoredMessage) : (sampleOf env batch after).isSome = batch.any hasText := by
  cases hany : batch.any hasText with
  | false =>
    rw [sampleOf, texts_blank hany]
    rfl
  | true =>
    obtain ⟨row, hrow, htext⟩ := List.any_eq_true.1 hany
    cases hs : sampleOf env batch after with
    | some s => rfl
    | none =>
      rw [sampleOf] at hs
      cases hlast : (Sampling.texts batch after).getLast? with
      | none =>
        have hrows := texts_rows batch after
        rw [List.getLast?_eq_none_iff.1 hlast] at hrows
        have hmem : row ∈ batch.filter hasText := List.mem_filter.2 ⟨hrow, htext⟩
        rw [← hrows] at hmem
        cases hmem
      | some t =>
        rw [hlast] at hs
        cases hs

/-- blank batches have no sample -/
theorem filterMap_text (ts : List (List StoredMessage × List StoredMessage)) :
    (ts.filter fun t => t.1.any hasText).filterMap (fun t => sampleOf env t.1 t.2) =
      ts.filterMap fun t => sampleOf env t.1 t.2 := by
  induction ts with
  | nil => rfl
  | cons t ts ih =>
    have hsome := @sampleOf_isSome env t.1 t.2
    cases hany : t.1.any hasText with
    | true => rw [List.filter_cons_of_pos (by exact hany), List.filterMap_cons, List.filterMap_cons, ih]
    | false =>
      rw [hany, Option.isSome_eq_false_iff, Option.isNone_iff_eq_none] at hsome
      rw [List.filter_cons_of_neg (by rw [hany]; exact Bool.false_ne_true), List.filterMap_cons, hsome]
      exact ih

theorem selectFrom_textBatches (rows : List StoredMessage) :
    selectFrom env rows = (textBatches env rows).filterMap fun t => sampleOf env t.1 t.2 := by
  rw [selectFrom_batches, textBatches, filterMap_text]

/-- a function with a value at every item drops as the list does -/
theorem filterMap_drop {α β : Type} {f : α → Option β} {l : List α} (h : ∀ x ∈ l, (f x).isSome = true) (k : ℕ) :
    (l.drop k).filterMap f = (l.filterMap f).drop k := by
  induction l generalizing k with
  | nil => simp
  | cons x l ih =>
    obtain ⟨hx, hl⟩ := List.forall_mem_cons.1 h
    obtain ⟨y, hy⟩ := Option.isSome_iff_exists.1 hx
    cases k with
    | zero => rfl
    | succ k => rw [List.drop_succ_cons, ih hl k, List.filterMap_cons, hy, List.drop_succ_cons]

theorem filterMap_length {α β : Type} {f : α → Option β} {l : List α} (h : ∀ x ∈ l, (f x).isSome = true) :
    (l.filterMap f).length = l.length := by
  induction l with
  | nil => rfl
  | cons x l ih =>
    obtain ⟨hx, hl⟩ := List.forall_mem_cons.1 h
    obtain ⟨y, hy⟩ := Option.isSome_iff_exists.1 hx
    rw [List.filterMap_cons, hy, List.length_cons, List.length_cons, ih hl]

theorem textBatches_isSome (rows : List StoredMessage) : ∀ t ∈ textBatches env rows, (sampleOf env t.1 t.2).isSome = true := by
  intro t ht
  rw [sampleOf_isSome]
  exact (List.mem_filter.1 ht).2

/-- the samples of a run are those of the last batches -/
theorem selectSamples_last (rows : List StoredMessage) {limit : ℕ} (hlimit : 0 < limit) : selectSamples env rows limit =
    ((textBatches env rows).drop ((textBatches env rows).length - limit)).filterMap fun t => sampleOf env t.1 t.2 := by
  rw [selectSamples, if_pos hlimit, selectFrom_textBatches, filterMap_length (textBatches_isSome rows),
    filterMap_drop (textBatches_isSome rows)]

/-! ## The cut -/

/-- what the turns of a transcript are to those of its tail: the first ones have a text in front of the cut, the others have
not; one more sample of the tail is of the turn that the cut goes through, and not its sample in the transcript -/
structure Split (env : Env) (before tail : List StoredMessage)
    (front behind : List (List StoredMessage × List StoredMessage)) (cut : List ReplaySample) : Prop where
  whole : textBatches env (before ++ tail) = front ++ behind
  samples : selectFrom env tail = cut ++ behind.filterMap fun t => sampleOf env t.1 t.2
  inFront : ∀ t ∈ front, ∃ r ∈ t.1.filter hasText, r ∈ before
  inTail : ∀ t ∈ behind, ∀ r ∈ t.1.filter hasText, r ∈ tail
  none : front = [] → cut = []
  other : ∀ s ∈ cut, ∀ t, front.getLast? = some t → sampleOf env t.1 t.2 ≠ some s

/-- a batch with a text in front of the cut has one there -/
theorem front_text {before : List StoredMessage} {front : List (List StoredMessage × List StoredMessage)}
    (h : ∀ t ∈ front, ∀ r ∈ t.1, r ∈ before) :
    ∀ t ∈ front.filter (fun t => t.1.any hasText), ∃ r ∈ t.1.filter hasText, r ∈ before := by
  intro t ht
  obtain ⟨hmem, hany⟩ := List.mem_filter.1 ht
  obtain ⟨r, hr, htext⟩ := List.any_eq_true.1 hany
  exact ⟨r, List.mem_filter.2 ⟨hr, htext⟩, h t hmem r hr⟩

/-- **The turns of a tail.** -/
theorem turns_split (before tail : List StoredMessage) : ∃ front behind cut, Split env before tail front behind cut := by
  obtain ⟨front, hfront, hwhole | ⟨lost, kept, after, rest, hne, hlost, hwhole, htail⟩⟩ := @batches_split env before tail
  · refine ⟨front.filter fun t => t.1.any hasText, textBatches env tail, [], ?_, selectFrom_textBatches tail,
      front_text hfront, ?_, fun _ => rfl, by simp⟩
    · rw [textBatches, hwhole, List.filter_append]
      rfl
    · intro t ht r hr
      exact batches_mem tail t (List.mem_filter.1 ht).1 r (List.mem_filter.1 hr).1
  · have hmem : ∀ r, r ∈ kept → r ∈ tail := batches_mem tail (kept, after) (by rw [htail]; exact List.mem_cons_self)
    have hrest : ∀ t ∈ rest, ∀ r ∈ t.1, r ∈ tail := fun t ht => batches_mem tail t (by rw [htail]; exact List.mem_cons_of_mem _ ht)
    have hsamples : selectFrom env tail = ((kept, after) :: rest).filterMap fun t => sampleOf env t.1 t.2 := by
      rw [selectFrom_batches, htail]
    cases hany : lost.any hasText with
    | false =>
      refine ⟨front.filter fun t => t.1.any hasText, ((lost ++ kept, after) :: rest).filter fun t => t.1.any hasText, [], ?_, ?_,
        front_text hfront, ?_, fun _ => rfl, by simp⟩
      · rw [textBatches, hwhole, List.filter_append]
      · rw [hsamples, filterMap_text, List.nil_append, List.filterMap_cons, List.filterMap_cons, sampleOf_blank hany]
      · intro t ht r hr
        obtain ⟨hrow, htext⟩ := List.mem_filter.1 hr
        rcases List.mem_cons.1 (List.mem_filter.1 ht).1 with rfl | ht
        · refine hmem r ((List.mem_append.1 hrow).resolve_left ?_)
          intro hblank
          exact List.any_eq_false.1 hany r hblank htext
        · exact hrest t ht r hrow
    | true =>
      have hcut : (lost ++ kept).any hasText = true := by rw [List.any_append, hany, Bool.true_or]
      refine ⟨front.filter (fun t => t.1.any hasText) ++ [(lost ++ kept, after)], rest.filter fun t => t.1.any hasText,
        (sampleOf env kept after).toList, ?_, ?_, ?_, ?_, ?_, ?_⟩
      · rw [textBatches, hwhole, List.filter_append, List.filter_cons_of_pos (by exact hcut), List.append_assoc]
        rfl
      · rw [hsamples, filterMap_text, List.filterMap_cons]
        cases sampleOf env kept after <;> rfl
      · intro t ht
        rcases List.mem_append.1 ht with ht | ht
        · exact front_text hfront t ht
        · rw [List.mem_singleton.1 ht]
          obtain ⟨r, hr, htext⟩ := List.any_eq_true.1 hany
          exact ⟨r, List.mem_filter.2 ⟨List.mem_append_left _ hr, htext⟩, hlost r hr⟩
      · intro t ht r hr
        exact hrest t (List.mem_filter.1 ht).1 r (List.mem_filter.1 hr).1
      · intro hnil
        exact absurd hnil (List.concat_ne_nil _ _)
      · -- the sample of the transcript has more texts
        intro s hs t hlast hsame
        rw [List.getLast?_concat] at hlast
        obtain rfl := Option.some.inj hlast
        have hkept := (sampleOf_some (Option.mem_toList.1 hs)).2
        rw [(sampleOf_some hsame).2, List.filter_append, List.length_append] at hkept
        have hpos : 0 < (lost.filter hasText).length := by
          obtain ⟨r, hr, htext⟩ := List.any_eq_true.1 hany
          exact List.length_pos_of_mem (List.mem_filter.2 ⟨hr, htext⟩)
        omega

/-- the last items of two lists that end alike -/
theorem last_append_iff {α : Type} {a e b : List α} (limit : ℕ) (hnone : a = [] → e = [])
    (hother : ∀ x ∈ e, a.getLast? ≠ some x) :
    (e ++ b).drop ((e ++ b).length - limit) = (a ++ b).drop ((a ++ b).length - limit) ↔ limit ≤ b.length ∨ a = [] := by
  have hcut : ∀ l : List α, b.length < limit → (l ++ b).drop ((l ++ b).length - limit) =
      l.drop (l.length + b.length - limit) ++ b := by
    intro l hlt
    rw [List.drop_append, List.length_append]
    have hzero : l.length + b.length - limit - l.length = 0 := by omega
    rw [hzero, List.drop_zero]
  constructor
  · intro heq
    by_contra hnot
    rw [not_or, not_le] at hnot
    obtain ⟨hlt, hne⟩ := hnot
    rw [hcut e hlt, hcut a hlt] at heq
    have hdrop := List.append_cancel_right heq
    -- the last item of the one list is none of the other's
    obtain ⟨x, hx⟩ := Option.isSome_iff_exists.1 (List.getLast?_isSome.2 hne)
    have hpos := List.length_pos_of_ne_nil hne
    have hlast : (a.drop (a.length + b.length - limit)).getLast? = some x := by
      rw [List.getLast?_drop, if_neg (by omega), hx]
    rw [← hdrop] at hlast
    exact hother x (List.mem_of_mem_drop (List.mem_of_getLast? hlast)) hx
  · rintro (hle | rfl)
    · have hsame : ∀ l : List α, (l ++ b).drop ((l ++ b).length - limit) = b.drop (b.length - limit) := by
        intro l
        rw [List.drop_append, List.length_append, List.drop_eq_nil_of_le (by omega), List.nil_append]
        congr 1
        omega
      rw [hsame e, hsame a]
    · rw [hnone rfl]

/-- **The samples of a tail.** They are the last ones of the transcript when enough turns are behind the cut. -/
theorem samples_iff {before tail : List StoredMessage} {front behind : List (List StoredMessage × List StoredMessage)}
    {cut : List ReplaySample} (h : Split env before tail front behind cut) {limit : ℕ} (hlimit : 0 < limit) :
    selectSamples env tail limit = selectSamples env (before ++ tail) limit ↔ limit ≤ behind.length ∨ front = [] := by
  have hall : ∀ t ∈ front ++ behind, (sampleOf env t.1 t.2).isSome = true := by
    rw [← h.whole]
    exact textBatches_isSome _
  obtain ⟨hfront, hbehind⟩ := List.forall_mem_append.1 hall
  have hlength := filterMap_length hbehind
  have hnil : (front.filterMap fun t => sampleOf env t.1 t.2) = [] ↔ front = [] := by
    rw [← List.length_eq_zero_iff, filterMap_length hfront, List.length_eq_zero_iff]
  have hiff := last_append_iff limit (a := front.filterMap fun t => sampleOf env t.1 t.2) (e := cut)
    (b := behind.filterMap fun t => sampleOf env t.1 t.2) (fun hn => h.none (hnil.1 hn)) ?_
  · rw [← List.filterMap_append, ← h.whole, ← selectFrom_textBatches, ← h.samples, hlength, hnil] at hiff
    rw [selectSamples, selectSamples, if_pos hlimit, if_pos hlimit]
    exact hiff
  · intro s hs hlast
    rcases List.eq_nil_or_concat front with rfl | ⟨front', t, rfl⟩
    · cases hlast
    · rw [List.concat_eq_append] at hfront hlast h
      obtain ⟨y, hy⟩ := Option.isSome_iff_exists.1 (hfront t (by simp))
      rw [List.filterMap_append, List.filterMap_cons, hy, List.filterMap_nil, List.getLast?_concat] at hlast
      obtain rfl := Option.some.inj hlast
      exact h.other y hs t List.getLast?_concat hy

/-- a history is that of the transcript, with the row above it, when more rows than it has are in front of the sample -/
theorem window_iff {α : Type} {before rows : List α} (hne : before ≠ []) (count : ℕ) :
    (rows.drop (rows.length - count) = (before ++ rows).drop ((before ++ rows).length - count) ∧
      (rows.take (rows.length - count)).getLast? = ((before ++ rows).take ((before ++ rows).length - count)).getLast?) ↔
    count < rows.length := by
  have hpos := List.length_pos_of_ne_nil hne
  constructor
  · rintro ⟨hwindow, habove⟩
    by_contra hnot
    have hzero : rows.length - count = 0 := by omega
    rw [hzero, List.take_zero] at habove
    have hall : (before ++ rows).length - count = 0 := by
      have hempty := List.getLast?_eq_none_iff.1 habove.symm
      rcases List.take_eq_nil_iff.1 hempty with h | h
      · exact h
      · exact absurd (List.append_eq_nil_iff.1 h).1 hne
    rw [hzero, hall, List.drop_zero, List.drop_zero] at hwindow
    have hlength := congrArg List.length hwindow
    rw [List.length_append] at hlength
    omega
  · intro hlt
    have hstart : (before ++ rows).length - count = before.length + (rows.length - count) := by
      rw [List.length_append]
      omega
    rw [hstart, List.drop_length_add_append, List.take_length_add_append]
    refine ⟨rfl, ?_⟩
    have hlast : (rows.take (rows.length - count)) ≠ [] := by
      rw [Ne, List.take_eq_nil_iff, not_or]
      exact ⟨by omega, List.ne_nil_of_length_pos (by omega)⟩
    rw [List.getLast?_append_of_ne_nil _ hlast]

/-- the rows in front of a row behind the cut -/
theorem preceding_eq {before tail : List StoredMessage} (hseq : ((before ++ tail).map StoredMessage.seq).Pairwise (· < ·))
    {row : StoredMessage} (hrow : row ∈ tail) : ((before ++ tail).filter fun r => r.seq < row.seq) =
      before ++ tail.filter fun r => r.seq < row.seq := by
  rw [List.map_append, List.pairwise_append] at hseq
  rw [List.filter_append, List.filter_eq_self.2]
  intro r hr
  exact decide_eq_true (hseq.2.2 _ (List.mem_map_of_mem hr) _ (List.mem_map_of_mem hrow))

/-- the history of a sample on the tail is that on the transcript, with the row above it -/
def SameWindow (cfg : Settings) (tail stored : List StoredMessage) (s : ReplaySample) : Prop :=
  (historyWindow cfg tail s).1 = (historyWindow cfg stored s).1 ∧
    (historyWindow cfg tail s).2.2.getLast? = (historyWindow cfg stored s).2.2.getLast?

theorem sameWindow_iff {cfg : Settings} {before tail : List StoredMessage} (hne : before ≠ [])
    (hseq : ((before ++ tail).map StoredMessage.seq).Pairwise (· < ·)) {s : ReplaySample} {last : StoredMessage}
    (hlast : last ∈ tail) (hs : s.seq = last.seq) : SameWindow cfg tail (before ++ tail) s ↔
      cfg.conversationHistoryLimit < (tail.filter fun r => r.seq < last.seq).length := by
  rw [← window_iff hne, SameWindow]
  simp only [historyWindow, hs, preceding_eq hseq hlast]

/-- the last turns of a transcript have their texts behind the cut when enough turns do -/
theorem texts_iff {before tail : List StoredMessage} {front behind : List (List StoredMessage × List StoredMessage)}
    {cut : List ReplaySample} (h : Split env before tail front behind cut)
    (hseq : ((before ++ tail).map StoredMessage.seq).Pairwise (· < ·)) {limit : ℕ} :
    (∀ texts ∈ lastBatches env (before ++ tail) limit, ∀ row ∈ texts, row ∈ tail) ↔ limit ≤ behind.length ∨ front = [] := by
  rw [lastBatches, h.whole]
  constructor
  · intro htexts
    by_contra hnot
    rw [not_or, not_le] at hnot
    obtain ⟨hlt, hne⟩ := hnot
    rcases List.eq_nil_or_concat front with rfl | ⟨front', t, rfl⟩
    · exact hne rfl
    -- the turn before those behind the cut is among the last ones
    rw [List.concat_eq_append] at h htexts
    obtain ⟨r, hr, hbefore⟩ := h.inFront t (by simp)
    have hmem : t ∈ (front' ++ [t] ++ behind).drop ((front' ++ [t] ++ behind).length - limit) := by
      rw [List.append_assoc, List.drop_append]
      refine List.mem_append_right _ ?_
      have hzero : (front' ++ ([t] ++ behind)).length - limit - front'.length = 0 := by
        simp only [List.length_append, List.length_singleton]
        omega
      rw [hzero, List.drop_zero]
      exact List.mem_cons_self
    have htail := htexts _ (List.mem_map_of_mem hmem) r hr
    rw [List.map_append, List.pairwise_append] at hseq
    exact lt_irrefl _ (hseq.2.2 _ (List.mem_map_of_mem hbefore) _ (List.mem_map_of_mem htail))
  · intro hcases texts htexts row hrow
    obtain ⟨t, ht, rfl⟩ := List.mem_map.1 htexts
    refine h.inTail t ?_ row hrow
    rcases hcases with hle | rfl
    · rw [List.drop_append, List.drop_eq_nil_of_le (by rw [List.length_append]; omega), List.nil_append] at ht
      exact List.mem_of_mem_drop ht
    · exact List.mem_of_mem_drop ht

/-- **A tail is enough.** Its samples and their histories are those of the transcript when it has the texts of the last turns,
and more rows than a history in front of the last text of each. -/
theorem enough_iff {cfg : Settings} {before tail : List StoredMessage} (hne : before ≠ [])
    (hseq : ((before ++ tail).map StoredMessage.seq).Pairwise (· < ·)) {limit : ℕ} (hlimit : 0 < limit) :
    (selectSamples env tail limit = selectSamples env (before ++ tail) limit ∧
      ∀ s ∈ selectSamples env (before ++ tail) limit, SameWindow cfg tail (before ++ tail) s) ↔
    Enough env cfg (before ++ tail) tail limit := by
  obtain ⟨front, behind, cut, hsplit⟩ := @turns_split env before tail
  rw [samples_iff hsplit hlimit, ← texts_iff hsplit hseq, Enough]
  constructor
  · rintro ⟨htexts, hwindows⟩ texts hmem
    refine ⟨htexts texts hmem, ?_⟩
    intro last hlast
    have htail := htexts texts hmem last (List.mem_of_getLast? hlast)
    obtain ⟨t, ht, rfl⟩ := List.mem_map.1 hmem
    obtain ⟨s, hs⟩ := Option.isSome_iff_exists.1 (@textBatches_isSome env _ t (List.mem_of_mem_drop ht))
    obtain ⟨⟨last', hlast', hseq'⟩, -⟩ := sampleOf_some hs
    obtain rfl := Option.some.inj (hlast'.symm.trans hlast)
    refine (sameWindow_iff hne hseq htail hseq').1 (hwindows s ?_)
    rw [selectSamples_last _ hlimit]
    exact List.mem_filterMap.2 ⟨t, ht, hs⟩
  · intro henough
    refine ⟨fun texts hmem => (henough texts hmem).1, ?_⟩
    intro s hs
    rw [selectSamples_last _ hlimit] at hs
    obtain ⟨t, ht, hsample⟩ := List.mem_filterMap.1 hs
    obtain ⟨⟨last, hlast, hseq'⟩, -⟩ := sampleOf_some hsample
    obtain ⟨htexts, hrows⟩ := henough _ (List.mem_map_of_mem ht)
    exact (sameWindow_iff hne hseq (htexts last (List.mem_of_getLast? hlast)) hseq').2 (hrows last hlast)

end

/-! ## What is read -/

section

variable {cfg : Settings} {time : StoredMessage → ℤ} {stored read : List StoredMessage} {limit : ℕ}

theorem sortBySeq_perm (rows : List StoredMessage) : (sortBySeq rows).Perm rows := List.perm_insertionSort _ rows

/-- rows in the order of their seq are as sorted -/
theorem sortBySeq_of_perm (hseq : (stored.map StoredMessage.seq).Pairwise (· < ·)) (h : read.Perm stored) :
    sortBySeq read = stored := by
  have hle : stored.Pairwise fun a b => a.seq ≤ b.seq := (List.pairwise_map.1 hseq).imp fun hlt => hlt.le
  have hsorted : (sortBySeq read).Pairwise fun a b => a.seq ≤ b.seq := by
    have htotal : Std.Total fun a b : StoredMessage => a.seq ≤ b.seq := ⟨fun a b => le_total a.seq b.seq⟩
    have htrans : IsTrans StoredMessage fun a b => a.seq ≤ b.seq := ⟨fun a b c => le_trans⟩
    exact List.pairwise_insertionSort _ read
  refine List.Perm.eq_of_pairwise ?_ hsorted hle ((sortBySeq_perm read).trans h)
  intro a b ha hb hab hba
  have hmem : a ∈ stored := ((sortBySeq_perm read).trans h).mem_iff.1 ha
  exact List.inj_on_of_nodup_map (hseq.imp fun hlt => ne_of_lt hlt) hmem hb (le_antisymm hab hba)

/-- without a limit, all rows are read -/
theorem fixtureRows_none (hseq : (stored.map StoredMessage.seq).Pairwise (· < ·)) : fixtureRows cfg stored read none = stored := by
  rw [fixtureRows]
  exact sortBySeq_of_perm hseq (List.Perm.refl _)

theorem fixtureRows_keeps (hlimit : 0 < limit) (hread : Recent time stored (rowBudget cfg limit) read)
    (h : KeepsPart cfg stored read limit) : fixtureRows cfg stored read (some limit) = sortBySeq read := by
  obtain ⟨hlt, hkeeps⟩ := h
  have hlength : read.length = rowBudget cfg limit := by
    rw [hread.length]
    omega
  have hpos : 0 < rowBudget cfg limit := Nat.add_pos_right _ cfg.historyLimit_pos
  have hne : read ≠ [] := List.ne_nil_of_length_pos (by omega)
  simp only [fixtureRows, if_pos hlimit, hkeeps, Bool.false_eq_true, and_false, if_false, if_neg hne]

/-- a run that keeps no part has all rows -/
theorem fixtureRows_all (hseq : (stored.map StoredMessage.seq).Pairwise (· < ·)) (hlimit : 0 < limit)
    (hread : Recent time stored (rowBudget cfg limit) read) (h : ¬KeepsPart cfg stored read limit) :
    fixtureRows cfg stored read (some limit) = stored := by
  have hstored : sortBySeq stored = stored := sortBySeq_of_perm hseq (List.Perm.refl _)
  simp only [fixtureRows, if_pos hlimit]
  split_ifs with hback hnil hnil
  · exact hstored
  · exact absurd rfl hnil
  · exact hstored
  · -- the window was not full, or held the whole transcript
    have hle : stored.length ≤ rowBudget cfg limit := by
      by_contra hlt
      rw [not_le] at hlt
      refine h ⟨hlt, Bool.eq_false_iff.2 fun hfalls => hback ⟨?_, hfalls⟩⟩
      rw [hread.length]
      omega
    refine sortBySeq_of_perm hseq (hread.rows.perm_of_length_le ?_)
    rw [hread.length]
    omega

/-- with increasing timestamps, the last rows are read -/
theorem recent_tail (hseq : (stored.map StoredMessage.seq).Pairwise (· < ·))
    (htime : stored.Pairwise fun a b => time a < time b) {count : ℕ} (hread : Recent time stored count read) :
    sortBySeq read = tailRows stored count := by
  have hnodup : stored.Nodup := htime.imp fun {a b} hlt heq => by
    rw [heq] at hlt
    exact lt_irrefl _ hlt
  have hread' : read.Nodup := by
    obtain ⟨rows, hperm, hsub⟩ := hread.rows
    exact hperm.nodup_iff.1 (hnodup.sublist hsub)
  have htail : (tailRows stored count).length = read.length := by
    rw [tailRows, List.length_drop, hread.length]
    omega
  have hsplit : stored.take (stored.length - count) ++ tailRows stored count = stored := List.take_append_drop _ _
  rw [← hsplit, List.pairwise_append] at htime
  have hnew : tailRows stored count ⊆ read := by
    intro r hr
    by_contra hnot
    have hstored : r ∈ stored := List.mem_of_mem_drop hr
    -- a row of the tail that is not read leaves too few rows behind the cut
    have hsub : (r :: read).Subperm (tailRows stored count) := by
      refine List.subperm_of_subset (List.nodup_cons.2 ⟨hnot, hread'⟩) ?_
      refine List.cons_subset.2 ⟨hr, ?_⟩
      intro x hx
      have hx' := hread.rows.subset hx
      rw [← hsplit] at hx'
      refine (List.mem_append.1 hx').resolve_left ?_
      intro hbefore
      exact absurd (htime.2.2 x hbefore r hr) (not_lt.2 (hread.newest r hstored hnot x hx))
    have hle := hsub.length_le
    rw [List.length_cons] at hle
    omega
  have hperm : (tailRows stored count).Perm read :=
    (List.subperm_of_subset (hnodup.sublist (List.drop_sublist _ _)) hnew).perm_of_length_le htail.ge
  refine sortBySeq_of_perm ?_ hperm.symm
  exact hseq.sublist ((List.drop_sublist _ _).map _)

/-- a run that keeps the last rows is the run on the transcript when these are enough -/
theorem keeps_iff {env : Env} (hseq : (stored.map StoredMessage.seq).Pairwise (· < ·)) (hlimit : 0 < limit)
    (hread : Recent time stored (rowBudget cfg limit) read) (h : KeepsPart cfg stored read limit)
    (htail : sortBySeq read = tailRows stored (rowBudget cfg limit)) :
    SameRun env cfg stored read limit ↔ Enough env cfg stored (tailRows stored (rowBudget cfg limit)) limit := by
  have hsplit : stored.take (stored.length - rowBudget cfg limit) ++ tailRows stored (rowBudget cfg limit) = stored :=
    List.take_append_drop _ _
  have hne : stored.take (stored.length - rowBudget cfg limit) ≠ [] := by
    have hlt := h.1
    rw [Ne, List.take_eq_nil_iff, not_or]
    exact ⟨by omega, List.ne_nil_of_length_pos (by omega)⟩
  have hiff := @enough_iff env cfg _ _ hne (by rw [hsplit]; exact hseq) limit hlimit
  rw [hsplit] at hiff
  rw [← hiff, ← htail, ← fixtureRows_keeps hlimit hread h]
  constructor
  · rintro ⟨hsamples, hwindows⟩
    rw [fixtureRows_none hseq] at hsamples hwindows
    exact ⟨hsamples, hwindows⟩
  · rintro ⟨hsamples, hwindows⟩
    refine ⟨?_, ?_⟩
    · rw [fixtureRows_none hseq]
      exact hsamples
    · rw [fixtureRows_none hseq]
      exact hwindows

end

/-- **Reading only the tail.** The samples of a run, their histories and the rows above these are those of the whole
transcript, if the transcript is within the budget, the run reads it all because its own check fails, or the rows that are
read are the last ones by seq, with the texts of the last turns and more rows than a history in front of each. When
timestamps increase with seq, the run is the same only then. -/
theorem tail_changes_nothing (env : Env) (cfg : Settings) (time : StoredMessage → ℤ) {stored read : List StoredMessage}
    {limit : ℕ} (hseq : (stored.map StoredMessage.seq).Pairwise (· < ·)) (hlimit : 0 < limit)
    (hread : Recent time stored (rowBudget cfg limit) read) :
    ((KeepsPart cfg stored read limit → sortBySeq read = tailRows stored (rowBudget cfg limit) ∧
        Enough env cfg stored (tailRows stored (rowBudget cfg limit)) limit) → SameRun env cfg stored read limit) ∧
    (stored.Pairwise (fun a b => time a < time b) → (SameRun env cfg stored read limit ↔
      (KeepsPart cfg stored read limit → Enough env cfg stored (tailRows stored (rowBudget cfg limit)) limit))) := by
  have hall : ¬KeepsPart cfg stored read limit → SameRun env cfg stored read limit := by
    intro hnot
    have hrows : fixtureRows cfg stored read (some limit) = fixtureRows cfg stored read none :=
      (fixtureRows_all hseq hlimit hread hnot).trans (fixtureRows_none hseq).symm
    refine ⟨by rw [hrows], ?_⟩
    intro s _
    rw [hrows]
    exact ⟨rfl, rfl⟩
  constructor
  · intro hpart
    by_cases hkeeps : KeepsPart cfg stored read limit
    · obtain ⟨htail, henough⟩ := hpart hkeeps
      exact (keeps_iff hseq hlimit hread hkeeps htail).2 henough
    · exact hall hkeeps
  · intro htime
    by_cases hkeeps : KeepsPart cfg stored read limit
    · rw [keeps_iff hseq hlimit hread hkeeps (recent_tail hseq htime hread)]
      exact ⟨fun h _ => h, fun h => h hkeeps⟩
    · exact ⟨fun _ h => absurd h hkeeps, fun _ => hall hkeeps⟩

/-- a history of one row -/
def shortHistory : Settings := { Settings.default with conversationHistoryLimit := 1, historyLimit_pos := le_rfl }

/-- a message, what it is answered with, and a blank message -/
def note : StoredMessage := ⟨.inbound, "note".toList, [], [], [], [], 1⟩

def reply (seq : ℕ) : StoredMessage := ⟨.outbound, "done".toList, [], [], [], [], seq⟩

def blank : StoredMessage := ⟨.inbound, [], [], [], [], [], 9⟩

def replies : List StoredMessage := [reply 2, reply 3, reply 4, reply 5, reply 6, reply 7, reply 8]

def blankLast : List StoredMessage := note :: (replies ++ [blank])

theorem selectFrom_replies (rows : List StoredMessage) : selectFrom noTimes (replies ++ rows) = selectFrom noTimes rows := by
  simp [replies, reply, selectFrom, inbound]

theorem selectFrom_blank : selectFrom noTimes [blank] = [] := by
  have hnil : selectFrom noTimes [] = [] := by rw [selectFrom]
  rw [selectFrom, if_pos (by rfl)]
  exact hnil

/-- the seven newest rows hold one inbound row, which is enough to the check, and no sample -/
theorem blank_tail : (blankLast.map StoredMessage.seq).Pairwise (· < ·) ∧
    Recent (fun row => row.seq) blankLast (rowBudget shortHistory 1) (blankLast.drop 2) ∧
    fallsBack shortHistory 1 (blankLast.drop 2) = false ∧
    selectSamples noTimes (fixtureRows shortHistory blankLast (blankLast.drop 2) (some 1)) 1 = [] ∧
    (selectSamples noTimes (fixtureRows shortHistory blankLast (blankLast.drop 2) none) 1).map
      ReplaySample.messageContext = ["note".toList] ∧
    ¬SameRun noTimes shortHistory blankLast (blankLast.drop 2) 1 := by
  have hrows : fixtureRows shortHistory blankLast (blankLast.drop 2) (some 1) = blankLast.drop 2 := by decide
  have hall : fixtureRows shortHistory blankLast (blankLast.drop 2) none = blankLast := fixtureRows_none (by decide)
  have hnone : selectSamples noTimes (blankLast.drop 2) 1 = [] := by
    have hfrom : selectFrom noTimes (blankLast.drop 2) = [] := by
      rw [← selectFrom_blank, ← selectFrom_replies [blank]]
      simp [blankLast, replies, reply, selectFrom, inbound]
    simp only [selectSamples, hfrom, List.drop_nil, ite_self]
  have hone : (selectSamples noTimes blankLast 1).map ReplaySample.messageContext = ["note".toList] := by
    have hfrom : selectFrom noTimes blankLast = (sampleOf noTimes [note] (replies ++ [blank])).toList := by
      rw [blankLast, selectFrom, if_pos (by rfl)]
      exact congrArg _ ((selectFrom_replies [blank]).trans selectFrom_blank)
    simp only [selectSamples, hfrom]
    rfl
  have hread : Recent (fun row => row.seq) blankLast (rowBudget shortHistory 1) (blankLast.drop 2) :=
    ⟨(List.drop_sublist 2 _).subperm, rfl, by decide, by decide⟩
  rw [hrows, hall]
  refine ⟨by decide, hread, by decide, hnone, hone, ?_⟩
  intro h
  have hsame := h.samples
  rw [hrows, hall, hnone] at hsame
  rw [← hsame] at hone
  exact absurd hone (by decide)

/-- a transcript within the budget -/
theorem tail_changes_nothing_conversation : SameRun noTimes Settings.default conversation conversation 2 := by
  have hread : Recent (fun row => row.seq) conversation (rowBudget Settings.default 2) conversation :=
    ⟨List.Subperm.refl _, rfl, by decide, fun r hr hnot => absurd hr hnot⟩
  refine (tail_changes_nothing noTimes Settings.default (fun row => row.seq) (by decide) (by decide) hread).1 ?_
  rintro ⟨hlt, -⟩
  exact absurd hlt (by decide)

end Clawbolt.Sampling
