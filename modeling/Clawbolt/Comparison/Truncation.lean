/-
Truncation retries: the guard of the live loop (`process_message` and `_call_llm_with_retry` of agent/core.py, with
`fit_max_tokens_to_reasoning` of services/llm_service.py), beside the replay of one decision (`_decide`).

The provider is any function from the max_tokens that is sent to a response. The live loop doubles its own budget and fits
what it sends to the thinking; the replay doubles what it sent.

- `replay_live`: the replay is the live loop without the fit, from the fitted budget;
- `truncation_retries`: when exactly retries grow and the replay sends what the live loop sends;
- `same_request_twice`: a budget that is fitted past the ceiling is sent twice.
-/
import Mathlib.Tactic
import Clawbolt.Comparison.Replay

namespace Clawbolt.Replay.Truncation

open Text (Str)

/-! ## Model -/

/-- cut off without a tool call -/
def truncated (r : MessageResponse) : Bool := (parseToolCalls r).isEmpty && r.stopReason = some "max_tokens".toList

/-- the rounds of the live loop up to the first response that is used or abandoned: what was sent, and that response -/
def rounds (provider : ℕ → MessageResponse) (reasoning : Option Thinking) (effective : ℕ+) : List ℕ × MessageResponse :=
  let sent := fitMaxTokensToReasoning effective reasoning
  let response := provider sent
  if truncated response = true ∧ (effective : ℕ) < maxTokensCeiling then
    let later := rounds provider reasoning (doubled effective)
    (sent :: later.1, later.2)
  else ([sent], response)
termination_by maxTokensCeiling - effective
decreasing_by
  rename_i h
  have hgt := doubled_gt h.2
  omega

/-- `max_tokens or settings.llm_max_tokens_agent` -/
def effective (b : Budgets) : ℕ+ := ⟨b.chosen, b.chosen_pos⟩

/-- the provider by the number of the call, where the k-th call of a decision doubles its budget k times -/
def answers (provider : ℕ → MessageResponse) (base : ℕ+) (k : ℕ) : Answer := .response (provider (doubled^[k] base))

/-- `_decide` with such a provider -/
def replay (provider : ℕ → MessageResponse) (base : ℕ+) : ModelCallResult × List Attempt :=
  decideCall (answers provider base) 0 base

/-- what the claim asks for -/
structure RetriesAgree (provider : ℕ → MessageResponse) (reasoning : Option Thinking) (b : Budgets) : Prop where
  grow : (rounds provider reasoning (effective b)).1.IsChain (· < ·)
  sent : (replay provider (baseBudget b reasoning)).2.map (·.maxTokens) = (rounds provider reasoning (effective b)).1
  same : (replay provider (baseBudget b reasoning)).1.Same
    (dispatch (.response (rounds provider reasoning (effective b)).2))

/-- no response is cut off on a budget that was fitted to the thinking, unless one retry at the ceiling is larger -/
def Spared (provider : ℕ → MessageResponse) (reasoning : Option Thinking) (b : Budgets) : Prop :=
  ∀ budget, reasoning.bind Thinking.budget = some budget → b.chosen ≤ budget → b.chosen < maxTokensCeiling →
    truncated (provider (budget + thinkingReplyAllowance)) = true →
    maxTokensCeiling ≤ b.chosen * 2 ∧ budget + thinkingReplyAllowance < maxTokensCeiling

/-! ## The replay -/

variable {provider : ℕ → MessageResponse} {reasoning : Option Thinking}

theorem rounds_retry {budget : ℕ+} (h : truncated (provider (fitMaxTokensToReasoning budget reasoning)) = true)
    (hlt : (budget : ℕ) < maxTokensCeiling) :
    rounds provider reasoning budget =
      (fitMaxTokensToReasoning budget reasoning :: (rounds provider reasoning (doubled budget)).1,
        (rounds provider reasoning (doubled budget)).2) := by
  rw [rounds, if_pos ⟨h, hlt⟩]

theorem rounds_stop {budget : ℕ+}
    (h : ¬ (truncated (provider (fitMaxTokensToReasoning budget reasoning)) = true ∧ (budget : ℕ) < maxTokensCeiling)) :
    rounds provider reasoning budget =
      ([fitMaxTokensToReasoning budget reasoning], provider (fitMaxTokensToReasoning budget reasoning)) := by
  rw [rounds, if_neg h]

theorem rounds_head (provider : ℕ → MessageResponse) (reasoning : Option Thinking) (budget : ℕ+) :
    ∃ later, (rounds provider reasoning budget).1 = fitMaxTokensToReasoning budget reasoning :: later := by
  by_cases h : truncated (provider (fitMaxTokensToReasoning budget reasoning)) = true ∧ (budget : ℕ) < maxTokensCeiling
  · rw [rounds_retry h.1 h.2]
    exact ⟨_, rfl⟩
  · rw [rounds_stop h]
    exact ⟨_, rfl⟩

/-- the last response answers the last request -/
theorem rounds_last (provider : ℕ → MessageResponse) (reasoning : Option Thinking) (budget : ℕ+) :
    (rounds provider reasoning budget).1.getLast?.map provider = some (rounds provider reasoning budget).2 := by
  induction budget using rounds.induct provider reasoning with
  | case1 budget sent response hagain ih =>
    rw [rounds_retry hagain.1 hagain.2]
    obtain ⟨later, hlater⟩ := rounds_head provider reasoning (doubled budget)
    rw [hlater] at ih ⊢
    exact ih
  | case2 budget sent response hstop =>
    rw [rounds_stop hstop]
    rfl

/-- the replay asks again where the live loop does -/
theorem needsTruncationRetry_eq {result : ModelCallResult} {r : MessageResponse} (h : result.Same (dispatch (.response r)))
    (budget : ℕ) : needsTruncationRetry result budget = true ↔ truncated r = true ∧ budget < maxTokensCeiling := by
  have herror : result.error = [] := h.error
  have hcalls : result.toolCalls = parseToolCalls r := h.toolCalls
  have hstop : result.stopReason = r.stopReason := h.stopReason
  simp only [needsTruncationRetry, truncated, herror, hcalls, hstop, Bool.and_eq_true, decide_eq_true_eq, true_and]

/-- the loop of the replay goes on as the live loop does without a fit -/
theorem retry_rounds (base budget : ℕ+) (result : ModelCallResult) (attempts : List Attempt)
    (hbudget : ∃ k, attempts.length = k + 1 ∧ budget = doubled^[k] base)
    (hsame : result.Same (dispatch (.response (provider budget)))) :
    (retry (answers provider base) 0 budget result attempts).2.map (·.maxTokens) =
        attempts.map (·.maxTokens) ++ (rounds provider none budget).1.tail ∧
      (retry (answers provider base) 0 budget result attempts).1.Same
        (dispatch (.response (rounds provider none budget).2)) := by
  induction budget, result, attempts using retry.induct (answers provider base) 0 with
  | case1 budget result attempts hneeds again ih =>
    obtain ⟨htrunc, hlt⟩ := (needsTruncationRetry_eq hsame budget).1 hneeds
    obtain ⟨k, hlength, hk⟩ := hbudget
    have hagain : again = dispatch (.response (provider (doubled budget))) := by
      simp only [again, answers, hlength, Nat.zero_add, Function.iterate_succ_apply', ← hk]
    obtain ⟨hsent, hlast⟩ := ih ⟨k + 1, by rw [List.length_append, hlength]; rfl, by rw [hk, Function.iterate_succ_apply']⟩
      (by rw [hagain]; exact ⟨rfl, rfl, rfl, rfl⟩)
    rw [retry, dif_pos hneeds, rounds_retry htrunc hlt]
    refine ⟨?_, hlast⟩
    obtain ⟨later, hlater⟩ := rounds_head provider none (doubled budget)
    rw [hlater] at hsent ⊢
    rw [hsent, List.map_append, List.append_assoc]
    rfl
  | case2 budget result attempts hneeds =>
    rw [needsTruncationRetry_eq hsame] at hneeds
    rw [retry, dif_neg (by rw [needsTruncationRetry_eq hsame]; exact hneeds), rounds_stop hneeds]
    exact ⟨(List.append_nil _).symm, hsame⟩

/-- the replay is the live loop without the fit -/
theorem replay_live (provider : ℕ → MessageResponse) (base : ℕ+) :
    (replay provider base).2.map (·.maxTokens) = (rounds provider none base).1 ∧
      (replay provider base).1.Same (dispatch (.response (rounds provider none base).2)) := by
  obtain ⟨hsent, hsame⟩ := retry_rounds base base (dispatch (answers provider base 0))
    [⟨base, dispatch (answers provider base 0)⟩] ⟨0, rfl, rfl⟩ ⟨rfl, rfl, rfl, rfl⟩
  refine ⟨?_, hsame⟩
  obtain ⟨later, hlater⟩ := rounds_head provider none base
  rw [hlater] at hsent ⊢
  exact hsent

/-! ## Budgets -/

theorem fit_none (maxTokens : ℕ) : fitMaxTokensToReasoning maxTokens none = maxTokens := rfl

/-- a budget that leaves room for the thinking is sent as it is -/
theorem fit_of_lt {maxTokens : ℕ} (h : ∀ budget, reasoning.bind Thinking.budget = some budget → budget < maxTokens) :
    fitMaxTokensToReasoning maxTokens reasoning = maxTokens := by
  unfold fitMaxTokensToReasoning
  split
  next => rfl
  next budget hbudget => rw [if_pos (h budget hbudget)]

theorem fit_of_le {maxTokens budget : ℕ} (hbudget : reasoning.bind Thinking.budget = some budget) (h : maxTokens ≤ budget) :
    fitMaxTokensToReasoning maxTokens reasoning = budget + thinkingReplyAllowance := by
  rw [fitMaxTokensToReasoning, hbudget]
  exact if_neg (Nat.not_lt.2 h)

theorem doubled_val (budget : ℕ+) : (doubled budget : ℕ) = min ((budget : ℕ) * 2) maxTokensCeiling := rfl

/-- without a fit the retries grow, and are those of the replay -/
theorem rounds_of_lt (provider : ℕ → MessageResponse) (reasoning : Option Thinking) (budget : ℕ+) (h : ∀ thinking, reasoning.bind Thinking.budget = some thinking → thinking < budget) :
    rounds provider reasoning budget = rounds provider none budget ∧
      (rounds provider reasoning budget).1.IsChain (· < ·) := by
  induction budget using rounds.induct provider reasoning with
  | case1 budget sent response hagain ih =>
    have hfit := fit_of_lt h
    have hgt := doubled_gt hagain.2
    have htrunc : truncated (provider (fitMaxTokensToReasoning budget reasoning)) = true := hagain.1
    have hplain : truncated (provider (fitMaxTokensToReasoning budget none)) = true := by
      rw [fit_none, ← hfit]
      exact htrunc
    have hnext : ∀ thinking, reasoning.bind Thinking.budget = some thinking → thinking < doubled budget :=
      fun thinking ht => (h thinking ht).trans hgt
    obtain ⟨hsame, hchain⟩ := ih hnext
    obtain ⟨later, hlater⟩ := rounds_head provider reasoning (doubled budget)
    rw [rounds_retry htrunc hagain.2]
    refine ⟨by rw [rounds_retry hplain hagain.2, hsame, hfit, fit_none], ?_⟩
    rw [hlater] at hchain
    simp only [hlater]
    refine List.IsChain.cons_cons ?_ hchain
    rw [hfit, fit_of_lt hnext]
    exact hgt
  | case2 budget sent response hstop =>
    have hfit := fit_of_lt h
    have hplain : ¬ (truncated (provider (fitMaxTokensToReasoning budget none)) = true ∧ (budget : ℕ) < maxTokensCeiling) :=
      fun hagain => hstop ⟨(congrArg (fun sent => truncated (provider sent)) hfit).trans hagain.1, hagain.2⟩
    rw [rounds_stop hstop, rounds_stop hplain, hfit, fit_none]
    exact ⟨rfl, List.isChain_singleton _⟩

/-- at the ceiling nothing is asked again -/
theorem rounds_ceiling {budget : ℕ+} (h : maxTokensCeiling ≤ (budget : ℕ)) :
    rounds provider reasoning budget =
      ([fitMaxTokensToReasoning budget reasoning], provider (fitMaxTokensToReasoning budget reasoning)) :=
  rounds_stop fun hagain => absurd hagain.2 (Nat.not_lt.2 h)

/-! ## When the two agree -/

/-- a retry of a fitted request is larger, and the one of the replay, exactly when it is made at the ceiling -/
theorem fitted_retry {b : ℕ+} {budget : ℕ} (hbudget : reasoning.bind Thinking.budget = some budget) (hle : (b : ℕ) ≤ budget)
    (hlt : (b : ℕ) < maxTokensCeiling) (htrunc : truncated (provider (budget + thinkingReplyAllowance)) = true)
    {base : ℕ+} (hbase : (base : ℕ) = budget + thinkingReplyAllowance) :
    ((rounds provider reasoning b).1.IsChain (· < ·) ∧ (rounds provider none base).1 = (rounds provider reasoning b).1) ↔
      maxTokensCeiling ≤ (b : ℕ) * 2 ∧ budget + thinkingReplyAllowance < maxTokensCeiling := by
  have hfit : fitMaxTokensToReasoning b reasoning = budget + thinkingReplyAllowance := fit_of_le hbudget hle
  have hplain : truncated (provider (fitMaxTokensToReasoning base none)) = true := by
    rw [fit_none, hbase]
    exact htrunc
  have hdoubled := doubled_val b
  have hdoubledBase := doubled_val base
  have hallowance : 0 < thinkingReplyAllowance := by decide
  rw [rounds_retry (hfit ▸ htrunc) hlt, hfit]
  constructor
  · rintro ⟨hchain, hsent⟩
    obtain ⟨later, hlater⟩ := rounds_head provider reasoning (doubled b)
    obtain ⟨laterBase, hlaterBase⟩ := rounds_head provider none (doubled base)
    simp only [hlater] at hchain hsent
    -- the second request of the live loop is larger, so it is its own budget, and within the ceiling
    have hgt : budget + thinkingReplyAllowance < fitMaxTokensToReasoning (doubled b) reasoning :=
      (List.isChain_cons_cons.1 hchain).1
    have hroom : budget < (doubled b : ℕ) := by
      by_contra hno
      rw [fit_of_le hbudget (Nat.not_lt.1 hno)] at hgt
      exact Nat.lt_irrefl _ hgt
    have hsecond : fitMaxTokensToReasoning (doubled b) reasoning = doubled b := by
      refine fit_of_lt fun thinking ht => ?_
      rw [hbudget] at ht
      rwa [← Option.some.inj ht]
    rw [hsecond] at hgt hsent
    have hunder : (base : ℕ) < maxTokensCeiling := by omega
    rw [rounds_retry hplain hunder, hlaterBase] at hsent
    have heq : (doubled base : ℕ) = doubled b := (List.cons.inj (List.cons.inj hsent).2).1
    omega
  · rintro ⟨hhalf, hunder⟩
    -- both ask once more, at the ceiling
    have hb : (doubled b : ℕ) = maxTokensCeiling := by omega
    have hbaseDoubled : doubled base = doubled b := PNat.coe_injective (by omega)
    have hsecond : fitMaxTokensToReasoning (doubled b) reasoning = doubled b := by
      refine fit_of_lt fun thinking ht => ?_
      rw [hbudget] at ht
      rw [← Option.some.inj ht]
      omega
    have hceiling : maxTokensCeiling ≤ (doubled b : ℕ) := hb.ge
    rw [rounds_ceiling hceiling, rounds_retry hplain (by omega), hbaseDoubled, rounds_ceiling hceiling, hsecond, fit_none,
      fit_none, hbase]
    refine ⟨List.isChain_cons_cons.2 ⟨?_, List.isChain_singleton _⟩, rfl⟩
    omega

/-- **Truncation retries.** For every budget, reasoning and provider: the retries of the live loop grow and the replay sends
and ends with the same exactly when no fitted request is cut off, save where one retry at the ceiling is larger. -/
theorem truncation_retries (provider : ℕ → MessageResponse) (reasoning : Option Thinking) (b : Budgets) :
    RetriesAgree provider reasoning b ↔ Spared provider reasoning b := by
  have hbase : (baseBudget b reasoning : ℕ) = fitMaxTokensToReasoning (effective b) reasoning := rfl
  have hchosen : (effective b : ℕ) = b.chosen := rfl
  obtain ⟨hsent, hsame⟩ := replay_live provider (baseBudget b reasoning)
  -- the last response is that of the last request, so the requests decide
  have hagree : RetriesAgree provider reasoning b ↔ (rounds provider reasoning (effective b)).1.IsChain (· < ·) ∧
      (rounds provider none (baseBudget b reasoning)).1 = (rounds provider reasoning (effective b)).1 := by
    constructor
    · intro h
      exact ⟨h.grow, hsent.symm.trans h.sent⟩
    · rintro ⟨hgrow, hequal⟩
      have hlive := rounds_last provider reasoning (effective b)
      have hreplay := rounds_last provider none (baseBudget b reasoning)
      rw [hequal] at hreplay
      have hlast := Option.some.inj (hreplay.symm.trans hlive)
      refine ⟨hgrow, hsent.trans hequal, ?_⟩
      rw [← hlast]
      exact hsame
  rw [hagree]
  by_cases hroom : ∀ thinking, reasoning.bind Thinking.budget = some thinking → thinking < b.chosen
  · have heq : baseBudget b reasoning = effective b := PNat.coe_injective (hbase.trans (fit_of_lt hroom))
    obtain ⟨hplain, hchain⟩ := rounds_of_lt provider reasoning (effective b) hroom
    have hspared : Spared provider reasoning b := fun budget hbudget hle =>
      absurd (hroom budget hbudget) (Nat.not_lt.2 hle)
    rw [heq]
    exact iff_of_true ⟨hchain, congrArg Prod.fst hplain.symm⟩ hspared
  · push Not at hroom
    obtain ⟨budget, hbudget, hle⟩ := hroom
    have hfit : fitMaxTokensToReasoning (effective b) reasoning = budget + thinkingReplyAllowance := fit_of_le hbudget hle
    by_cases hagain : truncated (provider (budget + thinkingReplyAllowance)) = true ∧ b.chosen < maxTokensCeiling
    · rw [fitted_retry (b := effective b) hbudget hle hagain.2 hagain.1 (hbase.trans hfit), hchosen]
      constructor
      · rintro hlarger budget' hbudget' - - -
        rw [hbudget] at hbudget'
        rw [← Option.some.inj hbudget']
        exact hlarger
      · intro hspared
        exact hspared budget hbudget hle hagain.2 hagain.1
    · have hlive : ¬ (truncated (provider (fitMaxTokensToReasoning (effective b) reasoning)) = true ∧
          (effective b : ℕ) < maxTokensCeiling) := by
        rw [hfit]
        exact hagain
      have hreplay : ¬ (truncated (provider (fitMaxTokensToReasoning (baseBudget b reasoning) none)) = true ∧
          (baseBudget b reasoning : ℕ) < maxTokensCeiling) := by
        rintro ⟨htrunc, hlt⟩
        rw [fit_none, hbase, hfit] at htrunc
        have hgrown := le_fitMaxTokens (effective b) reasoning
        exact hagain ⟨htrunc, by omega⟩
      have hspared : Spared provider reasoning b := by
        intro budget' hbudget' _ hlt htrunc
        rw [hbudget] at hbudget'
        rw [← Option.some.inj hbudget'] at htrunc
        exact absurd ⟨htrunc, hlt⟩ hagain
      rw [rounds_stop hlive, rounds_stop hreplay]
      exact iff_of_true ⟨List.isChain_singleton _, rfl⟩ hspared

/-- every response is cut off before it says anything -/
def cutOff : MessageResponse := ⟨[], some "max_tokens".toList, none⟩

/-- the default budget -/
def defaultBudgets : Budgets := ⟨none, 8192, by decide⟩

/-- high effort: both requests of the live loop are for 28672 tokens, and the replay makes the first alone -/
theorem same_request_twice : ¬ RetriesAgree (fun _ => cutOff) (some (.enabled 24576)) defaultBudgets := by
  intro h
  have hgrow := h.grow
  have hcut : truncated cutOff = true := by decide
  rw [rounds_retry hcut (by decide)] at hgrow
  obtain ⟨later, hlater⟩ :=
    rounds_head (fun _ => cutOff) (some (.enabled 24576)) (doubled (effective defaultBudgets))
  rw [hlater] at hgrow
  exact absurd (List.isChain_cons_cons.1 hgrow).1 (by decide)

end Clawbolt.Replay.Truncation
