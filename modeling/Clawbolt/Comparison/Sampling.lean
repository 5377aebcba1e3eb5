/-
The turns that a model comparison replays (services/model_comparison/sampling.py).

The rows of a conversation are cut into turns: a batch of inbound rows, each sent soon after the one before, and the rows
that follow it. A sample is the last row of a batch that has text, credited with what follows the batch. An index into the
rows is the list of the rows from it.

- `batchRest_suffix`: a batch ends in the same place, whichever of its rows it is looked at from;
- `selectFrom_turns`: the samples are those of the turns;
- `sampling_partitions`: samples, credits, histories and chains partition the conversation.
-/
import Mathlib.Tactic
import Clawbolt.History.Epoch
import Clawbolt.Comparison.Checks

namespace Clawbolt.Sampling

open Text (Str)
open Clawbolt.History (Env Settings StoredMessage parseTs parseToolInteractions findEpoch)
open Clawbolt.Checks (RecordedToolResult)

/-! ## Model -/

structure ReplaySample where
  seq : ℕ
  timestamp : Str
  messageContext : Str
  productionReply : Str
  productionToolCalls : List RecordedToolResult
  batchedMessages : List Str

/-- `_BATCH_GAP_LIMIT`, in microseconds -/
def batchGapLimit : ℤ := 2 * 60 * 1000000

def inbound (row : StoredMessage) : Bool := row.direction = .inbound

/-- `_same_batch` -/
def sameBatch (env : Env) (earlier later : StoredMessage) : Bool :=
  match parseTs env earlier.timestamp, parseTs env later.timestamp with
  | some first, some second => second.instant - first.instant ≤ batchGapLimit
  | _, _ => false

/-- the rest of the batch that a row is in, and the rows after the batch: the loops of `_batch_end` and `_response_rows` -/
def batchRest (env : Env) : StoredMessage → List StoredMessage → List StoredMessage × List StoredMessage
  | _, [] => ([], [])
  | row, next :: rest =>
    if inbound next && sameBatch env row next then (next :: (batchRest env next rest).1, (batchRest env next rest).2)
    else ([], next :: rest)

/-- `_response_rows` of a row and the rows after it -/
def responseRows (env : Env) (row : StoredMessage) (rest : List StoredMessage) : List StoredMessage :=
  (batchRest env row rest).2.takeWhile fun r => !inbound r

/-- the text of replies: `_production_reply` -/
def replyText (answered : List StoredMessage) : Str :=
  Text.join "\n\n".toList
    ((answered.map fun row => if row.llmReplyText ≠ [] then row.llmReplyText else row.body).filter (· ≠ []))

/-- `_production_tool_calls` -/
def toolCalls (env : Env) (answered : List StoredMessage) : List RecordedToolResult :=
  answered.flatMap fun row => (parseToolInteractions env row.toolInteractionsJson).map fun i => ⟨i.name, i.args, i.result⟩

/-- `_message_context` -/
def messageContext (row : StoredMessage) : Str := if row.processedContext ≠ [] then row.processedContext else row.body

def hasText (row : StoredMessage) : Bool := Text.strip (messageContext row) ≠ []

/-- the rows of a batch that have text, each with the rows after it -/
def texts : List StoredMessage → List StoredMessage → List (StoredMessage × List StoredMessage)
  | [], _ => []
  | row :: batch, after => if hasText row then (row, batch ++ after) :: texts batch after else texts batch after

/-- the sample of a batch, none when it is blank -/
def sampleOf (env : Env) (batch after : List StoredMessage) : Option ReplaySample :=
  match (texts batch after).getLast? with
  | none => none
  | some (row, rest) => some {
      seq := row.seq
      timestamp := row.timestamp
      messageContext := messageContext row
      productionReply := replyText (responseRows env row rest)
      productionToolCalls := toolCalls env (responseRows env row rest)
      batchedMessages := (texts batch after).dropLast.map fun t => messageContext t.1 }

theorem batchRest_length (env : Env) (row : StoredMessage) (rest : List StoredMessage) :
    (batchRest env row rest).2.length ≤ rest.length := by
  induction rest generalizing row with
  | nil => exact le_rfl
  | cons next rest ih =>
    rw [batchRest]
    split
    · exact (ih next).trans (Nat.le_succ _)
    · exact le_rfl

/-- the loop of `select_samples` -/
def selectFrom (env : Env) : List StoredMessage → List ReplaySample
  | [] => []
  | row :: rest =>
    if inbound row then
      (sampleOf env (row :: (batchRest env row rest).1) (batchRest env row rest).2).toList ++
        selectFrom env (batchRest env row rest).2
    else selectFrom env rest
termination_by rows => rows.length
decreasing_by
  · exact Nat.lt_succ_of_le (batchRest_length env row rest)
  · exact Nat.lt_succ_self _

/-- `select_samples`; a limit of zero is no limit -/
def selectSamples (env : Env) (rows : List StoredMessage) (limit : ℕ) : List ReplaySample :=
  let samples := selectFrom env rows
  if 0 < limit then samples.drop (samples.length - limit) else samples

/-- `_history_window`: the rows of the history, the row of the sample, and the rows above the window -/
def historyWindow (cfg : Settings) (rows : List StoredMessage) (sample : ReplaySample) :
    List StoredMessage × Option StoredMessage × List StoredMessage :=
  let preceding := rows.filter fun r => r.seq < sample.seq
  let windowStart := preceding.length - cfg.conversationHistoryLimit
  (preceding.drop windowStart, rows.find? fun r => r.seq = sample.seq, preceding.take windowStart)

/-- the epoch of a sample -/
def epochKey (env : Env) (cfg : Settings) (rows : List StoredMessage) (sample : ReplaySample) : ℕ :=
  let (window, current, _) := historyWindow cfg rows sample
  match current with
  | none => sample.seq
  | some current => (findEpoch env cfg window current).1.key

/-- one sample in the loop of `chain_by_epoch`: the chains so far, and the key of the last sample -/
def chainStep (key : ReplaySample → ℕ) (acc : List (List ReplaySample) × Option ℕ) (sample : ReplaySample) :
    List (List ReplaySample) × Option ℕ :=
  match acc.1.getLast? with
  | none => (acc.1 ++ [[sample]], some (key sample))
  | some chain =>
    if acc.2 = some (key sample) then (acc.1.dropLast ++ [chain ++ [sample]], some (key sample))
    else (acc.1 ++ [[sample]], some (key sample))

/-- `chain_by_epoch` -/
def chainByEpoch (key : ReplaySample → ℕ) (samples : List ReplaySample) : List (List ReplaySample) :=
  (samples.foldl (chainStep key) ([], none)).1

/-! ## One batch -/

theorem batchRest_append (env : Env) (row : StoredMessage) (rest : List StoredMessage) :
    (batchRest env row rest).1 ++ (batchRest env row rest).2 = rest := by
  induction rest generalizing row with
  | nil => rfl
  | cons next rest ih =>
    rw [batchRest]
    split
    · exact congrArg _ (ih next)
    · rfl

theorem batchRest_inbound (env : Env) (row : StoredMessage) (rest : List StoredMessage) :
    ∀ r ∈ (batchRest env row rest).1, inbound r = true := by
  induction rest generalizing row with
  | nil => exact fun r hr => absurd hr List.not_mem_nil
  | cons next rest ih =>
    intro r hr
    rw [batchRest] at hr
    split at hr
    · rename_i h
      obtain rfl | hr := List.mem_cons.1 hr
      · exact (Bool.and_eq_true_iff.1 h).1
      · exact ih next r hr
    · exact absurd hr List.not_mem_nil

/-- each row of a batch is sent soon after the one before -/
theorem batchRest_chain (env : Env) (row : StoredMessage) (rest : List StoredMessage) :
    (row :: (batchRest env row rest).1).IsChain fun a b => sameBatch env a b = true := by
  induction rest generalizing row with
  | nil => exact List.isChain_singleton row
  | cons next rest ih =>
    rw [batchRest]
    split
    · rename_i h
      exact List.isChain_cons_cons.2 ⟨(Bool.and_eq_true_iff.1 h).2, ih next⟩
    · exact List.isChain_singleton row

/-- what follows a batch is not of the batch -/
theorem batchRest_ends (env : Env) (row : StoredMessage) (rest : List StoredMessage) (last next : StoredMessage)
    (hlast : (row :: (batchRest env row rest).1).getLast? = some last)
    (hnext : (batchRest env row rest).2.head? = some next) : ¬(inbound next = true ∧ sameBatch env last next = true) := by
  induction rest generalizing row with
  | nil => exact absurd hnext (Option.some_ne_none _).symm
  | cons x rest ih =>
    rw [batchRest] at hlast hnext
    split at hlast
    · rename_i h
      rw [if_pos h] at hnext
      rw [List.getLast?_cons_cons] at hlast
      exact ih x hlast hnext
    · rename_i h
      rw [if_neg h] at hnext
      rw [← Option.some.inj hnext, ← Option.some.inj hlast, ← Bool.and_eq_true_iff]
      exact h

/-- a batch ends in the same place, whichever of its rows it is looked at from -/
theorem batchRest_suffix (env : Env) {row : StoredMessage} {rest before later : List StoredMessage} {x : StoredMessage}
    (h : row :: (batchRest env row rest).1 = before ++ x :: later) :
    batchRest env x (later ++ (batchRest env row rest).2) = (later, (batchRest env row rest).2) := by
  induction before generalizing row rest with
  | nil =>
    obtain ⟨rfl, rfl⟩ := List.cons.inj h
    rw [batchRest_append]
  | cons y before ih =>
    obtain ⟨rfl, hlater⟩ := List.cons.inj h
    cases rest with
    | nil => exact absurd hlater (by simp [batchRest])
    | cons next rest =>
      rw [batchRest] at hlater ⊢
      split at hlater
      · rename_i hsame
        rw [if_pos hsame]
        exact ih hlater
      · exact absurd hlater (by simp)

theorem mem_texts {batch after : List StoredMessage} {row : StoredMessage} {rest : List StoredMessage}
    (h : (row, rest) ∈ texts batch after) : ∃ before later, batch = before ++ row :: later ∧ rest = later ++ after := by
  induction batch with
  | nil => exact absurd h List.not_mem_nil
  | cons x batch ih =>
    have hlater : (row, rest) ∈ texts batch after → ∃ before later, x :: batch = before ++ row :: later ∧
        rest = later ++ after := by
      intro hmem
      obtain ⟨before, later, hbatch, hrest⟩ := ih hmem
      exact ⟨x :: before, later, by rw [hbatch]; rfl, hrest⟩
    rw [texts] at h
    split at h
    · obtain heq | hmem := List.mem_cons.1 h
      · obtain ⟨rfl, rfl⟩ := Prod.mk.inj heq
        exact ⟨[], batch, rfl, rfl⟩
      · exact hlater hmem
    · exact hlater h

theorem texts_rows (batch after : List StoredMessage) : (texts batch after).map Prod.fst = batch.filter hasText := by
  induction batch with
  | nil => rfl
  | cons row batch ih =>
    rw [texts, List.filter_cons]
    split
    · exact congrArg _ ih
    · exact ih

/-! ## The turns of a conversation -/

/-- a batch and the rows that follow it -/
structure Turn where
  batch : List StoredMessage
  replies : List StoredMessage

/-- the sample of a turn: its last row with text, credited with its replies -/
def Turn.sample (env : Env) (t : Turn) : Option ReplaySample :=
  (t.batch.filter hasText).getLast?.map fun row => {
    seq := row.seq
    timestamp := row.timestamp
    messageContext := messageContext row
    productionReply := replyText t.replies
    productionToolCalls := toolCalls env t.replies
    batchedMessages := (t.batch.filter hasText).dropLast.map messageContext }

/-- the sample of a batch is that of its turn -/
theorem sampleOf_turn (env : Env) (row : StoredMessage) (rest : List StoredMessage) :
    sampleOf env (row :: (batchRest env row rest).1) (batchRest env row rest).2 =
      Turn.sample env ⟨row :: (batchRest env row rest).1, (batchRest env row rest).2.takeWhile fun r => !inbound r⟩ := by
  have hrows := texts_rows (row :: (batchRest env row rest).1) (batchRest env row rest).2
  rw [sampleOf, Turn.sample, ← hrows, List.getLast?_map]
  cases hlast : (texts (row :: (batchRest env row rest).1) (batchRest env row rest).2).getLast? with
  | none => rfl
  | some t =>
    obtain ⟨x, tail⟩ := t
    obtain ⟨before, later, hbatch, rfl⟩ := mem_texts (List.mem_of_getLast? hlast)
    have hresponse : responseRows env x (later ++ (batchRest env row rest).2) =
        (batchRest env row rest).2.takeWhile fun r => !inbound r := by
      rw [responseRows, batchRest_suffix env hbatch]
    simp only [Option.map_some, hresponse, ← List.map_dropLast, List.map_map]
    rfl

/-- what it means to cut rows into turns, after rows that answer nothing -/
structure Cut (env : Env) (rows lead : List StoredMessage) (turns : List Turn) : Prop where
  whole : rows = lead ++ turns.flatMap fun t => t.batch ++ t.replies
  lead : ∀ r ∈ lead, inbound r = false
  batch : ∀ t ∈ turns, t.batch ≠ [] ∧ (∀ r ∈ t.batch, inbound r = true) ∧
    t.batch.IsChain fun a b => sameBatch env a b = true
  replies : ∀ t ∈ turns, ∀ r ∈ t.replies, inbound r = false
  maximal : turns.IsChain fun t t' => t.replies = [] →
    ∀ last first, t.batch.getLast? = some last → t'.batch.head? = some first → sameBatch env last first = false

/-- the rows before the first turn are those before the first inbound row -/
theorem Cut.takeWhile {env : Env} {rows lead : List StoredMessage} {turns : List Turn} (h : Cut env rows lead turns) :
    rows.takeWhile (fun r => !inbound r) = lead := by
  have hlead : ∀ r ∈ lead, (!inbound r) = true := by
    intro r hr
    rw [h.lead r hr]
    rfl
  rw [h.whole, List.takeWhile_append_of_pos hlead]
  cases turns with
  | nil => exact List.append_nil lead
  | cons t turns =>
    obtain ⟨hne, hinbound, _⟩ := h.batch t List.mem_cons_self
    obtain ⟨first, later, hbatch⟩ := List.exists_cons_of_ne_nil hne
    have hfirst : ¬(!inbound first) = true := by
      rw [hinbound first (hbatch ▸ List.mem_cons_self)]
      exact Bool.false_ne_true
    rw [List.flatMap_cons, hbatch, List.cons_append, List.cons_append, List.takeWhile_cons_of_neg (p := fun r => !inbound r)
      hfirst, List.append_nil]

/-- one more batch in front of rows that are cut -/
theorem Cut.cons {env : Env} {row : StoredMessage} {rest lead : List StoredMessage} {turns : List Turn}
    (hrow : inbound row = true) (h : Cut env (batchRest env row rest).2 lead turns) :
    Cut env (row :: rest) [] (⟨row :: (batchRest env row rest).1, lead⟩ :: turns) := by
  refine ⟨?_, ?_, ?_, ?_, ?_⟩
  · rw [List.nil_append, List.flatMap_cons, List.append_assoc, ← h.whole, List.cons_append, batchRest_append]
  · exact fun r hr => absurd hr List.not_mem_nil
  · intro t ht
    obtain rfl | ht := List.mem_cons.1 ht
    · refine ⟨List.cons_ne_nil _ _, ?_, batchRest_chain env row rest⟩
      intro r hr
      obtain rfl | hr := List.mem_cons.1 hr
      · exact hrow
      · exact batchRest_inbound env row rest r hr
    · exact h.batch t ht
  · intro t ht
    obtain rfl | ht := List.mem_cons.1 ht
    · exact h.lead
    · exact h.replies t ht
  · cases turns with
    | nil => exact List.isChain_singleton _
    | cons t turns =>
      refine List.isChain_cons_cons.2 ⟨?_, h.maximal⟩
      intro hnone last first hlast hfirst
      obtain ⟨hne, hinbound, _⟩ := h.batch t List.mem_cons_self
      have hnext : (batchRest env row rest).2.head? = some first := by
        obtain ⟨x, later, hbatch⟩ := List.exists_cons_of_ne_nil hne
        rw [hbatch] at hfirst
        have hwhole := h.whole
        have hlead : lead = [] := hnone
        rw [hlead, List.nil_append, List.flatMap_cons, hbatch] at hwhole
        rw [hwhole]
        exact hfirst
      have hends := batchRest_ends env row rest last first hlast hnext
      rw [not_and, Bool.not_eq_true] at hends
      exact hends (hinbound first (List.mem_of_mem_head? hfirst))

/-- **The samples are those of the turns.** -/
theorem selectFrom_turns (env : Env) (rows : List StoredMessage) :
    ∃ lead turns, Cut env rows lead turns ∧ selectFrom env rows = turns.filterMap (Turn.sample env) := by
  induction rows using selectFrom.induct env with
  | case1 =>
    refine ⟨[], [], ⟨rfl, ?_, ?_, ?_, List.isChain_nil⟩, by rw [selectFrom]; rfl⟩
    · exact fun r hr => absurd hr List.not_mem_nil
    · exact fun t ht => absurd ht List.not_mem_nil
    · exact fun t ht => absurd ht List.not_mem_nil
  | case2 row rest hrow ih =>
    obtain ⟨lead, turns, hcut, hsamples⟩ := ih
    refine ⟨[], _, hcut.cons hrow, ?_⟩
    rw [selectFrom, if_pos hrow, sampleOf_turn, hcut.takeWhile, hsamples, List.filterMap_cons]
    cases Turn.sample env ⟨row :: (batchRest env row rest).1, lead⟩ with
    | none => rfl
    | some sample => rfl
  | case3 row rest hrow ih =>
    obtain ⟨lead, turns, hcut, hsamples⟩ := ih
    refine ⟨row :: lead, turns, ⟨?_, ?_, hcut.batch, hcut.replies, hcut.maximal⟩, ?_⟩
    · rw [hcut.whole]
      rfl
    · intro r hr
      obtain rfl | hr := List.mem_cons.1 hr
      · exact Bool.eq_false_iff.2 hrow
      · exact hcut.lead r hr
    · rw [selectFrom, if_neg hrow, hsamples]

/-! ## Who a row belongs to -/

/-- the parts of a list without repetitions have nothing in common -/
theorem part_unique {α β : Type} {f : β → List α} {l : List β} (h : (l.flatMap f).Nodup) {a : α} {x y : β} (hx : x ∈ l)
    (hy : y ∈ l) (hax : a ∈ f x) (hay : a ∈ f y) : x = y := by
  by_contra hne
  have hdisjoint := (List.nodup_flatMap.1 h).2
  have hsymm : Std.Symm (Function.onFun List.Disjoint f) := ⟨fun _ _ hxy => hxy.symm⟩
  exact hdisjoint.forall hx hy hne hax hay

/-- the samples are in the order of their rows -/
theorem seqs_sublist (env : Env) (turns : List Turn) :
    ((turns.filterMap (Turn.sample env)).map ReplaySample.seq).Sublist
      ((turns.flatMap fun t => t.batch ++ t.replies).map StoredMessage.seq) := by
  induction turns with
  | nil => exact List.nil_sublist _
  | cons t turns ih =>
    rw [List.filterMap_cons, List.flatMap_cons, List.map_append]
    cases hsample : Turn.sample env t with
    | none => exact ih.trans (List.sublist_append_right _ _)
    | some sample =>
      rw [Turn.sample, Option.map_eq_some_iff] at hsample
      obtain ⟨row, hrow, rfl⟩ := hsample
      have hmem : row.seq ∈ (t.batch ++ t.replies).map StoredMessage.seq :=
        List.mem_map_of_mem (List.mem_append_left _ (List.mem_filter.1 (List.mem_of_getLast? hrow)).1)
      exact (List.singleton_sublist.2 hmem).append ih

/-- a sample of a turn: its texts are those of the batch, in order -/
theorem sample_texts {env : Env} {t : Turn} {sample : ReplaySample} (h : t.sample env = some sample) :
    sample.batchedMessages ++ [sample.messageContext] = (t.batch.filter hasText).map messageContext ∧
      (∃ row ∈ t.batch, row.seq = sample.seq ∧ messageContext row = sample.messageContext) ∧
      sample.productionReply = replyText t.replies ∧ sample.productionToolCalls = toolCalls env t.replies := by
  rw [Turn.sample, Option.map_eq_some_iff] at h
  obtain ⟨row, hrow, rfl⟩ := h
  refine ⟨?_, ⟨row, (List.mem_filter.1 (List.mem_of_getLast? hrow)).1, rfl, rfl⟩, rfl, rfl⟩
  have hsplit := List.dropLast_append_getLast? row hrow
  conv_rhs => rw [← hsplit, List.map_append]
  rfl

/-- what the loop of `chain_by_epoch` keeps: the chains are the samples so far, those of a chain share their key -/
structure Chained (key : ReplaySample → ℕ) (samples : List ReplaySample) (acc : List (List ReplaySample) × Option ℕ) :
    Prop where
  flatten : acc.1.flatten = samples
  chain : ∀ c ∈ acc.1, c ≠ [] ∧ ∀ s ∈ c, ∀ s' ∈ c, key s = key s'
  last : ∀ c, acc.1.getLast? = some c → ∀ s ∈ c, acc.2 = some (key s)

/-- a sample that starts a chain -/
theorem Chained.start {key : ReplaySample → ℕ} {samples : List ReplaySample} {acc : List (List ReplaySample) × Option ℕ}
    (h : Chained key samples acc) (sample : ReplaySample) :
    Chained key (samples ++ [sample]) (acc.1 ++ [[sample]], some (key sample)) := by
  refine ⟨?_, ?_, ?_⟩
  · rw [List.flatten_append, h.flatten]
    rfl
  · intro c hc
    obtain hc | hc := List.mem_append.1 hc
    · exact h.chain c hc
    · rw [List.mem_singleton.1 hc]
      refine ⟨List.cons_ne_nil _ _, ?_⟩
      intro s hs s' hs'
      rw [List.mem_singleton.1 hs, List.mem_singleton.1 hs']
  · intro c hc s hs
    rw [List.getLast?_concat] at hc
    rw [← Option.some.inj hc, List.mem_singleton] at hs
    rw [hs]

/-- a sample that joins the last chain -/
theorem Chained.join {key : ReplaySample → ℕ} {samples : List ReplaySample} {acc : List (List ReplaySample) × Option ℕ}
    (h : Chained key samples acc) {chain : List ReplaySample} (hchain : acc.1.getLast? = some chain) {sample : ReplaySample}
    (hkey : acc.2 = some (key sample)) :
    Chained key (samples ++ [sample]) (acc.1.dropLast ++ [chain ++ [sample]], some (key sample)) := by
  have hsplit := List.dropLast_append_getLast? chain hchain
  have hsame : ∀ s ∈ chain ++ [sample], key s = key sample := by
    intro s hs
    obtain hs | hs := List.mem_append.1 hs
    · exact (Option.some.inj (hkey.symm.trans (h.last chain hchain s hs))).symm
    · rw [List.mem_singleton.1 hs]
  refine ⟨?_, ?_, ?_⟩
  · have hflatten := h.flatten
    rw [← hsplit, List.flatten_append, List.flatten_singleton] at hflatten
    rw [List.flatten_append, List.flatten_singleton, ← List.append_assoc, hflatten]
  · intro c hc
    obtain hc | hc := List.mem_append.1 hc
    · exact h.chain c (List.mem_of_mem_dropLast hc)
    · rw [List.mem_singleton.1 hc]
      exact ⟨List.concat_ne_nil _ _, fun s hs s' hs' => (hsame s hs).trans (hsame s' hs').symm⟩
  · intro c hc s hs
    rw [List.getLast?_concat] at hc
    rw [← Option.some.inj hc] at hs
    rw [hsame s hs]

/-- chains are the samples in order, cut where the key changes -/
theorem chained (key : ReplaySample → ℕ) (samples : List ReplaySample) :
    Chained key samples (samples.foldl (chainStep key) ([], none)) := by
  induction samples using List.reverseRecOn with
  | nil =>
    refine ⟨rfl, ?_, ?_⟩
    · exact fun c hc => absurd hc List.not_mem_nil
    · exact fun c hc => absurd hc (Option.some_ne_none c).symm
  | append_singleton samples sample ih =>
    rw [List.foldl_append, List.foldl_cons, List.foldl_nil, chainStep]
    split
    · exact ih.start sample
    · rename_i chain hchain
      split
      · rename_i hkey
        exact ih.join hchain hkey
      · exact ih.start sample

/-- the rows of the history of a sample come before it -/
theorem history_before (cfg : Settings) (rows : List StoredMessage) (sample : ReplaySample) :
    ∀ r ∈ (historyWindow cfg rows sample).1, r ∈ rows ∧ r.seq < sample.seq := by
  intro r hr
  obtain ⟨hmem, hlt⟩ := List.mem_filter.1 (List.mem_of_mem_drop hr)
  exact ⟨hmem, of_decide_eq_true hlt⟩

/-- **Sampling partitions the conversation.** -/
theorem sampling_partitions (env : Env) (cfg : Settings) (rows : List StoredMessage)
    (hseq : (rows.map StoredMessage.seq).Pairwise (· < ·)) :
    ∃ lead turns, Cut env rows lead turns ∧ selectSamples env rows 0 = turns.filterMap (Turn.sample env) ∧
      ((selectSamples env rows 0).map ReplaySample.seq).Pairwise (· < ·) ∧
      (∀ t ∈ turns, ∀ sample, t.sample env = some sample →
        sample.batchedMessages ++ [sample.messageContext] = (t.batch.filter hasText).map messageContext ∧
        (∃ row ∈ t.batch, row.seq = sample.seq ∧ messageContext row = sample.messageContext) ∧
        sample.productionReply = replyText t.replies ∧ sample.productionToolCalls = toolCalls env t.replies) ∧
      (∀ row ∈ rows, inbound row = true → hasText row = true →
        ∃! sample, sample ∈ selectSamples env rows 0 ∧ ∃ t ∈ turns, t.sample env = some sample ∧ row ∈ t.batch) ∧
      (∀ row ∈ rows, inbound row = false → ∀ t ∈ turns, ∀ t' ∈ turns, row ∈ t.replies → row ∈ t'.replies → t = t') ∧
      (∀ sample ∈ selectSamples env rows 0, ∀ r ∈ (historyWindow cfg rows sample).1, r ∈ rows ∧ r.seq < sample.seq) ∧
      (∀ samples, (chainByEpoch (epochKey env cfg rows) samples).flatten = samples ∧
        ∀ c ∈ chainByEpoch (epochKey env cfg rows) samples, c ≠ [] ∧
          ∀ s ∈ c, ∀ s' ∈ c, epochKey env cfg rows s = epochKey env cfg rows s') := by
  obtain ⟨lead, turns, hcut, hsamples⟩ := selectFrom_turns env rows
  have hselect : selectSamples env rows 0 = turns.filterMap (Turn.sample env) := hsamples
  have hnodup : (turns.flatMap fun t => t.batch ++ t.replies).Nodup := by
    have hrows : rows.Nodup := List.Nodup.of_map _ (hseq.imp fun h => ne_of_lt h)
    rw [hcut.whole] at hrows
    exact (List.nodup_append.1 hrows).2.1
  refine ⟨lead, turns, hcut, hselect, ?_, fun t _ sample h => sample_texts h, ?_, ?_, ?_, ?_⟩
  · have hsub : ((turns.flatMap fun t => t.batch ++ t.replies).map StoredMessage.seq).Sublist
        (rows.map StoredMessage.seq) := by
      rw [hcut.whole, List.map_append]
      exact List.sublist_append_right _ _
    rw [hselect]
    exact hseq.sublist ((seqs_sublist env turns).trans hsub)
  · intro row hrow hinbound htext
    obtain ⟨t, ht, hmem⟩ : ∃ t ∈ turns, row ∈ t.batch := by
      rw [hcut.whole, List.mem_append, List.mem_flatMap] at hrow
      obtain hlead | ⟨t, ht, hmem⟩ := hrow
      · rw [hcut.lead row hlead] at hinbound
        exact absurd hinbound Bool.false_ne_true
      · refine ⟨t, ht, (List.mem_append.1 hmem).resolve_right ?_⟩
        intro hreply
        rw [hcut.replies t ht row hreply] at hinbound
        exact Bool.false_ne_true hinbound
    obtain ⟨sample, hsample⟩ : ∃ sample, t.sample env = some sample := by
      have hne : t.batch.filter hasText ≠ [] := List.ne_nil_of_mem (List.mem_filter.2 ⟨hmem, htext⟩)
      obtain ⟨last, hlast⟩ := Option.isSome_iff_exists.1 (List.getLast?_isSome.2 hne)
      exact ⟨_, by rw [Turn.sample, hlast]; rfl⟩
    refine ⟨sample, ⟨?_, t, ht, hsample, hmem⟩, ?_⟩
    · rw [hselect]
      exact List.mem_filterMap.2 ⟨t, ht, hsample⟩
    · rintro other ⟨_, t', ht', hother, hmem'⟩
      have heq : t' = t := part_unique hnodup ht' ht (List.mem_append_left _ hmem') (List.mem_append_left _ hmem)
      rw [heq, hsample] at hother
      exact (Option.some.inj hother).symm
  · intro row _ _ t ht t' ht' hmem hmem'
    exact part_unique hnodup ht ht' (List.mem_append_right _ hmem) (List.mem_append_right _ hmem')
  · exact fun sample _ => history_before cfg rows sample
  · exact fun samples => ⟨(chained _ samples).flatten, (chained _ samples).chain⟩

/-- a batch of two messages, its reply, and a message that is not answered -/
def conversation : List StoredMessage :=
  [⟨.inbound, "note".toList, [], [], [], [], 1⟩, ⟨.inbound, "on 118600".toList, [], [], [], [], 2⟩,
    ⟨.outbound, "done".toList, [], [], [], [], 3⟩, ⟨.inbound, "thanks".toList, [], [], [], [], 4⟩]

/-- no timestamp can be read -/
def noTimes : Env := History.sampleEnv [] []

theorem sampling_partitions_conversation : ∃ lead turns, Cut noTimes conversation lead turns ∧
    selectSamples noTimes conversation 0 = turns.filterMap (Turn.sample noTimes) := by
  obtain ⟨lead, turns, hcut, hselect, _⟩ := sampling_partitions noTimes Settings.default conversation (by decide)
  exact ⟨lead, turns, hcut, hselect⟩

end Clawbolt.Sampling
