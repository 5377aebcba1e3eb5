/-
A message put together from its stream (`_BlockState` and `_MessageAccumulator` of services/llm_service.py, modelled in
Agent/StreamedCalls).

A `MessageStream` is one way to send a message: each block is cut into the block it starts with and its deltas, the events of
different blocks are interleaved in any way, and the last `message_delta` has the stop reason and the final counts.

- `lookup_accumulate`: a block's state is what its own events make of it;
- `reassembles`: the message comes back, from an interleaved stream exactly when every signature arrives in one piece, and a
  stream without `message_stop` is a provider error.
-/
import Mathlib.Tactic
import Clawbolt.Core.Fallible
import Clawbolt.Agent.StreamedCalls

namespace Clawbolt.Agent

open Text (Str)

/-! ## Cutting a message -/

/-- the thinking text of the deltas -/
def thinkingParts (deltas : List Delta) : List Str :=
  deltas.filterMap fun
    | .thinking t => some t
    | _ => none

/-- the signatures of the deltas -/
def signatureParts (deltas : List Delta) : List Str :=
  deltas.filterMap fun
    | .signature s => some s
    | _ => none

/-- a delta of a thinking block -/
def Delta.ofThinking : Delta → Bool
  | .thinking _ | .signature _ => true
  | _ => false

/-- how a block is cut into the block it starts with and its deltas; a tool's input is cut as JSON text -/
inductive Cut (loads : Str → Loaded) : StartBlock → List Delta → ContentBlock → Prop where
  | text (start : Str) (parts : List Str) : Cut loads (.text start) (parts.map .text) (.text (start ++ parts.flatten))
  | thinking (start signature : Str) (deltas : List Delta) : (∀ d ∈ deltas, d.ofThinking = true) →
      Cut loads (.thinking start signature) deltas
        (.thinking (start ++ (thinkingParts deltas).flatten) (signature ++ (signatureParts deltas).flatten))
  | carried (id name : Str) (input : Dict Json) (parts : List Str) : parts.flatten = [] →
      Cut loads (.toolUse id name input) (parts.map .inputJson) (.toolUse id name (.obj input))
  | input (id name : Str) (start : Dict Json) (parts : List Str) (v : Json) : parts.flatten ≠ [] →
      loads parts.flatten = .value v → Cut loads (.toolUse id name start) (parts.map .inputJson) (.toolUse id name v)

/-- a block of a stream -/
structure BlockCut where
  index : ℤ
  start : StartBlock
  deltas : List Delta

def BlockCut.events (c : BlockCut) : List StreamEvent :=
  .contentBlockStart c.index c.start :: c.deltas.map (.contentBlockDelta c.index) ++ [.contentBlockStop c.index]

/-- the block an event is about -/
def StreamEvent.index? : StreamEvent → Option ℤ
  | .contentBlockStart i _ | .contentBlockDelta i _ | .contentBlockStop i => some i
  | _ => none

def StreamEvent.onBlock (i : ℤ) (e : StreamEvent) : Bool := e.index? = some i

def StreamEvent.messageDelta? : StreamEvent → Option (MessageDelta × Dict Json)
  | .messageDelta delta usage => some (delta, usage)
  | _ => none

/-- one way to send a message -/
structure MessageStream (loads : Str → Loaded) (message : MessageResponse) where
  start : MessageResponse
  cuts : List BlockCut
  body : List StreamEvent
  delta : MessageDelta
  usage : Dict Json
  /-- the finished message, where the provider attaches it to `message_stop` -/
  attached : Option MessageResponse
  ascending : (cuts.map BlockCut.index).Pairwise (· < ·)
  content : List.Forall₂ (fun c b => Cut loads c.start c.deltas b) cuts message.content
  /-- the events of a block stand in order, whatever stands between them -/
  blocks : ∀ c ∈ cuts, body.filter (StreamEvent.onBlock c.index) = c.events
  opened : ∀ e ∈ body, ∀ i, e.index? = some i → i ∈ cuts.map BlockCut.index
  inner : ∀ e ∈ body, e.starts = false ∧ e.stops = false
  last : (body.filterMap StreamEvent.messageDelta?).getLast? = some (delta, usage)
  /-- what was sent: the counts of the last `message_delta` over those of `message_start` -/
  sent : message = { start with
    content := message.content
    stopReason := delta.stopReason
    stopSequence := delta.stopSequence
    usage := Dict.update start.usage (usage.filter fun kv => kv.2 ≠ .null) }
  whole : attached = none ∨ attached = some message

namespace MessageStream
variable {loads : Str → Loaded} {message : MessageResponse}

def events (s : MessageStream loads message) : List StreamEvent :=
  .messageStart s.start :: s.body ++ [.messageStop s.attached]

end MessageStream

/-- the signature comes with the block's start, or in the last of its deltas -/
def BlockCut.OnePiece (c : BlockCut) : Prop :=
  match c.start with
  | .thinking _ signature => (∀ s ∈ signatureParts c.deltas, s = []) ∨
      (signature = [] ∧ ∀ s ∈ (signatureParts c.deltas).dropLast, s = [])
  | _ => True

/-! ## The blocks of the accumulator -/

/-- what an event of its own makes of a block -/
def stepBlock : Option BlockState → StreamEvent → Option BlockState
  | _, .contentBlockStart _ block => some { start := block }
  | state, .contentBlockDelta _ delta => state.map fun b => b.addDelta delta
  | state, _ => state

theorem lookup_setBlock (i j : ℤ) (b : BlockState) (blocks : List (ℤ × BlockState)) :
    (setBlock i b blocks).lookup j = if j = i then some b else blocks.lookup j := by
  induction blocks with
  | nil =>
    rw [setBlock, List.lookup_cons]
    by_cases h : j = i
    · rw [if_pos h, beq_iff_eq.2 h]
    · rw [if_neg h, beq_false_of_ne h]
  | cons kv blocks ih =>
    obtain ⟨k, v⟩ := kv
    rw [setBlock]
    by_cases hk : k = i
    · rw [if_pos hk, hk, List.lookup_cons, List.lookup_cons]
      by_cases h : j = i
      · rw [if_pos h, beq_iff_eq.2 h]
      · rw [if_neg h, beq_false_of_ne h]
    · rw [if_neg hk, List.lookup_cons, List.lookup_cons, ih]
      by_cases h : j = k
      · have hi : ¬j = i := fun he => hk (h.symm.trans he)
        rw [beq_iff_eq.2 h]
        simp only [if_neg hi]
      · rw [beq_false_of_ne h]

theorem keys_setBlock (i : ℤ) (b : BlockState) (blocks : List (ℤ × BlockState)) :
    (setBlock i b blocks).map Prod.fst = blocks.map Prod.fst ∨
    (i ∉ blocks.map Prod.fst ∧ (setBlock i b blocks).map Prod.fst = blocks.map Prod.fst ++ [i]) := by
  induction blocks with
  | nil => exact Or.inr ⟨by simp, rfl⟩
  | cons kv blocks ih =>
    obtain ⟨k, v⟩ := kv
    rw [setBlock]
    by_cases hk : k = i
    · subst hk
      rw [if_pos rfl]
      exact Or.inl rfl
    · rw [if_neg hk]
      rcases ih with ih | ⟨hi, ih⟩
      · left
        rw [List.map_cons, ih, List.map_cons]
      · right
        refine ⟨?_, by rw [List.map_cons, ih, List.map_cons, List.cons_append]⟩
        rw [List.map_cons, List.mem_cons, not_or]
        exact ⟨Ne.symm hk, hi⟩

theorem nodup_setBlock {i : ℤ} {b : BlockState} {blocks : List (ℤ × BlockState)} (h : (blocks.map Prod.fst).Nodup) :
    ((setBlock i b blocks).map Prod.fst).Nodup := by
  rcases keys_setBlock i b blocks with hsame | ⟨hi, happend⟩
  · rwa [hsame]
  · rw [happend]
    exact List.nodup_append.2 ⟨h, List.nodup_singleton i, fun a ha b hb => by
      rw [List.mem_singleton.1 hb]
      exact fun he => hi (he ▸ ha)⟩

theorem MessageAccumulator.lookup_add (acc : MessageAccumulator) (e : StreamEvent) (i : ℤ) :
    (acc.add e).blocks.lookup i = if e.onBlock i then stepBlock (acc.blocks.lookup i) e else acc.blocks.lookup i := by
  cases e with
  | contentBlockStart index block =>
    simp only [MessageAccumulator.add, lookup_setBlock, StreamEvent.onBlock, StreamEvent.index?, stepBlock, Option.some.injEq,
      decide_eq_true_eq]
    by_cases h : index = i
    · rw [if_pos h, if_pos h.symm]
    · rw [if_neg h, if_neg (Ne.symm h)]
  | contentBlockDelta index delta =>
    simp only [MessageAccumulator.add, StreamEvent.onBlock, StreamEvent.index?, Option.some.injEq, decide_eq_true_eq]
    by_cases h : index = i
    · subst h
      rw [if_pos rfl]
      cases hl : acc.blocks.lookup index with
      | none => simp [hl, stepBlock]
      | some block => simp [lookup_setBlock, stepBlock]
    · rw [if_neg h]
      cases hl : acc.blocks.lookup index with
      | none => rfl
      | some block => simp only [lookup_setBlock, if_neg (Ne.symm h)]
  | contentBlockStop index =>
    simp only [MessageAccumulator.add, stepBlock, ite_self]
  | _ => simp [MessageAccumulator.add, StreamEvent.onBlock, StreamEvent.index?]

/-- a block's state is what its own events make of it -/
theorem lookup_accumulate (events : List StreamEvent) (i : ℤ) :
    (accumulate events).blocks.lookup i = (events.filter (StreamEvent.onBlock i)).foldl stepBlock none := by
  induction events using List.reverseRecOn with
  | nil => rfl
  | append_singleton events e ih =>
    rw [accumulate_snoc, MessageAccumulator.lookup_add, ih, List.filter_append, List.foldl_append]
    cases h : e.onBlock i with
    | true => simp [h]
    | false => simp [h]

theorem nodup_accumulate (events : List StreamEvent) : ((accumulate events).blocks.map Prod.fst).Nodup := by
  induction events using List.reverseRecOn with
  | nil => exact List.nodup_nil
  | append_singleton events e ih =>
    rw [accumulate_snoc]
    cases e with
    | contentBlockStart index block => exact nodup_setBlock ih
    | contentBlockDelta index delta =>
      simp only [MessageAccumulator.add]
      split
      · exact ih
      · exact nodup_setBlock ih
    | _ => exact ih

/-! ## The blocks in order -/

theorem lookup_of_mem_keys {α : Type} {blocks : List (ℤ × α)} (h : (blocks.map Prod.fst).Nodup) {kv : ℤ × α}
    (hm : kv ∈ blocks) : blocks.lookup kv.1 = some kv.2 := by
  induction blocks with
  | nil => exact absurd hm List.not_mem_nil
  | cons x blocks ih =>
    obtain ⟨hx, hnodup⟩ := List.nodup_cons.1 h
    rcases List.mem_cons.1 hm with rfl | hm
    · rw [List.lookup_cons, beq_self_eq_true]
    · have hne : kv.1 ≠ x.1 := fun he => hx (he ▸ List.mem_map_of_mem (f := Prod.fst) hm)
      rw [List.lookup_cons, beq_false_of_ne hne]
      exact ih hnodup hm

/-- two lists of entries with the same keys, in order, and one value for each key -/
theorem sorted_blocks {α : Type} {blocks : List (ℤ × α)} {keys : List ℤ} {values : List α}
    (hnodup : (blocks.map Prod.fst).Nodup) (hkeys : keys.Pairwise (· < ·))
    (hmem : ∀ i, i ∈ blocks.map Prod.fst ↔ i ∈ keys)
    (hvalues : List.Forall₂ (fun i v => blocks.lookup i = some v) keys values) :
    (blocks.insertionSort fun a b => a.1 ≤ b.1).map Prod.snd = values := by
  have hperm : (blocks.insertionSort fun a b => a.1 ≤ b.1).Perm blocks := List.perm_insertionSort _ _
  have hsorted : ((blocks.insertionSort fun a b => a.1 ≤ b.1).map Prod.fst).Pairwise (· ≤ ·) := by
    have htotal : Std.Total (fun a b : ℤ × α => a.1 ≤ b.1) := ⟨fun a b => le_total a.1 b.1⟩
    have htrans : IsTrans (ℤ × α) (fun a b => a.1 ≤ b.1) := ⟨fun a b c hab hbc => le_trans hab hbc⟩
    exact List.pairwise_map.2 (List.pairwise_insertionSort _ _)
  have hfst : (blocks.insertionSort fun a b => a.1 ≤ b.1).map Prod.fst = keys := by
    have hp : ((blocks.insertionSort fun a b => a.1 ≤ b.1).map Prod.fst).Perm keys :=
      (hperm.map Prod.fst).trans ((List.perm_ext_iff_of_nodup hnodup hkeys.nodup).2 hmem)
    exact hp.eq_of_pairwise (fun a b _ _ => le_antisymm) hsorted (hkeys.imp le_of_lt)
  have hentries : List.Forall₂ (fun i v => blocks.lookup i = some v)
      ((blocks.insertionSort fun a b => a.1 ≤ b.1).map Prod.fst) ((blocks.insertionSort fun a b => a.1 ≤ b.1).map Prod.snd) := by
    rw [List.forall₂_map_left_iff, List.forall₂_map_right_iff, List.forall₂_same]
    intro kv hkv
    exact lookup_of_mem_keys hnodup (hperm.subset hkv)
  rw [hfst] at hentries
  exact List.right_unique_forall₂' (fun i v w hv hw => Option.some.inj (hv.symm.trans hw)) hentries hvalues

/-- the state that a block's own events make -/
def BlockCut.state (c : BlockCut) : BlockState := c.deltas.foldl BlockState.addDelta { start := c.start }

theorem foldl_deltas (i : ℤ) (deltas : List Delta) (b : BlockState) :
    (deltas.map (StreamEvent.contentBlockDelta i)).foldl stepBlock (some b) = some (deltas.foldl BlockState.addDelta b) := by
  induction deltas generalizing b with
  | nil => rfl
  | cons d deltas ih => exact ih (b.addDelta d)

theorem foldl_events (c : BlockCut) : c.events.foldl stepBlock none = some c.state := by
  rw [BlockCut.events, List.cons_append, List.foldl_cons, List.foldl_append]
  have hstart : stepBlock none (.contentBlockStart c.index c.start) = some { start := c.start } := rfl
  rw [hstart, foldl_deltas]
  rfl

/-! ## A block from its parts -/

theorem start_foldl (deltas : List Delta) (b : BlockState) : (deltas.foldl BlockState.addDelta b).start = b.start := by
  induction deltas generalizing b with
  | nil => rfl
  | cons d deltas ih =>
    rw [List.foldl_cons, ih]
    cases d <;> rfl

theorem text_foldl (parts : List Str) (b : BlockState) :
    ((parts.map Delta.text).foldl BlockState.addDelta b).text = b.text ++ parts := by
  induction parts generalizing b with
  | nil => exact (List.append_nil _).symm
  | cons t parts ih =>
    rw [List.map_cons, List.foldl_cons, ih]
    exact List.append_assoc b.text [t] parts

theorem jsonInput_foldl (parts : List Str) (b : BlockState) :
    ((parts.map Delta.inputJson).foldl BlockState.addDelta b).jsonInput = b.jsonInput ++ parts := by
  induction parts generalizing b with
  | nil => exact (List.append_nil _).symm
  | cons t parts ih =>
    rw [List.map_cons, List.foldl_cons, ih]
    exact List.append_assoc b.jsonInput [t] parts

theorem thinking_foldl {deltas : List Delta} (h : ∀ d ∈ deltas, d.ofThinking = true) (b : BlockState) :
    (deltas.foldl BlockState.addDelta b).thinking = b.thinking ++ thinkingParts deltas ∧
    (deltas.foldl BlockState.addDelta b).signature = (signatureParts deltas).getLast?.getD b.signature := by
  induction deltas generalizing b with
  | nil => exact ⟨(List.append_nil _).symm, rfl⟩
  | cons d deltas ih =>
    obtain ⟨hthinking, hsignature⟩ := ih (fun x hx => h x (List.mem_cons_of_mem _ hx)) (b.addDelta d)
    rw [List.foldl_cons, hthinking, hsignature]
    cases d with
    | thinking t => exact ⟨List.append_assoc b.thinking [t] _, rfl⟩
    | signature t =>
      refine ⟨rfl, ?_⟩
      have hparts : signatureParts (.signature t :: deltas) = t :: signatureParts deltas := rfl
      rw [hparts, List.getLast?_cons]
      rfl
    | _ => exact absurd (h _ List.mem_cons_self) Bool.false_ne_true

/-- the last signature, or the start's, is all of them exactly when they are one piece -/
theorem signature_iff (signature : Str) (parts : List Str) :
    (if parts.getLast?.getD [] ≠ [] then parts.getLast?.getD [] else signature) = signature ++ parts.flatten ↔
      (∀ s ∈ parts, s = []) ∨ (signature = [] ∧ ∀ s ∈ parts.dropLast, s = []) := by
  rcases List.eq_nil_or_concat parts with rfl | ⟨init, last, rfl⟩
  · simp
  · rw [List.concat_eq_append, List.getLast?_concat, Option.getD_some, List.dropLast_concat, List.flatten_append,
      List.flatten_singleton, ← List.append_assoc]
    by_cases hlast : last = []
    · rw [if_neg (not_not.2 hlast), hlast, List.append_nil, List.self_eq_append_right, List.flatten_eq_nil_iff]
      constructor
      · intro hinit
        left
        intro s hs
        rcases List.mem_append.1 hs with hs | hs
        · exact hinit s hs
        · exact List.mem_singleton.1 hs
      · rintro (hall | ⟨-, hinit⟩)
        · exact fun s hs => hall s (List.mem_append_left _ hs)
        · exact hinit
    · rw [if_pos hlast, List.self_eq_append_left, List.append_eq_nil_iff, List.flatten_eq_nil_iff]
      constructor
      · exact Or.inr
      · rintro (hall | hinit)
        · exact absurd (hall last (List.mem_append_right _ (List.mem_singleton.2 rfl))) hlast
        · exact hinit

/-- a block is built back exactly when its signature is one piece -/
theorem build_cut_iff {loads : Str → Loaded} {c : BlockCut} {b : ContentBlock} (h : Cut loads c.start c.deltas b) :
    c.state.build loads = some b ↔ c.OnePiece := by
  obtain ⟨index, start, deltas⟩ := c
  have hstart : BlockState.start (deltas.foldl BlockState.addDelta { start := start }) = start := start_foldl deltas _
  simp only [BlockCut.state, BlockState.build, hstart, BlockCut.OnePiece]
  cases h with
  | text start parts =>
    simp only [text_foldl, List.nil_append]
  | thinking start signature deltas hdeltas =>
    obtain ⟨hthinking, hsignature⟩ := thinking_foldl hdeltas { start := .thinking start signature }
    simp only [hthinking, hsignature, List.nil_append, Option.some.injEq, ContentBlock.thinking.injEq, true_and]
    exact signature_iff signature _
  | carried id name input parts hparts =>
    simp only [streamedInput, jsonInput_foldl, List.nil_append, if_pos hparts, Option.map_some]
  | input id name start parts v hparts hloads =>
    simp only [streamedInput, jsonInput_foldl, List.nil_append, if_neg hparts, hloads, Option.map_some]

/-- blocks cut in one piece, and no others, are built back -/
theorem build_cuts_iff {loads : Str → Loaded} {cuts : List BlockCut} {content : List ContentBlock}
    (h : List.Forall₂ (fun c b => Cut loads c.start c.deltas b) cuts content) :
    (cuts.map BlockCut.state).mapM (BlockState.build loads) = some content ↔ ∀ c ∈ cuts, c.OnePiece := by
  rw [Fallible.mapM_option_iff, List.forall₂_map_left_iff]
  induction h with
  | nil => simp
  | cons hc _ ih => rw [List.forall₂_cons, build_cut_iff hc, ih, List.forall_mem_cons]

/-! ## The message -/

theorem accumulate_delta (events : List StreamEvent) :
    (accumulate events).delta = (events.filterMap StreamEvent.messageDelta?).getLast?.map Prod.fst ∧
    (accumulate events).usage = (events.filterMap StreamEvent.messageDelta?).getLast?.map Prod.snd := by
  induction events using List.reverseRecOn with
  | nil => exact ⟨rfl, rfl⟩
  | append_singleton events e ih =>
    rw [accumulate_snoc, List.filterMap_append]
    cases e with
    | messageDelta delta usage =>
      have hone : [StreamEvent.messageDelta delta usage].filterMap StreamEvent.messageDelta? = [(delta, usage)] := rfl
      rw [hone, List.getLast?_concat]
      exact ⟨rfl, rfl⟩
    | contentBlockDelta index delta =>
      obtain ⟨blocks, hadd⟩ := (accumulate events).add_contentBlockDelta index delta
      have hnone : [StreamEvent.contentBlockDelta index delta].filterMap StreamEvent.messageDelta? = [] := rfl
      rw [hadd, hnone, List.append_nil]
      exact ih
    | _ => simpa [MessageAccumulator.add, StreamEvent.messageDelta?] using ih

/-- a stream without `message_stop` is a provider error -/
theorem build_unstopped (loads : Str → Loaded) {events : List StreamEvent} (h : ∀ e ∈ events, e.stops = false) :
    ∃ text, (accumulate events).build loads = .error (.provider text) := by
  have hfinal : (accumulate events).final = none := accumulate_final fun m hm => Bool.false_ne_true (h _ hm).symm
  have hstopped : (accumulate events).stopped = false := by
    clear hfinal
    induction events using List.reverseRecOn with
    | nil => rfl
    | append_singleton events e ih =>
      rw [accumulate_snoc, MessageAccumulator.add_stopped, ih fun x hx => h x (List.mem_append_left _ hx),
        h e (List.mem_append_right _ (List.mem_singleton.2 rfl))]
      rfl
  rw [MessageAccumulator.build, hfinal]
  cases (accumulate events).start with
  | none => exact ⟨_, rfl⟩
  | some start =>
    rw [hstopped]
    exact ⟨_, rfl⟩

theorem accumulate_messageStart (start : MessageResponse) {body : List StreamEvent} (h : ∀ e ∈ body, e.starts = false) :
    (accumulate (.messageStart start :: body)).start = some start := by
  induction body using List.reverseRecOn with
  | nil => rfl
  | append_singleton body e ih =>
    have hbody := ih fun x hx => h x (List.mem_append_left _ hx)
    rw [← List.cons_append, accumulate_snoc]
    cases e with
    | contentBlockDelta index delta =>
      obtain ⟨blocks, hadd⟩ := (accumulate (.messageStart start :: body)).add_contentBlockDelta index delta
      rw [hadd]
      exact hbody
    | messageStart message => exact absurd (h _ (List.mem_append_right _ (List.mem_singleton.2 rfl))).symm Bool.false_ne_true
    | _ => exact hbody

theorem mem_keys_iff {α : Type} {blocks : List (ℤ × α)} {i : ℤ} : i ∈ blocks.map Prod.fst ↔ blocks.lookup i ≠ none := by
  rw [ne_eq, List.lookup_eq_none_iff, List.mem_map]
  constructor
  · rintro ⟨kv, hkv, rfl⟩ hnone
    exact absurd (hnone kv hkv) (by simp)
  · intro h
    by_contra hno
    apply h
    intro kv hkv
    exact bne_iff_ne.2 fun he => hno ⟨kv, hkv, he.symm⟩

namespace MessageStream
variable {loads : Str → Loaded} {message : MessageResponse}

theorem stops_events (s : MessageStream loads message) {e : StreamEvent} (he : e ∈ .messageStart s.start :: s.body) :
    e.stops = false := by
  rcases List.mem_cons.1 he with rfl | he
  · rfl
  · exact (s.inner e he).2

/-- what the accumulator holds before `message_stop` -/
theorem before_stop (s : MessageStream loads message) :
    (accumulate (.messageStart s.start :: s.body)).start = some s.start ∧
    (accumulate (.messageStart s.start :: s.body)).delta = some s.delta ∧
    (accumulate (.messageStart s.start :: s.body)).usage = some s.usage ∧
    (accumulate (.messageStart s.start :: s.body)).sortedBlocks = s.cuts.map BlockCut.state := by
  refine ⟨?_, ?_, ?_, ?_⟩
  · exact accumulate_messageStart s.start fun e he => (s.inner e he).1
  · rw [(accumulate_delta _).1]
    exact congrArg (Option.map Prod.fst) s.last
  · rw [(accumulate_delta _).2]
    exact congrArg (Option.map Prod.snd) s.last
  · have hown : ∀ i, (StreamEvent.messageStart s.start :: s.body).filter (StreamEvent.onBlock i) =
        s.body.filter (StreamEvent.onBlock i) := by
      intro i
      exact List.filter_cons_of_neg (by simp [StreamEvent.onBlock, StreamEvent.index?])
    have hlookup : ∀ c ∈ s.cuts, (accumulate (.messageStart s.start :: s.body)).blocks.lookup c.index = some c.state := by
      intro c hc
      rw [lookup_accumulate, hown, s.blocks c hc, foldl_events]
    refine sorted_blocks (nodup_accumulate _) s.ascending ?_ ?_
    · intro i
      rw [mem_keys_iff]
      constructor
      · intro hi
        by_contra hno
        apply hi
        have hnone : s.body.filter (StreamEvent.onBlock i) = [] := by
          rw [List.filter_eq_nil_iff]
          intro e he hon
          exact hno (s.opened e he i (of_decide_eq_true hon))
        rw [lookup_accumulate, hown, hnone]
        rfl
      · intro hi hnone
        obtain ⟨c, hc, rfl⟩ := List.mem_map.1 hi
        rw [hlookup c hc] at hnone
        cases hnone
    · rw [List.forall₂_map_left_iff, List.forall₂_map_right_iff, List.forall₂_same]
      exact hlookup

/-- a stream with its message attached gives that message -/
theorem build_attached (s : MessageStream loads message) (h : s.attached = some message) :
    (accumulate s.events).build loads = .ok message := by
  rw [events, accumulate_snoc, h]
  rfl

/-- an interleaved stream gives its message exactly when every signature is one piece -/
theorem build_iff_onePiece (s : MessageStream loads message) (h : s.attached = none) :
    (accumulate s.events).build loads = .ok message ↔ ∀ c ∈ s.cuts, c.OnePiece := by
  obtain ⟨hstart, hdelta, husage, hblocks⟩ := s.before_stop
  have hsorted : ((accumulate (.messageStart s.start :: s.body)).add (.messageStop none)).sortedBlocks =
      s.cuts.map BlockCut.state := hblocks
  rw [← build_cuts_iff s.content, events, accumulate_snoc, h]
  simp only [MessageAccumulator.build, MessageAccumulator.mergedUsage, hsorted]
  simp only [MessageAccumulator.add, hstart, hdelta, husage, if_true]
  cases (s.cuts.map BlockCut.state).mapM (BlockState.build loads) with
  | none => simp
  | some content =>
    rw [Option.some.injEq, Except.ok.injEq]
    constructor
    · intro heq
      exact congrArg MessageResponse.content heq
    · rintro rfl
      exact s.sent.symm

/-- every event but the last leaves the message unfinished -/
theorem build_part (s : MessageStream loads message) {part : List StreamEvent} (h : part <+: s.events)
    (hne : part ≠ s.events) : ∃ text, (accumulate part).build loads = .error (.provider text) := by
  apply build_unstopped
  have hinit : part <+: .messageStart s.start :: s.body := by
    rcases List.prefix_concat_iff.1 h with heq | hpart
    · exact absurd heq hne
    · exact hpart
  exact fun e he => s.stops_events (hinit.subset he)

end MessageStream

/-- **The message comes back.** However a message is cut and its blocks interleaved, the accumulator builds it: always where
the provider attaches it, and otherwise exactly when every signature arrives in one piece. Every proper part of the stream is
a provider error. -/
theorem reassembles (loads : Str → Loaded) (message : MessageResponse) (s : MessageStream loads message) :
    ((∀ c ∈ s.cuts, c.OnePiece) → (accumulate s.events).build loads = .ok message) ∧
    (s.attached = none → (accumulate s.events).build loads = .ok message → ∀ c ∈ s.cuts, c.OnePiece) ∧
    ∀ part, part <+: s.events → part ≠ s.events → ∃ text, (accumulate part).build loads = .error (.provider text) := by
  refine ⟨?_, ?_, ?_⟩
  · intro hone
    rcases s.whole with hnone | hattached
    · exact (s.build_iff_onePiece hnone).2 hone
    · exact s.build_attached hattached
  · exact fun hnone hbuild => (s.build_iff_onePiece hnone).1 hbuild
  · exact fun part hpart hne => s.build_part hpart hne

/-- a thinking block whose signature comes in two deltas -/
def signedCut : BlockCut := ⟨0, .thinking [] [], [.thinking ['t'], .signature ['a'], .signature ['b']]⟩

def signedMessage : MessageResponse := ⟨[], [], [.thinking ['t'] ['a', 'b']], none, none, []⟩

def signedStream (loads : Str → Loaded) : MessageStream loads signedMessage where
  start := ⟨[], [], [], none, none, []⟩
  cuts := [signedCut]
  body := signedCut.events ++ [.messageDelta ⟨none, none⟩ []]
  delta := ⟨none, none⟩
  usage := []
  attached := none
  ascending := List.pairwise_singleton _ _
  content := .cons (.thinking [] [] _ (by decide)) .nil
  blocks := by
    intro c hc
    rw [List.mem_singleton.1 hc]
    rfl
  opened := by
    intro e he i hi
    simp only [signedCut, BlockCut.events, List.map_cons, List.map_nil, List.cons_append, List.nil_append, List.mem_cons,
      List.not_mem_nil, or_false] at he ⊢
    rcases he with rfl | rfl | rfl | rfl | rfl | rfl
    · exact (Option.some.inj hi).symm
    · exact (Option.some.inj hi).symm
    · exact (Option.some.inj hi).symm
    · exact (Option.some.inj hi).symm
    · exact (Option.some.inj hi).symm
    · cases hi
  inner := by
    intro e he
    simp only [signedCut, BlockCut.events, List.map_cons, List.map_nil, List.cons_append, List.nil_append, List.mem_cons,
      List.not_mem_nil, or_false] at he
    rcases he with rfl | rfl | rfl | rfl | rfl | rfl <;> exact ⟨rfl, rfl⟩
  last := rfl
  sent := rfl
  whole := Or.inl rfl

/-- only the last piece of a signature is kept -/
theorem signature_lost : ∃ (loads : Str → Loaded) (message : MessageResponse) (s : MessageStream loads message),
    (accumulate s.events).build loads ≠ .ok message := by
  refine ⟨fun _ => .decodeError, signedMessage, signedStream _, ?_⟩
  rw [ne_eq, (signedStream _).build_iff_onePiece rfl]
  intro hone
  rcases hone signedCut (List.mem_singleton.2 rfl) with hall | ⟨-, hinit⟩
  · exact absurd (hall ['a'] List.mem_cons_self) (List.cons_ne_nil _ _)
  · exact absurd (hinit ['a'] List.mem_cons_self) (List.cons_ne_nil _ _)

end Clawbolt.Agent
