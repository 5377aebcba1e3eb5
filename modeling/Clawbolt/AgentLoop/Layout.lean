/-
The messages of a turn as objects, and where it lays out the workspace updates (`_WorkspaceLayout` and `assemble_prompt` of
agent/core.py, `trim_messages` of agent/trimming.py).

The layout is undone by identity, so a message has a reference here, and `is` compares references. References count up from
0; `next` is the first one that is free.

- `trim_values`: on the values, a trim of objects is `trim_messages`; it drops objects from the front of the body
  (`trim_split`);
- `lay_of_current`: the updates go on rows of the history and on the current turn, on new objects;
- `strip_laid`: taking them off gives the messages as they were, with the current turn without its update;
- `assemble_cases`: the prompt of a turn, before and after the updates are laid.
-/
import Mathlib.Tactic
import Clawbolt.AgentLoop.Messages
import Clawbolt.Workspace.Chain

namespace Clawbolt.AgentLoop

open Text (Str)
open History (AgentMessage Env Settings trimMessages)
open Workspace (EpochWorkspace UnifiedDiff WorkspaceSnapshot appendWorkspaceUpdates)

/-! ## Objects -/

structure Obj where
  ref : ℕ
  message : AgentMessage
deriving DecidableEq, Repr

def valuesOf (objs : List Obj) : List AgentMessage := objs.map Obj.message

/-- new objects, from the reference `next` on -/
def allocate : ℕ → List AgentMessage → List Obj
  | _, [] => []
  | next, m :: ms => ⟨next, m⟩ :: allocate (next + 1) ms

/-- the note put ahead of the first user message of a list, on a new object; none without one -/
def prefixUserObj (next : ℕ) (note : Str) : List Obj → Option (List Obj)
  | [] => none
  | ⟨ref, m⟩ :: rest =>
    match m with
    | .user content seq => some (⟨next, .user (note ++ "\n\n".toList ++ content) seq⟩ :: rest)
    | _ => (prefixUserObj next note rest).map (⟨ref, m⟩ :: ·)

/-- `attach_summary`, on a new object -/
def attachSummaryObj (next : ℕ) (messages : List Obj) (summary : Str) : List Obj :=
  let note := "[Summary of earlier conversation: ".toList ++ summary ++ "]".toList
  match messages with
  | [] => [⟨next, .user note none⟩]
  | first :: rest =>
    match prefixUserObj next note rest.reverse with
    | some reversed => first :: reversed.reverse
    | none => first :: ⟨next, .user note none⟩ :: rest

/-- `TrimResult`, with the next free reference -/
structure Trimmed where
  messages : List Obj
  dropped : List Obj
  next : ℕ

/-- `trim_messages` on objects: those it drops and those it keeps are the ones it was given -/
def trimObjs (env : Env) (cfg : Settings) (next : ℕ) (messages : List Obj) (inputTokens : Option ℕ) : Trimmed :=
  let dropped := (trimMessages env cfg (valuesOf messages) inputTokens).dropped
  match messages with
  | [] => ⟨[], [], next⟩
  | system :: body =>
    let kept := system :: body.drop dropped.length
    if dropped = [] then ⟨kept, [], next⟩
    else ⟨attachSummaryObj next kept (History.summarizeDroppedMessages dropped), body.take dropped.length, next + 1⟩

/-! ## The layout -/

/-- `_WorkspaceLayout`, with its `WorkspaceTurn`: the entry that it changes, and the documents of the turn -/
structure Layout where
  entry : EpochWorkspace
  live : WorkspaceSnapshot
  turnSeq : Option ℕ
  dynamic : Str
  /-- the current turn's text for a given dynamic half -/
  body : Str → Str
  anchor : Option ℕ
  anchorBody : Str
  /-- each message that was sent with an update, and the same message without it -/
  sent : List (Obj × Obj)

/-- `preview` -/
def Layout.preview (diff : UnifiedDiff) (l : Layout) (history : List AgentMessage) : Str :=
  l.entry.updates diff l.live (l.entry.seen history)

/-- `current_turn`: the text of the current turn, which becomes the object `ref` -/
def Layout.currentTurn (diff : UnifiedDiff) (l : Layout) (ref : ℕ) (history : List AgentMessage) : Str × Layout :=
  let text := l.body (appendWorkspaceUpdates l.dynamic (l.preview diff history))
  (text, { l with anchorBody := text, anchor := some ref })

/-- a user message without a seq that ends with the text of the current turn -/
def endsWithBody (anchorBody : Str) : AgentMessage → Bool
  | .user content none => Text.endsWith anchorBody content
  | _ => false

/-- `_find_current` -/
def Layout.findCurrent (l : Layout) (messages : List Obj) : Option ℕ :=
  let isAnchor (i : ℕ) := 0 < i && (messages[i]?.any fun m => some m.ref = l.anchor)
  let endsLike (i : ℕ) := 0 < i && (messages[i]?.any fun m => endsWithBody l.anchorBody m.message)
  match History.lastIndex isAnchor messages.length with
  | some i => some i
  | none => History.lastIndex endsLike messages.length

/-- a row that an update is laid on -/
def carries (laid : List (ℕ × Str)) : AgentMessage → Bool
  | .user _ (some q) => (Workspace.bySeq laid q).isSome
  | _ => false

/-- the history of `WorkspaceTurn.apply`: a new object for each row that an update is laid on -/
def layRows (next : ℕ) (laid : List (ℕ × Str)) : List Obj → List Obj
  | [] => []
  | m :: rest =>
    (if carries laid m.message then ⟨next, Workspace.layOn laid m.message⟩ else m) :: layRows (next + 1) laid rest

/-- `_pairs` -/
def pairs (laid stored : List Obj) : List (Obj × Obj) := (laid.zip stored).filter fun p => p.1.ref ≠ p.2.ref

/-- what `_lay` returns, with the entry and the next free reference after it -/
structure Laid where
  messages : List Obj
  dynamic : Str
  pairs : List (Obj × Obj)
  plain : Option Obj
  entry : EpochWorkspace
  next : ℕ

/-- `replace(current, content=content)` -/
def withContent (m : AgentMessage) (content : Str) : AgentMessage :=
  match m with
  | .user _ seq => .user content seq
  | m => m

def contentOf : AgentMessage → Str
  | .user content _ => content
  | _ => []

/-- `_lay` -/
def Layout.lay (diff : UnifiedDiff) (l : Layout) (next : ℕ) (messages : List Obj) : Laid :=
  match l.findCurrent messages with
  | none =>
    let stored := messages.drop 1
    let laid := layRows next (Workspace.texts (l.entry.visible (valuesOf stored))) stored
    ⟨messages.take 1 ++ laid, l.dynamic, pairs laid stored, none,
      (l.entry.apply diff l.live l.turnSeq (valuesOf stored)).2, next + messages.length⟩
  | some index =>
    let current := ((messages[index]?).map Obj.message).getD (.user [] none)
    let note := (contentOf current).take ((contentOf current).length - l.anchorBody.length)
    let stored := (messages.take index).drop 1
    let (view, entry) := l.entry.apply diff l.live l.turnSeq (valuesOf stored)
    let laid := layRows next (Workspace.texts (l.entry.visible (valuesOf stored))) stored
    let dynamic := appendWorkspaceUpdates l.dynamic view.updates
    let sent : Obj := ⟨next + messages.length, withContent current (note ++ l.body dynamic)⟩
    let plain : Obj := ⟨next + messages.length + 1, withContent current (note ++ l.body l.dynamic)⟩
    ⟨messages.take 1 ++ laid ++ [sent] ++ messages.drop (index + 1), dynamic, pairs laid stored ++ [(sent, plain)],
      some plain, entry, next + messages.length + 2⟩

/-- `apply` -/
def Layout.apply (diff : UnifiedDiff) (l : Layout) (next : ℕ) (messages : List Obj) : List Obj × Layout × ℕ :=
  let laid := l.lay diff next messages
  let l := { l with entry := laid.entry, sent := laid.pairs }
  match laid.plain with
  | some plain => (laid.messages, { l with anchor := some plain.ref, anchorBody := l.body l.dynamic }, laid.next)
  | none => (laid.messages, l, laid.next)

/-- a message without the update that it was sent with -/
def unlaid (sent : List (Obj × Obj)) (m : Obj) : Obj := ((sent.find? fun p => p.1.ref = m.ref).map Prod.snd).getD m

/-- `strip` -/
def Layout.strip (l : Layout) (messages : List Obj) : List Obj := messages.map (unlaid l.sent)

/-- `reapply`: the messages, the layout with the entry that `WorkspaceTurn.apply` leaves, the next free reference -/
def Layout.reapply (diff : UnifiedDiff) (l : Layout) (next : ℕ) (messages : List Obj) : List Obj × Layout × ℕ :=
  let laid := l.lay diff next messages
  (laid.messages, { l with entry := laid.entry }, laid.next)

/-! ## The prompt -/

/-- what a turn starts from. The two halves of the system prompt, the time context and the message are texts; a turn with
an override of the system prompt, or without an epoch, has no workspace. -/
structure TurnInput where
  system : Str
  dynamic : Str
  workspace : Option (EpochWorkspace × WorkspaceSnapshot × Option ℕ)
  timeContext : Str
  messageContext : Str
  history : List AgentMessage
  /-- the history and the dropped messages for a test that the history fits; none inside when there is nothing to shed -/
  shedHistory : Option ((List AgentMessage → Bool) → Option (List AgentMessage × List AgentMessage))
  /-- the known size of the prompt -/
  inputTokens : Option ℕ

/-- `current_turn` of `assemble_prompt` -/
def TurnInput.currentTurn (t : TurnInput) (dynamic : Str) : Str :=
  Text.join "\n\n".toList
    (if dynamic = [] then [t.timeContext, t.messageContext] else [t.timeContext, dynamic, t.messageContext])

def TurnInput.layout (t : TurnInput) : Option Layout :=
  t.workspace.map fun (entry, live, turnSeq) => ⟨entry, live, turnSeq, t.dynamic, t.currentTurn, none, [], []⟩

/-- the text of the current turn that the trim measures, and the layout with it -/
def TurnInput.measured (t : TurnInput) (diff : UnifiedDiff) (ref : ℕ) : Str × Option Layout :=
  match t.layout with
  | some l =>
    let (text, l) := l.currentTurn diff ref t.history
    (text, some l)
  | none => (t.currentTurn t.dynamic, none)

/-- `_shed`, up to the objects -/
def TurnInput.shed (t : TurnInput) (env : Env) (cfg : Settings) (current : AgentMessage) :
    Option (List AgentMessage × List AgentMessage) :=
  let prompt := .system t.system :: (t.history ++ [current])
  let budget := History.TrimBudget.forPrompt env cfg prompt t.inputTokens
  if budget.overTrigger env prompt = false then none
  else t.shedHistory.bind fun shed => shed fun history => budget.fits env (.system t.system :: (history ++ [current]))

/-- `_trim_history` -/
def TurnInput.trimHistory (t : TurnInput) (env : Env) (cfg : Settings) (next : ℕ) (system : Obj) (history : List Obj)
    (current : Obj) : Trimmed :=
  match t.shed env cfg current.message with
  | some (messages, dropped) =>
    let result := system :: (allocate next messages ++ [current])
    let next := next + messages.length
    if dropped = [] then ⟨result, [], next⟩
    else ⟨attachSummaryObj next result (History.summarizeDroppedMessages dropped), [], next + 1⟩
  | none => trimObjs env cfg next (system :: (history ++ [current])) t.inputTokens

/-- `AssembledPrompt`, with the messages before the updates were laid, and what the layout and the next reference are -/
structure Assembled where
  trimmed : List Obj
  messages : List Obj
  dropped : List Obj
  layout : Option Layout
  next : ℕ

/-- the rendered history, as objects -/
def TurnInput.rendered (t : TurnInput) : List Obj := allocate 1 t.history

/-- `assemble_prompt` -/
def TurnInput.assemblePrompt (t : TurnInput) (env : Env) (cfg : Settings) (diff : UnifiedDiff) : Assembled :=
  let ref := 1 + t.history.length
  let (text, layout) := t.measured diff ref
  let trimmed := t.trimHistory env cfg (ref + 1) ⟨0, .system t.system⟩ t.rendered ⟨ref, .user text none⟩
  match layout with
  | some l =>
    let (messages, l, next) := l.apply diff trimmed.next trimmed.messages
    ⟨trimmed.messages, messages, trimmed.dropped, some l, next⟩
  | none => ⟨trimmed.messages, trimmed.messages, trimmed.dropped, none, trimmed.next⟩

/-- the messages that a trim of the turn measures -/
def stripped (layout : Option Layout) (messages : List Obj) : List Obj :=
  match layout with
  | some l => l.strip messages
  | none => messages

/-! ## References -/

/-- the objects have references below `next` -/
def Below (next : ℕ) (objs : List Obj) : Prop := ∀ m ∈ objs, m.ref < next

theorem Below.mono {next next' : ℕ} {objs : List Obj} (h : Below next objs) (hle : next ≤ next') : Below next' objs :=
  fun m hm => (h m hm).trans_le hle

theorem valuesOf_allocate (next : ℕ) (ms : List AgentMessage) : valuesOf (allocate next ms) = ms := by
  induction ms generalizing next with
  | nil => rfl
  | cons m ms ih => exact congrArg (m :: ·) (ih (next + 1))

theorem refs_allocate (next : ℕ) (ms : List AgentMessage) :
    (allocate next ms).map Obj.ref = List.range' next ms.length := by
  induction ms generalizing next with
  | nil => rfl
  | cons m ms ih =>
    rw [allocate, List.map_cons, ih, List.length_cons, List.range'_succ]

theorem ref_of_allocate {next : ℕ} {ms : List AgentMessage} {o : Obj} (h : o ∈ allocate next ms) :
    next ≤ o.ref ∧ o.ref < next + ms.length := by
  have href := List.mem_map_of_mem (f := Obj.ref) h
  rw [refs_allocate] at href
  simpa using List.mem_range'_1.1 href

theorem nodup_allocate (next : ℕ) (ms : List AgentMessage) : ((allocate next ms).map Obj.ref).Nodup := by
  rw [refs_allocate]
  exact List.nodup_range'

/-! ## Trims -/

theorem prefixUserObj_values (next : ℕ) (note : Str) (l : List Obj) :
    (prefixUserObj next note l).map valuesOf = History.prefixUser note (valuesOf l) := by
  induction l with
  | nil => rfl
  | cons o l ih =>
    obtain ⟨ref, m⟩ := o
    have hskip : ((prefixUserObj next note l).map (⟨ref, m⟩ :: ·)).map valuesOf =
        (History.prefixUser note (valuesOf l)).map (m :: ·) := by
      rw [← ih, Option.map_map, Option.map_map]
      rfl
    cases m with
    | user content seq => rfl
    | system content => exact hskip
    | assistant content toolCalls seq => exact hskip
    | toolResult id content isError => exact hskip

theorem attachSummaryObj_values (next : ℕ) (messages : List Obj) (summary : Str) :
    valuesOf (attachSummaryObj next messages summary) = History.attachSummary (valuesOf messages) summary := by
  cases messages with
  | nil => rfl
  | cons first rest =>
    have hvalues := prefixUserObj_values next ("[Summary of earlier conversation: ".toList ++ summary ++ "]".toList)
      rest.reverse
    have hreverse : valuesOf rest.reverse = (valuesOf rest).reverse := List.map_reverse
    rw [hreverse] at hvalues
    unfold attachSummaryObj History.attachSummary
    simp only [valuesOf, List.map_cons] at hvalues ⊢
    rw [← hvalues]
    cases prefixUserObj next ("[Summary of earlier conversation: ".toList ++ summary ++ "]".toList) rest.reverse with
    | none => rfl
    | some reversed => simp [valuesOf]

/-- the summary goes on the current turn, if it is the last message -/
theorem attachSummaryObj_current (next : ℕ) (first : Obj) (rows : List Obj) (ref : ℕ) (content : Str) (seq : Option ℕ)
    (summary : Str) : ∃ note, attachSummaryObj next (first :: (rows ++ [⟨ref, .user content seq⟩])) summary =
      first :: (rows ++ [⟨next, .user (note ++ content) seq⟩]) := by
  refine ⟨"[Summary of earlier conversation: ".toList ++ summary ++ "]".toList ++ "\n\n".toList, ?_⟩
  simp [attachSummaryObj, prefixUserObj]

/-- **A trim drops objects from the front of the body**, and on the values it is `trim_messages`. -/
theorem trim_split (env : Env) (cfg : Settings) (next : ℕ) (first : Obj) (body : List Obj) (inputTokens : Option ℕ) :
    let t := trimObjs env cfg next (first :: body) inputTokens
    valuesOf t.messages = (trimMessages env cfg (valuesOf (first :: body)) inputTokens).messages ∧ next ≤ t.next ∧
      ∃ k, t.dropped = body.take k ∧ valuesOf t.dropped =
        (trimMessages env cfg (valuesOf (first :: body)) inputTokens).dropped ∧
        (t.messages = first :: body.drop k ∨
          ∃ summary, t.messages = attachSummaryObj next (first :: body.drop k) summary ∧ t.next = next + 1) := by
  obtain ⟨k, -, hbody, htrim⟩ := trim_cut env cfg first.message (valuesOf body) inputTokens
  have hcons : valuesOf (first :: body) = first.message :: valuesOf body := rfl
  generalize hdropped : ((History.blocksOf (valuesOf body)).take k).flatten = dropped at hbody htrim
  generalize hkept : ((History.blocksOf (valuesOf body)).drop k).flatten = kept at hbody htrim
  have hdrop : valuesOf (body.drop dropped.length) = kept := by
    rw [valuesOf, List.map_drop]
    exact (congrArg (List.drop dropped.length) hbody.symm).trans List.drop_left
  have htake : valuesOf (body.take dropped.length) = dropped := by
    rw [valuesOf, List.map_take]
    exact (congrArg (List.take dropped.length) hbody.symm).trans List.take_left
  simp only [trimObjs, hcons, htrim]
  by_cases hnil : dropped = []
  · subst hnil
    simp only [if_true, List.length_nil, List.drop_zero]
    refine ⟨?_, le_rfl, 0, by simp, by simp [valuesOf], Or.inl (by simp)⟩
    rw [← hdrop]
    rfl
  · simp only [if_neg hnil]
    refine ⟨?_, Nat.le_succ next, dropped.length, rfl, htake, Or.inr ⟨_, rfl, trivial⟩⟩
    rw [attachSummaryObj_values, ← hdrop]
    rfl

/-- the trim of a prompt that ends with the current turn keeps the current turn, perhaps with a note ahead of it -/
theorem trim_prompt (env : Env) (cfg : Settings) (next sref ref : ℕ) (system : Str) (rows : List Obj) (content : Str)
    (inputTokens : Option ℕ) :
    let t := trimObjs env cfg next (⟨sref, .system system⟩ :: (rows ++ [⟨ref, .user content none⟩])) inputTokens
    next ≤ t.next ∧ ∃ k, t.dropped = rows.take k ∧ ∃ note ref', (ref' = ref ∧ note = [] ∨ ref' = next ∧ t.next = next + 1) ∧
      t.messages = ⟨sref, .system system⟩ :: (rows.drop k ++ [⟨ref', .user (note ++ content) none⟩]) := by
  intro t
  obtain ⟨-, hnext, k, hdropped, hvalues, hmessages⟩ :=
    trim_split env cfg next ⟨sref, .system system⟩ (rows ++ [⟨ref, .user content none⟩]) inputTokens
  -- the current turn is not dropped
  have hle : (trimMessages env cfg (History.prompt system content (valuesOf rows)) inputTokens).dropped.length ≤
      rows.length := by
    have hprefix := (History.trim_dropped_history env cfg system content (valuesOf rows) inputTokens).length_le
    rwa [valuesOf, List.length_map] at hprefix
  have hprompt : valuesOf (⟨sref, .system system⟩ :: (rows ++ [⟨ref, .user content none⟩])) =
      History.prompt system content (valuesOf rows) := by
    simp [valuesOf, History.prompt]
  rw [hprompt] at hvalues
  have hlen : t.dropped.length ≤ rows.length := by
    have hlength := congrArg List.length hvalues
    rw [valuesOf, List.length_map] at hlength
    exact hlength.trans_le hle
  have hk : ∃ j, j ≤ rows.length ∧ t.dropped = rows.take j ∧
      (rows ++ [(⟨ref, .user content none⟩ : Obj)]).drop k = rows.drop j ++ [⟨ref, .user content none⟩] := by
    rcases Nat.lt_or_ge rows.length k with hlt | hge
    · rw [hdropped, List.take_of_length_le (by simp; omega)] at hlen
      simp at hlen
    · refine ⟨k, hge, ?_, List.drop_append_of_le_length hge⟩
      rw [hdropped, List.take_append_of_le_length hge]
  obtain ⟨j, -, hj, hdrop⟩ := hk
  rw [hdrop] at hmessages
  refine ⟨hnext, j, hj, ?_⟩
  rcases hmessages with hmessages | ⟨summary, hmessages, hnext⟩
  · exact ⟨[], ref, Or.inl ⟨rfl, rfl⟩, hmessages⟩
  · obtain ⟨note, hnote⟩ := attachSummaryObj_current next ⟨sref, .system system⟩ (rows.drop j) ref content none summary
    exact ⟨note, next, Or.inr ⟨rfl, hnext⟩, hmessages.trans hnote⟩

/-! ## Laying out -/

section

variable (laid : List (ℕ × Str))

theorem ref_of_layRows {next : ℕ} {rows : List Obj} {o : Obj} (h : o ∈ layRows next laid rows) :
    o ∈ rows ∨ (next ≤ o.ref ∧ o.ref < next + rows.length) := by
  induction rows generalizing next with
  | nil => simp [layRows] at h
  | cons m rows ih =>
    rw [List.length_cons]
    rcases List.mem_cons.1 h with heq | h
    · split_ifs at heq
      · right
        rw [heq]
        dsimp only
        omega
      · exact Or.inl (heq ▸ List.mem_cons_self)
    · rcases ih h with h | h
      · exact Or.inl (List.mem_cons_of_mem _ h)
      · exact Or.inr (by omega)

theorem pairs_cons (a b : Obj) (as bs : List Obj) :
    pairs (a :: as) (b :: bs) = (if a.ref ≠ b.ref then [(a, b)] else []) ++ pairs as bs := by
  unfold pairs
  rw [List.zip_cons_cons, List.filter_cons]
  split_ifs <;> simp_all

theorem ref_of_pairs {next : ℕ} {rows : List Obj} {p : Obj × Obj} (h : p ∈ pairs (layRows next laid rows) rows) :
    next ≤ p.1.ref ∧ p.1.ref < next + rows.length := by
  induction rows generalizing next with
  | nil => simp [layRows, pairs] at h
  | cons m rows ih =>
    rw [layRows, pairs_cons, List.length_cons] at *
    rcases List.mem_append.1 h with h | h
    · -- only a row with an update is paired
      by_cases hc : carries laid m.message = true
      · simp only [hc, if_true] at h
        split_ifs at h
        · obtain rfl := List.mem_singleton.1 h
          dsimp only
          omega
        · simp at h
      · simp [hc] at h
    · have htail := ih h
      omega

theorem unlaid_of_not_mem {sent : List (Obj × Obj)} {m : Obj} (h : ∀ p ∈ sent, p.1.ref ≠ m.ref) : unlaid sent m = m := by
  unfold unlaid
  rw [List.find?_eq_none.2 (by simpa using h)]
  rfl

theorem unlaid_append {sent sent' : List (Obj × Obj)} {m : Obj} (h : ∀ p ∈ sent, p.1.ref ≠ m.ref) :
    unlaid (sent ++ sent') m = unlaid sent' m := by
  unfold unlaid
  rw [List.find?_append, List.find?_eq_none.2 (by simpa using h), Option.none_or]

/-- **The rows of the history come back as they were.** -/
theorem map_unlaid_rows {next : ℕ} {rows : List Obj} (hrows : Below next rows) {rest : List (Obj × Obj)}
    (hrest : ∀ p ∈ rest, ∀ m ∈ rows, p.1.ref ≠ m.ref) :
    (layRows next laid rows).map (unlaid (pairs (layRows next laid rows) rows ++ rest)) = rows := by
  induction rows generalizing next with
  | nil => rfl
  | cons m rows ih =>
    obtain ⟨hm, htail⟩ := List.forall_mem_cons.1 hrows
    have hbelow : Below (next + 1) rows := Below.mono (fun x hx => htail x hx) (Nat.le_succ next)
    have ih := ih hbelow fun p hp x hx => hrest p hp x (List.mem_cons_of_mem _ hx)
    have hlater : ∀ p ∈ pairs (layRows (next + 1) laid rows) rows, p.1.ref ≠ m.ref := by
      intro p hp
      have href := ref_of_pairs laid hp
      omega
    rw [layRows, pairs_cons, List.map_cons]
    by_cases hc : carries laid m.message = true
    · have hne : next ≠ m.ref := by omega
      simp only [hc, if_true, ne_eq, hne, not_false_eq_true, List.cons_append, List.nil_append]
      refine congrArg₂ List.cons ?_ ?_
      · simp [unlaid]
      · -- the first pair is of another object
        refine (List.map_congr_left fun x hx => ?_).trans ih
        have hx' : x.ref ≠ next := by
          rcases ref_of_layRows laid hx with hx | hx
          · have := htail x hx
            omega
          · omega
        have hother : ∀ p ∈ [((⟨next, Workspace.layOn laid m.message⟩ : Obj), m)], p.1.ref ≠ x.ref := by
          simpa using fun h => hx' h.symm
        exact unlaid_append hother
    · simp only [hc, Bool.false_eq_true, if_false, ne_eq, not_true_eq_false, List.nil_append]
      refine congrArg₂ List.cons ?_ ih
      refine unlaid_of_not_mem fun p hp => ?_
      rcases List.mem_append.1 hp with hp | hp
      · exact hlater p hp
      · exact hrest p hp m List.mem_cons_self

/-- **Stripping undoes laying out**: the rows by their pairs, the current turn by its own, and nothing else. -/
theorem strip_laid {next : ℕ} {rows own : List Obj} {first sent plain : Obj} (hrows : Below next rows)
    (hfirst : first.ref < next) (hsent : next + rows.length ≤ sent.ref) (hown : ∀ m ∈ own, sent.ref < m.ref) :
    (first :: (layRows next laid rows ++ [sent] ++ own)).map
      (unlaid (pairs (layRows next laid rows) rows ++ [(sent, plain)])) = first :: (rows ++ [plain] ++ own) := by
  have hother : ∀ m : Obj, m.ref < next ∨ sent.ref < m.ref →
      unlaid (pairs (layRows next laid rows) rows ++ [(sent, plain)]) m = m := by
    intro m hm
    refine unlaid_of_not_mem fun p hp => ?_
    rcases List.mem_append.1 hp with hp | hp
    · have := ref_of_pairs laid hp
      omega
    · obtain rfl := List.mem_singleton.1 hp
      dsimp only
      omega
  have hcurrent : unlaid (pairs (layRows next laid rows) rows ++ [(sent, plain)]) sent = plain := by
    rw [unlaid_append fun p hp => ?_]
    · simp [unlaid]
    · have := ref_of_pairs laid hp
      omega
  have hhistory : (layRows next laid rows).map (unlaid (pairs (layRows next laid rows) rows ++ [(sent, plain)])) = rows := by
    refine map_unlaid_rows laid hrows fun p hp m hm => ?_
    obtain rfl := List.mem_singleton.1 hp
    have := hrows m hm
    dsimp only
    omega
  have hsame : own.map (unlaid (pairs (layRows next laid rows) rows ++ [(sent, plain)])) = own := by
    refine (List.map_congr_left fun m hm => hother m (Or.inr (hown m hm))).trans (List.map_id _)
  rw [List.map_cons, List.map_append, List.map_append, hother first (Or.inl hfirst), hhistory, hsame, List.map_singleton,
    hcurrent]

end

section

variable (diff : UnifiedDiff) (l : Layout)

theorem lastIndex_top {p : ℕ → Bool} {n : ℕ} (h : p n = true) : History.lastIndex p (n + 1) = some n := by
  simp [History.lastIndex, h]

/-- the current turn is found where it is last: as the object itself, or by its text -/
theorem findCurrent_last {first current : Obj} {rows : List Obj} (hends : endsWithBody l.anchorBody current.message = true)
    (hrows : ∀ m ∈ rows, some m.ref ≠ l.anchor) :
    l.findCurrent (first :: (rows ++ [current])) = some (rows.length + 1) := by
  have hlen : (first :: (rows ++ [current])).length = rows.length + 1 + 1 := by simp
  have hlast : (first :: (rows ++ [current]))[rows.length + 1]? = some current := by simp
  unfold Layout.findCurrent
  dsimp only
  rw [hlen]
  by_cases href : some current.ref = l.anchor
  · have hsome : History.lastIndex (fun i => decide (0 < i) &&
        ((first :: (rows ++ [current]))[i]?.any fun m => decide (some m.ref = l.anchor))) (rows.length + 1 + 1) =
          some (rows.length + 1) := lastIndex_top (by rw [hlast]; simpa using href)
    rw [hsome]
  · have hnone : History.lastIndex (fun i => decide (0 < i) &&
        ((first :: (rows ++ [current]))[i]?.any fun m => decide (some m.ref = l.anchor))) (rows.length + 1 + 1) = none := by
      refine History.lastIndex_eq_none.2 fun i hi => ?_
      cases i with
      | zero => rfl
      | succ i =>
        rcases Nat.lt_or_ge i rows.length with h | h
        · have hget : (first :: (rows ++ [current]))[i + 1]? = some rows[i] := by
            rw [List.getElem?_cons_succ, List.getElem?_append_left h, List.getElem?_eq_getElem h]
          rw [hget]
          simpa using hrows rows[i] (List.getElem_mem h)
        · obtain rfl : i = rows.length := by omega
          rw [hlast]
          simpa using href
    rw [hnone]
    exact lastIndex_top (by rw [hlast]; simpa using hends)

theorem endsWithBody_note (note anchorBody : Str) : endsWithBody anchorBody (.user (note ++ anchorBody) none) = true := by
  simp [endsWithBody, Text.endsWith]

/-- **Where the updates go.** On the rows of the history, and on the current turn. -/
theorem lay_of_current (next ref : ℕ) (first : Obj) (note : Str) {rows : List Obj}
    (hrows : ∀ m ∈ rows, some m.ref ≠ l.anchor) :
    let r := l.lay diff next (first :: (rows ++ [⟨ref, .user (note ++ l.anchorBody) none⟩]))
    let laid := Workspace.texts (l.entry.visible (valuesOf rows))
    ∃ sent plain : Obj, next + rows.length < sent.ref ∧ sent.ref < plain.ref ∧ plain.ref < r.next ∧
      r.messages = first :: (layRows next laid rows ++ [sent]) ∧
      (∃ dynamic, sent.message = .user (note ++ l.body dynamic) none) ∧
      plain.message = .user (note ++ l.body l.dynamic) none ∧
      r.pairs = pairs (layRows next laid rows) rows ++ [(sent, plain)] ∧ r.plain = some plain := by
  have hfind : l.findCurrent (first :: (rows ++ [⟨ref, .user (note ++ l.anchorBody) none⟩])) = some (rows.length + 1) :=
    findCurrent_last l (endsWithBody_note note l.anchorBody) hrows
  have hget : (first :: (rows ++ [(⟨ref, .user (note ++ l.anchorBody) none⟩ : Obj)]))[rows.length + 1]? =
      some ⟨ref, .user (note ++ l.anchorBody) none⟩ := by simp
  have hnote : (note ++ l.anchorBody).take ((note ++ l.anchorBody).length - l.anchorBody.length) = note := by simp
  have hstored : ((first :: (rows ++ [(⟨ref, .user (note ++ l.anchorBody) none⟩ : Obj)])).take (rows.length + 1)).drop 1 =
      rows := by simp
  intro r laid
  have hr : r = l.lay diff next (first :: (rows ++ [⟨ref, .user (note ++ l.anchorBody) none⟩])) := rfl
  unfold Layout.lay at hr
  rw [hfind] at hr
  simp only [hget, Option.map_some, Option.getD_some, contentOf, hnote, hstored, withContent] at hr
  rw [hr]
  refine ⟨_, _, ?_, ?_, ?_, ?_, ⟨_, rfl⟩, rfl, rfl, rfl⟩
  · show next + rows.length < next + (first :: (rows ++ [_])).length
    simp
  · exact Nat.lt_succ_self _
  · exact Nat.lt_succ_self _
  · simp [laid]

end

theorem apply_of_plain (diff : UnifiedDiff) {l : Layout} {next : ℕ} {messages : List Obj} {plain : Obj}
    (h : (l.lay diff next messages).plain = some plain) : l.apply diff next messages =
      ((l.lay diff next messages).messages,
        { l with
          entry := (l.lay diff next messages).entry
          sent := (l.lay diff next messages).pairs
          anchor := some plain.ref
          anchorBody := l.body l.dynamic }, (l.lay diff next messages).next) := by
  unfold Layout.apply
  dsimp only
  rw [h]

theorem stands_layOn (laid : List (ℕ × Str)) (m : AgentMessage) : Stands m (Workspace.layOn laid m) := by
  unfold Workspace.layOn
  split
  · split
    · refine ⟨rfl, fun hm hnil => ?_⟩
      unfold appendWorkspaceUpdates at hnil
      split_ifs at hnil
      · exact hm hnil
      · simp at hnil
      · simp at hnil
    · exact Stands.refl _
  · exact Stands.refl m

theorem stands_layRows (next : ℕ) (laid : List (ℕ × Str)) (rows : List Obj) :
    List.Forall₂ Stands (valuesOf rows) (valuesOf (layRows next laid rows)) := by
  induction rows generalizing next with
  | nil => exact .nil
  | cons m rows ih =>
    refine .cons ?_ (ih (next + 1))
    split_ifs
    · exact stands_layOn laid m.message
    · exact Stands.refl _

theorem stands_withContent (m : AgentMessage) {content : Str} (h : content ≠ []) : Stands m (withContent m content) := by
  cases m with
  | user old seq => exact ⟨rfl, fun _ => h⟩
  | _ => exact Stands.refl _

theorem stands_same (ms : List AgentMessage) : List.Forall₂ Stands ms ms := List.forall₂_same.2 fun m _ => Stands.refl m

theorem valuesOf_append (a b : List Obj) : valuesOf (a ++ b) = valuesOf a ++ valuesOf b := List.map_append

theorem findCurrent_bounds {l : Layout} {messages : List Obj} {index : ℕ} (h : l.findCurrent messages = some index) :
    0 < index ∧ index < messages.length := by
  unfold Layout.findCurrent at h
  dsimp only at h
  split at h
  · obtain rfl := Option.some.inj h
    obtain ⟨hlt, hp, -⟩ := History.lastIndex_eq_some.1 ‹_›
    simp only [Bool.and_eq_true, decide_eq_true_eq] at hp
    exact ⟨hp.1, hlt⟩
  · obtain ⟨hlt, hp, -⟩ := History.lastIndex_eq_some.1 h
    simp only [Bool.and_eq_true, decide_eq_true_eq] at hp
    exact ⟨hp.1, hlt⟩

/-- **Laying out asks and answers nothing.** The system message stays, the others are replaced one by one. -/
theorem lay_stands (diff : UnifiedDiff) {l : Layout} (hbody : ∀ dynamic, l.body dynamic ≠ []) (next : ℕ) (first : Obj)
    (rest : List Obj) : ∃ rest', (l.lay diff next (first :: rest)).messages = first :: rest' ∧
      List.Forall₂ Stands (valuesOf rest) (valuesOf rest') := by
  unfold Layout.lay
  split
  · exact ⟨_, rfl, stands_layRows next _ rest⟩
  · rename_i index hindex
    obtain ⟨hpos, hlt⟩ := findCurrent_bounds hindex
    obtain ⟨i, rfl⟩ : ∃ i, index = i + 1 := ⟨index - 1, by omega⟩
    have hi : i < rest.length := by simpa using hlt
    have hget : (first :: rest)[i + 1]? = some rest[i] := by
      rw [List.getElem?_cons_succ, List.getElem?_eq_getElem hi]
    have hrest : rest = rest.take i ++ [rest[i]] ++ rest.drop (i + 1) := by simp
    simp only [hget, Option.map_some, Option.getD_some, List.take_succ_cons, List.take_zero, List.drop_succ_cons,
      List.drop_zero, List.cons_append]
    refine ⟨_, rfl, ?_⟩
    nth_rewrite 1 [hrest]
    simp only [valuesOf_append]
    refine List.rel_append (List.rel_append (stands_layRows _ _ _) (.cons (stands_withContent _ ?_) .nil)) (stands_same _)
    intro hnil
    exact hbody _ (List.append_eq_nil_iff.1 hnil).2

/-! ## The prompt of a turn -/

theorem ne_nil_of_join (t : TurnInput) (dynamic : Str) : t.currentTurn dynamic ≠ [] := by
  unfold TurnInput.currentTurn Text.join
  split_ifs <;> simp [List.intercalate]

section

variable (t : TurnInput) (env : Env) (cfg : Settings)

/-- where the rows that a turn sends come from: they are the rendered history without what the trim dropped, or the history
that the shed rendered -/
def TurnInput.Source (dropped rows : List Obj) (current : AgentMessage) : Prop :=
  (∃ k, dropped = t.rendered.take k ∧ rows = t.rendered.drop k) ∨
  (dropped = [] ∧ ∃ gone, t.shed env cfg current = some (valuesOf rows, gone))

theorem trimHistory_cases (ref sref : ℕ) (text : Str) (hrefs : Below ref t.rendered) :
    let r := t.trimHistory env cfg (ref + 1) ⟨sref, .system t.system⟩ t.rendered ⟨ref, .user text none⟩
    ref < r.next ∧ ∃ rows note ref', r.messages = ⟨sref, .system t.system⟩ :: (rows ++ [⟨ref', .user (note ++ text) none⟩]) ∧
      t.Source env cfg r.dropped rows (.user text none) ∧ ref ≤ ref' ∧ ref' < r.next ∧
      ((r.dropped ++ rows).map Obj.ref).Nodup ∧ ∀ m ∈ r.dropped ++ rows, m.ref < r.next ∧ m.ref ≠ ref ∧ m.ref ≠ ref' := by
  intro r
  have hr : r = t.trimHistory env cfg (ref + 1) ⟨sref, .system t.system⟩ t.rendered ⟨ref, .user text none⟩ := rfl
  unfold TurnInput.trimHistory at hr
  cases hshed : t.shed env cfg (.user text none) with
  | some shed =>
    obtain ⟨messages, gone⟩ := shed
    rw [hshed] at hr
    dsimp only at hr
    have hsource : t.Source env cfg [] (allocate (ref + 1) messages) (.user text none) :=
      Or.inr ⟨rfl, gone, by rw [hshed, valuesOf_allocate]⟩
    have hnew := fun m (hm : m ∈ allocate (ref + 1) messages) => ref_of_allocate hm
    split_ifs at hr with hgone
    · rw [hr]
      refine ⟨by dsimp only; omega, _, [], ref, rfl, hsource, le_rfl, by dsimp only; omega, nodup_allocate _ _, ?_⟩
      intro m hm
      have := hnew m hm
      dsimp only
      omega
    · obtain ⟨note, hnote⟩ := attachSummaryObj_current (ref + 1 + messages.length) ⟨sref, .system t.system⟩
        (allocate (ref + 1) messages) ref text none (History.summarizeDroppedMessages gone)
      rw [hr]
      refine ⟨by dsimp only; omega, _, note, _, hnote, hsource, by omega, by dsimp only; omega, nodup_allocate _ _, ?_⟩
      intro m hm
      have := hnew m hm
      dsimp only
      omega
  | none =>
    rw [hshed] at hr
    obtain ⟨hnext, k, hdropped, note, ref', href, hmessages⟩ := trim_prompt env cfg (ref + 1) sref ref t.system t.rendered
      text t.inputTokens
    have hr' : r = trimObjs env cfg (ref + 1) (⟨sref, .system t.system⟩ :: (t.rendered ++ [⟨ref, .user text none⟩]))
        t.inputTokens := hr
    rw [← hr'] at hnext hdropped href hmessages
    refine ⟨by omega, _, note, ref', hmessages, Or.inl ⟨k, hdropped, rfl⟩, ?_, ?_, ?_, ?_⟩
    · rcases href with ⟨rfl, -⟩ | ⟨rfl, -⟩
      · exact le_rfl
      · omega
    · rcases href with ⟨rfl, -⟩ | ⟨rfl, h⟩
      · omega
      · omega
    · rw [hdropped, List.take_append_drop]
      exact nodup_allocate _ _
    · intro m hm
      rw [hdropped, List.take_append_drop] at hm
      have := hrefs m hm
      rcases href with ⟨rfl, -⟩ | ⟨rfl, -⟩ <;> omega

/-- the system message of the turn -/
def TurnInput.systemObj : Obj := ⟨0, .system t.system⟩

/-- how a turn lays out `rows` and its current turn, which is `plain` without an update -/
structure Lays (a : Assembled) (rows : List Obj) (plain : Obj) : Prop where
  source : ∃ text note ref, t.Source env cfg a.dropped rows (.user text none) ∧
    a.trimmed = t.systemObj :: (rows ++ [⟨ref, .user (note ++ text) none⟩]) ∧
    plain.message = .user (note ++ t.currentTurn t.dynamic) none
  messages : ∃ rest, a.messages = t.systemObj :: rest ∧
    List.Forall₂ Stands (valuesOf (rows ++ [plain])) (valuesOf rest)
  strip : ∀ own, (∀ m ∈ own, a.next ≤ m.ref) →
    stripped a.layout (a.messages ++ own) = t.systemObj :: (rows ++ [plain] ++ own)
  below : Below a.next (a.dropped ++ (rows ++ [plain]))
  nodup : ((a.dropped ++ (rows ++ [plain])).map Obj.ref).Nodup
  body : ∀ l, a.layout = some l → ∀ dynamic, l.body dynamic ≠ []

theorem nodup_snoc {objs : List Obj} {o : Obj} (h : (objs.map Obj.ref).Nodup) (hne : ∀ m ∈ objs, m.ref ≠ o.ref) :
    ((objs ++ [o]).map Obj.ref).Nodup := by
  rw [List.map_append, List.map_singleton, List.nodup_append]
  refine ⟨h, List.nodup_singleton _, ?_⟩
  intro r hr r' hr' heq
  obtain ⟨m, hm, rfl⟩ := List.mem_map.1 hr
  exact hne m hm (heq.trans (List.mem_singleton.1 hr'))

/-- **The prompt of a turn**, before and after the updates. -/
theorem assemble_cases (diff : UnifiedDiff) : ∃ rows plain, Lays t env cfg (t.assemblePrompt env cfg diff) rows plain := by
  have hrefs : Below (1 + t.history.length) t.rendered := fun m hm => (ref_of_allocate hm).2
  unfold TurnInput.assemblePrompt TurnInput.measured
  cases hw : t.layout with
  | none =>
    obtain ⟨hnext, rows, note, ref', hmessages, hsource, hle, hlt, hnodup, hbelow⟩ :=
      trimHistory_cases t env cfg (1 + t.history.length) 0 (t.currentTurn t.dynamic) hrefs
    refine ⟨rows, ⟨ref', .user (note ++ t.currentTurn t.dynamic) none⟩, ⟨_, note, ref', hsource, hmessages, rfl⟩,
      ⟨_, hmessages, stands_same _⟩, fun own _ => ?_, ?_, ?_, by simp⟩
    · dsimp only [stripped]
      rw [hmessages]
      simp [TurnInput.systemObj]
    · intro m hm
      rw [← List.append_assoc] at hm
      rcases List.mem_append.1 hm with hm | hm
      · exact (hbelow m hm).1
      · rw [List.mem_singleton.1 hm]
        exact hlt
    · rw [← List.append_assoc]
      exact nodup_snoc hnodup fun m hm => (hbelow m hm).2.2
  | some l =>
    obtain ⟨l', hl'⟩ : ∃ l', l' = (l.currentTurn diff (1 + t.history.length) t.history).2 := ⟨_, rfl⟩
    have hanchor : l'.anchorBody = (l.currentTurn diff (1 + t.history.length) t.history).1 := by rw [hl']; rfl
    have href : l'.anchor = some (1 + t.history.length) := by rw [hl']; rfl
    have hl : l'.body = t.currentTurn ∧ l'.dynamic = t.dynamic := by
      unfold TurnInput.layout at hw
      obtain ⟨w, -, rfl⟩ := Option.map_eq_some_iff.1 hw
      rw [hl']
      exact ⟨rfl, rfl⟩
    dsimp only
    rw [← hl', ← hanchor]
    obtain ⟨hnext, rows, note, ref', hmessages, hsource, hle, hlt, hnodup, hbelow⟩ :=
      trimHistory_cases t env cfg (1 + t.history.length) 0 l'.anchorBody hrefs
    generalize t.trimHistory env cfg (1 + t.history.length + 1) ⟨0, .system t.system⟩ t.rendered
      ⟨1 + t.history.length, .user l'.anchorBody none⟩ = r at hnext hmessages hsource hlt hnodup hbelow ⊢
    have hrows : ∀ m ∈ rows, some m.ref ≠ l'.anchor := by
      intro m hm heq
      rw [href] at heq
      exact (hbelow m (List.mem_append_right _ hm)).2.1 (Option.some.inj heq)
    obtain ⟨sent, plain, hsent, hplain, hfree, hlaid, ⟨dynamic, hdynamic⟩, hcontent, hpairs, hsome⟩ :=
      lay_of_current diff l' r.next ref' ⟨0, .system t.system⟩ note hrows
    have happly := apply_of_plain diff (hmessages ▸ hsome)
    rw [happly, hmessages]
    refine ⟨rows, plain, ⟨_, note, ref', hsource, rfl, ?_⟩, ⟨_, hlaid, ?_⟩, fun own hown => ?_, ?_, ?_, ?_⟩
    · rw [hcontent, hl.1, hl.2]
    · rw [valuesOf_append, valuesOf_append]
      refine List.rel_append (stands_layRows _ _ _) (.cons ?_ .nil)
      rw [hcontent, hdynamic]
      refine ⟨rfl, fun _ hnil => ?_⟩
      rw [hl.1] at hnil
      exact ne_nil_of_join t dynamic (List.append_eq_nil_iff.1 hnil).2
    · dsimp only [stripped, Layout.strip]
      rw [hlaid, hpairs, TurnInput.systemObj, List.cons_append]
      refine strip_laid _ (fun m hm => (hbelow m (List.mem_append_right _ hm)).1) ?_ hsent.le fun m hm => ?_
      · dsimp only
        omega
      · exact (hplain.trans hfree).trans_le (hown m hm)
    · intro m hm
      rw [← List.append_assoc] at hm
      rcases List.mem_append.1 hm with hm | hm
      · have := (hbelow m hm).1
        dsimp only
        omega
      · rw [List.mem_singleton.1 hm]
        exact hfree
    · rw [← List.append_assoc]
      refine nodup_snoc hnodup fun m hm => ?_
      have := (hbelow m hm).1
      omega
    · intro l'' hl'' dyn
      obtain rfl := Option.some.inj hl''
      dsimp only
      rw [hl.1]
      exact ne_nil_of_join t dyn

end

end Clawbolt.AgentLoop
